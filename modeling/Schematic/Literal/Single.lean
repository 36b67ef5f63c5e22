import Schematic.Literal.Number

/-!
# Single precision

The bit pattern of the number of single precision that is nearest to a literal.
-/

namespace Schematic.Literal

/-- The whole number nearest to a quotient, of two equally near ones the even one. -/
def roundDiv (a b : Nat) : Nat :=
  let q := a / b
  let r := 2 * (a % b)
  if r < b then q else if b < r then q + 1 else q + q % 2

/-- A magnitude `a / b` in units of `2 ^ exponent`, rounded to a whole number. -/
def inUnits (a b : Nat) (exponent : Int) : Nat :=
  if 0 ≤ exponent then roundDiv a (b <<< exponent.toNat)
  else roundDiv (a <<< exponent.natAbs) b

/-- The exponent of the highest power of two that is at most `a / b`. -/
def floorLog (a b : Nat) : Int :=
  let guess := (Nat.log2 a : Int) - Nat.log2 b
  let reached :=
    if 0 ≤ guess then b <<< guess.toNat ≤ a else b ≤ a <<< guess.natAbs
  if reached then guess else guess - 1

/-- The bits of a magnitude. The unit is the last of 24 places, and not below the least number; a
number that rounds up to the next power of two carries into the exponent. -/
def magnitudeBits (a b : Nat) : Nat :=
  if a = 0 then 0
  else
    let unit := max (floorLog a b - 23) (-149)
    (unit + 149).toNat <<< 23 + inUnits a b unit

namespace Number

/-- The number as a quotient, without its sign. -/
def ratio (n : Number) : Nat × Nat :=
  if 0 ≤ n.exponent then (n.mantissa * n.base.pow n.exponent.toNat, 1)
  else (n.mantissa, n.base.pow n.exponent.natAbs)

/-- The bit pattern of the nearest number of single precision. -/
def singleBits (n : Number) : Nat :=
  let (a, b) := n.ratio
  (if n.negative then 1 <<< 31 else 0) + magnitudeBits a b

end Number

end Schematic.Literal
