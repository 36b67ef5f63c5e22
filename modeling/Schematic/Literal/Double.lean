import Schematic.Literal.Single

/-!
# Double precision

A number of double precision, as far as whole numbers can be taken from it.
-/

namespace Schematic.Literal

/-- A number of double precision. -/
inductive Double where
  | finite (n : Number)
  | infinite (negative : Bool)
  | undefined
  deriving Repr, DecidableEq

/-- The whole part of a magnitude after it is rounded to 53 places. -/
def wholeMagnitude (a b : Nat) : Nat :=
  if a = 0 then 0
  else
    let unit := max (floorLog a b - 52) (-1074)
    let units := inUnits a b unit
    if 0 ≤ unit then units <<< unit.toNat else units >>> unit.natAbs

/-- The least integer of 64 bits. -/
def leastInt64 : Int :=
  -0x8000000000000000

/-- The integer of 64 bits that a number is cut to. Numbers above the range have none; those below
it, and the first one above it, become the least. -/
def Double.toInt64? : Double → Option Int
  | undefined => none
  | infinite negative => if negative then some leastInt64 else none
  | finite n =>
    let (a, b) := n.ratio
    let whole := wholeMagnitude a b
    let i : Int := if n.negative then -(whole : Int) else whole
    if 0x8000000000000000 < i then none
    else if i = 0x8000000000000000 || i < leastInt64 then some leastInt64
    else some i

end Schematic.Literal
