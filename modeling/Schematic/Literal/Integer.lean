import Schematic.Literal.Number

/-!
# Integers with a base

An optional sign, and digits whose prefix says in which base they are: `0x`, `0o` or a lone zero,
`0b`, and ten otherwise.
-/

namespace Schematic.Literal

/-- The number that digits of a base spell. -/
def digitsOf (base : Nat) (t : Text) : Option Nat :=
  t.foldl
    (fun n b => do
      let d ← hexDigit? b
      if d < base then return (← n) * base + d else none)
    (some 0)

/-- The number that at least one digit of a base spells. -/
def digits? (base : Nat) (t : Text) : Option Nat :=
  if t.isEmpty then none else digitsOf base t

/-- A number without a sign, in the base that its prefix names. -/
def prefixed? : Text → Option Nat
  | [] => none
  | 0x30 :: x :: d :: t =>
    if x = 0x78 || x = 0x58 then digitsOf 16 (d :: t)
    else if x = 0x6F || x = 0x4F then digitsOf 8 (d :: t)
    else if x = 0x62 || x = 0x42 then digitsOf 2 (d :: t)
    else digitsOf 8 (x :: d :: t)
  | 0x30 :: t => digitsOf 8 t
  | t => digitsOf 10 t

/-- An integer with an optional sign and a prefix. -/
def integer? (t : Text) : Option Int :=
  let (negative, unsigned) := readSign t
  (prefixed? unsigned).map fun n => if negative then -(n : Int) else n

end Schematic.Literal
