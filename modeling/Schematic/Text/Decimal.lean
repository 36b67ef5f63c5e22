import Schematic.Text

/-!
# Decimal numbers

Writing integers, and reading them with an optional sign.
-/

namespace Schematic.Text

/-- The decimal digits of a natural number. -/
def ofNat (n : Nat) : Text :=
  (Nat.toDigits 10 n).map fun c => c.toNat.toUInt8

/-- The decimal spelling of an integer. -/
def ofInt (i : Int) : Text :=
  if i < 0 then 0x2D :: ofNat i.natAbs else ofNat i.natAbs

/-- An ASCII digit. -/
def isDigitByte (b : UInt8) : Bool :=
  0x30 ≤ b && b ≤ 0x39

/-- The number that a row of digits spells. -/
def digitsValue (ds : Text) : Nat :=
  ds.foldl (fun n d => 10 * n + (d.toNat - 0x30)) 0

/-- A natural number: one or more digits. -/
def nat? (t : Text) : Option Nat :=
  if t.isEmpty || !t.all isDigitByte then none else some (digitsValue t)

/-- An integer: digits behind an optional sign. -/
def int? : Text → Option Int
  | 0x2D :: t => (nat? t).map fun n => -(n : Int)
  | 0x2B :: t => (nat? t).map fun n => (n : Int)
  | t => (nat? t).map fun n => (n : Int)

/-- Whether an integer fits a two's complement word of the given width. -/
def fitsWord (width : Nat) (i : Int) : Bool :=
  -(1 <<< (width - 1) : Nat) ≤ i && i < (1 <<< (width - 1) : Nat)

/-- An integer of 32 bits. -/
def int32? (t : Text) : Option Int :=
  (int? t).filter (fitsWord 32)

/-- An integer of 64 bits. -/
def int64? (t : Text) : Option Int :=
  (int? t).filter (fitsWord 64)

end Schematic.Text
