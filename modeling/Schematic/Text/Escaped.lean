import Schematic.Text.Printable
import Schematic.Text.Rune

/-!
# Escaped text

Text between quotation marks in which everything that cannot be printed is escaped.
-/

namespace Schematic.Text

/-- A number in hexadecimal with at least `width` digits. -/
def hex (width n : Nat) : Text :=
  let digits := ofString (String.ofList (Nat.toDigits 16 n))
  List.replicate (width - digits.length) 0x30 ++ digits

/-- The letter that stands for a control character behind a backslash. -/
def controlLetter? (code : Nat) : Option UInt8 :=
  [(7, 0x61), (8, 0x62), (9, 0x74), (10, 0x6E), (11, 0x76), (12, 0x66), (13, 0x72)].lookup code

/-- A rune between quotation marks. -/
def Rune.escaped (r : Rune) : Text :=
  match r.code? with
  | none => r.bytes.flatMap fun b => concat ["\\x", hex 2 b.toNat]
  | some code =>
    if code = 0x22 || code = 0x5C then 0x5C :: r.bytes
    else if isPrintable code then r.bytes
    else match controlLetter? code with
      | some letter => [0x5C, letter]
      | none =>
        if code < 0x20 || code = 0x7F then concat ["\\x", hex 2 code]
        else if code < 0x10000 then concat ["\\u", hex 4 code]
        else concat ["\\U", hex 8 code]

/-- The text between quotation marks, escaped. -/
def escaped (t : Text) : Text :=
  quoted ((runes t).flatMap Rune.escaped)

end Schematic.Text
