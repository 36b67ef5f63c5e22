import Schematic.Code.Piece
import Schematic.Value

/-!
# Constants in code

A default is written into code as it stands, and there it is read once more, by the rules of the
code: digits behind a zero are of base eight, no exponent is too long, no zero has a sign, and only
some marks and names will do. A default that denotes nothing in code cannot be assigned.
-/

namespace Schematic.Literal

/-- Whether a byte is a digit of a base, of which there are at most sixteen. -/
def isDigitIn (base : Nat) (b : UInt8) : Bool :=
  (hexDigit? b).any (· < base)

/-- The number that digits spell behind those that spell `before`. What is no digit is passed
over. -/
def spelledFrom (base : Nat) : (before : Nat) → Text → Nat
  | before, [] => before
  | before, b :: t => spelledFrom base ((hexDigit? b).elim before fun d => before * base + d) t

/-- The number that digits spell. -/
def spelled (base : Nat) (t : Text) : Nat :=
  spelledFrom base 0 t

/-- Whether a number has the mark of base sixteen. -/
def isHex (t : Text) : Bool :=
  (hexBody? (readSign t).2).isSome

/-- A number without its sign and its mark. -/
def unmarked (t : Text) : Text :=
  (hexBody? (readSign t).2).getD (readSign t).2

/-- The mantissa of a number, and what follows it. -/
def mantissaOf (t : Text) : Mantissa × Text :=
  readMantissa (isHex t) {} (unmarked t)

/-- What is kept of the digits of an exponent. -/
def keptExponent (digits : Text) : Nat :=
  (readExponent 0 digits).1

/-- What the exponent of a number has beyond what is kept of it. -/
def lostExponent (t : Text) : Int :=
  let (negative, digits) := readSign (mantissaOf t).2.tail
  let lost : Int := spelled 10 digits - keptExponent digits
  if negative then -lost else lost

namespace Number

/-- A number whose exponent is changed by `e`. -/
def scaled (n : Number) (e : Int) : Number :=
  { n with exponent := n.exponent + e }

/-- The bits of a number without its sign. -/
def magnitude (n : Number) : Nat :=
  magnitudeBits n.ratio.1 n.ratio.2

/-- The bits of a constant, of which none is a negative zero. -/
def constantBits (n : Number) : Nat :=
  if n.magnitude = 0 then 0 else n.singleBits

end Number

end Schematic.Literal

namespace Schematic.Code

open Literal

/-- Whether a number is a row of digits with a zero first. -/
def isZeroLed (unsigned : Text) : Bool :=
  unsigned.head? = some 0x30 && unsigned.all fun b => isDigitIn 10 b || b = 0x5F

/-- The number that a row of digits spells in base eight. -/
def octal? (unsigned : Text) : Option Nat :=
  if unsigned.all fun b => isDigitIn 8 b || b = 0x5F then some (spelled 8 unsigned) else none

/-- The integer that code reads where the schema reads `i`. -/
def codeInt? (token : Text) (i : Int) : Option Int :=
  if isZeroLed (readSign token).2 then
    (octal? (readSign token).2).map fun k : Nat => if (readSign token).1 then -(k : Int) else k
  else some i

/-- The number that code reads where the schema reads `n`. -/
def codeNumber? (token : Text) (n : Number) : Option Number :=
  if isZeroLed (readSign token).2 then
    (octal? (readSign token).2).map fun k => ⟨(readSign token).1, k, 10, 0⟩
  else some (n.scaled (lostExponent token))

/-- The value that is assigned for a default, in a package that declares the given names. -/
def denoted? (declared : List Text) (token : Text) : DefaultValue → Option Value
  | .bool b => if declared.contains token then none else some (.bool b)
  | .int i => ((codeInt? token i).filter (Text.fitsWord 32)).map .int
  | .float n => ((codeNumber? token n).filter Number.fitsSingle).map fun n => .float n.constantBits
  | .string t =>
    if (token.head? = some 0x22 || token.head? = some 0x60) && isAdmissible token then
      some (.string t)
    else none
  | .label e name =>
    if isName (e.constant name) then
      (((e.labels.find? fun l => l.name = name).map Label.value).filter (Text.fitsWord 32)).map .int
    else none

end Schematic.Code
