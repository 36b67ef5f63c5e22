import Schematic.Text.Decimal

/-!
# Number literals

Decimal and hexadecimal floating-point literals. Underscores may separate digits, a hexadecimal
literal needs a binary exponent, and the value is kept exactly as a mantissa and an exponent.
-/

namespace Schematic.Literal

/-- The exact value `mantissa * base ^ exponent` with a sign. -/
structure Number where
  negative : Bool
  mantissa : Nat
  base : Nat
  exponent : Int
  deriving Repr, DecidableEq

/-- The value of a hexadecimal digit. -/
def hexDigit? (b : UInt8) : Option Nat :=
  if 0x30 ≤ b && b ≤ 0x39 then some (b.toNat - 0x30)
  else if 0x61 ≤ b && b ≤ 0x66 then some (b.toNat - 0x61 + 10)
  else if 0x41 ≤ b && b ≤ 0x46 then some (b.toNat - 0x41 + 10)
  else none

/-- The value of a digit of a decimal or hexadecimal literal. -/
def digit? (hex : Bool) (b : UInt8) : Option Nat :=
  if hex then hexDigit? b
  else if Text.isDigitByte b then some (b.toNat - 0x30) else none

/-- Digits of a mantissa, read up to the first byte that is none. -/
structure Mantissa where
  value : Nat := 0
  /-- How many digits stand behind the point. -/
  places : Nat := 0
  sawPoint : Bool := false
  sawDigit : Bool := false
  deriving Repr, DecidableEq

/-- Reads a mantissa; underscores are passed over and a second point ends it. -/
def readMantissa (hex : Bool) : Mantissa → Text → Mantissa × Text
  | m, [] => (m, [])
  | m, b :: t =>
    if b = 0x5F then readMantissa hex m t
    else if b = 0x2E then
      if m.sawPoint then (m, b :: t) else readMantissa hex { m with sawPoint := true } t
    else match digit? hex b with
      | some d =>
        readMantissa hex
          { m with
            value := m.value * (if hex then 16 else 10) + d
            places := if m.sawPoint then m.places + 1 else m.places
            sawDigit := true } t
      | none => (m, b :: t)

/-- Reads the digits of an exponent; one that has reached ten thousand grows no more. -/
def readExponent : Nat → Text → Nat × Text
  | e, [] => (e, [])
  | e, b :: t =>
    if b = 0x5F then readExponent e t
    else if Text.isDigitByte b then
      readExponent (if e < 10000 then 10 * e + (b.toNat - 0x30) else e) t
    else (e, b :: t)

/-- What an underscore may stand next to. -/
inductive Neighbour where
  | digit
  | underscore
  | other
  deriving Repr, DecidableEq

/-- Whether every underscore stands between two digits; `before` is what was read last. -/
def separated (hex : Bool) : Neighbour → Text → Bool
  | before, [] => before ≠ .underscore
  | before, b :: t =>
    if (digit? hex b).isSome then separated hex .digit t
    else if b = 0x5F then before = .digit && separated hex .underscore t
    else before ≠ .underscore && separated hex .other t

/-- A sign, if there is one, and what follows it. -/
def readSign : Text → Bool × Text
  | 0x2D :: t => (true, t)
  | 0x2B :: t => (false, t)
  | t => (false, t)

/-- Whether the text has the prefix of a hexadecimal literal and something behind it. -/
def hexBody? : Text → Option Text
  | 0x30 :: x :: b :: t => if x = 0x78 || x = 0x58 then some (b :: t) else none
  | _ => none

/-- Whether underscores stand in their places; the prefix of a hexadecimal literal counts as a
digit. -/
def underscoresOk (unsigned : Text) : Bool :=
  match unsigned with
  | 0x30 :: x :: t =>
    if x = 0x78 || x = 0x58 then separated true .digit t
    else if x = 0x62 || x = 0x42 || x = 0x6F || x = 0x4F then separated false .digit t
    else separated false .other unsigned
  | t => separated false .other t

/-- The exponent part: none, or a mark, an optional sign and digits that end the text. -/
def exponentPart? (mark : UInt8) : Text → Option (Option Int)
  | [] => some none
  | b :: t =>
    if b = mark || b = mark - 0x20 then
      let (negative, digits) := readSign t
      match digits with
      | d :: _ =>
        if Text.isDigitByte d then
          match readExponent 0 digits with
          | (e, []) => some (some (if negative then -(e : Int) else e))
          | _ => none
        else none
      | [] => none
    else none

/-- The number that a whole text spells. -/
def number? (t : Text) : Option Number := do
  let (negative, unsigned) := readSign t
  let (hex, body) :=
    match hexBody? unsigned with
    | some body => (true, body)
    | none => (false, unsigned)
  let (m, rest) := readMantissa hex {} body
  guard m.sawDigit
  let e ← exponentPart? (if hex then 0x70 else 0x65) rest
  guard (!hex || e.isSome)
  guard (!unsigned.contains 0x5F || underscoresOk unsigned)
  return {
    negative
    mantissa := m.value
    base := if hex then 2 else 10
    exponent := e.getD 0 - (if hex then 4 * m.places else m.places : Nat) }

namespace Number

/-- Whether the magnitude is at least `bound`. -/
def atLeast (n : Number) (bound : Nat) : Bool :=
  if 0 ≤ n.exponent then bound ≤ n.mantissa * n.base.pow n.exponent.toNat
  else bound * n.base.pow n.exponent.natAbs ≤ n.mantissa

/-- Whether the number rounds to a finite number of single precision. -/
def fitsSingle (n : Number) : Bool :=
  !n.atLeast ((1 <<< 25 - 1) <<< 103)

/-- Whether the number rounds to a finite number of double precision. -/
def fitsDouble (n : Number) : Bool :=
  !n.atLeast ((1 <<< 54 - 1) <<< 970)

end Number

/-- Whether the text, its signs aside, starts like a number. -/
def startsLikeNumber (t : Text) : Bool :=
  match t.dropWhile fun b => b = 0x2B || b = 0x2D with
  | 0x2E :: d :: _ => Text.isDigitByte d
  | d :: _ => Text.isDigitByte d
  | [] => false

/-- A literal of single precision. -/
def single? (t : Text) : Option Number :=
  if startsLikeNumber t then (number? t).filter Number.fitsSingle else none

end Schematic.Literal
