import Schematic.Calendar
import Schematic.Literal.Double
import Schematic.Literal.Integer

/-!
# Plain scalars

What a scalar without quotation marks means in YAML. Words for truth values and for nothing are
known in three spellings each; numbers may hold underscores.
-/

namespace Schematic.Yaml

/-- What a plain scalar means. -/
inductive Meaning where
  | nothing
  | bool (b : Bool)
  | int (i : Int)
  | float (d : Literal.Double)
  | timestamp
  | merge
  | text
  deriving Repr, DecidableEq

/-- The words with a meaning of their own. -/
def words : List (Text × Meaning) :=
  [("", .nothing), ("~", .nothing), ("null", .nothing), ("Null", .nothing), ("NULL", .nothing),
   ("true", .bool true), ("True", .bool true), ("TRUE", .bool true),
   ("false", .bool false), ("False", .bool false), ("FALSE", .bool false),
   (".nan", .float .undefined), (".NaN", .float .undefined), (".NAN", .float .undefined),
   (".inf", .float (.infinite false)), (".Inf", .float (.infinite false)),
   (".INF", .float (.infinite false)), ("+.inf", .float (.infinite false)),
   ("+.Inf", .float (.infinite false)), ("+.INF", .float (.infinite false)),
   ("-.inf", .float (.infinite true)), ("-.Inf", .float (.infinite true)),
   ("-.INF", .float (.infinite true)), ("<<", .merge)]

/-- A number of double precision that a text spells. -/
def double? (t : Text) : Option Meaning :=
  ((Literal.number? t).filter Literal.Number.fitsDouble).map fun n => .float (.finite n)

/-- Whether a text consists of digits. -/
def isDigits (t : Text) : Bool :=
  t.all Text.isDigitByte

/-- Whether a text is an exponent, or nothing. -/
def isExponent : Text → Bool
  | [] => true
  | e :: t =>
    let (_, ds) := Literal.readSign t
    (e = 0x65 || e = 0x45) && !ds.isEmpty && isDigits ds

/-- Whether a text has the form of a decimal number. -/
def isDecimal (t : Text) : Bool :=
  let (_, t) := Literal.readSign t
  let whole := t.takeWhile Text.isDigitByte
  match t.drop whole.length with
  | 0x2E :: t =>
    let places := t.takeWhile Text.isDigitByte
    !(whole.isEmpty && places.isEmpty) && isExponent (t.drop places.length)
  | t => !whole.isEmpty && isExponent t

/-- An integer of 64 bits, with or without a sign bit. -/
def int? (t : Text) : Option Meaning :=
  ((Literal.integer? t).filter fun i =>
    Text.fitsWord 64 i || (!t.head?.any (· = 0x2B) && 0 ≤ i && i < 0x10000000000000000)).map .int

/-- Whether a text is a date, or a date and a time. -/
def isTimestamp (t : Text) : Bool :=
  let dated := Calendar.date false t
  let zoned := fun (letter : UInt8) => do
    let t ← Calendar.mark letter (← dated)
    Calendar.zone (← Calendar.time false t)
  let spaced := do
    let t ← Calendar.mark 0x20 (← dated)
    Calendar.time false (t.dropWhile (· = 0x20))
  Calendar.takesAll dated || Calendar.takesAll (zoned 0x54) || Calendar.takesAll (zoned 0x74) ||
    Calendar.takesAll spaced

/-- The number that a text spells, if it starts with a digit or a sign. -/
def numeric? (t : Text) : Option Meaning :=
  let plain := t.filter fun b => b ≠ 0x5F
  if isTimestamp t then some .timestamp
  else match int? plain with
    | some m => some m
    | none => if isDecimal plain then double? plain else none

/-- What a plain scalar means. -/
def meaning (t : Text) : Meaning :=
  match words.lookup t with
  | some m => m
  | none =>
    match t with
    | [] => .nothing
    | b :: _ =>
      if b = 0x2E then (double? t).getD .text
      else if Text.isDigitByte b || b = 0x2B || b = 0x2D then (numeric? t).getD .text
      else .text

end Schematic.Yaml
