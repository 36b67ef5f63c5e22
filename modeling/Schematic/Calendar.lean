import Schematic.Text.Decimal

/-!
# Dates and times

Checks whether a text spells a date, a time of day or both. The number of digits may be free or
fixed to two.
-/

namespace Schematic.Calendar

/-- One or two digits, or exactly two, and what follows. -/
def number (twoDigits : Bool) : Text → Option (Nat × Text)
  | a :: b :: t =>
    if !Text.isDigitByte a then none
    else if Text.isDigitByte b then some (Text.digitsValue [a, b], t)
    else if twoDigits then none
    else some (Text.digitsValue [a], b :: t)
  | [a] => if Text.isDigitByte a && !twoDigits then some (Text.digitsValue [a], []) else none
  | [] => none

/-- A byte that has to stand here, and what follows. -/
def mark (b : UInt8) : Text → Option Text
  | c :: t => if b = c then some t else none
  | [] => none

/-- A year of four digits, and what follows. -/
def year (t : Text) : Option (Nat × Text) :=
  match t with
  | a :: b :: c :: d :: t =>
    if [a, b, c, d].all Text.isDigitByte then some (Text.digitsValue [a, b, c, d], t) else none
  | _ => none

/-- Whether a year has a leap day. -/
def isLeap (y : Nat) : Bool :=
  y % 4 = 0 && (y % 100 ≠ 0 || y % 400 = 0)

/-- The days of a month. -/
def daysIn (y month : Nat) : Nat :=
  if month = 2 then (if isLeap y then 29 else 28)
  else if [4, 6, 9, 11].contains month then 30
  else 31

/-- What follows a date. -/
def date (twoDigits : Bool) (t : Text) : Option Text := do
  let (y, t) ← year t
  let t ← mark 0x2D t
  let (month, t) ← number twoDigits t
  let t ← mark 0x2D t
  let (day, t) ← number twoDigits t
  if 1 ≤ month && month ≤ 12 && 1 ≤ day && day ≤ daysIn y month then some t else none

/-- What follows a fraction of a second, if there is one. -/
def fraction : Text → Text
  | 0x2E :: d :: t =>
    if Text.isDigitByte d then t.dropWhile Text.isDigitByte else 0x2E :: d :: t
  | t => t

/-- What follows a time of day; the hour may always have one digit. -/
def time (twoDigits : Bool) (t : Text) : Option Text := do
  let (hour, t) ← number false t
  let t ← mark 0x3A t
  let (minute, t) ← number twoDigits t
  let t ← mark 0x3A t
  let (second, t) ← number twoDigits t
  if hour < 24 && minute < 60 && second < 60 then some (fraction t) else none

/-- What follows a zone: the letter Z, or hours and minutes behind a sign. -/
def zone : Text → Option Text
  | 0x5A :: t => some t
  | s :: t => do
    if s ≠ 0x2B && s ≠ 0x2D then none
    else
      let (hours, t) ← number true t
      let t ← mark 0x3A t
      let (minutes, t) ← number true t
      if hours ≤ 24 && minutes ≤ 60 then some t else none
  | [] => none

/-- Whether a reading takes the whole text. -/
def takesAll (rest : Option Text) : Bool :=
  rest = some []

end Schematic.Calendar
