/-!
# Text

Sources, names and messages are byte strings. Nearly all of them are UTF-8, but a source may hold
any bytes and they are kept as they are.
-/

namespace Schematic

/-- A byte string. -/
abbrev Text := List UInt8

namespace Text

/-- The UTF-8 bytes of a string. -/
def ofString (s : String) : Text :=
  s.toUTF8.data.toList

instance : Coe String Text :=
  ⟨ofString⟩

/-- All parts in order. -/
def concat (parts : List Text) : Text :=
  parts.flatten

/-- The parts with `separator` between each two. -/
def join (separator : Text) : List Text → Text
  | [] => []
  | [part] => part
  | part :: parts => part ++ separator ++ join separator parts

/-- The text between quotation marks, nothing escaped. -/
def quoted (t : Text) : Text :=
  concat ["\"", t, "\""]

/-- The text after `lead`, if it starts with it. -/
def after? : (lead t : Text) → Option Text
  | [], t => some t
  | _ :: _, [] => none
  | a :: lead, b :: t => if a = b then after? lead t else none

/-- Whether `t` starts with `lead`. -/
def startsWith (lead t : Text) : Bool :=
  (after? lead t).isSome

/-- Whether `t` ends with `tail`. -/
def endsWith (tail t : Text) : Bool :=
  startsWith tail.reverse t.reverse

/-- The pieces of `t` between the occurrences of one byte. -/
def splitOn (separator : UInt8) (t : Text) : List Text :=
  let cut := t.foldr
    (fun b (piece, pieces) =>
      if b = separator then (([] : Text), piece :: pieces) else (b :: piece, pieces))
    (([] : Text), ([] : List Text))
  cut.1 :: cut.2

/-- The text before and after the first occurrence of `mark`, if there is one. -/
def cut? (mark : Text) : Text → Option (Text × Text)
  | [] => if mark = [] then some ([], []) else none
  | b :: t =>
    match after? mark (b :: t) with
    | some rest => some ([], rest)
    | none => (cut? mark t).map fun (before, rest) => (b :: before, rest)

/-- Byte-wise lexicographic order. -/
def less : (s t : Text) → Bool
  | [], [] => false
  | [], _ :: _ => true
  | _ :: _, [] => false
  | a :: s, b :: t => a < b || (a = b && less s t)

/-- Puts `t` into a strictly increasing list, once. -/
def insertSorted (t : Text) : List Text → List Text
  | [] => [t]
  | u :: us =>
    if less t u then t :: u :: us
    else if t = u then u :: us
    else u :: insertSorted t us

/-- The different texts of a list in increasing byte-wise order. -/
def sortedSet (ts : List Text) : List Text :=
  ts.foldr insertSorted []

end Text

end Schematic
