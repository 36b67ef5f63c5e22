import Schematic.Buffer
import Schematic.Value

/-!
# Reading a payload

Takes a struct back from the payload of a finished buffer, by the schema alone. The base comes
first, then the fields in place; what is stored elsewhere is found through the slots.
-/

namespace Schematic.Method

/-- A value and the position behind it. -/
abbrev Located (α : Type) := α × Nat

/-- A number of the given width at a position. -/
def wordAt (payload : Text) (width position : Nat) : Option (Located Nat) :=
  let bytes := (payload.drop position).take width
  if bytes.length = width then some (Text.ofLittleEndian bytes, position + width) else none

/-- The integer that 32 bits stand for. -/
def signed32 (n : Nat) : Int :=
  if n < 0x80000000 then n else (n : Int) - 0x100000000

/-- The text at a position, up to a zero. -/
def textAt (payload : Text) (position : Nat) : Option (Located Text) :=
  let t := (payload.drop position).takeWhile (· ≠ 0)
  if position + t.length < payload.length then some (t, position + t.length + 1) else none

/-- The position that a slot holds. -/
def slotAt (payload : Text) (position : Nat) : Option (Located Nat) :=
  wordAt payload Buffer.slotSize position

/-- Reads one thing after the other. -/
def readEach {α : Type} (read : Nat → Option (Located α)) :
    (count : Nat) → (position : Nat) → Option (Located (List α))
  | 0, position => some ([], position)
  | count + 1, position => do
    let (a, position) ← read position
    let (rest, position) ← readEach read count position
    return (a :: rest, position)

/-- Reads what stands at each position; the end of the last one counts. -/
def readAll {α : Type} (read : Nat → Option (Located α)) :
    (positions : List Nat) → (last : Nat) → Option (Located (List α))
  | [], last => some ([], last)
  | position :: positions, _ => do
    let (a, last) ← read position
    let (rest, last) ← readAll read positions last
    return (a :: rest, last)

/-- A payload with the way structs are read from it. -/
structure Source where
  payload : Text
  struct : Qualified → Nat → Option (Located Value)

/-- Reads a value of a type where its data is. -/
def Source.value (s : Source) (type : FieldType) (position : Nat) : Option (Located Value) :=
  match type with
  | .basic .bool => do
    let (n, position) ← wordAt s.payload 1 position
    return (.bool (n ≠ 0), position)
  | .basic .int | .enumeration _ => do
    let (n, position) ← wordAt s.payload 4 position
    return (.int (signed32 n), position)
  | .basic .float => do
    let (n, position) ← wordAt s.payload 4 position
    return (.float n, position)
  | .basic .string => do
    let (t, position) ← textAt s.payload position
    return (.string t, position)
  | .struct q => s.struct q position
  | .described _ _ => none

/-- What the part of a field in place says: its values, or where its data is. -/
inductive Stored where
  | values (items : List Value)
  | slots (positions : List Nat)

/-- Reads the part of a field in place. -/
def Source.inPlace (s : Source) (f : Field) (position : Nat) : Option (Located Stored) :=
  let count :=
    match f.shape with
    | .fixed n => n.toNat
    | _ => 1
  if f.isDynamic || f.type.isIndirect then do
    let (positions, position) ← readEach (slotAt s.payload) count position
    return (.slots positions, position)
  else do
    let (items, position) ← readEach (s.value f.type) count position
    return (.values items, position)

/-- Reads an element of a dynamic array. -/
def Source.element (s : Source) (type : FieldType) (position : Nat) : Option (Located Value) := do
  if type.isIndirect then
    let (position, _) ← slotAt s.payload position
    s.value type position
  else s.value type position

/-- Reads a dynamic array: its length and its elements. -/
def Source.array (s : Source) (type : FieldType) (position : Nat) : Option (Located Value) := do
  let (n, position) ← wordAt s.payload 4 position
  let (items, position) ← readEach (s.element type) n position
  return (.array items, position)

/-- The value of a field from its items. -/
def ofItems (f : Field) (items : List Value) : Option Value :=
  if f.isScalar then items.head? else some (.array items)

/-- Reads the data of a field; `last` is the end of the data before it. -/
def Source.field (s : Source) (f : Field) (stored : Stored) (last : Nat) :
    Option (Located Value) := do
  match stored with
  | .values items => return (← ofItems f items, last)
  | .slots positions =>
    if f.isDynamic then s.array f.type (← positions.head?)
    else
      let (items, last) ← readAll (s.value f.type) positions last
      return (← ofItems f items, last)

/-- Reads the parts of fields in place, one after the other. -/
def Source.allInPlace (s : Source) :
    List Field → (position : Nat) → Option (Located (List (Field × Stored)))
  | [], position => some ([], position)
  | f :: fs, position => do
    let (stored, position) ← s.inPlace f position
    let (rest, position) ← s.allInPlace fs position
    return ((f, stored) :: rest, position)

/-- Reads the data of fields, one after the other. -/
def Source.fields (s : Source) :
    List (Field × Stored) → (last : Nat) → Option (Located (List (Text × Value)))
  | [], last => some ([], last)
  | (f, stored) :: rest, last => do
    let (v, last) ← s.field f stored last
    let (members, last) ← s.fields rest last
    return ((f.identifier, v) :: members, last)

end Schematic.Method

namespace Schematic.Schema

open Method

/-- Reads a struct whose data refers to other structs at most `depth` deep. -/
def readWithin (s : Schema) (payload : Text) :
    (depth : Nat) → Qualified → (position : Nat) → Option (Located Value)
  | 0, _, _ => none
  | depth + 1, q, position => do
    let source : Source := ⟨payload, s.readWithin payload depth⟩
    let st ← s.struct? q
    let (base, position) ←
      match st.base with
      | none => some ([], position)
      | some b => do
        let (v, position) ← source.struct b position
        pure ([(b.identifier, v)], position)
    let (stored, position) ← source.allInPlace st.fields position
    let (members, last) ← source.fields stored position
    return (.record (base ++ members), last)

/-- Reads a struct at the start of a payload. Data behind a slot starts after it, and between two
slots there are at most as many bases as structs, so the depth is enough. -/
def read (s : Schema) (q : Qualified) (payload : Text) : Option Value :=
  (s.readWithin payload ((payload.length + 1) * s.walk.length) q 0).map Prod.fst

end Schematic.Schema
