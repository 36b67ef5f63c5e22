import Schematic.Buffer
import Schematic.Method.Place

/-!
# Serializers

The method that writes a struct. The base comes first, then every field has a part in place: plain
values themselves, and a slot for what is stored elsewhere. The data behind the slots follows in
the order of the fields.
-/

namespace Schematic.Method

/-- How a plain value is written. -/
inductive Plain where
  | bool
  | int32
  | float32
  | string
  | enumeration
  deriving Repr, DecidableEq

/-- A variable that holds the handle of a slot. -/
inductive Slot where
  | field (name : Text)
  | fieldAt (name : Text)
  | element
  deriving Repr, DecidableEq

/-- A simple statement of a serializer. -/
inductive WriteStep where
  | value (kind : Plain) (p : Place)
  | object (p : Place) (type : Qualified)
  | count (member : Text)
  | reserve (s : Slot)
  | resolve (s : Slot)
  | orNew (type : Qualified)
  deriving Repr, DecidableEq

/-- A statement of a serializer. -/
inductive WriteStatement where
  | step (s : WriteStep)
  | reserveEach (name : Text) (count : Int)
  | eachIndex (member : Text) (body : List WriteStep)
  | eachElement (member : Text) (body : List WriteStep)
  | remark (t : Text)
  deriving Repr, DecidableEq

end Schematic.Method

namespace Schematic

open Method

/-- How values of a built-in type are written. -/
def Basic.plain : Basic → Plain
  | bool => .bool
  | int => .int32
  | float => .float32
  | string => .string

/-- The statement that writes a value of a type. -/
def FieldType.write (type : FieldType) (p : Place) : WriteStep :=
  match type with
  | basic b => .value b.plain p
  | enumeration _ => .value .enumeration p
  | struct q => .object p q
  | described _ _ => .value .string p

namespace Field

/-- What is written for a field among the fields of its struct. -/
def inPlace (f : Field) : List WriteStatement :=
  match f.shape with
  | .dynamic => [.step (.reserve (.field f.identifier))]
  | .scalar =>
    if f.type.isIndirect then [.step (.reserve (.field f.identifier))]
    else [.step (f.type.write (.member f.identifier))]
  | .fixed count =>
    if f.type.isIndirect then [.reserveEach f.identifier count]
    else [.eachElement f.identifier [f.type.write .element]]

/-- Whether a field has data behind slots. -/
def isDeferred (f : Field) : Bool :=
  f.isDynamic || f.type.isIndirect

/-- What is written for one element of a dynamic array. -/
def element (f : Field) : List WriteStep :=
  if f.type.isIndirect then
    [.reserve .element, .resolve .element] ++
      (match f.type with
      | .struct q => [.orNew q]
      | _ => []) ++
      [f.type.write .element]
  else [f.type.write .element]

/-- What is written for a field behind its slots. -/
def deferred (f : Field) : List WriteStatement :=
  match f.shape with
  | .dynamic =>
    [.step (.resolve (.field f.identifier)), .step (.count f.identifier),
      .eachElement f.identifier f.element]
  | .scalar =>
    [.step (.resolve (.field f.identifier)), .step (f.type.write (.member f.identifier))]
  | .fixed _ =>
    [.eachIndex f.identifier
      [.resolve (.fieldAt f.identifier), f.type.write (.memberAt f.identifier)]]

end Field

/-- The statements that write a struct. -/
def Struct.serializer (st : Struct) : List WriteStatement :=
  (st.base.map fun b => .step (.object (.member b.identifier) b)).toList ++
    st.fields.flatMap Field.inPlace ++
    (st.fields.filter Field.isDeferred).flatMap fun f => .remark f.name :: f.deferred

end Schematic
