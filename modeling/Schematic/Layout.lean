import Schematic.Schema

/-!
# Layout of a struct

What a written struct looks like in memory. Strings and structs are behind pointers, since their
size is not known here, and a dynamic array is a count and a pointer.
-/

namespace Schematic.Layout

/-- What stands in place. -/
inductive Cell where
  | bool
  | int32
  | float32
  | enumeration (name : Text)
  | pointer (target : Cell)
  | byte
  | struct (name : Text)
  deriving Repr, DecidableEq

/-- A field in memory: one cell or a fixed number of them. -/
structure Field where
  name : Text
  count : Option Int
  cell : Cell
  deriving Repr, DecidableEq

/-- The cell of a value in place. -/
def inPlace : FieldType → Cell
  | .basic .bool => .bool
  | .basic .int => .int32
  | .basic .float => .float32
  | .basic .string => .pointer .byte
  | .enumeration e => .enumeration e.identifier
  | .struct q => .pointer (.struct q.identifier)
  | .described _ _ => .pointer .byte

/-- What a dynamic array's pointer leads to. -/
def element : FieldType → Cell
  | .struct q => .struct q.identifier
  | type => inPlace type

/-- The fields in memory of a field. -/
def ofField (f : Schematic.Field) : List Field :=
  match f.shape with
  | .dynamic =>
    [⟨f.countIdentifier, none, .int32⟩, ⟨f.identifier, none, .pointer (element f.type)⟩]
  | .scalar => [⟨f.identifier, none, inPlace f.type⟩]
  | .fixed count => [⟨f.identifier, some count, inPlace f.type⟩]

end Schematic.Layout

namespace Schematic.Struct

/-- The fields in memory of a struct, without those of its base. -/
def layout (st : Struct) : List Layout.Field :=
  st.fields.flatMap Layout.ofField

end Schematic.Struct
