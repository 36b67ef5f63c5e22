import Schematic.Code.Body
import Schematic.Layout

/-!
# Declarations

What a generated source declares: types, constants, and functions.
-/

namespace Schematic.Code

/-- A type. -/
inductive TypeExpr where
  | builtin (t : Text)
  | named (t : Text)
  | pointer (target : TypeExpr)
  | slice (item : TypeExpr)
  | array (count : Int) (item : TypeExpr)
  deriving Repr, DecidableEq

namespace TypeExpr

/-- The code of a type. -/
def pieces : TypeExpr → List Piece
  | builtin t => [.mark t]
  | named t => [.name t]
  | pointer target => "*" :: target.pieces
  | slice item => "[]" :: item.pieces
  | array count item => "[" :: .mark (Text.ofInt count) :: "]" :: item.pieces

end TypeExpr

/-- The type of a cell in memory. -/
def cellType : Layout.Cell → TypeExpr
  | .bool => .builtin "bool"
  | .int32 => .builtin "int32"
  | .float32 => .builtin "float32"
  | .enumeration id => .named id
  | .pointer target => .pointer (cellType target)
  | .byte => .builtin "byte"
  | .struct id => .named id

/-- A field in memory, with its type. -/
def layoutField (f : Layout.Field) : Text × TypeExpr :=
  (f.name,
    match f.count with
    | none => cellType f.cell
    | some count => .array count (cellType f.cell))

/-- The type of a value that is owned. -/
def ownedValue : FieldType → TypeExpr
  | .basic .bool => .builtin "bool"
  | .basic .int => .builtin "int32"
  | .basic .float => .builtin "float32"
  | .basic .string => .builtin "string"
  | .enumeration e => .named e.identifier
  | .struct q => .named q.identifier
  | .described _ _ => .builtin "string"

/-- An owned field, with its type. Dynamic arrays refer to their structs. -/
def ownedField (f : Field) : Text × TypeExpr :=
  (f.identifier,
    match f.shape, f.type with
    | .scalar, type => ownedValue type
    | .dynamic, .struct q => .slice (.pointer (.named q.identifier))
    | .dynamic, type => .slice (ownedValue type)
    | .fixed count, type => .array count (ownedValue type))

/-- A declaration, or a comment that stands like one. -/
inductive Declaration where
  | remark (t : Text)
  | number (name : Text)
  | constants (type : Text) (values : List (Text × Int))
  | struct (name : Text) (base : Option Text) (fields : List (Text × TypeExpr))
  | constructor (name type : Text)
  | method (type name : Text) (parameters : List Piece) (body : List Line)
  | bindings (package : Text) (types : List Text)
  deriving Repr, DecidableEq

/-- The longest header of a function that has its empty body on the same line. -/
def headerLimit : Nat :=
  100

/-- The lines of a function. -/
def function (header : List Piece) (body : List Line) : List Line :=
  if body.isEmpty && (pieceText header).length ≤ headerLimit then [⟨0, pieces [header, [" \x7b\x7d"]]⟩]
  else block header body

namespace Declaration

/-- The lines of a declaration. -/
def lines : Declaration → List Line
  | remark t => [⟨0, [.comment t]⟩]
  | number id => [⟨0, ["type ", .name id, " int32"]⟩]
  | constants type values =>
    group "const" (columns (values.map fun (id, value) =>
      (.name id, [.name type, " = ", .mark (Text.ofInt value)])))
  | struct id base fields =>
    if base.isNone && fields.isEmpty then [⟨0, ["type ", .name id, " struct\x7b\x7d"]⟩]
    else
      block ["type ", .name id, " struct"]
        ((base.map fun b => (⟨0, [.name b]⟩ : Line)).toList ++
          columns (fields.map fun (id, type) => (.name id, type.pieces)))
  | constructor id type =>
    ⟨0, [.comment (Text.concat [id, " returns a ", type, " with its declared defaults applied."])]⟩
      :: function ["func ", .name id, "() *", .name type]
        [⟨0, ["o := &", .name type, "\x7b\x7d"]⟩, ⟨0, ["o.SetDefaults()"]⟩, ⟨0, ["return o"]⟩]
  | method type id parameters body =>
    function (pieces [["func (o *", .name type, ") ", .name id, "("], parameters, [")"]]) body
  | bindings package types =>
    group "var" (columns (types.map fun type =>
      ("_", [.name package, ".Serializer = (*", .name type, ")(nil)"])))

/-- The names that a declaration adds to its package. -/
def declared : Declaration → List Text
  | remark _ => []
  | number id => [id]
  | constants _ values => values.map Prod.fst
  | struct id _ _ => [id]
  | constructor id _ => [id]
  | method .. => []
  | bindings .. => []

end Declaration

/-- The declarations of an enumeration. -/
def enumeration (e : Enumeration) : List Declaration :=
  [.number e.identifier,
    .constants e.identifier (e.labels.map fun l => (e.constant l.name, l.value))]

/-- The declarations of a struct as it lies in memory. -/
def layoutStruct (st : Struct) : List Declaration :=
  st.enums.flatMap enumeration ++
    [.struct st.identifier (st.base.map Qualified.identifier) (st.layout.map layoutField)]

/-- The declarations of a struct that owns what it holds. -/
def ownedStruct (st : Struct) : List Declaration :=
  st.enums.flatMap enumeration ++
    [.struct st.identifier (st.base.map Qualified.identifier) (st.fields.map ownedField),
      .constructor st.qualified.constructor st.identifier,
      .method st.identifier "SetDefaults" [] (st.defaults.flatMap defaultStatement)]

/-- The declaration of a struct's serializer. -/
def serializerMethod (package : Text) (st : Struct) : Declaration :=
  .method st.identifier "Serialize" ["w ", .name package, ".Writer"]
    (st.serializer.flatMap (writeStatement package))

end Schematic.Code
