import Schematic.Document
import Schematic.Schema

/-!
# Schemas as documents

What a schema declares, for other programs to read. Entries without a value are left out.
-/

namespace Schematic

namespace Enumeration

/-- An enumeration's name and labels. -/
def document (e : Enumeration) : Document :=
  .map [("name", .text e.name),
    ("values", .list (e.labels.map fun l =>
      .map [("label", .text l.name), ("value", .int l.value)]))]

end Enumeration

namespace Field

/-- A field's declaration; the count is left out for a single value. -/
def document (f : Field) : Document :=
  .record [
    [("name", .text f.name), ("type", .text f.typeName), ("category", .text f.type.category)],
    if f.isScalar then [] else [("count", .int f.shape.toInt)],
    if f.optional then [("optional", .bool true)] else [],
    Document.entry? "default" .text f.default?]

end Field

namespace Struct

mutual

/-- A struct's declaration and those in it. -/
def document : Struct → Document
  | ⟨name, scope, parent, base, line, enums, fields, children⟩ =>
    let s : Struct := ⟨name, scope, parent, base, line, enums, fields, children⟩
    .record [
      [("name", .text name), ("fullName", .text s.fullName)],
      Document.entry? "parent" .text parent,
      [("fixedSize", .bool s.isFixedSize), ("line", .int line)],
      Document.entries? "enums" (enums.map Enumeration.document),
      Document.entries? "vars" (fields.map Field.document),
      Document.entries? "children" (documents children)]

/-- The declarations of a list of structs. -/
def documents : List Struct → List Document
  | [] => []
  | s :: rest => document s :: documents rest

end

end Struct

namespace Schema

/-- A schema's namespaces and structs. -/
def document (s : Schema) : Document :=
  .map [("binaryNamespace", .text (s.binaryNamespace.getD [])),
    ("friendlyNamespace", .text (s.friendlyNamespace.getD [])),
    ("structs", .list (Struct.documents s.structs))]

end Schema

end Schematic
