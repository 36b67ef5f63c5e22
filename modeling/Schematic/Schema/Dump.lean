import Schematic.Schema
import Schematic.Text.Decimal

/-!
# Schemas as text

An indented listing of all that a schema declares.
-/

namespace Schematic

namespace Enumeration

/-- An enumeration with all values written out. -/
def dump (e : Enumeration) : Text :=
  let labels := e.labels.map fun l => Text.concat [l.name, " = ", Text.ofInt l.value]
  Text.concat ["enum ", e.name, " \x7b ", Text.join ", " labels, " \x7d"]

end Enumeration

namespace Shape

/-- The brackets of an array. -/
def dump : Shape → Text
  | scalar => []
  | dynamic => "[]"
  | fixed count => Text.concat ["[", Text.ofInt count, "]"]

end Shape

namespace Field

/-- A field with its type, category, shape and default. -/
def dump (f : Field) : Text :=
  Text.concat [f.name, ": ", f.typeName, " <", f.type.category, ">",
    if f.optional then " optional" else [], f.shape.dump,
    match f.default? with
    | some token => Text.concat [" = ", token]
    | none => []]

end Field

namespace Struct

/-- A line at a depth of indentation. -/
def indented (depth : Nat) (line : Text) : Text :=
  Text.concat [List.replicate (2 * depth) 0x20, line, "\n"]

/-- The first line of a struct. -/
def dumpHeader (s : Struct) : Text :=
  Text.concat ["struct ", s.fullName,
    match s.parent with
    | some parent => Text.concat [" : ", parent]
    | none => [],
    if s.isFixedSize then " (fixed)" else [], " \x7b"]

mutual

/-- A struct and what is declared in it. -/
def dumpAt (depth : Nat) : Struct → Text
  | ⟨name, scope, parent, base, line, enums, fields, children⟩ =>
    let s : Struct := ⟨name, scope, parent, base, line, enums, fields, children⟩
    Text.concat [indented depth s.dumpHeader,
      Text.concat (enums.map fun e => indented (depth + 1) e.dump),
      Text.concat (fields.map fun f => indented (depth + 1) f.dump),
      dumpAll (depth + 1) children,
      indented depth "\x7d"]

/-- The structs of a list, in order. -/
def dumpAll (depth : Nat) : List Struct → Text
  | [] => []
  | s :: rest => dumpAt depth s ++ dumpAll depth rest

end

/-- A struct and what is declared in it, from the left margin. -/
def dump (s : Struct) : Text :=
  dumpAt 0 s

end Struct

namespace Schema

/-- The namespaces and structs of a schema. -/
def dump (s : Schema) : Text :=
  Text.concat ["binary_namespace = ", s.binaryNamespace.getD "<none>", "\n",
    "friendly_namespace = ", s.friendlyNamespace.getD "<none>", "\n",
    Struct.dumpAll 0 s.structs]

end Schema

end Schematic
