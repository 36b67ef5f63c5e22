import Schematic.Text.Title

/-!
# Qualified names

A nested struct is known by the names of the structs around it and its own. Generated code has no
nesting, so there the names stand together without a separator.
-/

namespace Schematic

/-- A name behind the names of the enclosing structs, outermost first. -/
abbrev Qualified := List Text

namespace Qualified

/-- The mark between a struct and what is declared in it. -/
def separator : Text :=
  "::"

/-- The full name: all names with the separator between them. -/
def text (q : Qualified) : Text :=
  Text.join separator q

/-- A text without its separators. -/
def eraseSeparators : Text → Text
  | 0x3A :: 0x3A :: t => eraseSeparators t
  | b :: t => b :: eraseSeparators t
  | [] => []

/-- The name of the struct in generated code. -/
def identifier (q : Qualified) : Text :=
  eraseSeparators (text q)

/-- A full name divided at its separators: the name begun, and those behind it. -/
def divide : Text → Text × List Text
  | 0x3A :: 0x3A :: t =>
    let (name, names) := divide t
    ([], name :: names)
  | b :: t =>
    let (name, names) := divide t
    (b :: name, names)
  | [] => ([], [])

/-- The names that a full name consists of. -/
def ofText (fullName : Text) : Qualified :=
  let (name, names) := divide fullName
  name :: names

/-- The struct itself and the structs around it, innermost first. -/
def scopes (q : Qualified) : List Qualified :=
  (List.range q.length).map fun i => q.take (q.length - i)

/-- The name of the function that makes a struct with its defaults. -/
def constructor (q : Qualified) : Text :=
  Text.concat ["New", identifier q]

end Qualified

end Schematic
