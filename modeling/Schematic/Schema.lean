import Schematic.Schema.Name

/-!
# Schemas

A schema is a forest of structs. A struct declares enumerations, fields and further structs, and
may build on a base struct.
-/

namespace Schematic

/-- The built-in types. -/
inductive Basic where
  | bool
  | int
  | float
  | string
  deriving Repr, DecidableEq

namespace Basic

/-- The name of a built-in type in a schema. -/
def name : Basic → Text
  | bool => "bool"
  | int => "int"
  | float => "float"
  | string => "string"

/-- The built-in type of the given name. -/
def ofName? (t : Text) : Option Basic :=
  [bool, int, float, string].find? fun b => b.name = t

end Basic

/-- A name for a number. -/
structure Label where
  name : Text
  value : Int
  deriving Repr, DecidableEq

/-- An enumeration with the struct that declares it. -/
structure Enumeration where
  name : Text
  owner : Option Qualified
  line : Nat
  labels : List Label
  deriving Repr, DecidableEq

namespace Enumeration

/-- Whether a label is declared. -/
def hasLabel (e : Enumeration) (name : Text) : Bool :=
  e.labels.any fun l => l.name = name

/-- The name of the enumeration in generated code. -/
def identifier (e : Enumeration) : Text :=
  match e.owner with
  | some owner => owner.identifier ++ e.name
  | none => e.name

/-- The name of a label's constant in generated code. -/
def constant (e : Enumeration) (label : Text) : Text :=
  e.identifier ++ Text.pascalCase label

end Enumeration

/-- What the type of a field refers to. A type that is only described names its category and
built-in type without referring to anything declared. -/
inductive FieldType where
  | basic (b : Basic)
  | enumeration (e : Enumeration)
  | struct (q : Qualified)
  | described (category builtin : Text)
  deriving Repr, DecidableEq

namespace FieldType

/-- The kind of thing a type is. -/
def category : FieldType → Text
  | basic _ => "basic"
  | enumeration _ => "enum"
  | struct _ => "user"
  | described kind _ => kind

/-- The name of what a type refers to. -/
def target? : FieldType → Option Text
  | basic b => some b.name
  | enumeration e => some e.identifier
  | struct q => some q.text
  | described _ builtin => if builtin.isEmpty then none else some builtin

/-- Whether values of the type are stored behind a slot: structs and strings. -/
def isIndirect : FieldType → Bool
  | basic b => b = .string
  | enumeration _ => false
  | struct _ => true
  | described kind builtin => kind = "user" || builtin = "string"

end FieldType

/-- How many values a field holds: one, a number chosen at run time, or a fixed number. -/
inductive Shape where
  | scalar
  | dynamic
  | fixed (count : Int)
  deriving Repr, DecidableEq

namespace Shape

/-- The shape as a number: two negative ones stand for the shapes without a fixed count. -/
def toInt : Shape → Int
  | scalar => -2
  | dynamic => -1
  | fixed count => count

/-- The shape that a number stands for. -/
def ofInt (i : Int) : Shape :=
  if i = -2 then scalar else if i = -1 then dynamic else fixed i

end Shape

/-- A field of a struct. The default is kept as it was written. -/
structure Field where
  name : Text
  typeName : Text
  type : FieldType
  shape : Shape
  optional : Bool
  default? : Option Text
  line : Nat
  deriving Repr, DecidableEq

namespace Field

/-- Whether the field is an array whose length is chosen at run time. -/
def isDynamic (f : Field) : Bool :=
  f.shape = .dynamic

/-- Whether the field is a single value. -/
def isScalar (f : Field) : Bool :=
  f.shape = .scalar

/-- The name of the field in generated code. -/
def identifier (f : Field) : Text :=
  Text.pascalCase f.name

/-- The name of the field that holds the length of a dynamic array. -/
def countIdentifier (f : Field) : Text :=
  Text.concat ["Num", f.identifier]

end Field

/-- A struct with all that is declared in it. `scope` holds the names of the structs around it,
`parent` the name given for the base and `base` the struct it stands for. -/
structure Struct where
  name : Text
  scope : Qualified
  parent : Option Text
  base : Option Qualified
  line : Nat
  enums : List Enumeration
  fields : List Field
  children : List Struct
  deriving Repr, Inhabited

namespace Struct

/-- The struct's name with its scope. -/
def qualified (s : Struct) : Qualified :=
  s.scope ++ [s.name]

/-- The struct's name with its scope, as text. -/
def fullName (s : Struct) : Text :=
  s.qualified.text

/-- The name of the struct in generated code. -/
def identifier (s : Struct) : Text :=
  s.qualified.identifier

mutual

/-- The struct and those declared in it, each before what is declared in it. -/
def walk : Struct → List Struct
  | ⟨name, scope, parent, base, line, enums, fields, children⟩ =>
    ⟨name, scope, parent, base, line, enums, fields, children⟩ :: walkAll children

/-- The structs of a list and those declared in them. -/
def walkAll : List Struct → List Struct
  | [] => []
  | s :: rest => walk s ++ walkAll rest

end

/-- Whether neither the struct nor one declared in it has a dynamic array. -/
def isFixedSize (s : Struct) : Bool :=
  s.walk.all fun inner => inner.fields.all fun f => !f.isDynamic

end Struct

/-- The result of reading a schema source. -/
structure Schema where
  binaryNamespace : Option Text
  friendlyNamespace : Option Text
  structs : List Struct
  deriving Repr, Inhabited

namespace Schema

/-- All structs, each before those declared in it. -/
def walk (s : Schema) : List Struct :=
  Struct.walkAll s.structs

/-- All enumerations in the order of their structs. -/
def enums (s : Schema) : List Enumeration :=
  s.walk.flatMap Struct.enums

/-- The struct of the given name. -/
def struct? (s : Schema) (q : Qualified) : Option Struct :=
  s.walk.find? fun st => st.qualified = q

end Schema

end Schematic
