import Schematic.Schema.Default
import Schematic.Schema.Reader

/-!
# Checks on a whole schema

Parents may be declared behind their heirs, so they are looked up when everything is read. Then no
struct may inherit from or hold itself, and names that meet in generated code have to differ.
-/

namespace Schematic

namespace Struct

/-- The struct that a parent's name stands for: the nearest one going outward from the scope of
the heir. -/
def parent? (declared : List Qualified) (scope : Qualified) (parent : Text) : Option Qualified :=
  (scope.scopes ++ [[]]).findSome? fun outer =>
    let q := outer ++ [parent]
    if declared.contains q then some q else none

mutual

/-- The struct and those in it with their bases. -/
def link (declared : List Qualified) : Struct → Except SchemaError Struct
  | ⟨name, scope, parent, _, line, enums, fields, children⟩ => do
    let base ←
      match parent with
      | none => pure none
      | some p =>
        match parent? declared scope p with
        | some q => pure (some q)
        | none =>
          throw (SchemaError.unknownParent (Qualified.text (scope ++ [name])) p line)
    let children ← linkAll declared children
    return ⟨name, scope, parent, base, line, enums, fields, children⟩

/-- The structs of a list with their bases. -/
def linkAll (declared : List Qualified) : List Struct → Except SchemaError (List Struct)
  | [] => return []
  | s :: rest => do
    let s ← link declared s
    let rest ← linkAll declared rest
    return s :: rest

end

end Struct

namespace Schema

/-- The schema with the base of every struct that has a parent. -/
def link (s : Schema) : Except SchemaError Schema := do
  let structs ← Struct.linkAll (s.walk.map Struct.qualified) s.structs
  return { s with structs }

/-- Whether going from base to base comes to an end in at most `steps` steps. -/
def basesEnd (s : Schema) : (steps : Nat) → Option Qualified → Bool
  | _, none => true
  | 0, some _ => false
  | steps + 1, some q => s.basesEnd steps ((s.struct? q).bind Struct.base)

/-- Refuses a struct whose bases never end; with as many steps as there are structs, one of them
would come twice. -/
def checkInheritance (s : Schema) (st : Struct) : Except SchemaError Unit :=
  if s.basesEnd s.walk.length st.base then .ok ()
  else .error (.inheritanceCycle st.fullName st.line)

/-- Something that a struct holds by value: its base or a field. -/
structure Part where
  target : Qualified
  name : Text
  line : Nat
  deriving Repr, DecidableEq

/-- A field that holds structs by value. -/
def partOf? (f : Field) : Option Part :=
  match f.type with
  | .struct q => if f.isDynamic then none else some ⟨q, f.name, f.line⟩
  | _ => none

/-- What a struct holds by value, its base first. -/
def parts (st : Struct) : List Part :=
  (st.base.map fun q => ⟨q, st.parent.getD [], st.line⟩).toList ++ st.fields.filterMap partOf?

/-- Looks for `root` in the parts of a struct, in order; `search` looks into the struct of a part
and gives what was visited. -/
def searchParts (s : Schema) (root : Qualified)
    (search : List Qualified → Struct → Except SchemaError (List Qualified)) :
    (visited : List Qualified) → List Part → Except SchemaError (List Qualified)
  | visited, [] => .ok visited
  | visited, part :: rest =>
    if part.target = root then .error (.containsItself root.text part.name part.line)
    else do
      let visited ←
        match s.struct? part.target with
        | some st => search visited st
        | none => pure visited
      searchParts s root search visited rest

/-- Looks for `root` in what a struct holds by value, depth first, passing over the structs of
`visited`; the result is what was visited. Each level visits a new struct, so `depth` never runs
out when it is at least the number of structs. -/
def searchStruct (s : Schema) (root : Qualified) :
    (depth : Nat) → (visited : List Qualified) → Struct → Except SchemaError (List Qualified)
  | 0, visited, _ => .ok visited
  | depth + 1, visited, st =>
    if visited.contains st.qualified then .ok visited
    else searchParts s root (searchStruct s root depth) (st.qualified :: visited) (parts st)

/-- Refuses a struct that holds itself by value. -/
def checkContainment (s : Schema) (st : Struct) : Except SchemaError Unit := do
  let _ ← searchStruct s st.qualified (s.walk.length + 1) [] st
  return ()

/-- The members that every generated struct has. -/
def reservedMembers : List Text :=
  ["Serialize", "SetDefaults"]

/-- The names that a field takes in the generated structs. -/
def memberNames (f : Field) : List Text :=
  f.identifier :: (if f.isDynamic then [f.countIdentifier] else [])

/-- The names taken with one more field, none of them twice. -/
def takeNames (taken : List Text) : List Text → Option (List Text)
  | [] => some taken
  | name :: names => if taken.contains name then none else takeNames (name :: taken) names

/-- Refuses a field whose name in generated code is taken. -/
def checkFieldNames (scope : Text) : (taken : List Text) → List Field → Except SchemaError Unit
  | _, [] => .ok ()
  | taken, f :: fields =>
    match takeNames taken (memberNames f) with
    | some taken => checkFieldNames scope taken fields
    | none => .error (.duplicateMember scope f.name f.line)

/-- Refuses a struct with two members of one name. -/
def checkMembers (st : Struct) : Except SchemaError Unit :=
  let taken := (st.base.map Qualified.identifier).toList ++ reservedMembers
  checkFieldNames st.fullName taken st.fields

/-- A name that generated code declares, and what is said of it if it is taken. -/
structure Declared where
  identifier : Text
  name : Text
  line : Nat
  deriving Repr, DecidableEq

/-- The names that an enumeration declares. -/
def enumNames (e : Enumeration) : List Declared :=
  ⟨e.identifier, e.name, e.line⟩ ::
    e.labels.map fun l => ⟨e.constant l.name, e.constant l.name, e.line⟩

/-- The names that a struct declares. -/
def structNames (st : Struct) : List Declared :=
  [⟨st.identifier, st.fullName, st.line⟩, ⟨st.qualified.constructor, st.fullName, st.line⟩] ++
    st.enums.flatMap enumNames

/-- Refuses a second declaration of one name. -/
def checkDistinct : (taken : List Text) → List Declared → Except SchemaError Unit
  | _, [] => .ok ()
  | taken, d :: rest =>
    if taken.contains d.identifier then .error (.duplicateType d.name d.line)
    else checkDistinct (d.identifier :: taken) rest

/-- All checks, each on the whole schema before the next. -/
def check (s : Schema) : Except SchemaError Unit := do
  s.walk.forM s.checkInheritance
  s.walk.forM s.checkContainment
  s.walk.forM checkMembers
  s.walk.forM fun st => st.fields.forM Field.checkDefault
  checkDistinct [] (s.walk.flatMap structNames)

/-- The schema that a source spells. -/
def parse (source : Text) : Except SchemaError Schema := do
  let tokens ← (Token.lex source).mapError SchemaError.comment
  let s ← Reader.read tokens
  let s ← s.link
  s.check
  return s

end Schema

end Schematic
