import Schematic.Toml.Statement

/-!
# Tables of a TOML file

The statements of a file define one table. A table that was only implied by a longer path can be
defined later; everything else is defined once, except that an array takes the place of what was
there.
-/

namespace Schematic.Toml

/-- A value of a table. -/
inductive Value where
  | text (t : Text)
  | integer (i : Int)
  | other
  | array (items : List Value)
  | table (entries : List (Text × Value))
  /-- The tables of repeated headers. -/
  | tables (all : List (List (Text × Value)))

/-- The entries of a table. -/
abbrev Table := List (Text × Value)

namespace Table

/-- Puts a value under a name, in the place of the one before. -/
def put (t : Table) (name : Text) (v : Value) : Table :=
  if t.any fun e => e.1 = name then t.map fun e => if e.1 = name then (name, v) else e
  else t ++ [(name, v)]

/-- Changes the table at a path; of repeated tables the last one. -/
def alter (f : Table → Option Table) : (path : List Text) → Table → Option Table
  | [], t => f t
  | name :: path, t =>
    match t.lookup name with
    | some (.table inner) => do return t.put name (.table (← alter f path inner))
    | some (.tables all) => do
      return t.put name (.tables (all.dropLast ++ [← alter f path (← all.getLast?)]))
    | _ => none

/-- Whether there is a value at a path. -/
def has (t : Table) : (path : List Text) → Bool
  | [] => true
  | [name] => (t.lookup name).isSome
  | name :: path =>
    match t.lookup name with
    | some (.table inner) => has inner path
    | some (.tables all) => has (all.getLast?.getD []) path
    | _ => false

end Table

/-- A table being defined. -/
structure Builder where
  root : Table := []
  /-- The paths of tables that are only implied. -/
  implied : List (List Text) := []
  /-- The paths of arrays. -/
  arrays : List (List Text) := []

/-- A step of defining a table. -/
abbrev Build (α : Type) := StateT Builder Option α

namespace Build

/-- Marks a path as implied. -/
def imply (path : List Text) : Build Unit :=
  modify fun b => { b with implied := path :: b.implied }

/-- Changes the table at a path. -/
def alter (path : List Text) (f : Table → Option Table) : Build Unit := do
  let b ← get
  set { b with root := ← b.root.alter f path }

/-- Sets what kind of value a path has. An empty name stands for the table around it. -/
def setKind (context : List Text) (name : Text) (isArray : Bool) : Build Unit :=
  let path :=
    if name.isEmpty then (if context.isEmpty then [[]] else context) else context ++ [name]
  modify fun b =>
    let others := b.arrays.filter (· ≠ path)
    { b with arrays := if isArray then path :: others else others }

/-- Defines a value. -/
def define (context : List Text) (name : Text) (v : Value) : Build Unit := do
  let b ← get
  let path := context ++ [name]
  let known := { b with implied := b.implied.filter (· ≠ path) }
  if b.root.has path then
    if b.arrays.contains path then
      set known
      alter context fun t => some (t.put name v)
    else if b.implied.contains path then set known
    else none
  else alter context fun t => some (t.put name v)

/-- Implies the tables around a path. -/
def implyAround (path : List Text) : Build Unit :=
  (List.range (path.length - 1)).forM fun n => do
    let around := path.take (n + 1)
    if !(← get).root.has around then
      imply around
      alter (path.take n) fun t => some (t.put (path.getD n []) (.table []))

/-- Opens a table, or one more of repeated tables. -/
def openTable (path : List Text) (repeated : Bool) : Build Unit := do
  implyAround path
  let context := path.dropLast
  let name := path.getLastD []
  if repeated then
    alter context fun t =>
      match t.lookup name with
      | none => some (t.put name (.tables [[]]))
      | some (.tables all) => some (t.put name (.tables (all ++ [[]])))
      | some _ => none
  else define context name (.table [])

/-- Opens the tables around the last name of a path, and gives the path of the innermost one. -/
def openAround (context : List Text) : (path : List Text) → Build (List Text)
  | [] | [_] => return context
  | name :: path => do
    let inner := context ++ [name]
    imply inner
    openTable inner false
    openAround inner path

/-- Whether a value is an array. -/
def isArray : Value → Bool
  | .array _ => true
  | _ => false

mutual

/-- The value of an item under a name. The members of an inline table are also defined in place, so
that a second definition shows. -/
def value (context : List Text) (name : Text) (inArray : Bool) : Item → Build Value
  | .text t => return .text t
  | .integer i => return .integer i
  | .other => return .other
  | .array items => do
    setKind context name true
    return .array (← values context name items)
  | .inline members => do
    let here := context ++ [name]
    imply here
    openTable here inArray
    return .table (← inlineEntries here [] members)

/-- The values of the items of an array. -/
def values (context : List Text) (name : Text) : List Item → Build (List Value)
  | [] => return []
  | item :: items => do
    let v ← value context name true item
    return v :: (← values context name items)

/-- The entries of an inline table, each under the last name of its path. -/
def inlineEntries (context : List Text) (sofar : Table) : List (List Text × Item) → Build Table
  | [] => return sofar
  | (path, item) :: members => do
    let inner ← openAround context path
    let name := path.getLastD []
    let v ← value inner name false item
    define inner name v
    setKind inner name (isArray v)
    inlineEntries context (sofar.put name v) members

end

/-- Carries out statements; the table at a path is open. -/
def carryOut : (context : List Text) → List Statement → Build Unit
  | _, [] => return
  | _, .table path :: more => do
    openTable path false
    setKind path [] false
    carryOut path more
  | _, .tableArray path :: more => do
    openTable path true
    setKind path [] false
    carryOut path more
  | context, .assign path item :: more => do
    let inner ← openAround context path
    let name := path.getLastD []
    let v ← value inner name false item
    define inner name v
    setKind inner name (isArray v)
    carryOut context more

end Build

/-- The table that a file defines. -/
def Table.ofText (file : Text) : Option Table := do
  let (_, b) ← (Build.carryOut [] (← statements file)).run {}
  return b.root

end Schematic.Toml
