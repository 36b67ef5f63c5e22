import Schematic.Schema.Default
import Schematic.Literal.Single

/-!
# Values

What the owning types of a schema hold. A struct is a record whose members carry the names of
generated code; the base of a struct is a member named after it.
-/

namespace Schematic

/-- A value of a field or struct. Numbers of single precision are their bit patterns, and `absent`
is an element that refers to no struct. -/
inductive Value where
  | bool (b : Bool)
  | int (i : Int)
  | float (bits : Nat)
  | string (t : Text)
  | array (items : List Value)
  | record (members : List (Text × Value))
  | absent
  deriving Repr, Inhabited

namespace Value

mutual

/-- How deep records and arrays are nested. -/
def depth : Value → Nat
  | array items => depthItems items + 1
  | record members => depthMembers members + 1
  | _ => 0

/-- The greatest depth among items. -/
def depthItems : List Value → Nat
  | [] => 0
  | v :: rest => max (depth v) (depthItems rest)

/-- The greatest depth among members. -/
def depthMembers : List (Text × Value) → Nat
  | [] => 0
  | (_, v) :: rest => max (depth v) (depthMembers rest)

end

/-- The members of a record. -/
def members? : Value → Option (List (Text × Value))
  | record members => some members
  | _ => none

/-- The items of an array. -/
def items? : Value → Option (List Value)
  | array items => some items
  | _ => none

/-- Whether this is no struct at all. -/
def isAbsent : Value → Bool
  | absent => true
  | _ => false

/-- Changes one item of a list, if there is one at the index. -/
def updateItem (f : Value → Option Value) : (index : Nat) → List Value → Option (List Value)
  | _, [] => none
  | 0, v :: rest => (f v).map (· :: rest)
  | index + 1, v :: rest => (updateItem f index rest).map (v :: ·)

/-- Changes the first member of the given name, if there is one. -/
def updateMember (f : Value → Option Value) (name : Text) :
    List (Text × Value) → Option (List (Text × Value))
  | [] => none
  | (n, v) :: rest =>
    if n = name then (f v).map fun v => (n, v) :: rest
    else (updateMember f name rest).map ((n, v) :: ·)

/-- Changes a member of a record; anything without that member stays as it is. -/
def modify (name : Text) (f : Value → Value) : Value → Value
  | record members => record ((updateMember (fun v => some (f v)) name members).getD members)
  | v => v

/-- A step into a value: to a member of a record or to an item of an array. -/
inductive Step where
  | member (name : Text)
  | item (index : Nat)
  deriving Repr, DecidableEq

/-- What stands at the end of a path into a value. -/
def find? : Value → List Step → Option Value
  | v, [] => some v
  | v, .member name :: path => do
    let w ← (← v.members?).lookup name
    w.find? path
  | v, .item index :: path => do
    let w ← (← v.items?)[index]?
    w.find? path

/-- Changes what stands at the end of a path. -/
def change? (f : Value → Option Value) : List Step → Value → Option Value
  | [], v => f v
  | .member name :: path, v => do
    let members ← v.members?
    return .record (← updateMember (change? f path) name members)
  | .item index :: path, v => do
    let items ← v.items?
    return .array (← updateItem (change? f path) index items)

/-- Changes the first items of an array, one change for each. -/
def modifyItems (changes : List (Value → Value)) : Value → Value
  | array items => array (items.zipWith (fun v f => f v) changes ++ items.drop changes.length)
  | v => v

end Value

/-- The value that a default stands for. -/
def DefaultValue.value : DefaultValue → Value
  | bool b => .bool b
  | int i => .int i
  | float n => .float n.singleBits
  | string t => .string t
  | label e name => .int (((e.labels.find? fun l => l.name = name).map Label.value).getD 0)

namespace Schema

/-- The value that a type starts with; `struct` gives those of structs. -/
def zeroOf (struct : Qualified → Value) : FieldType → Value
  | .basic .bool => .bool false
  | .basic .int => .int 0
  | .basic .float => .float 0
  | .basic .string => .string []
  | .enumeration _ => .int 0
  | .struct q => struct q
  | .described _ _ => .absent

/-- The value that a field starts with. -/
def zeroField (struct : Qualified → Value) (f : Field) : Value :=
  match f.shape with
  | .scalar => zeroOf struct f.type
  | .dynamic => .array []
  | .fixed count => .array (List.replicate count.toNat (zeroOf struct f.type))

/-- The value that a struct starts with, for structs that hold others at most `depth` deep. -/
def zeroWithin (s : Schema) : (depth : Nat) → Qualified → Value
  | 0, _ => .absent
  | depth + 1, q =>
    match s.struct? q with
    | none => .absent
    | some st =>
      .record ((st.base.map fun b => (b.identifier, s.zeroWithin depth b)).toList ++
        st.fields.map fun f => (f.identifier, zeroField (s.zeroWithin depth) f))

/-- The value that a struct starts with. No struct holds itself, so there are no more levels than
structs. -/
def zero (s : Schema) (q : Qualified) : Value :=
  s.zeroWithin s.walk.length q

end Schema

end Schematic
