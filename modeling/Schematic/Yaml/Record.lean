import Schematic.Text.Base64
import Schematic.Yaml.Meaning
import Schematic.Yaml.Node

/-!
# Reading records from a YAML document

Values of known types at a place in a document: a text, a number, items, or the members of a record.
Where nothing is written there is no value. A mapping can take in other mappings; its own members
come first.
-/

namespace Schematic.Yaml

/-- What a scalar is. -/
inductive Content where
  | nothing
  | int (i : Int)
  | float (d : Literal.Double)
  | text (t : Text)
  /-- A truth value or a time, of which only the spelling is of use. -/
  | other (t : Text)
  deriving Repr, DecidableEq

/-- The tag of what a plain scalar means. -/
def Meaning.tag : Meaning → Text
  | .nothing => "!!null"
  | .bool _ => "!!bool"
  | .int _ => "!!int"
  | .float _ => "!!float"
  | .timestamp => "!!timestamp"
  | .merge => "!!merge"
  | .text => "!!str"

/-- What a scalar with a meaning is. -/
def Meaning.content (t : Text) : Meaning → Content
  | .nothing => .nothing
  | .int i => .int i
  | .float d => .float d
  | .bool _ | .timestamp => .other t
  | .merge | .text => .text t

/-- What a scalar is. A tag has to fit its text, except that every text can be taken as it stands,
and a whole number as one with a fraction. -/
def content? (tag : Option Text) (t : Text) (plain : Bool) : Option Content :=
  let m := meaning t
  match tag with
  | none => some (if plain then m.content t else .text t)
  | some tag =>
    if tag = ("!!str" : Text) then some (.text t)
    else if tag = ("!!binary" : Text) then (Text.ofBase64? t).map .text
    else if tag = m.tag then some (m.content t)
    else match m with
      | .int i =>
        if tag = ("!!float" : Text) && Text.fitsWord 64 i then
          (double? (Text.ofInt i)).map (Meaning.content t)
        else none
      | _ => none

/-- A place in a document, and the repetitions that led to it. -/
structure Focus where
  node : Node
  entered : List Nat := []

namespace Focus

/-- Goes to the node that is repeated here. A node that contains itself has no end. -/
def enter (tree : Tree) (f : Focus) : Option Focus :=
  match f.node with
  | .alias number _ anchor =>
    if f.entered.contains number then none
    else (tree.anchored.lookup anchor).map fun node => ⟨node, number :: f.entered⟩
  | _ => some f

/-- The text here. -/
def text? (tree : Tree) (f : Focus) : Option (Option Text) := do
  match (← f.enter tree).node with
  | .scalar tag t plain =>
    match ← content? tag t plain with
    | .nothing => return none
    | .text t => return some t
    | _ => return some t
  | _ => none

/-- The number here; a fraction is cut off. -/
def int? (tree : Tree) (f : Focus) : Option (Option Int) := do
  match (← f.enter tree).node with
  | .scalar tag t plain =>
    match ← content? tag t plain with
    | .nothing => return none
    | .int i => if Text.fitsWord 64 i then return some i else none
    | .float d => return some (← d.toInt64?)
    | _ => none
  | _ => none

/-- Whether nothing is written here. -/
def isNothing : Node → Option Bool
  | .scalar tag t plain => return (← content? tag t plain) = .nothing
  | _ => some false

/-- The items here. -/
def items? (tree : Tree) (f : Focus) : Option (Option (List Focus)) := do
  let f ← f.enter tree
  match f.node with
  | .sequence items => return some (items.map fun item => { f with node := item })
  | node => if ← isNothing node then return none else none

/-- Whether two keys are the same one as they are written. -/
def sameKey : Node → Node → Bool
  | .scalar _ s _, .scalar _ t _ => s = t
  | .sequence _, .sequence _ => true
  | .mapping _, .mapping _ => true
  | .alias _ s _, .alias _ t _ => s = t
  | _, _ => false

/-- Whether no key is written twice. -/
def keysDiffer : List (Node × Node) → Bool
  | [] => true
  | (key, _) :: members => members.all (fun m => !sameKey key m.1) && keysDiffer members

/-- Whether a key says that other mappings are taken in. -/
def isMergeKey : Node → Bool
  | .scalar tag t plain =>
    t = ("<<" : Text) && (tag = some ("!!merge" : Text) || (tag = none && plain))
  | _ => false

/-- A mapping here, unless there is something else. -/
def mapping? (f : Focus) : Option Focus :=
  match f.node with
  | .mapping _ => some f
  | _ => none

/-- The mappings that are taken in. -/
def merged (tree : Tree) (f : Focus) : Option (List Focus) :=
  match f.node with
  | .sequence items =>
    items.mapM fun item => do (← enter tree { f with node := item }).mapping?
  | _ => do return [← (← f.enter tree).mapping?]

/-- Adds the members whose names are not there yet. -/
def addNew (members : List (Text × Focus)) (more : List (Text × Focus)) : List (Text × Focus) :=
  more.foldl
    (fun members m => if members.any fun n => n.1 = m.1 then members else members ++ [m])
    members

/-- Whether the given names occur at most once. -/
def namesDiffer (known : List Text) (members : List (Text × Focus)) : Bool :=
  known.all fun name => (members.filter fun m => m.1 = name).length ≤ 1

/-- The members of a mapping by name, with those of the mappings that it takes in. Members with no
name do not count. A mapping that is not taken in itself names each known member once. -/
def membersIn (tree : Tree) (known : List Text) :
    (steps : Nat) → (above : Option (List (Text × Focus))) → Focus → Option (List (Text × Focus))
  | 0, _, _ => none
  | steps + 1, above, f => do
    match f.node with
    | .mapping members =>
      if !keysDiffer members then none
      else
        let own ← (members.filter fun m => !isMergeKey m.1).filterMapM fun (key, value) => do
          return (← text? tree { f with node := key }).map fun name => (name, { f with node := value })
        let sofar ←
          match above with
          | some above => some (addNew above own)
          | none => if namesDiffer known own then some own else none
        match members.find? fun m => isMergeKey m.1 with
        | none => return sofar
        | some (_, others) =>
          (← merged tree { f with node := others }).foldlM
            (fun members other => membersIn tree known steps (some members) other) sofar
    | _ => none

/-- The members of a record here. Mappings take in others through at most all repetitions, with at
most all nodes between two of them. -/
def members? (tree : Tree) (known : List Text) (f : Focus) :
    Option (Option (List (Text × Focus))) := do
  let f ← f.enter tree
  match f.node with
  | .mapping _ => return some (← membersIn tree known ((tree.size + 1) * (tree.size + 1)) none f)
  | node => if ← isNothing node then return none else none

end Focus

end Schematic.Yaml
