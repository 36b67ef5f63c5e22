import Schematic.Yaml.Scanner

/-!
# Documents of a YAML stream

A document is a tree of scalars, sequences and mappings. A node with an anchor can be repeated
further on, even inside itself, so a repetition only names the number of its node.
-/

namespace Schematic.Yaml

/-- A node of a document. -/
inductive Node where
  | scalar (tag : Option Text) (text : Text) (plain : Bool)
  | sequence (items : List Node)
  | mapping (members : List (Node × Node))
  /-- The node of an anchor; each repetition has its own number. -/
  | alias (number : Nat) (name : Text) (anchor : Nat)

/-- A scalar that is not written. -/
def Node.absent : Node :=
  .scalar none [] true

/-- A document. -/
structure Tree where
  /-- The outermost node, unless the stream is empty. -/
  root : Option Node
  /-- The nodes with an anchor by the numbers of their anchors. -/
  anchored : List (Nat × Node)
  /-- How many tokens the stream has. -/
  size : Nat

/-- A document being built. -/
structure Builder where
  rest : List Token
  /-- What the handles of tags stand for. -/
  handles : List (List Char × List Char) := []
  /-- The numbers of anchors by name, the latest one first. -/
  anchors : List (List Char × Nat) := []
  anchored : List (Nat × Node) := []
  /-- How many anchors and repetitions there were. -/
  count : Nat := 0

/-- A part of a document, read from the tokens in front. -/
abbrev Build (α : Type) := StateT Builder Option α

namespace Build

/-- The token in front. -/
def peek : Build Token := do
  (← get).rest.head?

/-- Passes over the token in front. -/
def skip : Build Unit :=
  modify fun b => { b with rest := b.rest.tail }

/-- Passes over the token in front if it is the given one. -/
def skipIf (t : Token) : Build Bool := do
  if (← peek) = t then skip; return true
  else return false

/-- Whether the comma is missing that divides a part of a flow collection from the one before. -/
def notDivided (first : Bool) : Build Bool :=
  if first then pure false else Bool.not <$> skipIf .flowEntry

/-- A number that was not given before. -/
def fresh : Build Nat := do
  let b ← get
  set { b with count := b.count + 1 }
  return b.count

/-- A repetition of the latest node with an anchor of this name. -/
def repetition (name : List Char) : Build Node := do
  let anchor ← (← get).anchors.lookup name
  return .alias (← fresh) (ofCharacters name) anchor

/-- An anchor's name, if there is one in front. -/
def anchor? : Build (Option (List Char)) := do
  match ← peek with
  | .anchor name => skip; return some name
  | _ => return none

/-- A tag, if there is one in front, with its handle put in full. -/
def tag? : Build (Option (List Char)) := do
  match ← peek with
  | .tag handle suffix =>
    skip
    if handle.isEmpty then return some suffix
    else
      let lead ← (← get).handles.lookup handle
      return some (lead ++ suffix)
  | _ => return none

/-- The lead of the tags that YAML itself defines. -/
def standardTag : Text :=
  "tag:yaml.org,2002:"

/-- A tag in its short form; the tag that says nothing counts as none. -/
def shortTag (tag : List Char) : Option Text :=
  let t := ofCharacters tag
  if t.isEmpty || t = ("!" : Text) then none
  else match Text.after? standardTag t with
    | some rest => some (Text.concat ["!!", rest])
    | none => some t

/-- Builds a node under an anchor, whose name is known inside it. -/
def anchored (name : Option (List Char)) (build : Build Node) : Build Node := do
  match name with
  | none => build
  | some name =>
    let number ← fresh
    modify fun b => { b with anchors := (name, number) :: b.anchors }
    let node ← build
    modify fun b => { b with anchored := (number, node) :: b.anchored }
    return node

/-- Tokens in front of which a part of a block mapping is absent. -/
def endsMember : Token → Bool
  | .key | .value | .blockEnd => true
  | _ => false

/-- The kinds of places that a node can have. -/
structure Place where
  /-- Whether block collections may stand here. -/
  block : Bool
  /-- Whether a block sequence may stand here without further indentation. -/
  unindented : Bool

/-- A member of a block mapping. -/
def Place.member : Place :=
  ⟨true, true⟩

/-- An item of a block sequence, or a whole document. -/
def Place.item : Place :=
  ⟨true, false⟩

/-- A part of a flow collection. -/
def Place.flow : Place :=
  ⟨false, false⟩

mutual

/-- Builds the node in front. -/
def node : (steps : Nat) → Place → Build Node
  | 0, _ => none
  | steps + 1, place => do
    match ← peek with
    | .alias name => skip; repetition name
    | _ =>
      let first ← anchor?
      let tag ← tag?
      let name ← if first.isSome then pure first else anchor?
      anchored name (content steps place (tag.bind shortTag) (name.isSome || tag.isSome))

/-- Builds what follows the anchor and the tag of a node; nothing has to if there are any. -/
def content : (steps : Nat) → Place → (tag : Option Text) → (mayBeAbsent : Bool) → Build Node
  | 0, _, _, _ => none
  | steps + 1, place, tag, mayBeAbsent => do
    match ← peek with
    | .scalar text plain => skip; return .scalar tag (ofCharacters text) plain
    | .flowSequence => skip; return .sequence (← flowItems steps true)
    | .flowMapping => skip; return .mapping (← flowMembers steps true)
    | .blockEntry =>
      if place.unindented then return .sequence (← unindentedItems steps)
      else if mayBeAbsent then return .scalar tag [] true
      else none
    | .blockSequence =>
      if place.block then skip; return .sequence (← blockItems steps)
      else if mayBeAbsent then return .scalar tag [] true
      else none
    | .blockMapping =>
      if place.block then skip; return .mapping (← blockMembers steps)
      else if mayBeAbsent then return .scalar tag [] true
      else none
    | _ => if mayBeAbsent then return .scalar tag [] true else none

/-- Builds the items of a block sequence and passes over its end. -/
def blockItems : (steps : Nat) → Build (List Node)
  | 0 => none
  | steps + 1 => do
    if ← skipIf .blockEntry then
      let t ← peek
      let item ←
        if t = .blockEntry || t = .blockEnd then pure Node.absent else node steps .item
      return item :: (← blockItems steps)
    else if ← skipIf .blockEnd then return []
    else none

/-- Builds the items of a block sequence that is not indented. -/
def unindentedItems : (steps : Nat) → Build (List Node)
  | 0 => none
  | steps + 1 => do
    if ← skipIf .blockEntry then
      let t ← peek
      let item ←
        if t = .blockEntry || endsMember t then pure Node.absent else node steps .item
      return item :: (← unindentedItems steps)
    else return []

/-- Builds the members of a block mapping and passes over its end. -/
def blockMembers : (steps : Nat) → Build (List (Node × Node))
  | 0 => none
  | steps + 1 => do
    if ← skipIf .key then
      let key ← if endsMember (← peek) then pure Node.absent else node steps .member
      let value ←
        if ← skipIf .value then
          if endsMember (← peek) then pure Node.absent else node steps .member
        else pure Node.absent
      return (key, value) :: (← blockMembers steps)
    else if ← skipIf .blockEnd then return []
    else none

/-- Builds the items of a flow sequence and passes over its end. -/
def flowItems : (steps : Nat) → (first : Bool) → Build (List Node)
  | 0, _ => none
  | steps + 1, first => do
    if ← skipIf .flowSequenceEnd then return []
    else if ← notDivided first then none
    else if ← skipIf .key then
      let pair ← flowPair steps
      return .mapping [pair] :: (← flowItems steps false)
    else if ← skipIf .flowSequenceEnd then return []
    else
      let item ← node steps .flow
      return item :: (← flowItems steps false)

/-- Builds a mapping of one member that stands in a flow sequence. -/
def flowPair : (steps : Nat) → Build (Node × Node)
  | 0 => none
  | steps + 1 => do
    let t ← peek
    let key ←
      if t = .value || t = .flowEntry || t = .flowSequenceEnd then skip; pure Node.absent
      else node steps .flow
    let value ←
      if ← skipIf .value then
        let t ← peek
        if t = .flowEntry || t = .flowSequenceEnd then pure Node.absent else node steps .flow
      else pure Node.absent
    return (key, value)

/-- Builds the members of a flow mapping and passes over its end. -/
def flowMembers : (steps : Nat) → (first : Bool) → Build (List (Node × Node))
  | 0, _ => none
  | steps + 1, first => do
    if ← skipIf .flowMappingEnd then return []
    else if ← notDivided first then none
    else if ← skipIf .key then
      let t ← peek
      let key ←
        if t = .value || t = .flowEntry || t = .flowMappingEnd then pure Node.absent
        else node steps .flow
      let value ←
        if ← skipIf .value then
          let t ← peek
          if t = .flowEntry || t = .flowMappingEnd then pure Node.absent else node steps .flow
        else pure Node.absent
      return (key, value) :: (← flowMembers steps false)
    else if ← skipIf .flowMappingEnd then return []
    else
      let key ← node steps .flow
      return (key, .absent) :: (← flowMembers steps false)

end

/-- Reads the directives in front of a document. There is one version, and a handle has one
meaning. -/
def directives : (steps : Nat) → (versioned : Bool) → Build Unit
  | 0, _ => none
  | steps + 1, versioned => do
    match ← peek with
    | .version major minor =>
      if versioned || major ≠ 1 || minor ≠ 1 then none
      else skip; directives steps true
    | .tagHandle handle uri =>
      let b ← get
      if (b.handles.lookup handle).isSome then none
      else
        set { b with rest := b.rest.tail, handles := (handle, uri) :: b.handles }
        directives steps versioned
    | _ => return

/-- The handles that need no directive. -/
def standardHandles : List (List Char × List Char) :=
  [(['!'], ['!']), (['!', '!'], "tag:yaml.org,2002:".toList)]

/-- Whether a document has no content in front of a token. -/
def endsDocument : Token → Bool
  | .version .. | .tagHandle .. | .documentStart | .documentEnd | .streamEnd => true
  | _ => false

/-- Builds the first document. -/
def document (steps : Nat) : Build (Option Node) := do
  let declare := modify fun b => { b with handles := b.handles ++ standardHandles }
  match ← peek with
  | .streamEnd => return none
  | .version .. | .tagHandle .. | .documentStart =>
    directives steps false
    declare
    if ← skipIf .documentStart then
      if endsDocument (← peek) then return some .absent
      else return some (← node steps .item)
    else none
  | _ =>
    declare
    return some (← node steps .item)

end Build

/-- The first document of a stream. The tokens up to the second one behind it have to be readable,
and none of the tokens before may be waiting for a colon when reading fails. -/
def Tree.ofTokens (ts : Scanner.Tokens) : Option Tree := do
  let size := ts.list.length
  let (root, b) ← (Build.document (4 * size + 4)).run { rest := ts.list }
  let left := b.rest.length
  if ts.complete || (3 ≤ left && ts.pending.all fun n => size - left < n) then
    return ⟨root, b.anchored, size⟩
  else none

/-- The first document of a text. -/
def Tree.ofText (t : Text) : Option Tree := do
  Tree.ofTokens (Scanner.read (← characters t))

end Schematic.Yaml
