import Schematic.Code.Constant
import Schematic.Method.Defaults
import Schematic.Method.Serializer
import Schematic.Schema.Check

/-!
# Running methods

The meaning of the statements of generated methods: a serializer turns a buffer into a buffer, and
setting defaults turns a value into a value. Running a method on a value that is not of its struct
has no result.
-/

namespace Schematic.Method

/-- Writes a plain value. -/
def Plain.write (b : Buffer) : Plain → Value → Option Buffer
  | .bool, .bool v => some (b.writeBool v)
  | .int32, .int i => some (b.writeInt32 i)
  | .float32, .float bits => some (b.writeFloat32 bits)
  | .string, .string t => some (b.writeString t)
  | .enumeration, .int i => some (b.writeInt32 i)
  | _, _ => none

/-- A serializer at work: the struct it writes, where its loops stand, and the handles of its
slots. -/
structure Writing where
  members : List (Text × Value)
  index : Nat := 0
  element : Value := .absent
  handles : List ((Text × Nat) × Handle) := []
  elementHandle : Option Handle := none
  buffer : Buffer
  deriving Repr

namespace Writing

/-- The value in a place. -/
def read (w : Writing) (p : Place) : Option Value :=
  p.read w.members w.index w.element

/-- The items of a member that is an array. -/
def items (w : Writing) (member : Text) : Option (List Value) := do
  (← w.members.lookup member).items?

/-- The handle in a variable. -/
def handle (w : Writing) : Slot → Option Handle
  | .field name => w.handles.lookup (name, 0)
  | .fieldAt name => w.handles.lookup (name, w.index)
  | .element => w.elementHandle

/-- Puts a handle into a variable. -/
def keep (w : Writing) (h : Handle) : Slot → Writing
  | .field name => { w with handles := ((name, 0), h) :: w.handles }
  | .fieldAt name => { w with handles := ((name, w.index), h) :: w.handles }
  | .element => { w with elementHandle := some h }

/-- Reserves a slot and keeps its handle in a variable. -/
def reserve (w : Writing) (s : Slot) : Writing :=
  let (h, b) := w.buffer.create
  { w.keep h s with buffer := b }

end Writing

/-- What a method needs of the schema: the value a struct starts with, and how structs are
written. -/
structure Callees where
  zero : Qualified → Value
  serialize : Qualified → Value → Buffer → Option Buffer

/-- Runs a simple statement. -/
def WriteStep.run (c : Callees) (w : Writing) : WriteStep → Option Writing
  | value kind p => do
    let v ← w.read p
    return { w with buffer := ← kind.write w.buffer v }
  | object p type => do
    let v ← w.read p
    return { w with buffer := ← c.serialize type v w.buffer }
  | count member => do
    let items ← w.items member
    return { w with buffer := w.buffer.writeCount items.length }
  | reserve s => some (w.reserve s)
  | resolve s => do
    let h ← w.handle s
    return { w with buffer := w.buffer.insert h }
  | orNew type =>
    some (if w.element.isAbsent then { w with element := c.zero type } else w)

/-- Runs simple statements in order. -/
def WriteStep.runAll (c : Callees) (w : Writing) (steps : List WriteStep) : Option Writing :=
  steps.foldlM (WriteStep.run c) w

/-- Runs a statement. -/
def WriteStatement.run (c : Callees) (w : Writing) : WriteStatement → Option Writing
  | step s => s.run c w
  | reserveEach name count =>
    some ((List.range count.toNat).foldl
      (fun w i => { w with index := i }.reserve (.fieldAt name)) w)
  | eachIndex member body => do
    let items ← w.items member
    (List.range items.length).foldlM
      (fun w i => WriteStep.runAll c { w with index := i } body) w
  | eachElement member body => do
    let items ← w.items member
    items.foldlM (fun w v => WriteStep.runAll c { w with element := v } body) w
  | remark _ => some w

/-- Runs a serializer on the members of a struct. -/
def runSerializer (c : Callees) (statements : List WriteStatement)
    (members : List (Text × Value)) (b : Buffer) : Option Buffer := do
  let w ← statements.foldlM (WriteStatement.run c) { members, buffer := b }
  return w.buffer

/-- Runs a simple statement that sets defaults, in a package that declares the given names; `call`
sets those of a struct. What is assigned is what the code denotes. -/
def DefaultStep.run (declared : List Text) (call : Qualified → Value → Option Value)
    (members : List (Text × Value)) (index : Nat) : DefaultStep → Option (List (Text × Value))
  | object p type => p.update members index (call type)
  | assign p token value => p.update members index fun _ => Code.denoted? declared token value

/-- Runs a statement that sets defaults. -/
def DefaultStatement.run (declared : List Text) (call : Qualified → Value → Option Value)
    (members : List (Text × Value)) : DefaultStatement → Option (List (Text × Value))
  | step s => s.run declared call members 0
  | eachIndex member s => do
    let items ← (← members.lookup member).items?
    (List.range items.length).foldlM (fun members i => s.run declared call members i) members

/-- Runs the statements that set the defaults of a struct. -/
def runDefaults (declared : List Text) (call : Qualified → Value → Option Value)
    (statements : List DefaultStatement) (members : List (Text × Value)) :
    Option (List (Text × Value)) :=
  statements.foldlM (DefaultStatement.run declared call) members

end Schematic.Method

namespace Schematic.Schema

open Method

/-- Writes a struct whose methods call each other at most `depth` deep. -/
def serializeWithin (s : Schema) : (depth : Nat) → Qualified → Value → Buffer → Option Buffer
  | 0, _, _, _ => none
  | depth + 1, q, v, b => do
    let st ← s.struct? q
    let members ← v.members?
    runSerializer ⟨s.zero, s.serializeWithin depth⟩ st.serializer members b

/-- Writes a struct. Each call goes to a part of the value or of a struct's first value, so the
depth is enough. -/
def serialize (s : Schema) (q : Qualified) (v : Value) (b : Buffer) : Option Buffer :=
  s.serializeWithin (v.depth + s.walk.length + 1) q v b

/-- The finished buffer of a struct. -/
def marshal (s : Schema) (q : Qualified) (v : Value) : Option (Except BufferError Text) :=
  (s.serialize q v {}).map Buffer.finish

/-- The names that the package of the owning types declares. -/
def ownedNames (s : Schema) : List Text :=
  (s.walk.flatMap structNames).map Declared.identifier

/-- Sets the defaults of a struct whose methods call each other at most `depth` deep. -/
def setDefaultsWithin (s : Schema) : (depth : Nat) → Qualified → Value → Option Value
  | 0, _, _ => none
  | depth + 1, q, v => do
    let st ← s.struct? q
    let members ← v.members?
    return .record (← runDefaults s.ownedNames (s.setDefaultsWithin depth) st.defaults members)

/-- Sets the defaults of a struct. -/
def setDefaults (s : Schema) (q : Qualified) (v : Value) : Option Value :=
  s.setDefaultsWithin (s.walk.length + 1) q v

/-- A new struct with its defaults. -/
def construct (s : Schema) (q : Qualified) : Option Value :=
  s.setDefaults q (s.zero q)

end Schematic.Schema
