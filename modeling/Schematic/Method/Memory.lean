import Schematic.Method.Run

/-!
# Methods in memory

The owning types hold structs by value, but a dynamic array refers to its elements, and these may be
anywhere: in an object of their own, in several arrays at once, or inside the very struct that holds
the array. Here the statements that set defaults run on a struct where it is.
-/

namespace Schematic

/-- A place in memory: an object and a path into it. -/
structure Address where
  object : Nat
  path : List Value.Step := []
  deriving Repr, DecidableEq

/-- The address at the end of a path from another one. -/
def Address.into (a : Address) (path : List Value.Step) : Address :=
  { a with path := a.path ++ path }

/-- Objects with what they hold by value. A dynamic array holds the numbers of the addresses of its
elements. -/
structure Memory where
  objects : List Value
  addresses : List Address := []
  deriving Repr

namespace Memory

/-- The value at an address. -/
def find? (m : Memory) (a : Address) : Option Value := do
  (← m.objects[a.object]?).find? a.path

/-- Changes the value at an address. -/
def change? (f : Value → Option Value) (a : Address) (m : Memory) : Option Memory := do
  let v ← m.objects[a.object]?
  return { m with objects := m.objects.set a.object (← v.change? f a.path) }

/-- The address that an item of a dynamic array stands for, unless it refers to nothing. -/
def target? (m : Memory) : Value → Option Address
  | .int i => m.addresses[i.toNat]?
  | _ => none

/-- The addresses that the dynamic array at an address refers to. -/
def targets? (m : Memory) (a : Address) : Option (List (Option Address)) := do
  return (← (← m.find? a).items?).map m.target?

/-- What the dynamic array at an address refers to. -/
def referents? (m : Memory) (a : Address) : Option (List (Option Value)) := do
  return (← m.targets? a).map fun target => do m.find? (← target)

end Memory

namespace Method

/-- The path to a place in a struct; the element of a loop is a copy and not part of it. -/
def Place.path? (index : Nat) : Place → Option (List Value.Step)
  | .member name => some [.member name]
  | .memberAt name => some [.member name, .item index]
  | .element => none

/-- Runs a simple statement that sets defaults on the struct at an address. -/
def DefaultStep.runAt (declared : List Text) (call : Qualified → Address → Memory → Option Memory)
    (a : Address) (index : Nat) (m : Memory) : DefaultStep → Option Memory
  | object p type => do call type (a.into (← p.path? index)) m
  | assign p token value => do
    m.change? (fun _ => Code.denoted? declared token value) (a.into (← p.path? index))

/-- Runs a statement that sets defaults on the struct at an address. -/
def DefaultStatement.runAt (declared : List Text)
    (call : Qualified → Address → Memory → Option Memory) (a : Address) (m : Memory) :
    DefaultStatement → Option Memory
  | step s => s.runAt declared call a 0 m
  | eachIndex member s => do
    let items ← (← m.find? (a.into [.member member])).items?
    (List.range items.length).foldlM (fun m i => s.runAt declared call a i m) m

end Method

namespace Schema

open Method

/-- Sets the defaults of the struct at an address, where methods call each other at most `depth`
deep. -/
def setDefaultsAtWithin (s : Schema) : (depth : Nat) → Qualified → Address → Memory → Option Memory
  | 0, _, _, _ => none
  | depth + 1, q, a, m => do
    let st ← s.struct? q
    st.defaults.foldlM (DefaultStatement.runAt s.ownedNames (s.setDefaultsAtWithin depth) a) m

/-- Sets the defaults of the struct at an address. -/
def setDefaultsAt (s : Schema) : Qualified → Address → Memory → Option Memory :=
  s.setDefaultsAtWithin (s.walk.length + 1)

end Schema

end Schematic
