import Schematic.Buffer

/-!
# Operations on a buffer

What can be done to a buffer, as data.
-/

namespace Schematic.Buffer

/-- A step of writing a buffer. -/
inductive Operation where
  | bool (v : Bool)
  | int32 (i : Int)
  | float32 (bits : Nat)
  | string (t : Text)
  | count (n : Int)
  | create
  | insert (h : Handle)
  deriving Repr, DecidableEq

namespace Operation

/-- The buffer after a step. -/
def apply (b : Buffer) : Operation → Buffer
  | bool v => b.writeBool v
  | int32 i => b.writeInt32 i
  | float32 bits => b.writeFloat32 bits
  | string t => b.writeString t
  | count n => b.writeCount n
  | create => b.create.2
  | insert h => b.insert h

end Operation

/-- The buffer after a sequence of steps. -/
def run (b : Buffer) (steps : List Operation) : Buffer :=
  steps.foldl Operation.apply b

end Schematic.Buffer
