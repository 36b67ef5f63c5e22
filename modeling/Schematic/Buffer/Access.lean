import Schematic.Buffer

/-!
# Finished buffers, access by access

A finished buffer is taken apart in the order in which its bytes are looked at. Positions are
machine integers of 64 bits, which wrap around, and every access names the bytes it needs. To ask
for bytes outside of the data is a fault of its own, apart from what may be wrong with the table.
-/

namespace Schematic

/-- Why taking data apart stops. -/
inductive AccessFault where
  | outOfRange
  | table (e : TableError)
  deriving Repr, DecidableEq

namespace Buffer

/-- The bytes from one position up to another. -/
def slice (data : Text) (first last : Int64) : Except AccessFault Text :=
  if 0 ≤ first ∧ first ≤ last ∧ last.toInt ≤ data.length then
    .ok ((data.drop first.toInt.toNat).take (last.toInt.toNat - first.toInt.toNat))
  else .error .outOfRange

/-- The word that the first four bytes spell. -/
def firstWord : Text → Except AccessFault Nat
  | a :: b :: c :: d :: _ => .ok (Text.ofLittleEndian [a, b, c, d])
  | _ => .error .outOfRange

/-- So many entries of a table, from the one with the number `index` on. Each is held against the
payload before the next is read. -/
def entries (data payload : Text) (start : Int64) :
    (left : Nat) → (index : Int64) → Except AccessFault (List Nat)
  | 0, _ => .ok []
  | left + 1, index => do
    let position := start + 4 * index
    let slot ← firstWord (← slice data position (position + 4))
    if Int64.ofNat payload.length < Int64.ofNat slot + Int64.ofNat slotSize then
      .error (.table .corrupt)
    else
      let slots ← entries data payload start left (index + 1)
      return slot :: slots

/-- Where a table with so many entries starts; below zero if the data is too short for it. -/
def tableStart (data : Text) (count : Nat) : Int64 :=
  Int64.ofNat data.length - 4 - 4 * Int64.ofNat count

/-- The payload and the slots of a finished buffer. The number of slots stands at the end, and from
it follows where the table starts. -/
def cut (data : Text) : Except AccessFault (Text × List Nat) :=
  let length := Int64.ofNat data.length
  if length < 4 then .error (.table .corrupt)
  else do
    let count ← firstWord (← slice data (length - 4) length)
    if Int64.ofNat count < 0 ∨ tableStart data count < 0 then .error (.table .corrupt)
    else
      let payload ← slice data 0 (tableStart data count)
      let slots ← entries data payload (tableStart data count) count 0
      return (payload, slots)

end Buffer

end Schematic
