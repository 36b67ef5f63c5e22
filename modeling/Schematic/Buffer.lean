import Schematic.Text.Decimal
import Schematic.Text.LittleEndian

/-!
# Relocatable buffers

Values are written one after the other. For data that is stored elsewhere a slot of eight bytes is
reserved and later resolved to the position of the data. A finished buffer holds the payload with
every slot filled in, then the offsets of the slots and their number, so that a reader can turn
offsets into addresses without knowing what the payload means.

An error stays: from then on nothing is written and finishing reports it.
-/

namespace Schematic

/-- A name for a reserved slot until it is resolved. -/
abbrev Handle := Nat

/-- Why a buffer cannot be finished. -/
inductive BufferError where
  | countTooLarge
  | tooLarge
  | unknownSlot (h : Handle)
  | unresolved (pending : Nat)
  deriving Repr, DecidableEq

namespace BufferError

/-- What is said of a buffer that cannot be finished. -/
def message : BufferError → Text
  | countTooLarge => "array too long: out of range"
  | tooLarge => "buffer exceeds 4GiB: out of range"
  | unknownSlot h =>
    Text.concat ["fixup ", Text.ofNat h, ": unknown or already resolved fixup"]
  | unresolved pending =>
    Text.concat [Text.ofNat pending, " pending: fixup created but never resolved"]

end BufferError

/-- Why data is no finished buffer. -/
inductive TableError where
  | corrupt
  deriving Repr, DecidableEq

/-- What is said of data that is no finished buffer. -/
def TableError.message : TableError → Text
  | corrupt => "corrupt relocation table"

/-- Why a buffer did not reach its receiver. -/
inductive DeliveryError where
  | unfinished (e : BufferError)
  | full
  deriving Repr, DecidableEq

/-- What is said of a buffer that did not reach its receiver. -/
def DeliveryError.message : DeliveryError → Text
  | unfinished e => e.message
  | full => "writer full"

/-- A slot that was resolved: where it stands and where its data starts. -/
structure Relocation where
  slot : Nat
  target : Nat
  deriving Repr, DecidableEq

/-- A buffer being written. -/
structure Buffer where
  /-- What is written so far; slots hold zeros. -/
  bytes : Text := []
  /-- The slots not yet resolved, with their positions. -/
  pending : List (Handle × Nat) := []
  /-- The slots resolved, in that order. -/
  resolved : List Relocation := []
  /-- The handle of the next slot. -/
  next : Handle := 0
  error : Option BufferError := none
  deriving Repr, DecidableEq

namespace Buffer

/-- The bytes of a slot. -/
def slotSize : Nat :=
  8

/-- How much is written. -/
def length (b : Buffer) : Nat :=
  b.bytes.length

/-- Records an error. -/
def fail (b : Buffer) (e : BufferError) : Buffer :=
  { b with error := some e }

/-- Does something unless there is an error. -/
def unlessFailed (b : Buffer) (act : Buffer → Buffer) : Buffer :=
  if b.error.isSome then b else act b

/-- Adds bytes at the end. -/
def append (b : Buffer) (t : Text) : Buffer :=
  b.unlessFailed fun b => { b with bytes := b.bytes ++ t }

/-- The two's complement of an integer in 32 bits. -/
def word32 (i : Int) : Nat :=
  (i % 0x100000000).toNat

/-- One byte. -/
def writeBool (b : Buffer) (v : Bool) : Buffer :=
  b.append [if v then 1 else 0]

/-- Four bytes. -/
def writeInt32 (b : Buffer) (i : Int) : Buffer :=
  b.append (Text.littleEndian 4 (word32 i))

/-- The bit pattern of a number of single precision. -/
def writeFloat32 (b : Buffer) (bits : Nat) : Buffer :=
  b.append (Text.littleEndian 4 bits)

/-- The bytes of a text and a zero behind them. -/
def writeString (b : Buffer) (t : Text) : Buffer :=
  b.append (t ++ [0])

/-- The length of an array, which has to fit 32 bits. -/
def writeCount (b : Buffer) (n : Int) : Buffer :=
  b.unlessFailed fun b =>
    if Text.fitsWord 32 n then b.writeInt32 n else b.fail .countTooLarge

/-- Whether the end of the buffer can still be pointed at. -/
def inReach (b : Buffer) : Bool :=
  b.length < 0x100000000

/-- Reserves a slot; after an error the handle is zero. -/
def create (b : Buffer) : Handle × Buffer :=
  if b.error.isSome then (0, b)
  else if b.inReach then
    (b.next,
      { b with
        bytes := b.bytes ++ List.replicate slotSize 0
        pending := b.pending ++ [(b.next, b.length)]
        next := b.next + 1 })
  else (0, b.fail .tooLarge)

/-- Resolves a slot to the current position. -/
def insert (b : Buffer) (h : Handle) : Buffer :=
  b.unlessFailed fun b =>
    match b.pending.lookup h with
    | none => b.fail (.unknownSlot h)
    | some slot =>
      if b.inReach then
        { b with
          pending := b.pending.filter fun p => p.1 ≠ h
          resolved := b.resolved ++ [⟨slot, b.length⟩] }
      else b.fail .tooLarge

/-- The offsets of the resolved slots, in the order of resolution. -/
def relocations (b : Buffer) : List Nat :=
  b.resolved.map Relocation.slot

/-- The bytes with one slot filled in. -/
def patch (bytes : Text) (r : Relocation) : Text :=
  bytes.take r.slot ++ Text.littleEndian slotSize r.target ++ bytes.drop (r.slot + slotSize)

/-- The bytes with every slot filled in. -/
def payload (b : Buffer) : Text :=
  b.resolved.foldl patch b.bytes

/-- Offsets as words, and their number. -/
def table (slots : List Nat) : Text :=
  slots.flatMap (Text.littleEndian 4) ++ Text.littleEndian 4 slots.length

/-- The payload and the table of its slots. -/
def finish (b : Buffer) : Except BufferError Text :=
  match b.error with
  | some e => .error e
  | none =>
    if b.pending.isEmpty then .ok (b.payload ++ table b.relocations)
    else .error (.unresolved b.pending.length)

/-- The payload and the slots of a finished buffer, if the table fits the data. -/
def split (data : Text) : Except TableError (Text × List Nat) :=
  if data.length < 4 then .error .corrupt
  else
    let count := Text.ofLittleEndian (data.drop (data.length - 4))
    if data.length < 4 + 4 * count then .error .corrupt
    else
      let start := data.length - 4 - 4 * count
      let slots := Text.words32 ((data.drop start).take (4 * count))
      if slots.all fun slot => slot + slotSize ≤ start then .ok (data.take start, slots)
      else .error .corrupt

/-- What a receiver of limited capacity took of a finished buffer. -/
structure Delivery where
  taken : Text
  error : Option DeliveryError
  deriving Repr, DecidableEq

/-- Hands the finished buffer to a receiver; without a capacity it takes everything. -/
def deliver (b : Buffer) (capacity : Option Nat) : Delivery :=
  match b.finish with
  | .error e => ⟨[], some (.unfinished e)⟩
  | .ok data =>
    match capacity with
    | none => ⟨data, none⟩
    | some n => if data.length ≤ n then ⟨data, none⟩ else ⟨data.take n, some .full⟩

end Buffer

end Schematic
