import Schematic.Proofs.Payload

/-!
# Promises about payloads

Slots are filled in only at the end, so what a reader will find is not yet in the buffer. What can
be said while writing is a promise: however the writing goes on, the payload will have the
property. A promise once made is kept, which is what lets the pieces of a serializer be reasoned
about one at a time.
-/

namespace Schematic.Buffer

open Text

/-- A buffer that can still be written. -/
structure Live (b : Buffer) : Prop where
  sound : b.error = none
  consistent : b.Consistent

theorem live_empty : Live {} :=
  ⟨rfl, consistent_empty⟩

/-- Operations lead from one buffer to the other. -/
def Reaches (b b' : Buffer) : Prop :=
  ∃ steps : List Operation, b.run steps = b'

namespace Reaches

variable {a b c : Buffer}

theorem refl (b : Buffer) : Reaches b b :=
  ⟨[], rfl⟩

theorem trans (hab : Reaches a b) (hbc : Reaches b c) : Reaches a c := by
  obtain ⟨first, rfl⟩ := hab
  obtain ⟨second, rfl⟩ := hbc
  exact ⟨first ++ second, run_append a first second⟩

theorem apply (b : Buffer) (op : Operation) : Reaches b (op.apply b) :=
  ⟨[op], rfl⟩

theorem grows (h : Reaches a b) : Grows a b := by
  obtain ⟨steps, rfl⟩ := h
  exact Grows.run a steps

theorem length_le (h : Reaches a b) : a.length ≤ b.length :=
  h.grows.length_le

theorem consistent (h : Reaches a b) (ha : a.Consistent) : b.Consistent := by
  obtain ⟨steps, rfl⟩ := h
  exact ha.run steps

theorem addressable (h : Reaches a b) (ha : a.Consistent) (haddress : a.Addressable) :
    b.Addressable := by
  obtain ⟨steps, rfl⟩ := h
  exact haddress.run ha steps

end Reaches

/-- A payload that the buffer can end with when it is written further. -/
def Finishes (b : Buffer) (payload : Text) : Prop :=
  ∃ b' : Buffer, Reaches b b' ∧ b'.error = none ∧ b'.payload = payload

/-- Whatever is written next, the payload will have the property. -/
def Promises (b : Buffer) (property : Text → Prop) : Prop :=
  ∀ payload : Text, b.Finishes payload → property payload

theorem Finishes.earlier {b b' : Buffer} {payload : Text} (h : b'.Finishes payload)
    (hreach : Reaches b b') : b.Finishes payload := by
  obtain ⟨last, hlast, sound, heq⟩ := h
  exact ⟨last, hreach.trans hlast, sound, heq⟩

/-- A promise is kept. -/
theorem Promises.later {b b' : Buffer} {property : Text → Prop} (h : b.Promises property)
    (hreach : Reaches b b') : b'.Promises property :=
  fun payload hfinish => h payload (hfinish.earlier hreach)

namespace Live

variable {b : Buffer} {payload : Text}

/-- Nothing that is written is taken back. -/
theorem length_le_payload (hb : b.Live) (hfinish : b.Finishes payload) :
    b.length ≤ payload.length := by
  obtain ⟨b', hreach, _, rfl⟩ := hfinish
  rw [(hreach.consistent hb.consistent).length_payload]
  exact hreach.length_le

/-- A resolved slot will hold its target. -/
theorem payload_slot (hb : b.Live) {r : Relocation} (hr : r ∈ b.resolved)
    (hfinish : b.Finishes payload) :
    payload.StandsAt r.slot (littleEndian slotSize r.target) := by
  obtain ⟨b', hreach, _, rfl⟩ := hfinish
  exact (hreach.consistent hb.consistent).payload_slot (hreach.grows.resolved.subset hr)

/-- A byte outside of all slots will stay as it is. -/
theorem payload_outside (hb : b.Live) {i : Nat} (hi : i < b.length)
    (houtside : ∀ slot ∈ b.slots, ¬(slot ≤ i ∧ i < slot + slotSize))
    (hfinish : b.Finishes payload) : payload[i]? = b.bytes[i]? := by
  obtain ⟨b', hreach, _, rfl⟩ := hfinish
  have hgrows := hreach.grows
  have hpatched : b'.payload[i]? = b'.bytes[i]? := by
    apply (hreach.consistent hb.consistent).payload_outside
    intro r hr hcover
    rcases hgrows.slot r hr with hold | hpending | hlate
    · exact houtside r.slot (List.mem_append_right _ (List.mem_map_of_mem hold)) hcover
    · exact houtside r.slot (List.mem_append_left _ hpending) hcover
    · omega
  obtain ⟨more, hmore⟩ := hgrows.bytes
  rw [hpatched, ← hmore, List.getElem?_append_left hi]

end Live

/-! ## Leading from one buffer to another -/

/-- Operations lead from `b` to `b'`; unless the buffer has become too large to be pointed into,
`post` holds there if `pre` held before. -/
structure Leads (b b' : Buffer) (pre post : Prop) : Prop where
  reaches : Reaches b b'
  holds : b'.length < 2 ^ 32 → pre → post

/-- Leads from `b` to `b'` with every slot reserved on the way resolved, and with a promise. -/
def Settles (b b' : Buffer) (property : Text → Prop) : Prop :=
  Leads b b' b.Live (b'.Live ∧ b'.pending = b.pending ∧ b'.Promises property)

namespace Settles

variable {a b c : Buffer} {first second property : Text → Prop}

theorem refl (b : Buffer) (h : ∀ payload, property payload) : Settles b b property :=
  ⟨.refl b, fun _ hb => ⟨hb, rfl, fun payload _ => h payload⟩⟩

/-- Two promises, one after the other, make a third that follows from them. -/
theorem trans (hab : Settles a b first) (hbc : Settles b c second)
    (h : ∀ payload, a.length ≤ b.length → first payload → second payload → property payload) :
    Settles a c property := by
  refine ⟨hab.reaches.trans hbc.reaches, fun hsmall ha => ?_⟩
  have hle := hbc.reaches.length_le
  obtain ⟨hb, hpending, hfirst⟩ := hab.holds (Nat.lt_of_le_of_lt hle hsmall) ha
  obtain ⟨hc, hpending', hsecond⟩ := hbc.holds hsmall hb
  refine ⟨hc, hpending'.trans hpending, fun payload hfinish => ?_⟩
  exact h payload hab.reaches.length_le (hfirst.later hbc.reaches payload hfinish)
    (hsecond payload hfinish)

theorem mono (hab : Settles a b first) (h : ∀ payload, first payload → property payload) :
    Settles a b property := by
  refine ⟨hab.reaches, fun hsmall ha => ?_⟩
  obtain ⟨hb, hpending, hfirst⟩ := hab.holds hsmall ha
  exact ⟨hb, hpending, fun payload hfinish => h payload (hfirst payload hfinish)⟩

end Settles

/-! ## What the operations promise -/

/-- Bytes that are put at the end will stand there. -/
theorem settles_plain (b : Buffer) (op : Operation) (plain : op.isPlain = true)
    (fits : ∀ n, op = .count n → fitsWord 32 n = true) :
    Settles b (op.apply b) fun payload =>
      payload.StandsAt b.length op.bytes ∧ (op.apply b).length = b.length + op.bytes.length := by
  refine ⟨.apply b op, fun _ hb => ?_⟩
  have heq := apply_plain hb.sound plain fits
  have hlength : (op.apply b).length = b.length + op.bytes.length := by
    rw [heq]
    exact List.length_append
  have hlive : (op.apply b).Live := by
    refine ⟨?_, hb.consistent.apply op⟩
    rw [heq]
    exact hb.sound
  refine ⟨hlive, by rw [heq], fun payload hfinish => ⟨fun i hi => ?_, hlength⟩⟩
  have hslots : (op.apply b).slots = b.slots := by
    rw [heq]
    rfl
  have hbyte : payload[b.length + i]? = (op.apply b).bytes[b.length + i]? := by
    refine hlive.payload_outside (by omega) (fun slot hslot hcover => ?_) hfinish
    rw [hslots] at hslot
    have := hb.consistent.inside slot hslot
    omega
  rw [hbyte, heq]
  change (b.bytes ++ op.bytes)[b.bytes.length + i]? = op.bytes[i]?
  rw [List.getElem?_append_right (Nat.le_add_right _ _), Nat.add_sub_cancel_left]

/-- A reserved slot is the last one that waits. -/
theorem leads_create (b : Buffer) :
    Leads b b.create.2 b.Live
      (b.create.2.Live ∧ b.create.2.pending = b.pending ++ [(b.create.1, b.length)] ∧
        b.create.2.length = b.length + slotSize) := by
  refine ⟨.apply b .create, fun hsmall hb => ?_⟩
  have hle : b.length ≤ b.create.2.length := (Grows.apply b .create).length_le
  have hlive : b.create.2.Live := by
    refine ⟨?_, hb.consistent.apply .create⟩
    rw [create_eq hb.sound (Nat.lt_of_le_of_lt hle hsmall)]
    exact hb.sound
  refine ⟨hlive, ?_⟩
  rw [create_eq hb.sound (Nat.lt_of_le_of_lt hle hsmall)]
  exact ⟨rfl, by simp [length]⟩

/-- Resolving a slot that waits takes it away, and the slot will hold the current position. -/
theorem leads_insert (b : Buffer) (h : Handle) (slot : Nat) (before after : List (Handle × Nat)) :
    Leads b (b.insert h) (b.Live ∧ b.pending = before ++ (h, slot) :: after)
      ((b.insert h).Live ∧ (b.insert h).pending = before ++ after ∧
        (b.insert h).length = b.length ∧ slot + slotSize ≤ b.length ∧
        (b.insert h).Promises fun payload =>
          payload.StandsAt slot (littleEndian slotSize b.length)) := by
  refine ⟨.apply b (.insert h), fun hsmall ⟨hb, hpending⟩ => ?_⟩
  have hle : b.length ≤ (b.insert h).length := (Grows.apply b (.insert h)).length_le
  have hmem : (h, slot) ∈ b.pending := by
    rw [hpending]
    simp
  obtain ⟨hlookup, hrest⟩ := pending_middle hb.consistent.handles_nodup hpending
  have heq := insert_eq hb.sound hlookup (Nat.lt_of_le_of_lt hle hsmall)
  have hlive : (b.insert h).Live := by
    refine ⟨?_, hb.consistent.apply (.insert h)⟩
    rw [heq]
    exact hb.sound
  refine ⟨hlive, ?_, ?_, ?_, fun payload hfinish => ?_⟩
  · rw [heq]
    exact hrest
  · rw [heq]
    rfl
  · exact hb.consistent.inside slot (List.mem_append_left _ (List.mem_map.mpr ⟨_, hmem, rfl⟩))
  · refine hlive.payload_slot (r := ⟨slot, b.length⟩) ?_ hfinish
    rw [heq]
    simp

/-- A slot that is resolved at once will hold the position behind it. -/
theorem settles_slot (b : Buffer) :
    Settles b (b.create.2.insert b.create.1) fun payload =>
      payload.StandsAt b.length
          (littleEndian slotSize (b.create.2.insert b.create.1).length) ∧
        (b.create.2.insert b.create.1).length = b.length + slotSize ∧
        (b.create.2.insert b.create.1).length < 2 ^ 32 := by
  have hcreate := leads_create b
  have hinsert := leads_insert b.create.2 b.create.1 b.length b.pending []
  refine ⟨hcreate.reaches.trans hinsert.reaches, fun hsmall hb => ?_⟩
  have hle := hinsert.reaches.length_le
  obtain ⟨hb₁, hpending₁, hlength₁⟩ := hcreate.holds (Nat.lt_of_le_of_lt hle hsmall) hb
  obtain ⟨hb₂, hpending₂, hlength₂, _, hpromise⟩ := hinsert.holds hsmall ⟨hb₁, hpending₁⟩
  refine ⟨hb₂, by rw [hpending₂, List.append_nil], fun payload hfinish => ⟨?_, ?_, hsmall⟩⟩
  · rw [hlength₂]
    exact hpromise payload hfinish
  · rw [hlength₂, hlength₁]

end Schematic.Buffer
