import Mathlib.Algebra.Group.Nat.Defs
import Mathlib.Data.List.Perm.Basic
import Mathlib.Data.Nat.Basic
import Schematic.Buffer.Operation
import Schematic.Proofs.Sequences

/-!
# Steps of a buffer

Every operation either takes one of three steps or leaves everything but the error as it is. All
that holds of the slots of a buffer, in whatever order it was written, follows from what these
steps do: slots never overlap, lie inside the buffer and point forward.
-/

namespace Schematic

namespace Buffer

namespace Operation

/-- The bytes that a step puts at the end; a slot is reserved as zeros. -/
def bytes : Operation → Text
  | bool v => [if v then 1 else 0]
  | int32 i => Text.littleEndian 4 (word32 i)
  | float32 bits => Text.littleEndian 4 bits
  | string t => t ++ [0]
  | count n => Text.littleEndian 4 (word32 n)
  | create => List.replicate slotSize 0
  | insert _ => []

/-- Whether a step only puts bytes at the end. -/
def isPlain : Operation → Bool
  | create => false
  | insert _ => false
  | _ => true

end Operation

/-- What an operation does to a buffer when it succeeds. -/
inductive Step (b : Buffer) : Operation → Buffer → Prop where
  | write {op : Operation} (sound : b.error = none) (plain : op.isPlain = true) :
      Step b op { b with bytes := b.bytes ++ op.bytes }
  | create (sound : b.error = none) (reach : b.length < 2 ^ 32) :
      Step b .create
        { b with
          bytes := b.bytes ++ List.replicate slotSize 0
          pending := b.pending ++ [(b.next, b.length)]
          next := b.next + 1 }
  | insert {h : Handle} {slot : Nat} (sound : b.error = none)
      (reserved : b.pending.lookup h = some slot) (reach : b.length < 2 ^ 32) :
      Step b (.insert h)
        { b with
          pending := b.pending.filter fun p => p.1 ≠ h
          resolved := b.resolved ++ [⟨slot, b.length⟩] }

theorem append_eq {b : Buffer} (sound : b.error = none) (t : Text) :
    b.append t = { b with bytes := b.bytes ++ t } := by
  simp [append, unlessFailed, sound]

theorem create_eq {b : Buffer} (sound : b.error = none) (reach : b.length < 2 ^ 32) :
    b.create =
      (b.next,
        { b with
          bytes := b.bytes ++ List.replicate slotSize 0
          pending := b.pending ++ [(b.next, b.length)]
          next := b.next + 1 }) := by
  have hreach : b.inReach = true := by simpa [inReach] using reach
  simp [create, sound, hreach]

theorem insert_eq {b : Buffer} {h : Handle} {slot : Nat} (sound : b.error = none)
    (reserved : b.pending.lookup h = some slot) (reach : b.length < 2 ^ 32) :
    b.insert h =
      { b with
        pending := b.pending.filter fun p => p.1 ≠ h
        resolved := b.resolved ++ [⟨slot, b.length⟩] } := by
  have hreach : b.inReach = true := by simpa [inReach] using reach
  simp [insert, unlessFailed, sound, reserved, hreach]

theorem writeCount_of_not_fits {b : Buffer} {n : Int} (sound : b.error = none)
    (large : Text.fitsWord 32 n = false) : b.writeCount n = b.fail .countTooLarge := by
  simp [writeCount, unlessFailed, sound, large]

theorem create_of_far {b : Buffer} (sound : b.error = none) (far : 2 ^ 32 ≤ b.length) :
    b.create = (0, b.fail .tooLarge) := by
  have hreach : b.inReach = false := by simpa [inReach] using far
  simp [create, sound, hreach]

theorem insert_of_unknown {b : Buffer} {h : Handle} (sound : b.error = none)
    (unknown : b.pending.lookup h = none) : b.insert h = b.fail (.unknownSlot h) := by
  simp [insert, unlessFailed, sound, unknown]

theorem insert_of_far {b : Buffer} {h : Handle} {slot : Nat} (sound : b.error = none)
    (reserved : b.pending.lookup h = some slot) (far : 2 ^ 32 ≤ b.length) :
    b.insert h = b.fail .tooLarge := by
  have hreach : b.inReach = false := by simpa [inReach] using far
  simp [insert, unlessFailed, sound, reserved, hreach]

/-- A step that only puts bytes at the end, which a count does when it fits. -/
theorem apply_plain {b : Buffer} {op : Operation} (sound : b.error = none)
    (plain : op.isPlain = true) (fits : ∀ n, op = .count n → Text.fitsWord 32 n = true) :
    op.apply b = { b with bytes := b.bytes ++ op.bytes } := by
  cases op with
  | bool v => exact append_eq sound _
  | int32 i => exact append_eq sound _
  | float32 bits => exact append_eq sound _
  | string t => exact append_eq sound _
  | count n =>
      have hfits := fits n rfl
      simp [Operation.apply, writeCount, unlessFailed, sound, hfits, writeInt32,
        append_eq sound, Operation.bytes]
  | create => exact absurd plain (by simp [Operation.isPlain])
  | insert h => exact absurd plain (by simp [Operation.isPlain])

/-- After an error nothing changes any more. -/
theorem apply_of_error {b : Buffer} {e : BufferError} (failed : b.error = some e)
    (op : Operation) : op.apply b = b := by
  cases op <;>
    simp [Operation.apply, writeBool, writeInt32, writeFloat32, writeString, writeCount, create,
      insert, append, unlessFailed, failed]

/-- An operation only puts bytes at the end, or it is a count that does not fit, or it is about a
slot. -/
theorem Operation.kinds (op : Operation) :
    (op.isPlain = true ∧ ∀ n, op = .count n → Text.fitsWord 32 n = true) ∨
      (∃ n, op = .count n ∧ Text.fitsWord 32 n = false) ∨ op = .create ∨ ∃ h, op = .insert h := by
  cases op with
  | count n =>
      cases hfits : Text.fitsWord 32 n with
      | true => exact Or.inl ⟨rfl, by simpa using hfits⟩
      | false => exact Or.inr (Or.inl ⟨n, rfl, hfits⟩)
  | create => exact Or.inr (Or.inr (Or.inl rfl))
  | insert h => exact Or.inr (Or.inr (Or.inr ⟨h, rfl⟩))
  | _ => exact Or.inl ⟨rfl, by simp⟩

/-- An operation takes its step, or it changes nothing but the error. -/
theorem apply_cases (b : Buffer) (op : Operation) :
    Step b op (op.apply b) ∨ ∃ e, op.apply b = { b with error := some e } := by
  cases sound : b.error with
  | some e =>
      refine Or.inr ⟨e, ?_⟩
      rw [apply_of_error sound, ← sound]
  | none =>
      obtain ⟨plain, fits⟩ | ⟨n, rfl, large⟩ | rfl | ⟨h, rfl⟩ := op.kinds
      · rw [apply_plain sound plain fits]
        exact Or.inl (Step.write sound plain)
      · exact Or.inr ⟨.countTooLarge, writeCount_of_not_fits sound large⟩
      · rw [Operation.apply]
        by_cases reach : b.length < 2 ^ 32
        · rw [create_eq sound reach]
          exact Or.inl (Step.create sound reach)
        · rw [create_of_far sound (Nat.le_of_not_lt reach)]
          exact Or.inr ⟨.tooLarge, rfl⟩
      · rw [Operation.apply]
        cases reserved : b.pending.lookup h with
        | none => exact Or.inr ⟨.unknownSlot h, insert_of_unknown sound reserved⟩
        | some slot =>
            by_cases reach : b.length < 2 ^ 32
            · rw [insert_eq sound reserved reach]
              exact Or.inl (Step.insert sound reserved reach)
            · exact Or.inr ⟨.tooLarge, insert_of_far sound reserved (Nat.le_of_not_lt reach)⟩

/-- Without an error afterwards, the operation took its step. -/
theorem step_of_apply {b : Buffer} {op : Operation} (h : (op.apply b).error = none) :
    Step b op (op.apply b) := by
  rcases apply_cases b op with hstep | ⟨e, he⟩
  · exact hstep
  · rw [he] at h
    exact absurd h (by simp)

theorem Step.sound {b b' : Buffer} {op : Operation} (h : Step b op b') : b.error = none := by
  cases h <;> assumption

theorem error_of_apply {b : Buffer} {op : Operation} (h : (op.apply b).error = none) :
    b.error = none :=
  (step_of_apply h).sound

theorem Step.create_inv {b b' : Buffer} (h : Step b .create b') :
    b.length < 2 ^ 32 ∧ b' =
      { b with
        bytes := b.bytes ++ List.replicate slotSize 0
        pending := b.pending ++ [(b.next, b.length)]
        next := b.next + 1 } := by
  cases h with
  | write _ plain => exact absurd plain (by simp [Operation.isPlain])
  | create _ reach => exact ⟨reach, rfl⟩

theorem Step.insert_inv {b b' : Buffer} {h : Handle} (hstep : Step b (.insert h) b') :
    ∃ slot, b.pending.lookup h = some slot ∧ b' =
      { b with
        pending := b.pending.filter fun p => p.1 ≠ h
        resolved := b.resolved ++ [⟨slot, b.length⟩] } := by
  cases hstep with
  | write _ plain => exact absurd plain (by simp [Operation.isPlain])
  | @insert _ slot _ reserved _ => exact ⟨slot, reserved, rfl⟩

/-! ## Slots -/

/-- Two slots that share no byte. -/
def Apart (a c : Nat) : Prop :=
  a + slotSize ≤ c ∨ c + slotSize ≤ a

theorem Apart.symm {a c : Nat} (h : Apart a c) : Apart c a :=
  Or.symm h

/-- The positions of all slots, those not yet resolved first. -/
def slots (b : Buffer) : List Nat :=
  b.pending.map Prod.snd ++ b.relocations

/-- What holds of every buffer that was written by operations. -/
structure Consistent (b : Buffer) : Prop where
  handles_nodup : (b.pending.map Prod.fst).Nodup
  handle_lt : ∀ p ∈ b.pending, p.1 < b.next
  apart : b.slots.Pairwise Apart
  inside : ∀ slot ∈ b.slots, slot + slotSize ≤ b.length
  forward : ∀ r ∈ b.resolved, r.slot + slotSize ≤ r.target ∧ r.target ≤ b.length
  count : b.pending.length + b.resolved.length = b.next
  room : slotSize * b.next ≤ b.length

theorem consistent_empty : Consistent {} := by
  constructor <;> simp [slots, relocations]

theorem mem_of_lookup {b : Buffer} {h : Handle} {slot : Nat}
    (reserved : b.pending.lookup h = some slot) : (h, slot) ∈ b.pending := by
  obtain ⟨before, after, hsplit, _⟩ := List.lookup_eq_some_iff.mp reserved
  simp [hsplit]

/-- A handle finds the slot that stands with it, and without that slot the others are left. -/
theorem pending_middle {b : Buffer} {h : Handle} {slot : Nat} {before after : List (Handle × Nat)}
    (nodup : (b.pending.map Prod.fst).Nodup) (hsplit : b.pending = before ++ (h, slot) :: after) :
    b.pending.lookup h = some slot ∧
      (b.pending.filter fun p => p.1 ≠ h) = before ++ after := by
  refine ⟨lookup_of_mem nodup (p := (h, slot)) (by simp [hsplit]), ?_⟩
  rw [hsplit, List.map_append, List.map_cons, List.nodup_middle, List.nodup_cons] at nodup
  have hother : ∀ p ∈ before ++ after, p.1 ≠ h := by
    intro p hp heq
    apply nodup.1
    rw [← List.map_append]
    exact List.mem_map.mpr ⟨p, hp, heq⟩
  rw [hsplit, List.filter_append, List.filter_cons_of_neg (by simp), ← List.filter_append]
  exact List.filter_eq_self.mpr fun p hp => by simpa using hother p hp

/-- Where the slot of a handle stands among those not yet resolved, and what is left without it. -/
theorem pending_split {b : Buffer} {h : Handle} {slot : Nat}
    (nodup : (b.pending.map Prod.fst).Nodup) (reserved : b.pending.lookup h = some slot) :
    ∃ before after, b.pending = before ++ (h, slot) :: after ∧
      (b.pending.filter fun p => p.1 ≠ h) = before ++ after := by
  obtain ⟨before, after, hsplit, _⟩ := List.lookup_eq_some_iff.mp reserved
  exact ⟨before, after, hsplit, (pending_middle nodup hsplit).2⟩

theorem slots_perm_create (b : Buffer) :
    (slots { b with
      bytes := b.bytes ++ List.replicate slotSize 0
      pending := b.pending ++ [(b.next, b.length)]
      next := b.next + 1 }).Perm (b.length :: b.slots) := by
  simp only [slots, relocations, List.map_append, List.map_cons, List.map_nil, List.append_assoc]
  exact List.perm_middle

/-- Resolving a slot only moves it among the slots. -/
theorem slots_perm_insert {b : Buffer} {h : Handle} {slot : Nat} (target : Nat)
    (nodup : (b.pending.map Prod.fst).Nodup) (reserved : b.pending.lookup h = some slot) :
    (slots { b with
      pending := b.pending.filter fun p => p.1 ≠ h
      resolved := b.resolved ++ [⟨slot, target⟩] }).Perm b.slots := by
  obtain ⟨before, after, hsplit, hrest⟩ := pending_split nodup reserved
  simp only [slots, relocations, hrest]
  simp only [hsplit, List.map_append, List.map_cons, List.map_nil]
  rw [← List.append_assoc]
  refine (List.perm_append_singleton _ _).trans ?_
  rw [List.append_assoc, List.append_assoc]
  exact List.perm_middle.symm

namespace Consistent

variable {b b' : Buffer} {op : Operation}

theorem write (hb : b.Consistent) (t : Text) :
    Consistent { b with bytes := b.bytes ++ t } := by
  have hlen : b.length ≤ ({ b with bytes := b.bytes ++ t } : Buffer).length := by
    simp [length]
  exact
    { handles_nodup := hb.handles_nodup
      handle_lt := hb.handle_lt
      apart := hb.apart
      inside := fun slot hslot => Nat.le_trans (hb.inside slot hslot) hlen
      forward := fun r hr => ⟨(hb.forward r hr).1, Nat.le_trans (hb.forward r hr).2 hlen⟩
      count := hb.count
      room := Nat.le_trans hb.room hlen }

/-- A new slot lies behind all others and has a handle of its own. -/
theorem reserve (hb : b.Consistent) :
    Consistent { b with
      bytes := b.bytes ++ List.replicate slotSize 0
      pending := b.pending ++ [(b.next, b.length)]
      next := b.next + 1 } := by
  have hfresh : b.next ∉ b.pending.map Prod.fst := by
    intro hmem
    obtain ⟨p, hp, heq⟩ := List.mem_map.mp hmem
    exact Nat.lt_irrefl _ (heq ▸ hb.handle_lt p hp)
  have hperm := slots_perm_create b
  refine ⟨?_, ?_, ?_, ?_, ?_, ?_, ?_⟩
  · rw [List.map_append, List.nodup_append]
    refine ⟨hb.handles_nodup, by simp, ?_⟩
    intro h hh h' hh' heq
    rw [List.map_singleton, List.mem_singleton] at hh'
    rw [heq, hh'] at hh
    exact hfresh hh
  · intro p hp
    rcases List.mem_append.mp hp with hp | hp
    · exact Nat.lt_succ_of_lt (hb.handle_lt p hp)
    · rw [List.mem_singleton.mp hp]
      exact Nat.lt_succ_self _
  · refine (hperm.pairwise_iff Apart.symm).mpr (List.pairwise_cons.mpr ⟨?_, hb.apart⟩)
    exact fun slot hslot => Or.inr (hb.inside slot hslot)
  · intro slot hslot
    rcases List.mem_cons.mp (hperm.mem_iff.mp hslot) with rfl | hslot
    · simp [length]
    · have := hb.inside slot hslot
      simp only [length, List.length_append] at this ⊢
      omega
  · intro r hr
    have := hb.forward r hr
    simp only [length, List.length_append] at this ⊢
    omega
  · have := hb.count
    simp only [List.length_append, List.length_singleton]
    omega
  · have := hb.room
    simp only [length, slotSize, List.length_append, List.length_replicate] at this ⊢
    omega

/-- A resolved slot stays where it is and points behind itself. -/
theorem resolve (hb : b.Consistent) {h : Handle} {slot : Nat}
    (reserved : b.pending.lookup h = some slot) :
    Consistent { b with
      pending := b.pending.filter fun p => p.1 ≠ h
      resolved := b.resolved ++ [⟨slot, b.length⟩] } := by
  have hperm := slots_perm_insert b.length hb.handles_nodup reserved
  obtain ⟨before, after, hsplit, hrest⟩ := pending_split hb.handles_nodup reserved
  refine ⟨?_, ?_, ?_, ?_, ?_, ?_, hb.room⟩
  · exact hb.handles_nodup.sublist (List.filter_sublist.map _)
  · exact fun p hp => hb.handle_lt p (List.mem_of_mem_filter hp)
  · exact (hperm.pairwise_iff Apart.symm).mpr hb.apart
  · exact fun a ha => hb.inside a (hperm.mem_iff.mp ha)
  · intro r hr
    rcases List.mem_append.mp hr with hr | hr
    · exact hb.forward r hr
    · rw [List.mem_singleton.mp hr]
      have hmem : slot ∈ b.slots := by
        simp [slots, hsplit]
      exact ⟨hb.inside slot hmem, le_rfl⟩
  · have := hb.count
    simp only [hsplit, List.length_append, List.length_cons] at this
    simp only [hrest, List.length_append, List.length_singleton]
    omega

/-- Every step keeps the buffer consistent. -/
theorem step (hb : b.Consistent) (hstep : Step b op b') : b'.Consistent := by
  cases hstep with
  | write _ _ => exact hb.write op.bytes
  | create _ _ => exact hb.reserve
  | insert _ reserved _ => exact hb.resolve reserved

/-- A handle belongs to one slot. -/
theorem slot_unique (hb : b.Consistent) {h : Handle} {a c : Nat} (ha : (h, a) ∈ b.pending)
    (hc : (h, c) ∈ b.pending) : a = c := by
  have heq := List.inj_on_of_nodup_map hb.handles_nodup ha hc rfl
  exact congrArg Prod.snd heq

theorem apply (hb : b.Consistent) (op : Operation) : (op.apply b).Consistent := by
  rcases apply_cases b op with hstep | ⟨e, he⟩
  · exact hb.step hstep
  · rw [he]
    exact ⟨hb.handles_nodup, hb.handle_lt, hb.apart, hb.inside, hb.forward, hb.count,
      hb.room⟩

/-- Every run keeps the buffer consistent. -/
theorem run (hb : b.Consistent) (steps : List Operation) : (b.run steps).Consistent := by
  induction steps generalizing b with
  | nil => exact hb
  | cons op steps ih => exact ih (hb.apply op)

end Consistent

/-! ## Runs -/

theorem run_append (b : Buffer) (first second : List Operation) :
    b.run (first ++ second) = (b.run first).run second :=
  List.foldl_append

theorem run_concat (b : Buffer) (steps : List Operation) (op : Operation) :
    b.run (steps ++ [op]) = op.apply (b.run steps) :=
  run_append b steps [op]

theorem run_of_error {b : Buffer} {e : BufferError} (failed : b.error = some e)
    (steps : List Operation) : b.run steps = b := by
  induction steps with
  | nil => rfl
  | cons op steps ih =>
      change (op.apply b).run steps = b
      rw [apply_of_error failed, ih]

/-- Errors stay, so without an error at the end there was none before. -/
theorem error_of_run {b : Buffer} {steps : List Operation} (h : (b.run steps).error = none) :
    b.error = none := by
  cases failed : b.error with
  | none => rfl
  | some e =>
      rw [run_of_error failed, failed] at h
      exact h

/-- What a buffer keeps of an earlier one: nothing written or resolved is taken back, and slots
come only behind what was there. -/
structure Grows (b b' : Buffer) : Prop where
  bytes : b.bytes <+: b'.bytes
  resolved : b.resolved <+: b'.resolved
  next : b.next ≤ b'.next
  pending : ∀ p ∈ b'.pending, p ∈ b.pending ∨ b.next ≤ p.1 ∧ b.length ≤ p.2
  slot : ∀ r ∈ b'.resolved,
    r ∈ b.resolved ∨ r.slot ∈ b.pending.map Prod.snd ∨ b.length ≤ r.slot

namespace Grows

variable {a b c : Buffer}

theorem refl (b : Buffer) : Grows b b :=
  ⟨List.prefix_rfl, List.prefix_rfl, Nat.le_refl _, fun _ hp => Or.inl hp, fun _ hr => Or.inl hr⟩

theorem length_le (h : Grows a b) : a.length ≤ b.length :=
  h.bytes.length_le

theorem trans (hab : Grows a b) (hbc : Grows b c) : Grows a c := by
  have hlen := hab.length_le
  refine ⟨hab.bytes.trans hbc.bytes, hab.resolved.trans hbc.resolved,
    Nat.le_trans hab.next hbc.next, ?_, ?_⟩
  · intro p hp
    rcases hbc.pending p hp with hp | ⟨hnext, hpos⟩
    · exact hab.pending p hp
    · exact Or.inr ⟨Nat.le_trans hab.next hnext, Nat.le_trans hlen hpos⟩
  · intro r hr
    rcases hbc.slot r hr with hr | hr | hr
    · exact hab.slot r hr
    · obtain ⟨p, hp, heq⟩ := List.mem_map.mp hr
      rcases hab.pending p hp with hp | ⟨_, hpos⟩
      · exact Or.inr (Or.inl (List.mem_map.mpr ⟨p, hp, heq⟩))
      · exact Or.inr (Or.inr (heq ▸ hpos))
    · exact Or.inr (Or.inr (Nat.le_trans hlen hr))

theorem step {op : Operation} (hstep : Step a op b) : Grows a b := by
  cases hstep with
  | write sound plain =>
      exact ⟨List.prefix_append _ _, List.prefix_rfl, Nat.le_refl _, fun _ hp => Or.inl hp,
        fun _ hr => Or.inl hr⟩
  | create sound reach =>
      refine ⟨List.prefix_append _ _, List.prefix_rfl, Nat.le_succ _, ?_, fun _ hr => Or.inl hr⟩
      intro p hp
      rcases List.mem_append.mp hp with hp | hp
      · exact Or.inl hp
      · rw [List.mem_singleton.mp hp]
        exact Or.inr ⟨Nat.le_refl _, Nat.le_refl _⟩
  | @insert h slot sound reserved reach =>
      refine ⟨List.prefix_rfl, List.prefix_append _ _, Nat.le_refl _,
        fun p hp => Or.inl (List.mem_of_mem_filter hp), ?_⟩
      intro r hr
      rcases List.mem_append.mp hr with hr | hr
      · exact Or.inl hr
      · rw [List.mem_singleton.mp hr]
        exact Or.inr (Or.inl (List.mem_map.mpr ⟨(h, slot), mem_of_lookup reserved, rfl⟩))

theorem apply (b : Buffer) (op : Operation) : Grows b (op.apply b) := by
  rcases apply_cases b op with hstep | ⟨e, he⟩
  · exact step hstep
  · rw [he]
    exact ⟨List.prefix_rfl, List.prefix_rfl, Nat.le_refl _, fun _ hp => Or.inl hp,
      fun _ hr => Or.inl hr⟩

theorem run (b : Buffer) (steps : List Operation) : Grows b (b.run steps) := by
  induction steps generalizing b with
  | nil => exact refl b
  | cons op steps ih => exact (apply b op).trans (ih (op.apply b))

end Grows

/-- All bytes that a sequence of steps puts at the end, as they are put there first. -/
def written (steps : List Operation) : Text :=
  steps.flatMap Operation.bytes

theorem Step.bytes_eq {b b' : Buffer} {op : Operation} (h : Step b op b') :
    b'.bytes = b.bytes ++ op.bytes := by
  cases h with
  | write sound plain => rfl
  | create sound reach => rfl
  | insert sound reserved reach => exact (List.append_nil _).symm

/-- Without an error, exactly what was written stands behind what was there before. -/
theorem bytes_run {b : Buffer} {steps : List Operation} (h : (b.run steps).error = none) :
    (b.run steps).bytes = b.bytes ++ written steps := by
  induction steps generalizing b with
  | nil => exact (List.append_nil _).symm
  | cons op steps ih =>
      have hop : (op.apply b).error = none := error_of_run h
      calc
        (b.run (op :: steps)).bytes = (op.apply b).bytes ++ written steps := ih h
        _ = b.bytes ++ op.bytes ++ written steps := by rw [(step_of_apply hop).bytes_eq]
        _ = b.bytes ++ written (op :: steps) := List.append_assoc _ _ _

end Buffer

end Schematic
