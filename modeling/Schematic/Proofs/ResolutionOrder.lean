import Schematic.Proofs.Handles
import Schematic.Proofs.Promise

/-!
# The order of resolution

Slots that are resolved at one position all get the same target, so only the table can tell in which
order that was done. Main statement: whichever order is taken, and whatever is written afterwards,
the same error is reported, or else the payloads are equal and the tables have the same entries.
-/

namespace Schematic.Buffer

open Text

/-! ## Buffers that differ in that order -/

/-- Two buffers that differ at most in the order in which their slots were resolved. -/
structure SameUpToOrder (a b : Buffer) : Prop where
  bytes : a.bytes = b.bytes
  pending : a.pending = b.pending
  resolved : a.resolved.Perm b.resolved
  next : a.next = b.next
  error : a.error = b.error

/-- A buffer with other slots that are resolved. -/
def reordered (b : Buffer) (rs : List Relocation) : Buffer :=
  { b with resolved := rs }

theorem foldl_patch_perm {rs rs' : List Relocation} {t : Text} (perm : rs.Perm rs')
    (apart : (rs.map Relocation.slot).Pairwise Apart)
    (inside : ∀ r ∈ rs, r.slot + slotSize ≤ t.length) :
    rs.foldl patch t = rs'.foldl patch t := by
  have apart' : (rs'.map Relocation.slot).Pairwise Apart :=
    ((perm.map _).pairwise_iff Apart.symm).mp apart
  have inside' : ∀ r ∈ rs', r.slot + slotSize ≤ t.length :=
    fun r hr => inside r (perm.mem_iff.mpr hr)
  apply eq_of_slots rs
  · intro r hr
    exact ⟨foldl_patch_inside hr apart inside,
      foldl_patch_inside (perm.mem_iff.mp hr) apart' inside'⟩
  · intro i hi
    rw [foldl_patch_outside inside hi,
      foldl_patch_outside inside' fun r hr => hi r (perm.mem_iff.mpr hr)]

namespace SameUpToOrder

variable {a b : Buffer}

theorem refl (b : Buffer) : SameUpToOrder b b :=
  ⟨rfl, rfl, List.Perm.refl _, rfl, rfl⟩

/-- No operation looks at the slots that are resolved already. -/
theorem apply_reordered {rs : List Relocation} (perm : a.resolved.Perm rs) (op : Operation) :
    SameUpToOrder (op.apply a) (op.apply (a.reordered rs)) := by
  cases sound : a.error with
  | some e =>
      rw [apply_of_error sound, apply_of_error (b := a.reordered rs) sound]
      exact ⟨rfl, rfl, perm, rfl, rfl⟩
  | none =>
      obtain ⟨plain, fits⟩ | ⟨n, rfl, large⟩ | rfl | ⟨h, rfl⟩ := op.kinds
      · rw [apply_plain sound plain fits, apply_plain (b := a.reordered rs) sound plain fits]
        exact ⟨rfl, rfl, perm, rfl, rfl⟩
      · rw [Operation.apply, Operation.apply, writeCount_of_not_fits sound large,
          writeCount_of_not_fits (b := a.reordered rs) sound large]
        exact ⟨rfl, rfl, perm, rfl, rfl⟩
      · rw [Operation.apply, Operation.apply]
        by_cases reach : a.length < 2 ^ 32
        · rw [create_eq sound reach, create_eq (b := a.reordered rs) sound reach]
          exact ⟨rfl, rfl, perm, rfl, rfl⟩
        · have far := Nat.le_of_not_lt reach
          rw [create_of_far sound far, create_of_far (b := a.reordered rs) sound far]
          exact ⟨rfl, rfl, perm, rfl, rfl⟩
      · rw [Operation.apply, Operation.apply]
        cases reserved : a.pending.lookup h with
        | none =>
            rw [insert_of_unknown sound reserved,
              insert_of_unknown (b := a.reordered rs) sound reserved]
            exact ⟨rfl, rfl, perm, rfl, rfl⟩
        | some slot =>
            by_cases reach : a.length < 2 ^ 32
            · -- The new relocation comes last in both, so the others stay a rearrangement.
              rw [insert_eq sound reserved reach,
                insert_eq (b := a.reordered rs) sound reserved reach]
              exact ⟨rfl, rfl, perm.append_right _, rfl, rfl⟩
            · have far := Nat.le_of_not_lt reach
              rw [insert_of_far sound reserved far,
                insert_of_far (b := a.reordered rs) sound reserved far]
              exact ⟨rfl, rfl, perm, rfl, rfl⟩

theorem apply (h : SameUpToOrder a b) (op : Operation) :
    SameUpToOrder (op.apply a) (op.apply b) := by
  have hb : b = a.reordered b.resolved := by
    obtain ⟨bytes, pending, resolved, next, error⟩ := b
    obtain ⟨rfl, rfl, -, rfl, rfl⟩ := h
    rfl
  rw [hb]
  exact apply_reordered h.resolved op

theorem run (h : SameUpToOrder a b) (steps : List Operation) :
    SameUpToOrder (a.run steps) (b.run steps) := by
  induction steps generalizing a b with
  | nil => exact h
  | cons op steps ih => exact ih (h.apply op)

theorem relocations_perm (h : SameUpToOrder a b) : a.relocations.Perm b.relocations :=
  h.resolved.map Relocation.slot

theorem payload_eq (h : SameUpToOrder a b) (ha : a.Consistent) : a.payload = b.payload := by
  rw [payload, payload, ← h.bytes]
  exact foldl_patch_perm h.resolved ha.resolved_apart ha.resolved_inside

theorem finish_error_iff (h : SameUpToOrder a b) (e : BufferError) :
    a.finish = .error e ↔ b.finish = .error e := by
  simp only [finish, h.error, h.pending]
  split
  · rfl
  · split <;> simp

end SameUpToOrder

/-! ## Resolving several slots at once -/

section Inserts

variable {b : Buffer} {hs hs' : List Handle}

theorem lookup_filter_ne {pending : List (Handle × Nat)} {h h' : Handle} (hne : h' ≠ h) :
    (pending.filter fun p => p.1 ≠ h).lookup h' = pending.lookup h' := by
  induction pending with
  | nil => rfl
  | cons p pending ih =>
      obtain ⟨key, slot⟩ := p
      by_cases hkey : key = h
      · have hother : (h' == key) = false := by simpa [hkey] using hne
        rw [List.filter_cons_of_neg (by simpa using hkey), ih, List.lookup_cons, hother]
      · rw [List.filter_cons_of_pos (by simpa using hkey), List.lookup_cons, List.lookup_cons, ih]

/-- Handles that wait are resolved to the position where they are inserted, each with its slot. -/
theorem run_inserts (sound : b.error = none) (reach : b.length < 2 ^ 32) (distinct : hs.Nodup)
    (waits : ∀ h ∈ hs, h ∈ b.waiting) :
    b.run (hs.map .insert) =
      { b with
        pending := b.pending.filter fun p => p.1 ∉ hs
        resolved := b.resolved ++
          hs.map fun h => ⟨(b.pending.lookup h).getD 0, b.length⟩ } := by
  induction hs generalizing b with
  | nil => simp [run]
  | cons h hs ih =>
      obtain ⟨hfresh, hrest⟩ := List.nodup_cons.mp distinct
      obtain ⟨slot, reserved⟩ := mem_waiting_iff.mp (waits h (by simp))
      have hother : ∀ h' ∈ hs, h' ≠ h := fun h' hh' heq => hfresh (heq ▸ hh')
      have hinsert := insert_eq sound reserved reach
      have hwaits : ∀ h' ∈ hs, h' ∈ (b.insert h).waiting := by
        intro h' hh'
        obtain ⟨p, hp, rfl⟩ := List.mem_map.mp (waits h' (by simp [hh']))
        rw [hinsert]
        exact List.mem_map_of_mem (List.mem_filter.mpr ⟨hp, by simpa using hother _ hh'⟩)
      have hrun := ih (b := b.insert h) (by rw [hinsert]; exact sound)
        (by rw [hinsert]; exact reach) hrest hwaits
      change (b.insert h).run (hs.map .insert) = _
      have hpending : ((b.pending.filter fun p => p.1 ≠ h).filter fun p => p.1 ∉ hs) =
          b.pending.filter fun p => p.1 ∉ h :: hs := by
        rw [List.filter_filter]
        congr 1
        funext p
        simp [Bool.and_comm]
      -- Only the entry of `h` is gone, so the other handles have the slots they had.
      have hresolved :
          (hs.map fun h' =>
            (⟨((b.pending.filter fun p => p.1 ≠ h).lookup h').getD 0, b.length⟩ : Relocation)) =
          hs.map fun h' => ⟨(b.pending.lookup h').getD 0, b.length⟩ := by
        apply List.map_congr_left
        intro h' hh'
        rw [lookup_filter_ne (hother h' hh')]
      rw [hrun, hinsert, List.map_cons, reserved]
      simp only [hpending, Option.getD_some]
      rw [← hresolved, List.append_assoc]
      rfl

/-- Behind the reach of words no slot is resolved. -/
theorem run_inserts_of_far (sound : b.error = none) (far : 2 ^ 32 ≤ b.length) (hne : hs ≠ [])
    (waits : ∀ h ∈ hs, h ∈ b.waiting) : b.run (hs.map .insert) = b.fail .tooLarge := by
  cases hs with
  | nil => exact absurd rfl hne
  | cons h hs =>
      obtain ⟨slot, reserved⟩ := mem_waiting_iff.mp (waits h (by simp))
      change (b.insert h).run (hs.map .insert) = b.fail .tooLarge
      rw [insert_of_far sound reserved far]
      exact run_of_error rfl _

/-- The handles that are inserted in one place may come in any order. -/
theorem sameUpToOrder_inserts (sound : b.error = none) (distinct : hs.Nodup)
    (waits : ∀ h ∈ hs, h ∈ b.waiting) (perm : hs.Perm hs') :
    SameUpToOrder (b.run (hs.map .insert)) (b.run (hs'.map .insert)) := by
  have waits' : ∀ h ∈ hs', h ∈ b.waiting := fun h hh => waits h (perm.mem_iff.mpr hh)
  by_cases reach : b.length < 2 ^ 32
  · rw [run_inserts sound reach distinct waits,
      run_inserts sound reach (perm.nodup_iff.mp distinct) waits']
    refine ⟨rfl, ?_, (perm.map _).append_left _, rfl, rfl⟩
    simp only [perm.mem_iff]
  · have far := Nat.le_of_not_lt reach
    by_cases hempty : hs = []
    · subst hempty
      rw [perm.nil_eq]
      exact SameUpToOrder.refl _
    · have hempty' : hs' ≠ [] := fun h => hempty (perm.trans (h ▸ .refl _)).eq_nil
      rw [run_inserts_of_far sound far hempty waits, run_inserts_of_far sound far hempty' waits']
      exact SameUpToOrder.refl _

end Inserts

/-! ## What finishing shows of the order -/

/-- The order in which waiting handles are inserted in one place does not matter to what follows.
Whatever is done next, there is the same error or none, finishing reports the same, and if it
succeeds then the payloads are equal and the tables differ only in the order of their entries. -/
theorem finish_of_perm {b : Buffer} {hs hs' : List Handle} (reached : Reaches {} b)
    (sound : b.error = none) (distinct : hs.Nodup) (waits : ∀ h ∈ hs, h ∈ b.waiting)
    (perm : hs.Perm hs') (rest : List Operation) :
    (b.run (hs.map .insert ++ rest)).error = (b.run (hs'.map .insert ++ rest)).error ∧
      (∀ e, (b.run (hs.map .insert ++ rest)).finish = .error e ↔
        (b.run (hs'.map .insert ++ rest)).finish = .error e) ∧
      ∀ out, (b.run (hs.map .insert ++ rest)).finish = .ok out →
        ∃ (out' payload : Text) (slots slots' : List Nat),
          (b.run (hs'.map .insert ++ rest)).finish = .ok out' ∧
          split out = .ok (payload, slots) ∧ split out' = .ok (payload, slots') ∧
          slots.Perm slots' := by
  have hreached (steps : List Operation) : Reaches {} (b.run steps) :=
    reached.trans ⟨steps, rfl⟩
  have hconsistent (steps : List Operation) : (b.run steps).Consistent :=
    (hreached steps).consistent consistent_empty
  have hsame :
      SameUpToOrder (b.run (hs.map .insert ++ rest)) (b.run (hs'.map .insert ++ rest)) := by
    rw [run_append, run_append]
    exact (sameUpToOrder_inserts sound distinct waits perm).run rest
  refine ⟨hsame.error, hsame.finish_error_iff, ?_⟩
  intro out hout
  obtain ⟨hsound, hsettled, rfl⟩ := finish_eq_ok_iff.mp hout
  have hpayload := hsame.payload_eq (hconsistent _)
  have hsplit (steps : List Operation) :=
    ((hreached steps).addressable consistent_empty addressable_empty).split_payload
      (hconsistent steps)
  refine ⟨_, _, _, _, finish_eq_ok_iff.mpr ⟨?_, ?_, rfl⟩, hsplit _, ?_, hsame.relocations_perm⟩
  · rw [← hsame.error, hsound]
  · rw [← hsame.pending, hsettled]
  · rw [hpayload]
    exact hsplit _

/-- Three slots, of which the outer two can be resolved in one place. -/
def threeSteps : List Operation :=
  [.create, .create, .int32 3, .create]

/-- What is done behind that place, with the slot in the middle. -/
def middleSteps : List Operation :=
  [.string [0x61], .insert 1]

theorem finish_of_perm_three :
    ∃ (out out' payload : Text) (slots slots' : List Nat),
      ((run {} threeSteps).run ([.insert 2, .insert 0] ++ middleSteps)).finish = .ok out ∧
      ((run {} threeSteps).run ([.insert 0, .insert 2] ++ middleSteps)).finish = .ok out' ∧
      split out = .ok (payload, slots) ∧ split out' = .ok (payload, slots') ∧
      slots.Perm slots' := by
  have hswap : List.Perm ([2, 0] : List Handle) [0, 2] := by decide
  obtain ⟨out, hout⟩ : ∃ out,
      ((run {} threeSteps).run ([.insert 2, .insert 0] ++ middleSteps)).finish = .ok out :=
    ⟨_, finish_eq_ok_iff.mpr ⟨by decide +kernel, by decide +kernel, rfl⟩⟩
  obtain ⟨out', payload, slots, slots', hout', hsplit, hsplit', hperm⟩ :=
    (finish_of_perm (b := run {} threeSteps) ⟨threeSteps, rfl⟩ (by decide +kernel) (by decide)
      (by decide +kernel) hswap middleSteps).2.2 out hout
  exact ⟨out, out', payload, slots, slots', hout, hout', hsplit, hsplit', hperm⟩

end Schematic.Buffer
