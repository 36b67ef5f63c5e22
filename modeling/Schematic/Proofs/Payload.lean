import Mathlib.Data.List.Induction
import Schematic.Proofs.BufferStep
import Schematic.Proofs.LittleEndian

/-!
# Finished buffers

Filling in the slots changes their bytes and no others, because no two slots overlap. The table
behind the payload is read back as it was written, so that splitting a finished buffer gives the
payload and the slots again.
-/

namespace Schematic.Buffer

open Text

/-! ## Filling in slots -/

section Patch

variable {bytes : Text} {r : Relocation}

theorem length_patch (h : r.slot + slotSize ≤ bytes.length) :
    (patch bytes r).length = bytes.length := by
  simp [patch]
  omega

/-- A slot holds its target once it is filled in. -/
theorem patch_inside (h : r.slot + slotSize ≤ bytes.length) :
    (patch bytes r).StandsAt r.slot (littleEndian slotSize r.target) := by
  intro i hi
  have htake : (bytes.take r.slot).length = r.slot := by
    simp
    omega
  rw [patch, List.append_assoc, List.getElem?_append_right (by omega), htake,
    List.getElem?_append_left (by omega), Nat.add_sub_cancel_left]

/-- Filling in a slot leaves every other byte as it is. -/
theorem patch_outside {i : Nat} (h : r.slot + slotSize ≤ bytes.length)
    (hi : ¬(r.slot ≤ i ∧ i < r.slot + slotSize)) : (patch bytes r)[i]? = bytes[i]? := by
  have htake : (bytes.take r.slot).length = r.slot := by
    simp
    omega
  rw [patch, List.append_assoc]
  by_cases hleft : i < r.slot
  · rw [List.getElem?_append_left (by omega), List.getElem?_take, if_pos hleft]
  · have hright : r.slot + slotSize ≤ i := by omega
    rw [List.getElem?_append_right (by omega), htake,
      List.getElem?_append_right (by simp; omega), List.getElem?_drop, length_littleEndian]
    congr 1
    omega

end Patch

section PatchAll

variable {rs : List Relocation} {bytes : Text}

theorem length_foldl_patch (inside : ∀ r ∈ rs, r.slot + slotSize ≤ bytes.length) :
    (rs.foldl patch bytes).length = bytes.length := by
  induction rs generalizing bytes with
  | nil => rfl
  | cons r rs ih =>
      have hlen : (patch bytes r).length = bytes.length := length_patch (inside r (by simp))
      rw [List.foldl_cons, ih fun r' hr' => hlen ▸ inside r' (by simp [hr']), hlen]

theorem foldl_patch_outside {i : Nat} (inside : ∀ r ∈ rs, r.slot + slotSize ≤ bytes.length)
    (hi : ∀ r ∈ rs, ¬(r.slot ≤ i ∧ i < r.slot + slotSize)) :
    (rs.foldl patch bytes)[i]? = bytes[i]? := by
  induction rs generalizing bytes with
  | nil => rfl
  | cons r rs ih =>
      have hr := inside r (by simp)
      have hlen : (patch bytes r).length = bytes.length := length_patch hr
      rw [List.foldl_cons, ih (fun r' hr' => hlen ▸ inside r' (by simp [hr']))
        fun r' hr' => hi r' (by simp [hr'])]
      exact patch_outside hr (hi r (by simp))

/-- Later slots do not touch the ones filled in before, as all are apart. -/
theorem foldl_patch_inside {r : Relocation} (hr : r ∈ rs)
    (apart : (rs.map Relocation.slot).Pairwise Apart)
    (inside : ∀ r ∈ rs, r.slot + slotSize ≤ bytes.length) :
    (rs.foldl patch bytes).StandsAt r.slot (littleEndian slotSize r.target) := by
  induction rs generalizing bytes with
  | nil => exact absurd hr (by simp)
  | cons first rs ih =>
      have hfirst := inside first (by simp)
      have hlen : (patch bytes first).length = bytes.length := length_patch hfirst
      have hinside : ∀ r' ∈ rs, r'.slot + slotSize ≤ (patch bytes first).length :=
        fun r' hr' => hlen ▸ inside r' (by simp [hr'])
      rw [List.map_cons, List.pairwise_cons] at apart
      rcases List.mem_cons.mp hr with rfl | hr
      · intro i hi
        rw [length_littleEndian] at hi
        rw [List.foldl_cons, foldl_patch_outside hinside, patch_inside hfirst i (by simpa using hi)]
        intro r' hr' hcover
        rcases apart.1 r'.slot (List.mem_map_of_mem hr') with h | h <;> omega
      · exact ih hr apart.2 hinside

/-- What stands in the slots and outside of them is all there is to a text. -/
theorem eq_of_slots (rs : List Relocation) {t u : Text}
    (slots : ∀ r ∈ rs, t.StandsAt r.slot (littleEndian slotSize r.target) ∧
      u.StandsAt r.slot (littleEndian slotSize r.target))
    (outside : ∀ i, (∀ r ∈ rs, ¬(r.slot ≤ i ∧ i < r.slot + slotSize)) → t[i]? = u[i]?) :
    t = u := by
  apply List.ext_getElem?
  intro i
  by_cases hcover : ∃ r ∈ rs, r.slot ≤ i ∧ i < r.slot + slotSize
  · obtain ⟨r, hr, hfrom, hto⟩ := hcover
    obtain ⟨k, rfl⟩ := Nat.exists_eq_add_of_le hfrom
    have hk : k < (littleEndian slotSize r.target).length := by
      rw [length_littleEndian]
      omega
    exact ((slots r hr).1 k hk).trans ((slots r hr).2 k hk).symm
  · exact outside i fun r hr hcovered => hcover ⟨r, hr, hcovered⟩

end PatchAll

namespace Consistent

variable {b : Buffer}

theorem resolved_inside (hb : b.Consistent) : ∀ r ∈ b.resolved, r.slot + slotSize ≤ b.length :=
  fun r hr => hb.inside r.slot (List.mem_append_right _ (List.mem_map_of_mem hr))

theorem resolved_apart (hb : b.Consistent) : b.relocations.Pairwise Apart :=
  (List.pairwise_append.mp hb.apart).2.1

theorem length_payload (hb : b.Consistent) : b.payload.length = b.length :=
  length_foldl_patch hb.resolved_inside

theorem payload_slot (hb : b.Consistent) {r : Relocation} (hr : r ∈ b.resolved) :
    b.payload.StandsAt r.slot (littleEndian slotSize r.target) :=
  foldl_patch_inside hr hb.resolved_apart hb.resolved_inside

theorem payload_outside (hb : b.Consistent) {i : Nat}
    (hi : ∀ r ∈ b.resolved, ¬(r.slot ≤ i ∧ i < r.slot + slotSize)) :
    b.payload[i]? = b.bytes[i]? :=
  foldl_patch_outside hb.resolved_inside hi

end Consistent

/-! ## The table -/

theorem finish_eq_ok_iff {b : Buffer} {out : Text} :
    b.finish = .ok out ↔
      b.error = none ∧ b.pending = [] ∧ out = b.payload ++ table b.relocations := by
  unfold finish
  cases b.error with
  | some e => simp
  | none =>
      cases hp : b.pending with
      | nil => simp [eq_comm]
      | cons p ps => simp

/-- What stands behind a payload is read back as the table it is. -/
theorem split_append_table {payload : Text} {slots : List Nat}
    (count : slots.length < 2 ^ 32) (small : ∀ slot ∈ slots, slot < 2 ^ 32)
    (inside : ∀ slot ∈ slots, slot + slotSize ≤ payload.length) :
    split (payload ++ table slots) = .ok (payload, slots) := by
  have hlen : (payload ++ table slots).length = payload.length + 4 * slots.length + 4 := by
    simp [table]
    omega
  have hcount : ofLittleEndian
      ((payload ++ table slots).drop ((payload ++ table slots).length - 4)) = slots.length := by
    rw [hlen, table, ← List.append_assoc, List.drop_left' (by simp; omega)]
    exact ofLittleEndian_littleEndian_of_lt count
  have hstart : (payload ++ table slots).length - 4 - 4 * slots.length = payload.length := by
    omega
  have hwords : words32 (((payload ++ table slots).drop payload.length).take (4 * slots.length)) =
      slots := by
    rw [List.drop_left, table, List.take_left' (length_flatMap_littleEndian 4 slots)]
    exact words32_flatMap small
  have hall : (slots.all fun slot => slot + slotSize ≤ payload.length) = true := by
    simpa using inside
  have hlong : ¬(payload ++ table slots).length < 4 := by omega
  have hfull : ¬(payload ++ table slots).length < 4 + 4 * slots.length := by omega
  simp only [split, hlong, hcount, hfull, hstart, hwords, hall, if_false, if_true, List.take_left]

theorem Consistent.relocations_inside {b : Buffer} (hb : b.Consistent) :
    ∀ slot ∈ b.relocations, slot + slotSize ≤ b.length :=
  fun slot hslot => hb.inside slot (List.mem_append_right _ hslot)

/-- What the words of a table can say of the slots. A slot is reserved only where a word can point,
so this holds of every buffer, however much is written behind its slots. -/
structure Addressable (b : Buffer) : Prop where
  slot_lt : ∀ slot ∈ b.slots, slot < 2 ^ 32
  few : slotSize * b.next ≤ 2 ^ 32

theorem addressable_empty : Addressable {} := by
  constructor <;> simp [slots, relocations]

namespace Addressable

variable {b b' : Buffer}

theorem step {op : Operation} (ha : b.Addressable) (hb : b.Consistent) (hstep : Step b op b') :
    b'.Addressable := by
  cases hstep with
  | write sound plain => exact ⟨ha.slot_lt, ha.few⟩
  | create sound reach =>
      constructor
      · intro slot hslot
        rcases List.mem_cons.mp ((slots_perm_create b).mem_iff.mp hslot) with rfl | hslot
        · exact reach
        · exact ha.slot_lt slot hslot
      · have hroom := hb.room
        simp only [slotSize] at hroom ⊢
        omega
  | insert sound reserved reach =>
      have hperm := slots_perm_insert b.length hb.handles_nodup reserved
      exact ⟨fun slot hslot => ha.slot_lt slot (hperm.mem_iff.mp hslot), ha.few⟩

theorem apply (ha : b.Addressable) (hb : b.Consistent) (op : Operation) :
    (op.apply b).Addressable := by
  rcases apply_cases b op with hstep | ⟨e, he⟩
  · exact ha.step hb hstep
  · rw [he]
    exact ⟨ha.slot_lt, ha.few⟩

theorem run (ha : b.Addressable) (hb : b.Consistent) (steps : List Operation) :
    (b.run steps).Addressable := by
  induction steps generalizing b with
  | nil => exact ha
  | cons op steps ih => exact ih (ha.apply hb op) (hb.apply op)

/-- A payload is found again in front of the table of its slots. -/
theorem split_payload (ha : b.Addressable) (hb : b.Consistent) :
    split (b.payload ++ table b.relocations) = .ok (b.payload, b.relocations) := by
  apply split_append_table
  · have hcount := hb.count
    have hfew := ha.few
    simp only [slotSize] at hfew
    rw [relocations, List.length_map]
    omega
  · exact fun slot hslot => ha.slot_lt slot (List.mem_append_right _ hslot)
  · rw [hb.length_payload]
    exact hb.relocations_inside

end Addressable

/-- The same without a look at how the buffer was written, if it is not too large. -/
theorem Consistent.split_payload {b : Buffer} (hb : b.Consistent) (small : b.length < 2 ^ 32) :
    split (b.payload ++ table b.relocations) = .ok (b.payload, b.relocations) := by
  apply Addressable.split_payload _ hb
  constructor
  · intro slot hslot
    have := hb.inside slot hslot
    omega
  · exact Nat.le_trans hb.room (Nat.le_of_lt small)

/-! ## The history of a slot -/

/-- A slot that `steps` reserved and later resolved: `create` gave a handle, and `insert` came
with that handle. -/
def Resolves (steps : List Operation) (r : Relocation) : Prop :=
  ∃ first second third : List Operation, ∃ h : Handle,
    steps = first ++ .create :: (second ++ .insert h :: third) ∧
      ((run {} first).create).1 = h ∧ (run {} first).length = r.slot ∧
        (run {} (first ++ .create :: second)).length = r.target

/-- A slot that waits to be resolved was reserved at its position. -/
theorem pending_history {steps : List Operation} (sound : (run {} steps).error = none)
    {p : Handle × Nat} (hp : p ∈ (run {} steps).pending) :
    ∃ first second : List Operation, steps = first ++ .create :: second ∧
      ((run {} first).create).1 = p.1 ∧ (run {} first).length = p.2 := by
  induction steps using List.reverseRecOn with
  | nil => exact absurd hp (by simp [run])
  | append_singleton steps op ih =>
      rw [run_concat] at sound hp
      have hbefore : (run {} steps).error = none := error_of_apply sound
      have hold : p ∈ (run {} steps).pending →
          ∃ first second : List Operation, steps ++ [op] = first ++ .create :: second ∧
            ((run {} first).create).1 = p.1 ∧ (run {} first).length = p.2 := by
        intro hp
        obtain ⟨first, second, hsteps, hhandle, hslot⟩ := ih hbefore hp
        exact ⟨first, second ++ [op], by simp [hsteps], hhandle, hslot⟩
      have hstep := step_of_apply sound
      generalize hb' : op.apply (run {} steps) = b' at hstep hp
      cases hstep with
      | write _ plain => exact hold hp
      | create _ reach =>
          rcases List.mem_append.mp hp with hp | hp
          · exact hold hp
          · rw [List.mem_singleton.mp hp]
            exact ⟨steps, [], rfl, by rw [create_eq hbefore reach], rfl⟩
      | insert _ reserved reach => exact hold (List.mem_of_mem_filter hp)

/-- A reserved slot is the one that its handle resolves, however much is written in between: the
handles given out later are all new. -/
theorem resolved_of_reserved {b : Buffer} (hb : b.Consistent) {h : Handle} {slot : Nat}
    (given : (h, slot) ∈ b.pending) {second third : List Operation}
    (sound : (b.run (second ++ .insert h :: third)).error = none) :
    ⟨slot, (b.run second).length⟩ ∈ (b.run (second ++ .insert h :: third)).resolved := by
  rw [run_append] at sound ⊢
  change ((Operation.apply (b.run second) (.insert h)).run third).error = none at sound
  obtain ⟨found, hlookup, hinserted⟩ := (step_of_apply (error_of_run sound)).insert_inv
  have hfound : (h, found) ∈ b.pending := by
    rcases (Grows.run b second).pending (h, found) (mem_of_lookup hlookup) with hmem | ⟨hnext, _⟩
    · exact hmem
    · exact absurd (hb.handle_lt _ given) (Nat.not_lt.mpr hnext)
  apply (Grows.run (Operation.apply (b.run second) (.insert h)) third).resolved.subset
  rw [hinserted, hb.slot_unique given hfound]
  simp

/-- The resolved slots are those that the steps reserved and resolved, each with the length of the
buffer at that moment. -/
theorem mem_resolved_iff {steps : List Operation} (sound : (run {} steps).error = none)
    (r : Relocation) : r ∈ (run {} steps).resolved ↔ Resolves steps r := by
  constructor
  · intro hr
    induction steps using List.reverseRecOn with
    | nil => exact absurd hr (by simp [run])
    | append_singleton steps op ih =>
        rw [run_concat] at sound hr
        have hbefore : (run {} steps).error = none := error_of_apply sound
        have hold : r ∈ (run {} steps).resolved → Resolves (steps ++ [op]) r := by
          intro hr
          obtain ⟨first, second, third, h, hsteps, hhandle, hslot, htarget⟩ := ih hbefore hr
          exact ⟨first, second, third ++ [op], h, by simp [hsteps], hhandle, hslot, htarget⟩
        have hstep := step_of_apply sound
        generalize hb' : op.apply (run {} steps) = b' at hstep hr
        cases hstep with
        | write _ plain => exact hold hr
        | create _ reach => exact hold hr
        | @insert h slot _ reserved reach =>
            rcases List.mem_append.mp hr with hr | hr
            · exact hold hr
            · rw [List.mem_singleton.mp hr]
              obtain ⟨first, second, hsteps, hhandle, hslot⟩ :=
                pending_history hbefore (mem_of_lookup reserved)
              exact ⟨first, second, [], h, by simp [hsteps], hhandle, hslot, by rw [← hsteps]⟩
  · rintro ⟨first, second, third, h, rfl, hhandle, hslot, htarget⟩
    rw [show first ++ .create :: (second ++ .insert h :: third) =
      (first ++ [.create]) ++ (second ++ .insert h :: third) by simp, run_append] at sound ⊢
    have hcreate : (Operation.apply (run {} first) .create).error = none := by
      rw [← run_concat]
      exact error_of_run sound
    obtain ⟨reach, hcreated⟩ := (step_of_apply hcreate).create_inv
    rw [create_eq (error_of_apply hcreate) reach] at hhandle
    have hgiven : (h, r.slot) ∈ (run {} (first ++ [.create])).pending := by
      rw [run_concat, hcreated, ← hhandle, ← hslot]
      simp
    have hresolving : ((run {} (first ++ [.create])).run second).length = r.target := by
      rw [← run_append, List.append_assoc]
      exact htarget
    have hresolved := resolved_of_reserved (consistent_empty.run _) hgiven sound
    rwa [hresolving] at hresolved

/-! ## Splitting what was finished -/

/-- However a buffer was written, splitting its finished form gives back the slots in the order of
their resolution and a payload in which every resolved slot holds the length that the buffer had
when it was resolved, and every other byte is the one written there first. -/
theorem split_finish (steps : List Operation) {out : Text}
    (small : (run {} steps).length < 2 ^ 32) (finished : (run {} steps).finish = .ok out) :
    ∃ payload : Text,
      split out = .ok (payload, (run {} steps).relocations) ∧
      payload.length = (run {} steps).length ∧
      (∀ r ∈ (run {} steps).resolved,
        payload.StandsAt r.slot (littleEndian slotSize r.target)) ∧
      (∀ r, r ∈ (run {} steps).resolved ↔ Resolves steps r) ∧
      ∀ i < payload.length,
        (∀ slot ∈ (run {} steps).relocations, ¬(slot ≤ i ∧ i < slot + slotSize)) →
          payload[i]? = (written steps)[i]? := by
  obtain ⟨sound, hpending, rfl⟩ := finish_eq_ok_iff.mp finished
  have hb : (run {} steps).Consistent := consistent_empty.run steps
  refine ⟨(run {} steps).payload, hb.split_payload small, hb.length_payload,
    fun r hr => hb.payload_slot hr, mem_resolved_iff sound, ?_⟩
  intro i _ houtside
  rw [hb.payload_outside fun r hr => houtside r.slot (List.mem_map_of_mem hr), bytes_run sound]
  rfl

/-- A slot between two numbers that is resolved behind the second one. -/
def forwardSteps : List Operation :=
  [.int32 7, .create, .int32 8, .insert 0, .string [0x68, 0x69]]

theorem split_finish_forward :
    ∃ out payload : Text, (run {} forwardSteps).finish = .ok out ∧ split out = .ok (payload, [4]) ∧
      payload.length = 19 ∧ payload.StandsAt 4 (littleEndian slotSize 16) ∧
      payload[12]? = some 8 := by
  have hslots : (run {} forwardSteps).relocations = [4] := by decide +kernel
  have hlength : (run {} forwardSteps).length = 19 := by decide +kernel
  have hfinish : (run {} forwardSteps).finish = .ok ((run {} forwardSteps).payload ++ table [4]) :=
    finish_eq_ok_iff.mpr ⟨by decide +kernel, by decide +kernel, by rw [hslots]⟩
  obtain ⟨payload, hsplit, hlen, hslot, _, houtside⟩ :=
    split_finish forwardSteps (by rw [hlength]; decide) hfinish
  rw [hslots] at hsplit houtside
  rw [hlength] at hlen
  refine ⟨_, payload, hfinish, hsplit, hlen, hslot ⟨4, 16⟩ (by decide +kernel), ?_⟩
  rw [houtside 12 (by omega) (by decide)]
  decide +kernel

end Schematic.Buffer
