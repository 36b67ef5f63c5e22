import Schematic.Proofs.Handles
import Schematic.Proofs.Promise

/-!
# Buffers written behind others

Whatever is written into a fresh buffer can be written behind something else: everything then stands
further on by what was there, and so do the targets of the slots. Main statement: the payload behind
another one is the payload of its own with the offset added in every slot, which is what a reader
does when it loads a payload somewhere.
-/

namespace Schematic

namespace Relocation

/-- The slot where it is, with its data further on. -/
def raise (offset : Nat) (r : Relocation) : Relocation :=
  ⟨r.slot, r.target + offset⟩

/-- Slot and data further on. -/
def shift (offset : Nat) (r : Relocation) : Relocation :=
  ⟨r.slot + offset, r.target + offset⟩

end Relocation

namespace Buffer

open Text

/-- The same step with handles that are counted from another one on. -/
def Operation.shift (first : Handle) : Operation → Operation
  | .insert h => .insert (h + first)
  | op => op

theorem shift_of_plain {op : Operation} {first : Handle} (plain : op.isPlain = true) :
    op.shift first = op := by
  cases op with
  | insert h => exact absurd plain (by simp [Operation.isPlain])
  | _ => rfl

/-- The number that a slot holds. -/
def slotValue (payload : Text) (slot : Nat) : Nat :=
  ofLittleEndian ((payload.drop slot).take slotSize)

/-- A payload with an offset added to the number in one slot. -/
def advance (offset : Nat) (payload : Text) (slot : Nat) : Text :=
  patch payload ⟨slot, slotValue payload slot + offset⟩

/-- A payload with an offset added in every slot of a table, in one pass. -/
def relocate (offset : Nat) (slots : List Nat) (payload : Text) : Text :=
  slots.foldl (advance offset) payload

/-! ## Two runs in step -/

/-- What is written behind a buffer in which no slot waits. -/
def join (b c : Buffer) : Buffer where
  bytes := b.bytes ++ c.bytes
  pending := c.pending.map fun p => (p.1 + b.next, p.2 + b.length)
  resolved := b.resolved ++ c.resolved.map (Relocation.shift b.length)
  next := c.next + b.next
  error := c.error

section Join

variable {b c : Buffer}

theorem join_empty (sound : b.error = none) (settled : b.pending = []) : b.join {} = b := by
  obtain ⟨bytes, pending, resolved, next, error⟩ := b
  obtain rfl : error = none := sound
  obtain rfl : pending = [] := settled
  simp [join]

theorem length_join (b c : Buffer) : (b.join c).length = c.length + b.length := by
  simp [join, length, Nat.add_comm]

theorem lookup_shift (pending : List (Handle × Nat)) (h first offset : Nat) :
    (pending.map fun p => (p.1 + first, p.2 + offset)).lookup (h + first) =
      (pending.lookup h).map (· + offset) := by
  induction pending with
  | nil => rfl
  | cons p pending ih =>
      obtain ⟨key, slot⟩ := p
      by_cases hkey : h = key
      · simp [hkey]
      · have hleft : (h + first == key + first) = false := by simpa using hkey
        have hright : (h == key) = false := by simpa using hkey
        simp [List.lookup_cons, hleft, hright, ih]

theorem filter_shift (pending : List (Handle × Nat)) (h first offset : Nat) :
    ((pending.map fun p => (p.1 + first, p.2 + offset)).filter fun p => p.1 ≠ h + first) =
      (pending.filter fun p => p.1 ≠ h).map fun p => (p.1 + first, p.2 + offset) := by
  rw [List.filter_map]
  congr 2
  funext p
  simp

/-- A step that succeeds alone does the same behind another buffer. -/
theorem apply_join {op : Operation} (sound : (op.apply c).error = none)
    (small : b.length + c.length < 2 ^ 32) :
    (op.shift b.next).apply (b.join c) = b.join (op.apply c) := by
  have hc : c.error = none := error_of_apply sound
  have hjoined : (b.join c).error = none := hc
  have hreach : (b.join c).length < 2 ^ 32 := by
    rw [length_join]
    omega
  obtain ⟨plain, fits⟩ | ⟨n, rfl, large⟩ | rfl | ⟨h, rfl⟩ := op.kinds
  · rw [shift_of_plain plain, apply_plain hc plain fits, apply_plain hjoined plain fits]
    simp [join]
  · rw [Operation.apply, writeCount_of_not_fits hc large] at sound
    exact absurd sound (by simp [fail])
  · change (b.join c).create.2 = b.join c.create.2
    rw [create_eq hc (by omega), create_eq hjoined hreach, length_join]
    simp [join, Nat.add_right_comm]
  · obtain ⟨slot, hlookup, -⟩ := (step_of_apply sound).insert_inv
    have hfound : (b.join c).pending.lookup (h + b.next) = some (slot + b.length) := by
      rw [join, lookup_shift, hlookup]
      rfl
    change (b.join c).insert (h + b.next) = b.join (c.insert h)
    rw [insert_eq hc hlookup (by omega), insert_eq hjoined hfound hreach, length_join]
    simp only [join, filter_shift, List.map_append, List.append_assoc]
    rfl

/-- Steps that succeed alone do the same behind another buffer. -/
theorem run_join {steps : List Operation} (sound : (c.run steps).error = none)
    (small : b.length + (c.run steps).length < 2 ^ 32) :
    (b.join c).run (steps.map (Operation.shift b.next)) = b.join (c.run steps) := by
  induction steps generalizing c with
  | nil => rfl
  | cons op steps ih =>
      have hop : (op.apply c).error = none := error_of_run sound
      have hlength : c.length ≤ ((op.apply c).run steps).length :=
        (Grows.run c (op :: steps)).length_le
      change b.length + ((op.apply c).run steps).length < 2 ^ 32 at small
      calc
        (b.join c).run ((op :: steps).map (Operation.shift b.next))
            = ((op.shift b.next).apply (b.join c)).run (steps.map (Operation.shift b.next)) := rfl
        _ = (b.join (op.apply c)).run (steps.map (Operation.shift b.next)) := by
            rw [apply_join hop (by omega)]
        _ = b.join (c.run (op :: steps)) := ih sound small

/-- The handles that the steps are given behind another buffer are those they are given alone,
counted from another one on. -/
theorem created_join {steps : List Operation} (sound : (c.run steps).error = none)
    (small : b.length + (c.run steps).length < 2 ^ 32) :
    created (b.join c) (steps.map (Operation.shift b.next)) =
      (created c steps).map (· + b.next) := by
  induction steps generalizing c with
  | nil => rfl
  | cons op steps ih =>
      have hop : (op.apply c).error = none := error_of_run sound
      have hlength : c.length ≤ ((op.apply c).run steps).length :=
        (Grows.run c (op :: steps)).length_le
      change b.length + ((op.apply c).run steps).length < 2 ^ 32 at small
      have hc : c.error = none := error_of_apply hop
      rw [List.map_cons, created, created, apply_join hop (by omega), ih sound small,
        List.map_append]
      congr 1
      cases op with
      | create =>
          change [(b.join c).create.1] = [c.create.1 + b.next]
          rw [create_eq hc (by omega), create_eq (b := b.join c) hc (by rw [length_join]; omega)]
          rfl
      | _ => rfl

end Join

/-! ## Payloads one behind the other -/

section Patching

variable {rs : List Relocation} {t u : Text}

theorem foldl_patch_append_left (inside : ∀ r ∈ rs, r.slot + slotSize ≤ t.length) :
    rs.foldl patch (t ++ u) = rs.foldl patch t ++ u := by
  induction rs generalizing t with
  | nil => rfl
  | cons r rs ih =>
      have hr := inside r (by simp)
      have hfirst : patch (t ++ u) r = patch t r ++ u := by
        rw [patch, patch, List.take_append_of_le_length (by omega),
          List.drop_append_of_le_length hr, List.append_assoc _ _ u]
      have hrest : ∀ r' ∈ rs, r'.slot + slotSize ≤ (patch t r).length := by
        intro r' hr'
        rw [length_patch hr]
        exact inside r' (by simp [hr'])
      rw [List.foldl_cons, List.foldl_cons, hfirst, ih hrest]

/-- Slots behind a text do not touch it. -/
theorem foldl_patch_append_right (rs : List Relocation) (t u : Text) :
    (rs.map (Relocation.shift t.length)).foldl patch (t ++ u) =
      t ++ (rs.map (Relocation.raise t.length)).foldl patch u := by
  induction rs generalizing u with
  | nil => rfl
  | cons r rs ih =>
      have hfirst : patch (t ++ u) (r.shift t.length) = t ++ patch u (r.raise t.length) := by
        have hbehind : r.slot + t.length + slotSize = t.length + (r.slot + slotSize) := by omega
        simp only [patch, Relocation.shift, Relocation.raise]
        rw [hbehind, Nat.add_comm r.slot, List.take_length_add_append, List.drop_length_add_append]
        simp only [List.append_assoc]
      rw [List.map_cons, List.map_cons, List.foldl_cons, List.foldl_cons, hfirst, ih]

/-- What is filled in does not depend on what the slots held before. -/
theorem foldl_patch_congr (apart : (rs.map Relocation.slot).Pairwise Apart)
    (hlength : t.length = u.length) (inside : ∀ r ∈ rs, r.slot + slotSize ≤ t.length)
    (same : ∀ i, (∀ r ∈ rs, ¬(r.slot ≤ i ∧ i < r.slot + slotSize)) → t[i]? = u[i]?) :
    rs.foldl patch t = rs.foldl patch u := by
  have inside' : ∀ r ∈ rs, r.slot + slotSize ≤ u.length := hlength ▸ inside
  apply eq_of_slots rs
  · intro r hr
    exact ⟨foldl_patch_inside hr apart inside, foldl_patch_inside hr apart inside'⟩
  · intro i hi
    rw [foldl_patch_outside inside hi, foldl_patch_outside inside' hi, same i hi]

theorem slotValue_eq {payload : Text} {r : Relocation}
    (held : payload.StandsAt r.slot (littleEndian slotSize r.target)) (small : r.target < 2 ^ 64) :
    slotValue payload r.slot = r.target := by
  have hbytes := held.take_drop
  rw [length_littleEndian] at hbytes
  rw [slotValue, hbytes]
  exact ofLittleEndian_littleEndian_of_lt small

/-- What stands in one slot stays when another one is filled in. -/
theorem standsAt_patch {r : Relocation} {slot n : Nat} (apart : Apart r.slot slot)
    (inside : r.slot + slotSize ≤ t.length)
    (held : t.StandsAt slot (littleEndian slotSize n)) :
    (patch t r).StandsAt slot (littleEndian slotSize n) := by
  intro i hi
  have hslot := hi
  rw [length_littleEndian] at hslot
  rw [patch_outside inside, held i hi]
  rintro ⟨hfrom, hto⟩
  rcases apart with h | h <;> omega

/-- One pass over the table points every slot further on. -/
theorem relocate_eq {offset : Nat} (apart : (rs.map Relocation.slot).Pairwise Apart)
    (inside : ∀ r ∈ rs, r.slot + slotSize ≤ t.length)
    (held : ∀ r ∈ rs, t.StandsAt r.slot (littleEndian slotSize r.target))
    (small : ∀ r ∈ rs, r.target < 2 ^ 64) :
    relocate offset (rs.map Relocation.slot) t =
      (rs.map (Relocation.raise offset)).foldl patch t := by
  induction rs generalizing t with
  | nil => rfl
  | cons r rs ih =>
      have hr := inside r (by simp)
      rw [List.map_cons, List.pairwise_cons] at apart
      have hfirst : advance offset t r.slot = patch t (r.raise offset) := by
        rw [advance, slotValue_eq (held r (by simp)) (small r (by simp))]
        rfl
      have hinside : ∀ r' ∈ rs, r'.slot + slotSize ≤ (patch t (r.raise offset)).length := by
        intro r' hr'
        rw [length_patch (r := r.raise offset) hr]
        exact inside r' (by simp [hr'])
      -- The slots still to come lie apart from this one, so they hold what they held.
      have hheld : ∀ r' ∈ rs,
          (patch t (r.raise offset)).StandsAt r'.slot (littleEndian slotSize r'.target) := by
        intro r' hr'
        exact standsAt_patch (r := r.raise offset) (apart.1 r'.slot (List.mem_map_of_mem hr')) hr
          (held r' (by simp [hr']))
      calc
        relocate offset ((r :: rs).map Relocation.slot) t
            = relocate offset (rs.map Relocation.slot) (advance offset t r.slot) := rfl
        _ = relocate offset (rs.map Relocation.slot) (patch t (r.raise offset)) := by rw [hfirst]
        _ = ((r :: rs).map (Relocation.raise offset)).foldl patch t :=
            ih apart.2 hinside hheld fun r' hr' => small r' (by simp [hr'])

end Patching

/-- Filling in what was filled in before, only further on, is filling in once. -/
theorem Consistent.relocate_payload {c : Buffer} (hc : c.Consistent) (small : c.length < 2 ^ 64)
    (offset : Nat) :
    relocate offset c.relocations c.payload =
      (c.resolved.map (Relocation.raise offset)).foldl patch c.bytes := by
  have hslots : (c.resolved.map (Relocation.raise offset)).map Relocation.slot = c.relocations := by
    rw [List.map_map]
    rfl
  have hinside : ∀ r ∈ c.resolved.map (Relocation.raise offset), r.slot + slotSize ≤ c.length := by
    intro r hr
    obtain ⟨r', hr', rfl⟩ := List.mem_map.mp hr
    exact hc.resolved_inside r' hr'
  calc
    relocate offset c.relocations c.payload
        = (c.resolved.map (Relocation.raise offset)).foldl patch c.payload := by
          apply relocate_eq hc.resolved_apart
          · rw [hc.length_payload]
            exact hc.resolved_inside
          · exact fun r hr => hc.payload_slot hr
          · exact fun r hr => Nat.lt_of_le_of_lt (hc.forward r hr).2 small
    _ = (c.resolved.map (Relocation.raise offset)).foldl patch c.bytes := by
          apply foldl_patch_congr (hslots ▸ hc.resolved_apart) hc.length_payload
          · rw [hc.length_payload]
            exact hinside
          · intro i hi
            apply hc.payload_outside
            exact fun r hr => hi (r.raise offset) (List.mem_map_of_mem hr)

section Behind

variable {b c : Buffer}

theorem relocations_join (b c : Buffer) :
    (b.join c).relocations = b.relocations ++ c.relocations.map (· + b.length) := by
  simp only [relocations, join, List.map_append, List.map_map]
  rfl

/-- The payload behind another one is its own with the offset added in every slot. -/
theorem payload_join (hb : b.Consistent) (hc : c.Consistent) (small : c.length < 2 ^ 64) :
    (b.join c).payload = b.payload ++ relocate b.length c.relocations c.payload := by
  have hlength : b.payload.length = b.length := hb.length_payload
  calc
    (b.join c).payload
        = (c.resolved.map (Relocation.shift b.length)).foldl patch
            (b.resolved.foldl patch (b.bytes ++ c.bytes)) := List.foldl_append
    _ = (c.resolved.map (Relocation.shift b.payload.length)).foldl patch
          (b.payload ++ c.bytes) := by
          rw [foldl_patch_append_left hb.resolved_inside, hlength]
          rfl
    _ = b.payload ++ (c.resolved.map (Relocation.raise b.length)).foldl patch c.bytes := by
          rw [foldl_patch_append_right, hlength]
    _ = b.payload ++ relocate b.length c.relocations c.payload := by
          rw [hc.relocate_payload small]

end Behind

/-- Steps that finish alone finish behind any buffer that could be finished itself. The payload is
that of the buffer and then that of the steps with the length of the buffer added in every slot, the
table is that of the buffer and then that of the steps with every entry further on by that length.
The handles which the steps use are those that they are given there. -/
theorem finish_behind {b : Buffer} {steps : List Operation} {alone : Text} (reached : Reaches {} b)
    (sound : b.error = none) (settled : b.pending = [])
    (finished : (run {} steps).finish = .ok alone)
    (small : b.length + (run {} steps).length < 2 ^ 32) :
    ∃ first both front back : Text,
      b.finish = .ok first ∧ split first = .ok (front, b.relocations) ∧
      split alone = .ok (back, (run {} steps).relocations) ∧
      (b.run (steps.map (Operation.shift b.next))).finish = .ok both ∧
      split both =
        .ok (front ++ relocate b.length (run {} steps).relocations back,
          b.relocations ++ (run {} steps).relocations.map (· + b.length)) ∧
      (b.run (steps.map (Operation.shift b.next))).relocations =
        b.relocations ++ (run {} steps).relocations.map (· + b.length) ∧
      created b (steps.map (Operation.shift b.next)) = (created {} steps).map (· + b.next) := by
  obtain ⟨hsound, hsettled, rfl⟩ := finish_eq_ok_iff.mp finished
  have hb : b.Consistent := reached.consistent consistent_empty
  have hc : (run {} steps).Consistent := consistent_empty.run steps
  have hrun : b.run (steps.map (Operation.shift b.next)) = b.join (run {} steps) := by
    have := run_join hsound small
    rwa [join_empty sound settled] at this
  have hcreated := created_join hsound small
  rw [join_empty sound settled] at hcreated
  have hboth : (b.join (run {} steps)).Consistent := hrun ▸ hb.run _
  have hwaiting : (b.join (run {} steps)).pending = [] := by
    rw [join, hsettled]
    rfl
  have hpayload : (b.join (run {} steps)).payload =
      b.payload ++ relocate b.length (run {} steps).relocations (run {} steps).payload :=
    payload_join hb hc (by omega)
  refine ⟨b.payload ++ table b.relocations,
    (b.join (run {} steps)).payload ++ table (b.join (run {} steps)).relocations,
    b.payload, (run {} steps).payload, finish_eq_ok_iff.mpr ⟨sound, settled, rfl⟩,
    hb.split_payload (by omega), hc.split_payload (by omega), ?_, ?_, ?_, hcreated⟩
  · rw [hrun]
    exact finish_eq_ok_iff.mpr ⟨hsound, hwaiting, rfl⟩
  · rw [← hpayload, ← relocations_join]
    apply hboth.split_payload
    rw [length_join]
    omega
  · rw [hrun, relocations_join]

/-- Two slots, the second of which is resolved first. -/
def crossingSteps : List Operation :=
  [.create, .bool true, .create, .insert 1, .string [0x68], .insert 0]

theorem finish_behind_crossing :
    ∃ both front back : Text,
      split ((run {} crossingSteps).payload ++ table [9, 0]) = .ok (back, [9, 0]) ∧
      ((run {} forwardSteps).run
        [.create, .bool true, .create, .insert 2, .string [0x68], .insert 1]).finish = .ok both ∧
      split both = .ok (front ++ relocate 19 [9, 0] back, [4, 28, 19]) := by
  have hlength : (run {} forwardSteps).length = 19 := by decide +kernel
  have hfirst : (run {} forwardSteps).relocations = [4] := by decide +kernel
  have hsecond : (run {} crossingSteps).relocations = [9, 0] := by decide +kernel
  have hnext : (run {} forwardSteps).next = 1 := by decide +kernel
  have hfinish : (run {} crossingSteps).finish =
      .ok ((run {} crossingSteps).payload ++ table [9, 0]) :=
    finish_eq_ok_iff.mpr ⟨by decide +kernel, by decide +kernel, by rw [hsecond]⟩
  obtain ⟨first, both, front, back, -, -, halone, hboth, hsplit, -, -⟩ :=
    finish_behind (b := run {} forwardSteps) ⟨forwardSteps, rfl⟩ (by decide +kernel)
      (by decide +kernel) hfinish (by decide +kernel)
  rw [hsecond] at halone
  rw [hlength, hfirst, hsecond] at hsplit
  rw [hnext] at hboth
  exact ⟨both, front, back, halone, hboth, hsplit⟩

end Buffer

end Schematic
