import Schematic.Proofs.BufferStep

/-!
# Handles in a run

Where the handles of a run go: each one given out is resolved or still waits at the end, and no
handle is given out twice. What was waiting before counts like what was given out.
-/

namespace Schematic.Buffer

/-- The handles that a run is given, in order. -/
def created (b : Buffer) : List Operation → List Handle
  | [] => []
  | op :: steps => (if op = .create then [b.create.1] else []) ++ created (op.apply b) steps

/-- The handles that a run resolves, in order. -/
def inserted : List Operation → List Handle
  | [] => []
  | .insert h :: steps => h :: inserted steps
  | _ :: steps => inserted steps

/-- The handles that wait to be resolved. -/
def waiting (b : Buffer) : List Handle :=
  b.pending.map Prod.fst

section Runs

variable {b : Buffer} {steps : List Operation}

/-- A handle waits exactly if its slot is found. -/
theorem mem_waiting_iff {h : Handle} :
    h ∈ b.waiting ↔ ∃ slot, b.pending.lookup h = some slot := by
  constructor
  · intro hmem
    obtain ⟨p, hp, rfl⟩ := List.mem_map.mp hmem
    cases hlookup : b.pending.lookup p.1 with
    | some slot => exact ⟨slot, rfl⟩
    | none => exact absurd (List.lookup_eq_none_iff.mp hlookup p hp) (by simp)
  · rintro ⟨slot, hlookup⟩
    exact List.mem_map.mpr ⟨(h, slot), mem_of_lookup hlookup, rfl⟩

theorem inserted_cons_plain {op : Operation} (plain : op.isPlain = true) :
    inserted (op :: steps) = inserted steps := by
  cases op with
  | insert h => exact absurd plain (by simp [Operation.isPlain])
  | _ => rfl

theorem ne_create_of_plain {op : Operation} (plain : op.isPlain = true) : op ≠ .create := by
  rintro rfl
  exact absurd plain (by simp [Operation.isPlain])

/-- What waited before and what was given out is what was resolved and what still waits. -/
theorem waiting_conserved (hb : b.Consistent) (sound : (b.run steps).error = none) :
    (b.waiting ++ created b steps).Perm (inserted steps ++ (b.run steps).waiting) := by
  induction steps generalizing b with
  | nil => simp [created, inserted, run]
  | cons op steps ih =>
      have hrest := ih (hb.apply op) sound
      have hstep := step_of_apply (error_of_run sound)
      change (b.waiting ++ created b (op :: steps)).Perm
        (inserted (op :: steps) ++ ((op.apply b).run steps).waiting)
      rw [created]
      generalize op.apply b = b' at hrest hstep ⊢
      cases hstep with
      | write _ plain =>
          rw [if_neg (ne_create_of_plain plain), List.nil_append, inserted_cons_plain plain]
          exact hrest
      | create hsound reach =>
          rw [if_pos rfl, create_eq hsound reach]
          simpa [waiting, inserted] using hrest
      | @insert h slot _ reserved _ =>
          obtain ⟨before, after, hsplit, hfilter⟩ := pending_split hb.handles_nodup reserved
          have hwaiting : b.waiting = before.map Prod.fst ++ h :: after.map Prod.fst := by
            simp [waiting, hsplit]
          have hleft : (b.pending.filter fun p => p.1 ≠ h).map Prod.fst =
              before.map Prod.fst ++ after.map Prod.fst := by
            rw [hfilter, List.map_append]
          rw [waiting, hleft] at hrest
          rw [if_neg (by simp), List.nil_append, hwaiting, List.append_assoc, List.cons_append]
          refine List.perm_middle.trans (List.Perm.cons h ?_)
          rwa [← List.append_assoc]

/-- Handles are given out in ascending order, so none of them twice. -/
theorem created_ascending (sound : (b.run steps).error = none) :
    (created b steps).Nodup ∧ ∀ h ∈ created b steps, b.next ≤ h := by
  induction steps generalizing b with
  | nil => simp [created]
  | cons op steps ih =>
      have hrest := ih (b := op.apply b) sound
      have hstep := step_of_apply (error_of_run sound)
      rw [created]
      generalize op.apply b = b' at hrest hstep ⊢
      cases hstep with
      | write _ plain =>
          rw [if_neg (ne_create_of_plain plain), List.nil_append]
          exact hrest
      | create hsound reach =>
          rw [if_pos rfl, create_eq hsound reach, List.singleton_append, List.nodup_cons,
            List.forall_mem_cons]
          refine ⟨⟨fun hmem => ?_, hrest.1⟩, Nat.le_refl _, fun h hh => ?_⟩
          · exact absurd (hrest.2 _ hmem) (Nat.not_le.mpr (Nat.lt_succ_self _))
          · exact Nat.le_of_succ_le (hrest.2 h hh)
      | insert _ _ _ =>
          rw [if_neg (by simp), List.nil_append]
          exact hrest

/-- A run that leaves waiting what waited before resolves just the handles that it is given, each
of them once. -/
theorem inserted_perm_created (hb : b.Consistent) (sound : (b.run steps).error = none)
    (hpending : (b.run steps).pending = b.pending) :
    (inserted steps).Perm (created b steps) ∧ (inserted steps).Nodup := by
  have hperm : (inserted steps).Perm (created b steps) := by
    have hconserved := waiting_conserved hb sound
    rw [waiting, waiting, hpending] at hconserved
    exact (List.perm_append_left_iff _).mp (hconserved.trans List.perm_append_comm).symm
  exact ⟨hperm, hperm.nodup_iff.mpr (created_ascending sound).1⟩

end Runs

end Schematic.Buffer
