import Schematic.Proofs.History

/-!
# Steps that are refused

A step is refused for what came before it, and then nothing but the error is recorded. Main
statement: the step that fails first leaves the buffer as it was, and with an error nothing changes
any more, handles are zero and finishing reports that error.
-/

namespace Schematic.Buffer

/-- Why a step behind others is refused: there is something wrong with it, or it needs a position
that is out of the reach of a word. -/
def refusal? (before : List Operation) (op : Operation) : Option BufferError :=
  (offence? before op).or
    (if op.isPlain = false ∧ 2 ^ 32 ≤ (written before).length then some .tooLarge else none)

/-! ## The first error -/

section First

variable {b b' : Buffer} {before : List Operation} {op : Operation} {e : BufferError}

theorem Step.error_eq (hstep : Step b op b') : b'.error = none := by
  cases hstep <;> assumption

/-- A step that fails records its error and does nothing else. -/
theorem apply_of_refused (failed : (op.apply b).error = some e) :
    op.apply b = { b with error := some e } := by
  rcases apply_cases b op with hstep | ⟨e', he'⟩
  · exact absurd (hstep.error_eq.symm.trans failed) (by simp)
  · rw [he'] at failed ⊢
    rw [Option.some.inj failed]

/-- Without an error, a buffer stands as the steps say that led to it, however long it is. -/
theorem reflects_of_sound (sound : (run {} before).error = none) :
    Reflects before (run {} before) := by
  induction before using List.reverseRecOn with
  | nil => exact reflects_empty
  | append_singleton before op ih =>
      rw [run_concat] at sound ⊢
      exact (ih (error_of_apply sound)).step (step_of_apply sound)

theorem length_run_eq (sound : (run {} before).error = none) :
    (run {} before).length = (written before).length := by
  rw [length, bytes_run sound]
  rfl

theorem error_apply_eq (sound : (run {} before).error = none) (op : Operation) :
    (op.apply (run {} before)).error = refusal? before op := by
  have hb := reflects_of_sound sound
  cases hoffence : offence? before op with
  | some e =>
      rw [hb.error_apply hoffence, refusal?, hoffence]
      rfl
  | none =>
      rw [hb.error_of_orderly hoffence, refusal?, hoffence, length_run_eq sound, Option.none_or]

end First

/-! ## After an error -/

section After

variable {b : Buffer} {e : BufferError}

theorem created_of_error (failed : b.error = some e) (rest : List Operation) :
    created b rest = List.replicate (rest.count .create) 0 := by
  have hzero : b.create.1 = 0 := by simp [create, failed]
  induction rest with
  | nil => rfl
  | cons op rest ih =>
      rw [created, apply_of_error failed, ih, hzero]
      by_cases hop : op = .create
      · rw [if_pos hop, hop, List.count_cons_self, List.replicate_succ, List.singleton_append]
      · rw [if_neg hop, List.count_cons_of_ne hop, List.nil_append]

theorem finish_of_error (failed : b.error = some e) : b.finish = .error e := by
  simp only [finish, failed]

end After

/-- A step is refused exactly for a count that does not fit, a handle that was not given before or
was resolved already, or a position out of reach, and then only its error is recorded. From any
buffer with an error on, steps change nothing, every slot asked for gets the handle zero, and
finishing reports that error. -/
theorem error_atomic_and_sticky (before : List Operation) (op : Operation) (b : Buffer)
    (rest : List Operation) :
    ((run {} before).error = none →
      (op.apply (run {} before)).error = refusal? before op ∧
        ∀ e, refusal? before op = some e →
          op.apply (run {} before) = { run {} before with error := some e }) ∧
      ∀ e, b.error = some e →
        b.run rest = b ∧ created b rest = List.replicate (rest.count .create) 0 ∧
          (b.run rest).relocations = b.relocations ∧ (b.run rest).finish = .error e := by
  constructor
  · intro sound
    have herror := error_apply_eq sound op
    exact ⟨herror, fun e he => apply_of_refused (herror.trans he)⟩
  · intro e failed
    have hrun := run_of_error failed rest
    refine ⟨hrun, created_of_error failed rest, ?_, ?_⟩
    · rw [hrun]
    · rw [hrun, finish_of_error failed]

theorem error_atomic_and_sticky_twice :
    run {} [.create, .bool true, .insert 0, .insert 0] =
        { run {} [.create, .bool true, .insert 0] with error := some (.unknownSlot 0) } ∧
      (run {} twiceSteps).finish = .error (.unknownSlot 0) ∧
      created (run {} [.create, .bool true, .insert 0, .insert 0])
        [.count (2 ^ 40), .insert 7, .create] = [0] := by
  have hfirst := (error_atomic_and_sticky [.create, .bool true, .insert 0] (.insert 0) {} []).1
    (by decide +kernel)
  have hfailed := hfirst.2 (.unknownSlot 0) (by decide +kernel)
  have hafter := (error_atomic_and_sticky [] .create
    (run {} [.create, .bool true, .insert 0, .insert 0]) [.count (2 ^ 40), .insert 7, .create]).2
    (.unknownSlot 0) (by decide +kernel)
  exact ⟨hfailed, hafter.2.2.2, hafter.2.1⟩

end Schematic.Buffer
