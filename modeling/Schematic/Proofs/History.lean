import Schematic.Proofs.Handles
import Schematic.Proofs.Payload

/-!
# Buffers and their histories

Any sequence of steps leaves the slots of a buffer in order, whether or not it runs into an error.
Handles count up from zero, so the steps alone tell which handles are known at each of them. Main
statements: what holds of the slots behind every sequence of steps, and what finishing says of a
sequence, read off the sequence.
-/

namespace Schematic.Buffer

/-! ## Slots -/

/-- How many steps reserve a slot: those that ask for one and leave no error. -/
def reservations (b : Buffer) : List Operation → Nat
  | [] => 0
  | op :: steps =>
    (if op = .create ∧ (op.apply b).error = none then 1 else 0) + reservations (op.apply b) steps

/-- A handle is used up by every slot that is reserved and by nothing else. -/
theorem next_apply (b : Buffer) (op : Operation) :
    (op.apply b).next =
      b.next + if op = .create ∧ (op.apply b).error = none then 1 else 0 := by
  rcases apply_cases b op with hstep | ⟨e, he⟩
  · generalize op.apply b = b' at hstep ⊢
    cases hstep with
    | write sound plain => rw [if_neg fun h => ne_create_of_plain plain h.1, Nat.add_zero]
    | create sound reach => rw [if_pos ⟨rfl, sound⟩]
    | insert sound reserved reach => rw [if_neg (by simp), Nat.add_zero]
  · rw [he, if_neg (by simp), Nat.add_zero]

theorem next_run (b : Buffer) (steps : List Operation) :
    (b.run steps).next = b.next + reservations b steps := by
  induction steps generalizing b with
  | nil => rfl
  | cons op steps ih =>
      calc
        (b.run (op :: steps)).next = (op.apply b).next + reservations (op.apply b) steps := ih _
        _ = b.next + reservations b (op :: steps) := by
            rw [next_apply, reservations, Nat.add_assoc]

/-- Behind any steps, the waiting handles differ and were given out, all slots lie inside the buffer
and share no byte, every resolved slot points behind itself, and there are as many slots as were
reserved. -/
theorem slots_run (steps : List Operation) :
    ((run {} steps).pending.map Prod.fst).Nodup ∧
      (∀ p ∈ (run {} steps).pending, p.1 < (run {} steps).next) ∧
      (∀ slot ∈ (run {} steps).pending.map Prod.snd ++ (run {} steps).relocations,
        slot + slotSize ≤ (run {} steps).length) ∧
      ((run {} steps).pending.map Prod.snd ++ (run {} steps).relocations).Pairwise
        (fun a c => a + slotSize ≤ c ∨ c + slotSize ≤ a) ∧
      (∀ r ∈ (run {} steps).resolved,
        r.slot + slotSize ≤ r.target ∧ r.target ≤ (run {} steps).length) ∧
      (run {} steps).pending.length + (run {} steps).resolved.length = reservations {} steps := by
  have hb : (run {} steps).Consistent := consistent_empty.run steps
  refine ⟨hb.handles_nodup, hb.handle_lt, hb.inside, hb.apart, hb.forward, ?_⟩
  rw [hb.count, next_run]
  exact Nat.zero_add _

/-! ## Steps that cannot be taken -/

/-- The handles that steps are given, as long as none of them fails: they count up from zero. -/
def given (steps : List Operation) : List Handle :=
  List.range (steps.count .create)

/-- What is wrong with a step behind others: a count that does not fit, or a handle that was not
given before or was resolved already. -/
def offence? (before : List Operation) : Operation → Option BufferError
  | .count n => if Text.fitsWord 32 n then none else some .countTooLarge
  | .insert h =>
    if h ∈ given before ∧ .insert h ∉ before then none else some (.unknownSlot h)
  | _ => none

/-- The first thing that is wrong with steps behind others. -/
def firstOffence? (before : List Operation) : List Operation → Option BufferError
  | [] => none
  | op :: steps => (offence? before op).or (firstOffence? (before ++ [op]) steps)

/-- The handles that are given to steps and not resolved by them. -/
def unresolved (steps : List Operation) : List Handle :=
  (given steps).filter fun h => .insert h ∉ steps

theorem mem_given {steps : List Operation} {h : Handle} :
    h ∈ given steps ↔ h < steps.count .create :=
  List.mem_range

/-- A buffer without an error stands as its history says. -/
structure Reflects (before : List Operation) (b : Buffer) : Prop where
  sound : b.error = none
  consistent : b.Consistent
  next : b.next = before.count .create
  waiting : ∀ h, h ∈ b.waiting ↔ h ∈ given before ∧ .insert h ∉ before
  known : ∀ h, .insert h ∈ before → h ∈ given before

theorem reflects_empty : Reflects [] {} where
  sound := rfl
  consistent := consistent_empty
  next := rfl
  waiting := by simp [Buffer.waiting, given]
  known := by simp

namespace Reflects

variable {before : List Operation} {b : Buffer} {op : Operation}

theorem write (hb : Reflects before b) (plain : op.isPlain = true) :
    Reflects (before ++ [op]) { b with bytes := b.bytes ++ op.bytes } := by
  have hcount : (before ++ [op]).count .create = before.count .create := by
    rw [List.count_append, List.count_singleton,
      if_neg (by simpa using ne_create_of_plain plain), Nat.add_zero]
  have hgiven : given (before ++ [op]) = given before := by
    rw [given, given, hcount]
  have hinsert (h : Handle) : .insert h ∈ before ++ [op] ↔ .insert h ∈ before := by
    have hne : Operation.insert h ≠ op := by
      rintro rfl
      exact absurd plain (by simp [Operation.isPlain])
    simp [hne]
  refine ⟨hb.sound, hb.consistent.write _, hb.next.trans hcount.symm, ?_, ?_⟩
  · intro h
    rw [hgiven, hinsert]
    exact hb.waiting h
  · intro h hh
    rw [hgiven]
    exact hb.known h ((hinsert h).mp hh)

/-- The new handle was not resolved before it was given: nobody could have known it. -/
theorem reserve (hb : Reflects before b) :
    Reflects (before ++ [.create])
      { b with
        bytes := b.bytes ++ List.replicate slotSize 0
        pending := b.pending ++ [(b.next, b.length)]
        next := b.next + 1 } := by
  have hgiven (h : Handle) : h ∈ given (before ++ [.create]) ↔ h ∈ given before ∨ h = b.next := by
    rw [mem_given, mem_given, hb.next, List.count_append, List.count_singleton_self]
    exact Nat.lt_succ_iff_lt_or_eq
  have hinsert (h : Handle) : .insert h ∈ before ++ [.create] ↔ .insert h ∈ before := by
    simp
  have hnew : .insert b.next ∉ before := by
    intro hmem
    have hlt := mem_given.mp (hb.known _ hmem)
    rw [hb.next] at hlt
    exact Nat.lt_irrefl _ hlt
  refine ⟨hb.sound, hb.consistent.reserve, ?_, ?_, ?_⟩
  · rw [List.count_append, List.count_singleton_self, ← hb.next]
  · intro h
    have hwaiting : h ∈ b.waiting ++ [b.next] ↔
        (h ∈ given before ∨ h = b.next) ∧ .insert h ∉ before := by
      rw [List.mem_append, List.mem_singleton, hb.waiting, or_and_right]
      refine or_congr_right ⟨?_, And.left⟩
      rintro rfl
      exact ⟨rfl, hnew⟩
    rw [hgiven, hinsert, ← hwaiting]
    simp [Buffer.waiting]
  · intro h hh
    exact (hgiven h).mpr (Or.inl (hb.known h ((hinsert h).mp hh)))

theorem resolve (hb : Reflects before b) {h : Handle} {slot : Nat}
    (reserved : b.pending.lookup h = some slot) (known : h ∈ given before) :
    Reflects (before ++ [.insert h])
      { b with
        pending := b.pending.filter fun p => p.1 ≠ h
        resolved := b.resolved ++ [⟨slot, b.length⟩] } := by
  have hcount : List.count .create (before ++ [.insert h]) = before.count .create := by
    simp
  have hgiven : given (before ++ [.insert h]) = given before := by
    rw [given, given, hcount]
  have hinsert (h' : Handle) :
      .insert h' ∈ before ++ [.insert h] ↔ .insert h' ∈ before ∨ h' = h := by
    simp
  refine ⟨hb.sound, hb.consistent.resolve reserved, hb.next.trans hcount.symm, ?_, ?_⟩
  · intro h'
    have hwaiting : h' ∈ (b.pending.filter fun p => p.1 ≠ h).map Prod.fst ↔
        h' ∈ b.waiting ∧ h' ≠ h := by
      simp only [Buffer.waiting, List.mem_map, List.mem_filter, decide_eq_true_eq]
      constructor
      · rintro ⟨p, ⟨hp, hne⟩, rfl⟩
        exact ⟨⟨p, hp, rfl⟩, hne⟩
      · rintro ⟨⟨p, hp, rfl⟩, hne⟩
        exact ⟨p, ⟨hp, hne⟩, rfl⟩
    rw [hgiven, hinsert, not_or, ← and_assoc, ← hb.waiting]
    exact hwaiting
  · intro h' hh
    rw [hgiven]
    rcases (hinsert h').mp hh with hh | rfl
    · exact hb.known h' hh
    · exact known

theorem step {b' : Buffer} (hb : Reflects before b) (hstep : Step b op b') :
    Reflects (before ++ [op]) b' := by
  cases hstep with
  | write _ plain => exact hb.write plain
  | create _ _ => exact hb.reserve
  | @insert h slot _ reserved _ =>
      have hwaits : h ∈ b.waiting := mem_waiting_iff.mpr ⟨slot, reserved⟩
      exact hb.resolve reserved ((hb.waiting h).mp hwaits).1

/-- A handle that may be resolved next has a slot that waits. -/
theorem lookup_of_orderly (hb : Reflects before b) {h : Handle}
    (orderly : offence? before (.insert h) = none) : ∃ slot, b.pending.lookup h = some slot := by
  have hknown : h ∈ given before ∧ .insert h ∉ before := by
    simpa [offence?] using orderly
  exact mem_waiting_iff.mp ((hb.waiting h).mpr hknown)

/-- A step with nothing wrong about it fails only for a position out of reach. -/
theorem error_of_orderly (hb : Reflects before b) (orderly : offence? before op = none) :
    (op.apply b).error =
      if op.isPlain = false ∧ 2 ^ 32 ≤ b.length then some .tooLarge else none := by
  obtain ⟨plain, fits⟩ | ⟨n, rfl, large⟩ | rfl | ⟨h, rfl⟩ := op.kinds
  · rw [apply_plain hb.sound plain fits, if_neg (by simp [plain])]
    exact hb.sound
  · exact absurd orderly (by simp [offence?, large])
  · rw [Operation.apply]
    by_cases far : 2 ^ 32 ≤ b.length
    · rw [create_of_far hb.sound far, if_pos ⟨rfl, far⟩]
      rfl
    · rw [create_eq hb.sound (Nat.lt_of_not_le far), if_neg fun h => far h.2]
      exact hb.sound
  · obtain ⟨slot, reserved⟩ := hb.lookup_of_orderly orderly
    rw [Operation.apply]
    by_cases far : 2 ^ 32 ≤ b.length
    · rw [insert_of_far hb.sound reserved far, if_pos ⟨rfl, far⟩]
      rfl
    · rw [insert_eq hb.sound reserved (Nat.lt_of_not_le far), if_neg fun h => far h.2]
      exact hb.sound

/-- A step with nothing wrong about it is taken, and the buffer stands as before. -/
theorem apply (hb : Reflects before b) (reach : b.length < 2 ^ 32)
    (orderly : offence? before op = none) : Reflects (before ++ [op]) (op.apply b) := by
  have sound : (op.apply b).error = none := by
    rw [hb.error_of_orderly orderly, if_neg fun h => absurd h.2 (Nat.not_le.mpr reach)]
  exact hb.step (step_of_apply sound)

/-- A step with something wrong about it is what the buffer reports. -/
theorem error_apply (hb : Reflects before b) {e : BufferError}
    (offends : offence? before op = some e) : (op.apply b).error = some e := by
  cases op with
  | count n =>
      obtain ⟨hfits, rfl⟩ : Text.fitsWord 32 n = false ∧ .countTooLarge = e := by
        simpa [offence?] using offends
      rw [Operation.apply, writeCount_of_not_fits hb.sound hfits]
      rfl
  | insert h =>
      obtain ⟨hunknown, rfl⟩ : ¬(h ∈ given before ∧ .insert h ∉ before) ∧ .unknownSlot h = e := by
        simpa [offence?] using offends
      have hlookup : b.pending.lookup h = none := by
        rw [Option.eq_none_iff_forall_ne_some]
        intro slot hslot
        exact hunknown ((hb.waiting h).mp (mem_waiting_iff.mpr ⟨slot, hslot⟩))
      rw [Operation.apply, insert_of_unknown hb.sound hlookup]
      rfl
  | _ => exact absurd offends (by simp [offence?])

theorem reach_of_run {steps : List Operation} (small : (b.run steps).length < 2 ^ 32) :
    b.length < 2 ^ 32 :=
  Nat.lt_of_le_of_lt (Grows.run b steps).length_le small

/-- Steps are taken up to the first with something wrong about it, and that is reported. -/
theorem run (hb : Reflects before b) {steps : List Operation}
    (small : (b.run steps).length < 2 ^ 32) :
    (firstOffence? before steps = none → Reflects (before ++ steps) (b.run steps)) ∧
      ∀ e, firstOffence? before steps = some e → (b.run steps).error = some e := by
  induction steps generalizing before b with
  | nil => simpa [firstOffence?, Buffer.run] using hb
  | cons op steps ih =>
      rw [firstOffence?]
      cases hoffence : offence? before op with
      | none =>
          have hrest := ih (hb.apply (reach_of_run small) hoffence) small
          rwa [List.append_assoc] at hrest
      | some e =>
          have hfailed := hb.error_apply hoffence
          refine ⟨fun h => absurd h (by simp), ?_⟩
          intro e' he'
          obtain rfl : e = e' := by simpa using he'
          change ((op.apply b).run steps).error = some e
          rw [run_of_error hfailed, hfailed]

/-- The handles that are counted up are those that the steps are given. -/
theorem given_created (hb : Reflects before b) {steps : List Operation}
    (small : (b.run steps).length < 2 ^ 32) (orderly : firstOffence? before steps = none) :
    given before ++ created b steps = given (before ++ steps) := by
  induction steps generalizing before b with
  | nil => rw [created, List.append_nil, List.append_nil]
  | cons op steps ih =>
      have hreach := reach_of_run small
      rw [firstOffence?, Option.or_eq_none_iff] at orderly
      have hrest := ih (hb.apply hreach orderly.1) small orderly.2
      have hgiven : given (before ++ [op]) =
          given before ++ if op = .create then [b.create.1] else [] := by
        by_cases hop : op = .create
        · rw [if_pos hop, hop, create_eq hb.sound hreach, given, List.count_append,
            List.count_singleton_self, List.range_succ, hb.next]
          rfl
        · rw [if_neg hop, List.append_nil, given, List.count_append, List.count_singleton,
            if_neg (by simpa using hop)]
          rfl
      rw [hgiven, List.append_assoc, List.append_assoc] at hrest
      exact hrest

theorem length_pending (hb : Reflects before b) :
    b.pending.length = (unresolved before).length := by
  have hwaiting : b.waiting.Perm (unresolved before) := by
    apply (List.perm_ext_iff_of_nodup hb.consistent.handles_nodup
      (List.nodup_range.filter _)).mpr
    intro h
    refine (hb.waiting h).trans ?_
    simp [given]
  rw [← hwaiting.length_eq, Buffer.waiting, List.length_map]

end Reflects

/-! ## What finishing says -/

theorem finish_of_offence {steps : List Operation} {e : BufferError}
    (small : (run {} steps).length < 2 ^ 32) (offends : firstOffence? [] steps = some e) :
    (run {} steps).finish = .error e := by
  have herror := (reflects_empty.run small).2 e offends
  simp only [finish, herror]

theorem finish_of_orderly {steps : List Operation} (small : (run {} steps).length < 2 ^ 32)
    (orderly : firstOffence? [] steps = none) :
    (run {} steps).finish =
      if unresolved steps = [] then .ok ((run {} steps).payload ++ table (run {} steps).relocations)
      else .error (.unresolved (unresolved steps).length) := by
  have hb : Reflects steps (run {} steps) := (reflects_empty.run small).1 orderly
  have hempty : (run {} steps).pending = [] ↔ unresolved steps = [] := by
    rw [← List.length_eq_zero_iff, hb.length_pending, List.length_eq_zero_iff]
  simp only [finish, hb.sound, List.isEmpty_iff, hempty, hb.length_pending]

theorem firstOffence?_eq_none_iff {before steps : List Operation} :
    firstOffence? before steps = none ↔
      ∀ first op rest, steps = first ++ op :: rest → offence? (before ++ first) op = none := by
  induction steps generalizing before with
  | nil => simp [firstOffence?]
  | cons op steps ih =>
      rw [firstOffence?, Option.or_eq_none_iff, ih]
      constructor
      · rintro ⟨hop, hsteps⟩ first op' rest hsplit
        cases first with
        | nil =>
            obtain ⟨rfl, rfl⟩ := List.cons.inj hsplit
            rwa [List.append_nil]
        | cons op₁ first =>
            obtain ⟨rfl, rfl⟩ := List.cons.inj hsplit
            have := hsteps first op' rest rfl
            rwa [List.append_assoc] at this
      · intro h
        refine ⟨?_, ?_⟩
        · simpa using h [] op steps rfl
        · intro first op' rest hsplit
          rw [List.append_assoc]
          exact h (op :: first) op' rest (by rw [hsplit]; rfl)

/-- Nothing is wrong with steps if every count fits and every handle is resolved once and behind
the step that was given it. -/
theorem orderly_iff {steps : List Operation} :
    firstOffence? [] steps = none ↔
      (∀ n, .count n ∈ steps → Text.fitsWord 32 n = true) ∧
        ∀ first h rest, steps = first ++ .insert h :: rest →
          h ∈ given first ∧ .insert h ∉ first := by
  rw [firstOffence?_eq_none_iff]
  constructor
  · intro h
    refine ⟨?_, ?_⟩
    · intro n hn
      obtain ⟨first, rest, hsplit⟩ := List.append_of_mem hn
      simpa [offence?] using h first _ rest hsplit
    · intro first handle rest hsplit
      simpa [offence?] using h first _ rest hsplit
  · rintro ⟨hcounts, hinserts⟩ first op rest hsplit
    rw [List.nil_append]
    cases op with
    | count n =>
        have hfits := hcounts n (by simp [hsplit])
        simp [offence?, hfits]
    | insert handle => rw [offence?, if_pos (hinserts first handle rest hsplit)]
    | _ => rfl

/-- What finishing says of steps that do not make the buffer too large. It succeeds exactly if every
count fits, every handle that is resolved was given before and not resolved before, and all that are
given are resolved. Otherwise it reports what is wrong with the first step that is not so, or else
how many handles are not resolved. The handles given are those that the steps get. -/
theorem finish_run (steps : List Operation) (small : (run {} steps).length < 2 ^ 32) :
    ((∃ out, (run {} steps).finish = .ok out) ↔
      (∀ n, .count n ∈ steps → Text.fitsWord 32 n = true) ∧
        (∀ first h rest, steps = first ++ .insert h :: rest →
          h ∈ given first ∧ .insert h ∉ first) ∧
        ∀ h ∈ given steps, .insert h ∈ steps) ∧
      (∀ e, (run {} steps).finish = .error e ↔
        firstOffence? [] steps = some e ∨
          firstOffence? [] steps = none ∧ unresolved steps ≠ [] ∧
            e = .unresolved (unresolved steps).length) ∧
      ∀ first rest, steps = first ++ rest → firstOffence? [] first = none →
        created {} first = given first := by
  have hall : unresolved steps = [] ↔ ∀ h ∈ given steps, .insert h ∈ steps := by
    simp [unresolved]
  refine ⟨?_, ?_, ?_⟩
  · rw [← and_assoc, ← orderly_iff, ← hall]
    cases hoffence : firstOffence? [] steps with
    | some e => simp [finish_of_offence small hoffence]
    | none =>
        rw [finish_of_orderly small hoffence]
        split
        · rename_i hdone
          simp [hdone]
        · rename_i hleft
          simp [hleft]
  · intro e
    cases hoffence : firstOffence? [] steps with
    | some first => simp [finish_of_offence small hoffence]
    | none =>
        rw [finish_of_orderly small hoffence]
        split
        · rename_i hdone
          simp [hdone]
        · rename_i hleft
          simp only [Except.error.injEq, reduceCtorEq, false_or, true_and, ne_eq, hleft,
            not_false_eq_true]
          exact eq_comm
  · rintro first rest rfl orderly
    rw [run_append] at small
    exact reflects_empty.given_created (Reflects.reach_of_run small) orderly

/-- A handle that is resolved twice; what is wrong behind that does not count any more. -/
def twiceSteps : List Operation :=
  [.create, .bool true, .insert 0, .insert 0, .count (2 ^ 40), .insert 7, .create]

/-- Two handles of which only the second is resolved. -/
def leftSteps : List Operation :=
  [.create, .create, .count (-1), .insert 1, .string [0x68, 0x69]]

theorem finish_run_twice :
    (run {} twiceSteps).length < 2 ^ 32 ∧
      (run {} twiceSteps).finish = .error (.unknownSlot 0) ∧
      (run {} leftSteps).finish = .error (.unresolved 1) ∧
      ∃ out, (run {} forwardSteps).finish = .ok out := by
  have htwice : (run {} twiceSteps).length < 2 ^ 32 := by decide +kernel
  have hleft : (run {} leftSteps).length < 2 ^ 32 := by decide +kernel
  have hforward : (run {} forwardSteps).length < 2 ^ 32 := by decide +kernel
  refine ⟨htwice, ?_, ?_, ?_⟩
  · exact ((finish_run _ htwice).2.1 _).mpr (Or.inl (by decide +kernel))
  · exact ((finish_run _ hleft).2.1 _).mpr (Or.inr (by decide +kernel))
  · have horderly : firstOffence? [] forwardSteps = none := by decide +kernel
    obtain ⟨hcounts, hinserts⟩ := orderly_iff.mp horderly
    exact (finish_run _ hforward).1.mpr ⟨hcounts, hinserts, by decide +kernel⟩

end Schematic.Buffer
