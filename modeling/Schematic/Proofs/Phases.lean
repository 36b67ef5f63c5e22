import Schematic.Proofs.ByValue

/-!
# Phases

A source is lexed, read, linked and checked, and the first of these to fail gives the error. Each of
them has errors of its own, so that most errors tell in which of them a source was refused.
-/

namespace Schematic

namespace Struct

mutual

theorem link_eq_error {names : List Qualified} {e : SchemaError} :
    ∀ {st : Struct}, link names st = .error e → ∃ struct parent line,
      e = .unknownParent struct parent line
  | ⟨name, scope, parent, base, line, enums, fields, children⟩, h => by
      have hdone : ∀ base' : Option Qualified,
          (linkAll names children >>= fun children' => Except.ok
            (Struct.mk name scope parent base' line enums fields children')) = .error e →
          ∃ struct parent line, e = .unknownParent struct parent line := by
        intro base' h
        rcases bind_eq_error.mp h with h | ⟨_, _, h⟩
        · exact linkAll_eq_error h
        · exact absurd h (by simp)
      unfold link at h
      cases parent with
      | none => exact hdone none h
      | some p =>
          simp only at h
          split at h
          · rename_i q hq
            exact hdone (some q) h
          · exact ⟨_, _, _, (Except.error.inj h).symm⟩

theorem linkAll_eq_error {names : List Qualified} {e : SchemaError} :
    ∀ {ss : List Struct}, linkAll names ss = .error e → ∃ struct parent line,
      e = .unknownParent struct parent line
  | [], h => absurd h (by simp [linkAll, pure, Except.pure])
  | st :: rest, h => by
      rw [linkAll] at h
      rcases bind_eq_error.mp h with h | ⟨_, _, h⟩
      · exact link_eq_error h
      rcases bind_eq_error.mp h with h | ⟨_, _, h⟩
      · exact linkAll_eq_error h
      · exact absurd h (by simp [pure, Except.pure])

end

end Struct

namespace Schema

/-- Linking fails only for a parent that is not declared. -/
theorem link_eq_error {s : Schema} {e : SchemaError} (h : s.link = .error e) :
    ∃ struct parent line, e = .unknownParent struct parent line := by
  rcases bind_eq_error.mp h with h | ⟨_, _, h⟩
  · exact Struct.linkAll_eq_error h
  · exact absurd h (by simp [pure, Except.pure])

/-- The check of inheritance fails only where the bases of a struct have no end. -/
theorem checkInheritance_eq_error {s : Schema} {st : Struct} {e : SchemaError}
    (h : s.checkInheritance st = .error e) :
    s.basesEnd s.walk.length st.base = false ∧ e = .inheritanceCycle st.fullName st.line := by
  unfold checkInheritance at h
  split at h
  · exact absurd h (by simp)
  · rename_i hend
    exact ⟨Bool.eq_false_iff.mpr hend, (Except.error.inj h).symm⟩

/-- The check of containment fails only with the field through which a struct contains itself. -/
theorem checkContainment_eq_error {s : Schema} (hs : s.Resolved) {st : Struct} (hst : st ∈ s.walk)
    {e : SchemaError} (h : s.checkContainment st = .error e) :
    ∃ struct field line, e = .containsItself struct field line := by
  rcases bind_eq_error.mp h with h | ⟨_, _, h⟩
  · obtain ⟨_, name, line, he, _⟩ := searchStruct_error hs hst h
    exact ⟨_, name, line, he⟩
  · exact absurd h (by simp [pure, Except.pure])

/-- Which check refuses a schema, and with what error. -/
inductive CheckRefusal (s : Schema) : SchemaError → Prop where
  | inheritance {before after : List Struct} {st : Struct} (walk : s.walk = before ++ st :: after)
      (passed : ∀ earlier ∈ before, s.checkInheritance earlier = .ok ())
      (refused : s.basesEnd s.walk.length st.base = false) :
      CheckRefusal s (.inheritanceCycle st.fullName st.line)
  | containment (struct field : Text) (line : Nat) :
      CheckRefusal s (.containsItself struct field line)
  | members {st : Struct} {name : Text} {line : Nat} (mem : st ∈ s.walk)
      (refused : checkMembers st = .error (.duplicateMember st.fullName name line)) :
      CheckRefusal s (.duplicateMember st.fullName name line)
  | default (value field : Text) (line : Nat) (fault : DefaultFault) :
      CheckRefusal s (.invalidDefault value field line fault)
  | distinct (name : Text) (line : Nat) : CheckRefusal s (.duplicateType name line)

/-- Each failure of the checks is one of the refusals. -/
theorem refusal_of_check {s : Schema} (hs : s.Resolved) {e : SchemaError}
    (h : s.check = .error e) : s.CheckRefusal e := by
  rcases bind_eq_error.mp h with h | ⟨_, _, h⟩
  · obtain ⟨before, st, after, hwalk, hbefore, h⟩ := forM_eq_error_iff.mp h
    obtain ⟨hend, rfl⟩ := checkInheritance_eq_error h
    exact .inheritance hwalk hbefore hend
  rcases bind_eq_error.mp h with h | ⟨_, _, h⟩
  · obtain ⟨st, hst, h⟩ := exists_of_forM_error h
    obtain ⟨_, _, _, rfl⟩ := checkContainment_eq_error hs hst h
    exact .containment _ _ _
  rcases bind_eq_error.mp h with h | ⟨_, _, h⟩
  · obtain ⟨st, hst, h⟩ := exists_of_forM_error h
    obtain ⟨_, _, rfl⟩ := checkFieldNames_error h
    exact .members hst h
  rcases bind_eq_error.mp h with h | ⟨_, _, h⟩
  · obtain ⟨st, _, h⟩ := exists_of_forM_error h
    obtain ⟨f, _, h⟩ := exists_of_forM_error h
    obtain ⟨_, _, _, _, rfl⟩ := checkDefault_error h
    exact .default _ _ _ _
  · obtain ⟨_, _, rfl⟩ := checkDistinct_error h
    exact .distinct _ _

/-- The schema that a source spells, linked but not yet checked. -/
def linked (source : Text) : Except SchemaError Schema := do
  let tokens ← (Token.lex source).mapError SchemaError.comment
  let s ← Reader.read tokens
  s.link

theorem linked_eq_ok_iff {source : Text} {s : Schema} :
    linked source = .ok s ↔
      ∃ tokens s₀, Token.lex source = .ok tokens ∧ Reader.read tokens = .ok s₀ ∧
        s₀.link = .ok s := by
  unfold linked
  cases hlex : Token.lex source with
  | error c => simp [Except.mapError, bind, Except.bind]
  | ok tokens => simp [Except.mapError, bind_eq_ok]

/-- Once the parents are linked, every type in the schema is declared in it. -/
theorem resolved_of_linked {source : Text} {s : Schema} (h : linked source = .ok s) :
    s.Resolved := by
  obtain ⟨tokens, s₀, _, hread, hlink⟩ := linked_eq_ok_iff.mp h
  exact resolved_of_link hread hlink

/-- The phase in which a source is refused. -/
theorem parse_eq_error_iff {source : Text} {e : SchemaError} :
    parse source = .error e ↔
      (∃ c, Token.lex source = .error c ∧ e = .comment c) ∨
      (∃ tokens, Token.lex source = .ok tokens ∧ Reader.read tokens = .error e) ∨
      (∃ tokens s₀, Token.lex source = .ok tokens ∧ Reader.read tokens = .ok s₀ ∧
        s₀.link = .error e) ∨
      ∃ s, linked source = .ok s ∧ s.check = .error e := by
  simp only [linked_eq_ok_iff]
  unfold parse
  cases hlex : Token.lex source with
  | error c => simp [Except.mapError, bind, Except.bind, eq_comm]
  | ok tokens =>
      cases hread : Reader.read tokens with
      | error e' => simp [Except.mapError, hread, bind, Except.bind]
      | ok s₀ =>
          cases hlink : s₀.link with
          | error e' => simp [Except.mapError, hread, hlink, bind, Except.bind]
          | ok s => simp [Except.mapError, hread, hlink, bind_eq_error, pure, Except.pure]

end Schema

end Schematic
