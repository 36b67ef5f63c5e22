import Schematic.Proofs.Phases

/-!
# Refused tokens

A token that cannot stand where it does is refused as soon as it is taken, and the error names it.
A name that is taken already is noticed only when the clause is complete, for some clauses in the
token behind it. Main statement: an error that names a token names the one that the reader took
last, with its line, and if a source ends too early the error names the line of its last token.

## Implementation notes

The reader decides by one token more than it takes: whether a struct has a parent and a label has
a value shows in the token behind the name, which stays where it is if the name is refused.
`Reader.taken` leaves such a token out.
-/

namespace Schematic

namespace SchemaError

/-- The token that is named as one that cannot stand where it does. -/
def offender? : SchemaError → Option Token
  | unexpected _ found line => some ⟨line, found⟩
  | unknownType name _ line => some ⟨line, name⟩
  | undivided found line => some ⟨line, found⟩
  | invalidCount found line => some ⟨line, found⟩
  | _ => none

/-- Whether the error tells that reading stopped at a token or at the end of the source. -/
def isStop : SchemaError → Bool
  | endOfInput _ => true
  | e => e.offender?.isSome

theorem isStop_of_offender {e : SchemaError} {t : Token} (h : e.offender? = some t) :
    e.isStop = true := by
  cases e <;> simp_all [isStop, offender?]

end SchemaError

namespace Reader

/-! ## What a token is refused for -/

/-- Why a token is refused: it cannot stand there, or what is complete with it has a name that is
taken. A label without a value is complete when the next token is seen to be no sign. -/
inductive Refusal (r : Reader) (t : Token) : SchemaError → Prop where
  | token {e : SchemaError} (offender : e.offender? = some t) : Refusal r t e
  | type (name : Text) (line : Nat) : Refusal r t (.duplicateType name line)
  | label {enum : Enumeration} {next : Int} {label : Token}
      (here : r.position = .labelSign enum next label) (unsigned : t.text ≠ "=")
      (declared : enum.hasLabel label.text = true) :
      Refusal r t (.duplicateMember enum.name label.text label.line)
  | value {enum : Enumeration} {label : Token} {value : Int}
      (here : r.position = .labelValue enum label) (number : Text.int32? t.text = some value)
      (declared : enum.hasLabel label.text = true) :
      Refusal r t (.duplicateMember enum.name label.text t.line)

section Steps

variable {r r' : Reader} {t : Token} {e : SchemaError}

theorem openStruct_eq_error {name : Text} {line : Nat} {parent : Option Text}
    (h : r.openStruct name line parent = .error e) :
    r.isDeclared (Qualified.text (r.scope ++ [name])) = true ∧
      e = .duplicateType (Qualified.text (r.scope ++ [name])) line := by
  simp only [openStruct] at h
  split at h
  · rename_i hdeclared
    exact ⟨hdeclared, (Except.error.inj h).symm⟩
  · exact absurd h (by simp)

theorem closeEnum_eq_error {enum : Enumeration} (h : r.closeEnum enum = .error e) :
    e = .duplicateType enum.name enum.line := by
  unfold closeEnum at h
  split at h
  · exact (Except.error.inj h).symm
  · exact absurd h (by simp)

theorem addLabel_eq_error {enum : Enumeration} {label : Token} {value : Int} {line : Nat}
    (h : addLabel enum label value line = .error e) :
    enum.hasLabel label.text = true ∧ e = .duplicateMember enum.name label.text line := by
  unfold addLabel at h
  split at h
  · rename_i hdeclared
    exact ⟨hdeclared, (Except.error.inj h).symm⟩
  · exact absurd h (by simp)

/-- Every token that is refused is refused for one of the four reasons. -/
theorem refusal_of_step (h : r.step t = .error e) : Refusal r t e := by
  cases refuses_of_step h with
  | sign needs other => exact .token rfl
  | name names other => exact .token rfl
  | declaration here struct binary friendly brace => exact .token rfl
  | root here colon taken =>
      obtain ⟨_, rfl⟩ := openStruct_eq_error taken
      exact .type _ _
  | brace here colon opened other => exact .token rfl
  | heir here parent taken =>
      obtain ⟨_, rfl⟩ := openStruct_eq_error taken
      exact .type _ _
  | type here brace struct enum unresolved => exact .token rfl
  | label here brace other => exact .token rfl
  | unsigned here other taken =>
      obtain ⟨hdeclared, rfl⟩ := addLabel_eq_error taken
      exact .label here other hdeclared
  | number here other => exact .token rfl
  | value here number taken =>
      obtain ⟨hdeclared, rfl⟩ := addLabel_eq_error taken
      exact .value here number hdeclared
  | enum here sign taken =>
      obtain rfl := closeEnum_eq_error taken
      exact .type _ _
  | field here other => exact .token rfl
  | count here bracket other => exact .token rfl
  | undivided here comma sign => exact .token rfl

end Steps

/-! ## Where reading stops -/

/-- The end of a source is refused behind a clause that is not complete, or for a name that is
taken and stands last. -/
inductive FinishRefusal (r : Reader) (line : Nat) : SchemaError → Prop where
  | endOfInput : FinishRefusal r line (.endOfInput line)
  | type (name : Text) (line' : Nat) : FinishRefusal r line (.duplicateType name line')
  | label {enum : Enumeration} {next : Int} {label : Token}
      (here : r.position = .labelSign enum next label)
      (declared : enum.hasLabel label.text = true) :
      FinishRefusal r line (.duplicateMember enum.name label.text label.line)

theorem refusal_of_finish {r : Reader} {line : Nat} {e : SchemaError}
    (h : r.finish line = .error e) : FinishRefusal r line e := by
  unfold finish at h
  split at h
  · exact absurd h (by simp)
  · exact absurd h (by simp)
  · rcases bind_eq_error.mp h with h | ⟨_, _, h⟩
    · obtain ⟨_, rfl⟩ := openStruct_eq_error h
      exact .type _ _
    · obtain rfl := Except.error.inj h
      exact .endOfInput
  · rename_i hp
    rcases bind_eq_error.mp h with h | ⟨_, _, h⟩
    · obtain ⟨hdeclared, rfl⟩ := addLabel_eq_error h
      exact .label hp hdeclared
    · obtain rfl := Except.error.inj h
      exact .endOfInput
  · obtain rfl := Except.error.inj h
    exact .endOfInput

theorem FinishRefusal.offender {r : Reader} {line : Nat} {e : SchemaError}
    (h : FinishRefusal r line e) : e.offender? = none := by
  cases h <;> rfl

/-- The reader gets through the tokens of `before`, is then at `r` and refuses `t`. -/
structure StopsAt (before : List Token) (r : Reader) (t : Token) (e : SchemaError) : Prop where
  through : before.foldlM step {} = .ok r
  refused : r.step t = .error e

theorem exists_of_foldlM_error {r : Reader} {tokens : List Token} {e : SchemaError}
    (h : tokens.foldlM step r = .error e) :
    ∃ before t after r', tokens = before ++ t :: after ∧ before.foldlM step r = .ok r' ∧
      r'.step t = .error e := by
  induction tokens generalizing r with
  | nil => exact absurd h (by simp [pure, Except.pure])
  | cons t tokens ih =>
      rw [List.foldlM_cons] at h
      rcases bind_eq_error.mp h with h | ⟨r₁, h₁, h⟩
      · exact ⟨[], t, tokens, r, rfl, rfl, h⟩
      · obtain ⟨before, t', after, r', rfl, hbefore, hstep⟩ := ih h
        refine ⟨t :: before, t', after, r', rfl, ?_, hstep⟩
        rw [List.foldlM_cons]
        exact bind_eq_ok.mpr ⟨r₁, h₁, hbefore⟩

/-- Reading fails at a token, or behind all of them. -/
theorem stops_of_read {tokens : List Token} {e : SchemaError} (h : read tokens = .error e) :
    (∃ before r t after, tokens = before ++ t :: after ∧ StopsAt before r t e) ∨
      ∃ r, tokens.foldlM step {} = .ok r ∧
        r.finish ((tokens.getLast?.map Token.line).getD 0) = .error e := by
  rcases bind_eq_error.mp h with h | ⟨r, hfold, h⟩
  · obtain ⟨before, t, after, r, rfl, hbefore, hstep⟩ := exists_of_foldlM_error h
    exact .inl ⟨before, r, t, after, rfl, hbefore, hstep⟩
  · exact .inr ⟨r, hfold, h⟩

/-- Reading fails at a token or at the end, or for a name that is taken. -/
theorem kind_of_read {tokens : List Token} {e : SchemaError} (h : read tokens = .error e) :
    e.isStop = true ∨ (∃ name line, e = .duplicateType name line) ∨
      ∃ scope name line, e = .duplicateMember scope name line := by
  rcases stops_of_read h with ⟨before, r, t, after, rfl, hstops⟩ | ⟨r, _, hfinish⟩
  · cases refusal_of_step hstops.refused with
    | token offender => exact .inl (SchemaError.isStop_of_offender offender)
    | type name line => exact .inr (.inl ⟨name, line, rfl⟩)
    | label _ _ _ => exact .inr (.inr ⟨_, _, _, rfl⟩)
    | value _ _ _ => exact .inr (.inr ⟨_, _, _, rfl⟩)
  · cases refusal_of_finish hfinish with
    | endOfInput => exact .inl rfl
    | type name line => exact .inr (.inl ⟨name, line, rfl⟩)
    | label _ _ => exact .inr (.inr ⟨_, _, _, rfl⟩)

namespace StopsAt

variable {before : List Token} {r : Reader} {t : Token} {e : SchemaError}

/-- What stands behind the refused token does not matter. -/
theorem read_eq (h : StopsAt before r t e) (after : List Token) :
    read (before ++ t :: after) = .error e := by
  refine bind_eq_error.mpr (.inl ?_)
  rw [List.foldlM_append]
  refine bind_eq_error.mpr (.inr ⟨r, h.through, ?_⟩)
  rw [List.foldlM_cons]
  exact bind_eq_error.mpr (.inl h.refused)

theorem refusal (h : StopsAt before r t e) : Refusal r t e :=
  refusal_of_step h.refused

/-- Without the refused token, no token is named. -/
theorem read_before_ne (h : StopsAt before r t e) (hstop : e.offender? = some t) :
    read before ≠ .error e := by
  intro hread
  rcases bind_eq_error.mp hread with hfold | ⟨r', _, hfinish⟩
  · rw [h.through] at hfold
    exact absurd hfold (by simp)
  · have hnone := (refusal_of_finish hfinish).offender
    rw [hstop] at hnone
    exact absurd hnone (by simp)

end StopsAt

/-! ## The tokens that are taken -/

/-- Whether a token stays where it is: it stands behind the end of the file, or the clause in front
of it is refused. -/
def leaves (r : Reader) (t : Token) : Bool :=
  match r.position with
  | .finished => true
  | .structHead name _ => t.text ≠ ":" && r.isDeclared (Qualified.text (r.scope ++ [name]))
  | .labelSign enum _ label => t.text ≠ "=" && enum.hasLabel label.text
  | _ => false

/-- The tokens that the reader takes: those in front of one that it leaves where it is, or up to
one that it refuses. -/
def taken (r : Reader) : List Token → List Token
  | [] => []
  | t :: tokens =>
    if r.leaves t then []
    else
      match r.step t with
      | .ok r' => t :: taken r' tokens
      | .error _ => [t]

/-- A token in front of the end of the file stays where it is only if the error names another
fault. -/
theorem step_of_leaves {r : Reader} {t : Token} (h : r.leaves t = true)
    (hopen : r.position ≠ .finished) : ∃ e, r.step t = .error e ∧ e.offender? = none := by
  unfold leaves at h
  split at h
  · exact absurd ‹_› hopen
  · rename_i name line hp
    simp only [ne_eq, Bool.and_eq_true, decide_eq_true_eq] at h
    refine ⟨.duplicateType (Qualified.text (r.scope ++ [name])) line, ?_, rfl⟩
    simp only [step, hp, if_neg h.1]
    exact bind_eq_error.mpr (.inl (if_pos h.2))
  · rename_i enum next label hp
    simp only [ne_eq, Bool.and_eq_true, decide_eq_true_eq] at h
    refine ⟨.duplicateMember enum.name label.text label.line, ?_, rfl⟩
    simp only [step, hp, if_neg h.1]
    exact bind_eq_error.mpr (.inl (if_pos h.2))
  · exact absurd h (by simp)

theorem foldlM_of_finished {r : Reader} (h : r.position = .finished) (tokens : List Token) :
    tokens.foldlM step r = .ok r := by
  induction tokens with
  | nil => rfl
  | cons t tokens ih =>
      have hstep : r.step t = .ok r := by simp only [step, h]
      rw [List.foldlM_cons]
      exact bind_eq_ok.mpr ⟨r, hstep, ih⟩

/-- Up to the end of the file, the reader takes what it gets through. -/
theorem taken_append {r r' : Reader} {before : List Token} (h : before.foldlM step r = .ok r')
    (hopen : r'.position ≠ .finished) (rest : List Token) :
    r.taken (before ++ rest) = before ++ r'.taken rest := by
  induction before generalizing r with
  | nil =>
      obtain rfl := Except.ok.inj h
      rfl
  | cons t before ih =>
      have hstart : r.position ≠ .finished := by
        intro hp
        obtain rfl := Except.ok.inj ((foldlM_of_finished hp _).symm.trans h)
        exact hopen hp
      rw [List.foldlM_cons] at h
      obtain ⟨r₁, h₁, h⟩ := bind_eq_ok.mp h
      have hleaves : r.leaves t ≠ true := by
        intro hleaves
        obtain ⟨e, he, _⟩ := step_of_leaves hleaves hstart
        exact absurd (h₁.symm.trans he) (by simp)
      rw [List.cons_append, taken, if_neg hleaves, h₁]
      exact congrArg (t :: ·) (ih h)

/-- A token that cannot stand where it does is taken, and none behind it. -/
theorem StopsAt.taken_eq {before : List Token} {r : Reader} {t : Token} {e : SchemaError}
    (h : StopsAt before r t e) (hstop : e.offender? = some t) (after : List Token) :
    taken {} (before ++ t :: after) = before ++ [t] := by
  have hopen : r.position ≠ .finished := by
    intro hp
    have hrefused := h.refused
    simp only [step, hp] at hrefused
    exact absurd hrefused (by simp)
  have hleaves : r.leaves t ≠ true := by
    intro hleaves
    obtain ⟨e', he', hnone⟩ := step_of_leaves hleaves hopen
    obtain rfl := Except.error.inj (h.refused.symm.trans he')
    exact absurd (hstop.symm.trans hnone) (by simp)
  rw [taken_append h.through hopen, taken, if_neg hleaves, h.refused]

/-- Where an error names a token, reading stopped at that token. -/
theorem exists_stopsAt_of_offender {tokens : List Token} {e : SchemaError} {t : Token}
    (h : read tokens = .error e) (hstop : e.offender? = some t) :
    ∃ before r after, tokens = before ++ t :: after ∧ StopsAt before r t e := by
  rcases stops_of_read h with ⟨before, r, t', after, rfl, hstops⟩ | ⟨r, _, hfinish⟩
  · obtain rfl : t' = t := by
      cases hstops.refusal with
      | token offender => exact Option.some.inj (offender.symm.trans hstop)
      | type name line => exact absurd hstop (by simp [SchemaError.offender?])
      | label here unsigned declared => exact absurd hstop (by simp [SchemaError.offender?])
      | value here number declared => exact absurd hstop (by simp [SchemaError.offender?])
    exact ⟨before, r, after, rfl, hstops⟩
  · rw [(refusal_of_finish hfinish).offender] at hstop
    exact absurd hstop (by simp)

/-- Where the end comes too early, there is a last token and it was taken. -/
theorem exists_last_of_endOfInput {tokens : List Token} {line : Nat}
    (h : read tokens = .error (.endOfInput line)) :
    ∃ before t, tokens = before ++ [t] ∧ t.line = line ∧ taken {} tokens = tokens := by
  rcases stops_of_read h with ⟨before, r, t, after, rfl, hstops⟩ | ⟨r, hfold, hfinish⟩
  · cases hstops.refusal with
    | token offender => exact absurd offender (by simp [SchemaError.offender?])
  · have hopen : r.position ≠ .finished := by
      intro hp
      simp only [finish, hp] at hfinish
      exact absurd hfinish (by simp)
    have htaken : taken {} tokens = tokens := by
      simpa [taken] using taken_append hfold hopen []
    rcases List.eq_nil_or_concat tokens with rfl | ⟨before, t, rfl⟩
    · exact absurd h (by simp [read, finish, pure, Except.pure, bind, Except.bind])
    · refine ⟨before, t, List.concat_eq_append, ?_, htaken⟩
      rw [List.concat_eq_append, List.getLast?_concat] at hfinish
      cases refusal_of_finish hfinish
      rfl

end Reader

namespace Schema

/-- Only reading tokens stops at a token or at the end of a source. -/
theorem read_of_isStop {source : Text} {e : SchemaError} (h : parse source = .error e)
    (hstop : e.isStop = true) :
    ∃ tokens, Token.lex source = .ok tokens ∧ Reader.read tokens = .error e := by
  rcases parse_eq_error_iff.mp h with ⟨c, _, rfl⟩ | hread | ⟨_, _, _, _, hlink⟩ | ⟨s, hs, hcheck⟩
  · exact absurd hstop (by simp [SchemaError.isStop, SchemaError.offender?])
  · exact hread
  · obtain ⟨_, _, _, rfl⟩ := link_eq_error hlink
    exact absurd hstop (by simp [SchemaError.isStop, SchemaError.offender?])
  · cases refusal_of_check (resolved_of_linked hs) hcheck <;>
      exact absurd hstop (by simp [SchemaError.isStop, SchemaError.offender?])

/-- The token that an error names is the one that the reader took last, and the line is that
token's: with the tokens up to it the source is refused for it whatever follows, and with those in
front of it alone it is not. If the end comes too early, all tokens were taken and the line is that
of the last. -/
theorem offender_taken_last {source : Text} {e : SchemaError} (h : parse source = .error e) :
    (∀ t, e.offender? = some t → ∃ before after,
      Token.lex source = .ok (before ++ t :: after) ∧
      Reader.taken {} (before ++ t :: after) = before ++ [t] ∧
      (∀ rest, Reader.read (before ++ t :: rest) = .error e) ∧
      Reader.read before ≠ .error e) ∧
    ∀ line, e = .endOfInput line → ∃ before t,
      Token.lex source = .ok (before ++ [t]) ∧
      Reader.taken {} (before ++ [t]) = before ++ [t] ∧ t.line = line := by
  constructor
  · intro t hstop
    obtain ⟨tokens, hlex, hread⟩ := read_of_isStop h (SchemaError.isStop_of_offender hstop)
    obtain ⟨before, r, after, rfl, hstops⟩ := Reader.exists_stopsAt_of_offender hread hstop
    exact ⟨before, after, hlex, hstops.taken_eq hstop after, hstops.read_eq,
      hstops.read_before_ne hstop⟩
  · rintro line rfl
    obtain ⟨tokens, hlex, hread⟩ := read_of_isStop h rfl
    obtain ⟨before, t, rfl, hline, htaken⟩ := Reader.exists_last_of_endOfInput hread
    exact ⟨before, t, hlex, htaken, hline⟩

/-- A label whose value is a word, on a line of its own. -/
def strayWordSource : Text :=
  "struct S \x7b enum E \x7b A = // 1\n2 B =\nC \x7d; \x7d;"

/-- A struct that is cut off behind the type of a field. -/
def cutOffSource : Text :=
  "struct S \x7b\nint /* x\n*/"

theorem offender_taken_last_stray :
    (parse strayWordSource = .error (.unexpected "32-bit integer" "C" 3) ∧ ∃ before after,
      Token.lex strayWordSource = .ok (before ++ ⟨3, "C"⟩ :: after) ∧
      Reader.taken {} (before ++ ⟨3, "C"⟩ :: after) = before ++ [⟨3, "C"⟩] ∧
      (∀ rest, Reader.read (before ++ ⟨3, "C"⟩ :: rest) =
        .error (.unexpected "32-bit integer" "C" 3)) ∧
      Reader.read before ≠ .error (.unexpected "32-bit integer" "C" 3)) ∧
    parse cutOffSource = .error (.endOfInput 2) ∧ ∃ before t,
      Token.lex cutOffSource = .ok (before ++ [t]) ∧
      Reader.taken {} (before ++ [t]) = before ++ [t] ∧ t.line = 2 := by
  have hstray : parse strayWordSource = .error (.unexpected "32-bit integer" "C" 3) := rfl
  have hcut : parse cutOffSource = .error (.endOfInput 2) := rfl
  exact ⟨⟨hstray, (offender_taken_last hstray).1 _ rfl⟩, hcut,
    (offender_taken_last hcut).2 2 rfl⟩

end Schema

end Schematic
