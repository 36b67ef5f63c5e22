import Schematic.Proofs.Accepted
import Schematic.Proofs.InPlace
import Schematic.Proofs.NamingTokens
import Schematic.Proofs.RefusedTokens

/-!
# Repeated members

A label is held against the labels in front of it as soon as it is complete, a field against the
members of its struct when the whole schema is read. Main statement: the name in the error is the
text of the token that named the second of the two, and the line is that token's, except that for
a label with a value it is the line of the value.
-/

namespace Schematic

namespace Reader

/-! ## Labels -/

/-- The token `t` behind those of `before` names a label that the enumeration has already. -/
def RepeatsLabel (before : List Token) (t : Token) (enum : Enumeration) : Prop :=
  ∃ r next, (before ++ [t]).foldlM step {} = .ok r ∧ r.position = .labelSign enum next t ∧
    enum.hasLabel t.text = true

/-- The line of the last token of a label, given the tokens behind its name: a sign and a value
belong to it. -/
def entryLine (label : Token) : List Token → Nat
  | sign :: value :: _ => if sign.text = "=" then value.line else label.line
  | _ => label.line

theorem entryLine_of_unsigned {label t : Token} (h : t.text ≠ "=") (after : List Token) :
    entryLine label (t :: after) = label.line := by
  cases after with
  | nil => rfl
  | cons value after => exact if_neg h

/-- A member is refused while reading only if it is a label that is there already. -/
theorem repeatsLabel_of_read {tokens : List Token} {scope name : Text} {line : Nat}
    (h : read tokens = .error (.duplicateMember scope name line)) :
    ∃ before t after enum, tokens = before ++ t :: after ∧ RepeatsLabel before t enum ∧
      enum.name = scope ∧ t.text = name ∧ line = entryLine t after := by
  rcases stops_of_read h with ⟨before, r, t, after, rfl, hstops⟩ | ⟨r, hfold, hfinish⟩
  · have hthrough := hstops.through
    cases hstops.refusal with
    | token offender => exact absurd offender (by simp [SchemaError.offender?])
    | label here unsigned declared =>
        obtain ⟨front, rfl⟩ := eq_concat_of_labelSign hthrough here
        refine ⟨front, _, t :: after, _, by simp, ⟨r, _, hthrough, here, declared⟩, rfl, rfl, ?_⟩
        exact (entryLine_of_unsigned unsigned after).symm
    | value here number declared =>
        obtain ⟨front, sign, r₁, next, rfl, hsign, hfront, hlabel⟩ :=
          eq_append_of_labelValue hthrough here
        refine ⟨front, _, sign :: t :: after, _, by simp, ⟨r₁, next, hfront, hlabel, declared⟩,
          rfl, rfl, ?_⟩
        exact (if_pos hsign).symm
  · generalize (tokens.getLast?.map Token.line).getD 0 = last at hfinish
    cases refusal_of_finish hfinish with
    | label here declared =>
        obtain ⟨front, rfl⟩ := eq_concat_of_labelSign hfold here
        exact ⟨front, _, [], _, rfl, ⟨r, _, hfold, here, declared⟩, rfl, rfl, rfl⟩

end Reader

/-! ## Fields -/

namespace Struct

/-- The members that a struct has besides its fields. -/
def ownMembers (st : Struct) : List Text :=
  (st.base.map Qualified.identifier).toList ++ Schema.reservedMembers

/-- The field `f` is the first of the struct to take a name that is taken: by the struct itself or
by a field in front of it. -/
structure RepeatsAt (st : Struct) (earlier : List Field) (f : Field) (later : List Field) :
    Prop where
  fields : st.fields = earlier ++ f :: later
  distinct : (earlier.flatMap Schema.memberNames).Nodup
  free : ∀ name ∈ earlier.flatMap Schema.memberNames, name ∉ st.ownMembers
  taken : ∃ name ∈ Schema.memberNames f,
    name ∈ st.ownMembers ∨ name ∈ earlier.flatMap Schema.memberNames

end Struct

namespace Schema

theorem nodup_memberNames (f : Field) : (memberNames f).Nodup := by
  unfold memberNames
  split
  · simpa using f.identifier_ne_countIdentifier
  · exact List.nodup_singleton _

theorem takeNames_eq_none {taken : List Text} {f : Field}
    (h : takeNames taken (memberNames f) = none) : ∃ name ∈ memberNames f, name ∈ taken := by
  by_contra hnone
  have hfree : ∀ name ∈ memberNames f, name ∉ taken :=
    fun name hname htaken => hnone ⟨name, hname, htaken⟩
  have htake := takeNames_eq_some_iff.mpr ⟨nodup_memberNames f, hfree, rfl⟩
  exact absurd (h.symm.trans htake) (by simp)

/-- Fields are refused at the first that takes a name which is taken. -/
theorem checkFieldNames_eq_error {scope : Text} {taken : List Text} {fields : List Field}
    {e : SchemaError} (h : checkFieldNames scope taken fields = .error e) :
    ∃ earlier f later, fields = earlier ++ f :: later ∧
      checkFieldNames scope taken earlier = .ok () ∧
      (∃ name ∈ memberNames f, name ∈ taken ∨ name ∈ earlier.flatMap memberNames) ∧
      e = .duplicateMember scope f.name f.line := by
  induction fields generalizing taken with
  | nil => exact absurd h (by simp [checkFieldNames])
  | cons f fields ih =>
      rw [checkFieldNames] at h
      split at h
      · rename_i taken' htake
        obtain ⟨earlier, f', later, rfl, hearlier, ⟨name, hname, htaken⟩, he⟩ := ih h
        obtain ⟨_, _, rfl⟩ := takeNames_eq_some_iff.mp htake
        refine ⟨f :: earlier, f', later, rfl, ?_, ⟨name, hname, ?_⟩, he⟩
        · rw [checkFieldNames, htake]
          exact hearlier
        · simp only [List.mem_append, List.mem_reverse] at htaken
          rw [List.flatMap_cons, List.mem_append]
          tauto
      · rename_i hnone
        obtain ⟨name, hname, htaken⟩ := takeNames_eq_none hnone
        exact ⟨[], f, fields, rfl, rfl, ⟨name, hname, .inl htaken⟩, (Except.error.inj h).symm⟩

theorem repeatsAt_of_checkMembers {st : Struct} {scope name : Text} {line : Nat}
    (h : checkMembers st = .error (.duplicateMember scope name line)) :
    ∃ earlier f later, st.RepeatsAt earlier f later ∧ st.fullName = scope ∧ f.name = name ∧
      f.line = line := by
  obtain ⟨earlier, f, later, hfields, hearlier, htaken, he⟩ := checkFieldNames_eq_error h
  obtain ⟨rfl, rfl, rfl⟩ := SchemaError.duplicateMember.inj he
  obtain ⟨hdistinct, hfree⟩ := checkFieldNames_eq_ok_iff.mp hearlier
  exact ⟨earlier, f, later, ⟨hfields, hdistinct, hfree, htaken⟩, rfl, rfl, rfl⟩

/-- The name of a repeated member is the text of the token that repeats it. For a field the line is
that of the token too; for a label it is the line of the label's last token, which is its value if
it has one. -/
theorem repeatedMember_names_token {source scope name : Text} {line : Nat}
    (h : parse source = .error (.duplicateMember scope name line)) :
    ∃ before t after, Token.lex source = .ok (before ++ t :: after) ∧ t.text = name ∧
      ((∃ enum, Reader.RepeatsLabel before t enum ∧ enum.name = scope ∧
          line = Reader.entryLine t after) ∨
        ∃ s st earlier f later, linked source = .ok s ∧ st ∈ s.walk ∧ st.fullName = scope ∧
          st.RepeatsAt earlier f later ∧
          Reader.NamesField before t (some (st.qualified, earlier)) f ∧ line = t.line) := by
  rcases parse_eq_error_iff.mp h with ⟨c, _, hc⟩ | ⟨tokens, hlex, hread⟩ | ⟨_, _, _, _, hlink⟩ |
    ⟨s, hs, hcheck⟩
  · exact absurd hc (by simp)
  · obtain ⟨before, t, after, enum, rfl, hrepeats, hscope, hname, hline⟩ :=
      Reader.repeatsLabel_of_read hread
    exact ⟨before, t, after, hlex, hname, .inl ⟨enum, hrepeats, hscope, hline⟩⟩
  · obtain ⟨_, _, _, he⟩ := link_eq_error hlink
    exact absurd he (by simp)
  · obtain ⟨tokens, s₀, hlex, hread, hlink⟩ := linked_eq_ok_iff.mp hs
    cases refusal_of_check (resolved_of_linked hs) hcheck with
    | members hst hrefused =>
        obtain ⟨earlier, f, later, hrepeats, hscope, rfl, rfl⟩ := repeatsAt_of_checkMembers hrefused
        obtain ⟨before, t, after, rfl, hnames⟩ := namedIn_of_link hread hlink hst hrepeats.fields
        refine ⟨before, t, after, hlex, hnames.named.name.symm, .inr ?_⟩
        exact ⟨s, _, earlier, f, later, hs, hst, hscope, hrepeats, hnames, hnames.named.line⟩

/-- Two fields of one name in generated code, on two lines. -/
def titledTwiceSource : Text :=
  "struct S \x7b int x,\n X; \x7d;"

def titledTwiceTokens : List Token :=
  List.zipWith Token.mk [1, 1, 1, 1, 1, 1, 2, 2, 2, 2]
    ["struct", "S", "\x7b", "int", "x", ",", "X", ";", "\x7d", ";"]

theorem repeatedMember_names_token_titled :
    parse titledTwiceSource = .error (.duplicateMember "S" "X" 2) ∧
    ∃ before after s st earlier f later,
      Token.lex titledTwiceSource = .ok (before ++ ⟨2, "X"⟩ :: after) ∧
      linked titledTwiceSource = .ok s ∧ st ∈ s.walk ∧ st.fullName = "S" ∧
      st.RepeatsAt earlier f later ∧
      Reader.NamesField before ⟨2, "X"⟩ (some (st.qualified, earlier)) f := by
  have h : parse titledTwiceSource = .error (.duplicateMember "S" "X" 2) := rfl
  have htokens : Token.lex titledTwiceSource = .ok titledTwiceTokens := rfl
  -- Nowhere in the source is a label left incomplete, so it is not a label that is repeated.
  have hlabels : ∀ n ≤ 10, ((titledTwiceTokens.take n).foldlM Reader.step {}).toOption.bind
      (fun r => r.position.label?) = none := by
    decide
  obtain ⟨before, t, after, hlex, htext, hside⟩ := repeatedMember_names_token h
  have hsplit : titledTwiceTokens = before ++ [t] ++ after := by
    rw [List.append_assoc]
    exact Except.ok.inj (htokens.symm.trans hlex)
  rcases hside with ⟨enum, ⟨r, next, hfold, hp, _⟩, _⟩ | ⟨s, st, earlier, f, later, hfield⟩
  · have hlength : (before ++ [t]).length ≤ titledTwiceTokens.length := by simp [hsplit]
    have hnone := hlabels _ hlength
    rw [hsplit, List.take_left, hfold] at hnone
    exact absurd hnone (by simp [Except.toOption, hp, Position.label?])
  · obtain ⟨hs, hst, hscope, hrepeats, hnames, hline⟩ := hfield
    obtain rfl : t = ⟨2, "X"⟩ := by rw [← htext, hline]
    exact ⟨h, before, after, s, st, earlier, f, later, hlex, hs, hst, hscope, hrepeats, hnames⟩

/-- A label that is there twice, the second time with a value on the next line. -/
def valueBelowSource : Text :=
  "struct S \x7b enum E \x7b A, A\n= 1 \x7d; \x7d;"

/-- The line that is given for a label need not hold its name. -/
theorem repeatedMember_names_token_below :
    parse valueBelowSource = .error (.duplicateMember "E" "A" 2) ∧
    ∃ tokens, Token.lex valueBelowSource = .ok tokens ∧
      ¬ ∃ t ∈ tokens, t.text = "A" ∧ t.line = 2 :=
  ⟨rfl, _, rfl, by decide⟩

end Schema

end Schematic
