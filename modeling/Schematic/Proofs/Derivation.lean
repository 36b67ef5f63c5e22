import Schematic.Proofs.Scopes

/-!
# Reading along a derivation

The texts of a tree are taken one after another. Where a tree is spelled as the grammar demands,
nothing can stop the reader but a type name that denotes nothing and a name that is declared twice;
and if it is not stopped, it comes to hold exactly what the tree builds.
-/

namespace Schematic

open Grammar
open Text (ofString)

namespace Reader

/-- Takes a text as a token on line zero. -/
def take (r : Reader) (t : Text) : Option Reader :=
  (r.step ⟨0, t⟩).toOption

/-- Takes texts one after another. -/
def takeAll (r : Reader) (ts : List Text) : Option Reader :=
  ts.foldlM take r

theorem takeAll_cons (r : Reader) (t : Text) (ts : List Text) :
    r.takeAll (t :: ts) = (r.take t).bind fun r => r.takeAll ts :=
  rfl

theorem takeAll_append (r : Reader) (ts us : List Text) :
    r.takeAll (ts ++ us) = (r.takeAll ts).bind fun r => r.takeAll us :=
  List.foldlM_append

theorem takeAll_step {r r' : Reader} {t : Text} {ts : List Text} (h : r.take t = some r') :
    r.takeAll (t :: ts) = r'.takeAll ts := by
  rw [takeAll_cons, h, Option.bind_some]

theorem takeAll_steps {r r' : Reader} {ts us : List Text} (h : r.takeAll ts = some r') :
    r.takeAll (ts ++ us) = r'.takeAll us := by
  rw [takeAll_append, h, Option.bind_some]

/-- The reader at a position, with the finished part of a schema, what is declared, and the structs
that are open. -/
def state (s : Schema) (k : Known) (stack : List Struct) (position : Position) : Reader where
  position
  stack
  structs := s.structs
  declared := k.structs
  enums := k.enums
  binaryNamespace := s.binaryNamespace
  friendlyNamespace := s.friendlyNamespace

variable {s : Schema} {k : Known} {stack : List Struct}

/-! ## Fields -/

section Fields

variable {g : FieldGroup} {f : Field} {d : Declarator} {owner : Struct}

theorem take_fieldName {name : Text} (h : Text.isIdentifier name = true) :
    (state s k stack (.fieldName g)).take name =
      some (state s k stack
        (.fieldShape g ⟨name, g.typeName, g.type, .scalar, g.optional, none, 0⟩)) := by
  simp only [take, step, state, stepFieldName, identifier, h, if_true]
  rfl

theorem take_fieldCount {count : Text} {i : Int} (h : Text.int64? count = some i) (hi : -1 ≤ i) :
    (state s k stack (.fieldCount g f)).take count =
      some (state s k stack (.fieldBracket g { f with shape := Shape.ofInt i })) := by
  have hbracket : Text.int64? "]" = none := by decide
  have hne : count ≠ "]" := by
    rintro rfl
    exact absurd (hbracket.symm.trans h) (by simp)
  have hcount : count? count = some (Shape.ofInt i) := by
    simp [count?, h, hi]
  simp only [take, step, state, if_neg hne, hcount]
  rfl

/-- Where the reader stands behind a declarator. -/
def declaratorEnd (g : FieldGroup) (d : Declarator) : Position :=
  match d.brackets?, d.default? with
  | _, some _ => .fieldEnd g (d.field g)
  | some _, none => .fieldSign g (d.field g)
  | none, none => .fieldShape g (d.field g)

theorem takeAll_declarator (spelled : d.IsSpelled) :
    (state s k stack (.fieldName g)).takeAll d.texts =
      some (state s k stack (declaratorEnd g d)) := by
  obtain ⟨name, brackets?, default?⟩ := d
  obtain ⟨hname, hcount⟩ := spelled
  refine (takeAll_step (take_fieldName hname)).trans ?_
  rcases brackets? with _ | _ | count
  · cases default? <;> rfl
  · cases default? <;> rfl
  · obtain ⟨i, hi, hle⟩ := hcount count rfl
    have hopen : (state s k stack (.fieldShape g
        ⟨name, g.typeName, g.type, .scalar, g.optional, none, 0⟩)).take "[" =
          some (state s k stack (.fieldCount g _)) := rfl
    refine (takeAll_step hopen).trans ((takeAll_step (take_fieldCount hi hle)).trans ?_)
    have hshape : Shape.ofInt i = Shape.ofInt ((Text.int64? count).getD 0) := by
      rw [Option.mem_def.mp hi, Option.getD_some]
    rw [hshape]
    cases default? <;> rfl

theorem take_comma :
    (state s k (owner :: stack) (declaratorEnd g d)).take "," =
      some (state s k ({ owner with fields := owner.fields ++ [d.field g] } :: stack)
        (.fieldName g)) := by
  obtain ⟨name, brackets?, default?⟩ := d
  cases brackets? <;> cases default? <;> rfl

theorem take_semicolon :
    (state s k (owner :: stack) (declaratorEnd g d)).take ";" =
      some (state s k ({ owner with fields := owner.fields ++ [d.field g] } :: stack) .body) := by
  obtain ⟨name, brackets?, default?⟩ := d
  cases brackets? <;> cases default? <;> rfl

theorem takeAll_declarators {rest : List Declarator} {ts : List Text} (first : d.IsSpelled)
    (spelled : ∀ d ∈ rest, d.IsSpelled) :
    (state s k (owner :: stack) (.fieldName g)).takeAll
        (d.texts ++ (Declarator.moreTexts rest ++ ofString ";" :: ts)) =
      (state s k ({ owner with
        fields := owner.fields ++ (d :: rest).map (Declarator.field g) } :: stack) .body).takeAll
          ts := by
  induction rest generalizing d owner with
  | nil =>
      rw [takeAll_steps (takeAll_declarator first)]
      exact takeAll_step take_semicolon
  | cons next rest ih =>
      rw [takeAll_steps (takeAll_declarator first), Declarator.moreTexts, List.flatMap_cons,
        List.cons_append, List.cons_append, takeAll_step take_comma, List.append_assoc]
      refine (ih (spelled next (by simp)) fun d hd => spelled d (by simp [hd])).trans ?_
      simp

/-- A group of fields goes to the innermost open struct. -/
theorem takeAll_fields {type : Text} {denoted : FieldType} {optional : Bool}
    {rest : List Declarator} {ts : List Text} (first : d.IsSpelled)
    (spelled : ∀ d ∈ rest, d.IsSpelled) :
    (state s k (owner :: stack) (.fieldMark ⟨type, denoted, false⟩)).takeAll
        ((if optional then [ofString "?"] else []) ++
          (d.texts ++ (Declarator.moreTexts rest ++ ofString ";" :: ts))) =
      (state s k ({ owner with
        fields := owner.fields ++
          (d :: rest).map (Declarator.field ⟨type, denoted, optional⟩) } :: stack) .body).takeAll
            ts := by
  rw [← takeAll_declarators first spelled]
  cases optional with
  | true => rfl
  | false =>
      have hmark : Text.isIdentifier "?" = false := by decide
      have hne : d.name ≠ "?" := by
        intro h
        exact absurd (h ▸ first.1) (by simp [hmark])
      have htake : (state s k (owner :: stack) (.fieldMark ⟨type, denoted, false⟩)).take d.name =
          (state s k (owner :: stack) (.fieldName ⟨type, denoted, false⟩)).take d.name := by
        simp only [take, step, state, if_neg hne]
        rfl
      simp only [Bool.false_eq_true, if_false, List.nil_append, Declarator.texts,
        List.cons_append, takeAll_cons, htake]

end Fields

/-! ## Enumerations -/

section Labels

variable {e : Enumeration} {next : Int}

/-- An enumeration with one more label. -/
def withLabel (e : Enumeration) (name : Text) (value : Int) : Enumeration :=
  { e with labels := e.labels ++ [⟨name, value⟩] }

theorem take_label {name : Text} (h : Text.isIdentifier name = true) :
    (state s k stack (.labels e next)).take name =
      some (state s k stack (.labelSign e next ⟨0, name⟩)) := by
  have hbrace : Text.isIdentifier "\x7d" = false := by decide
  have hne : name ≠ "\x7d" := by
    rintro rfl
    exact absurd h (by simp [hbrace])
  simp only [take, step, state, stepLabels, if_neg hne, h, if_true]
  rfl

theorem take_labelValue {name value : Text} {i : Int} (h : Text.int32? value = some i) :
    (state s k stack (.labelValue e ⟨0, name⟩)).take value =
      if e.hasLabel name then none
      else some (state s k stack (.labelEnd (withLabel e name i) (i + 1))) := by
  simp only [take, step, state, h, addLabel]
  split <;> rfl

/-- A label without a value is taken when the next text is known not to be a sign. -/
theorem take_labelSign {name t : Text} (h : t ≠ "=") :
    (state s k stack (.labelSign e next ⟨0, name⟩)).take t =
      if e.hasLabel name then none
      else (state s k stack (.labelEnd (withLabel e name next) (next + 1))).take t := by
  simp only [take, step, state, if_neg h, addLabel]
  split <;> rfl

theorem take_labelEnd {t : Text} (h : t ≠ ",") :
    (state s k stack (.labelEnd e next)).take t = (state s k stack (.labels e next)).take t := by
  simp only [take, step, state, stepLabelEnd, if_neg h]
  rfl

/-- A text that can stand behind a label and its comma. -/
def followsLabel : List Text → Prop
  | [] => False
  | t :: _ => t ≠ "," ∧ t ≠ "="

theorem followsLabel_entries {entries : List LabelEntry} {ts : List Text}
    (spelled : ∀ e ∈ entries, e.IsSpelled) :
    followsLabel (entries.flatMap LabelEntry.texts ++ ofString "\x7d" :: ts) := by
  cases entries with
  | nil => exact ⟨by decide, by decide⟩
  | cons e entries =>
      have hname := (spelled e (by simp)).1
      have hcomma : Text.isIdentifier "," = false := by decide
      have hsign : Text.isIdentifier "=" = false := by decide
      refine ⟨fun h => ?_, fun h => ?_⟩
      · exact absurd (h ▸ hname) (by simp [hcomma])
      · exact absurd (h ▸ hname) (by simp [hsign])

theorem takeAll_labelEnd {entry : LabelEntry} {ts : List Text} (h : followsLabel ts) :
    (state s k stack (.labelEnd e next)).takeAll (entry.commaTexts ++ ts) =
      (state s k stack (.labels e next)).takeAll ts := by
  obtain ⟨name, value?, comma⟩ := entry
  cases comma with
  | true => rfl
  | false =>
      cases ts with
      | nil => exact h.elim
      | cons t ts => exact congrArg (Option.bind · _) (take_labelEnd h.1)

theorem takeAll_labelSign {entry : LabelEntry} {ts : List Text} (h : followsLabel ts) :
    (state s k stack (.labelSign e next ⟨0, entry.name⟩)).takeAll (entry.commaTexts ++ ts) =
      if e.hasLabel entry.name then none
      else (state s k stack (.labels (withLabel e entry.name next) (next + 1))).takeAll ts := by
  -- The label is complete only with the text behind it, which is a comma or starts something new.
  have hnext : ∃ t us, entry.commaTexts ++ ts = t :: us ∧ t ≠ "=" := by
    obtain ⟨name, value?, comma⟩ := entry
    cases comma with
    | true => exact ⟨_, _, rfl, by decide⟩
    | false =>
        cases ts with
        | nil => exact h.elim
        | cons t ts => exact ⟨t, ts, rfl, h.2⟩
  rw [← takeAll_labelEnd h]
  obtain ⟨t, us, heq, hne⟩ := hnext
  rw [heq, takeAll_cons, take_labelSign hne]
  split <;> rfl

/-- An entry adds its label, unless there is one of its name. -/
theorem takeAll_entry {entry : LabelEntry} {ts : List Text} (spelled : entry.IsSpelled)
    (h : followsLabel ts) :
    (state s k stack (.labels e next)).takeAll (entry.texts ++ ts) =
      if e.hasLabel entry.name then none
      else (state s k stack (.labels (withLabel e entry.name (entry.valueFrom next))
        (entry.valueFrom next + 1))).takeAll ts := by
  rw [LabelEntry.texts, List.cons_append, List.append_assoc, takeAll_step (take_label spelled.1)]
  cases hvalue : entry.value? with
  | none =>
      simp only [LabelEntry.valueTexts, LabelEntry.valueFrom, hvalue, Option.elim_none,
        List.nil_append]
      exact takeAll_labelSign h
  | some value =>
      obtain ⟨i, hi⟩ := Option.isSome_iff_exists.mp (spelled.2 value hvalue)
      have hsign : (state s k stack (.labelSign e next ⟨0, entry.name⟩)).take "=" =
          some (state s k stack (.labelValue e ⟨0, entry.name⟩)) := rfl
      simp only [LabelEntry.valueTexts, LabelEntry.valueFrom, hvalue, Option.elim_some, hi,
        Option.getD_some, List.cons_append, List.nil_append]
      rw [takeAll_step hsign, takeAll_cons, take_labelValue hi, ← takeAll_labelEnd h]
      split <;> rfl

theorem hasLabel_eq_false {name : Text} :
    e.hasLabel name = false ↔ name ∉ e.labels.map Label.name := by
  simp only [Enumeration.hasLabel, List.any_eq_false, List.mem_map, decide_eq_true_eq, not_exists,
    not_and]

/-- The entries of an enumeration are taken exactly if their names differ. -/
theorem takeAll_entries {entries : List LabelEntry} {ts : List Text} {r : Reader}
    (spelled : ∀ e ∈ entries, e.IsSpelled) (distinct : (e.labels.map Label.name).Nodup) :
    (state s k stack (.labels e next)).takeAll
        (entries.flatMap LabelEntry.texts ++ ofString "\x7d" :: ts) = some r ↔
      ((e.labels ++ labelsFrom next entries).map Label.name).Nodup ∧
        (state s k stack
          (.enumEnd { e with labels := e.labels ++ labelsFrom next entries })).takeAll ts =
            some r := by
  induction entries generalizing e next with
  | nil =>
      have hend : (state s k stack (.labels e next)).take "\x7d" =
          some (state s k stack (.enumEnd e)) := rfl
      rw [List.flatMap_nil, List.nil_append, takeAll_step hend, labelsFrom, List.append_nil]
      simp [distinct]
  | cons entry entries ih =>
      have hrest : ∀ e ∈ entries, e.IsSpelled := fun e he => spelled e (by simp [he])
      have hlabels : (e.labels ++ labelsFrom next (entry :: entries)).map Label.name =
          e.labels.map Label.name ++
            entry.name :: (labelsFrom (entry.valueFrom next + 1) entries).map Label.name := by
        simp [labelsFrom]
      rw [List.flatMap_cons, List.append_assoc,
        takeAll_entry (spelled entry (by simp)) (followsLabel_entries hrest)]
      split
      · rename_i hlabel
        rw [hlabels]
        refine ⟨fun h => absurd h (by simp), fun ⟨h, _⟩ => ?_⟩
        have hfresh : e.hasLabel entry.name = false :=
          hasLabel_eq_false.mpr fun hmem =>
            (List.nodup_append.mp h).2.2 _ hmem _ List.mem_cons_self rfl
        exact absurd hlabel (by simp [hfresh])
      · rename_i hlabel
        have hfresh := hasLabel_eq_false.mp (Bool.eq_false_iff.mpr hlabel)
        have hnodup : ((withLabel e entry.name (entry.valueFrom next)).labels.map
            Label.name).Nodup := by
          simpa [withLabel] using distinct.concat hfresh
        rw [ih hrest hnodup]
        simp [withLabel, labelsFrom]

end Labels

/-! ## Names -/

theorem isDeclared_eq_false {r : Reader} {name : Text} :
    r.isDeclared name = false ↔
      name ∉ r.declared.map Qualified.text ++ r.enums.map Enumeration.name := by
  simp only [isDeclared, Bool.or_eq_false_iff, List.any_eq_false, decide_eq_true_eq,
    List.mem_append, List.mem_map, not_or, not_exists, not_and]

/-- A struct can be declared if its full name is free. -/
theorem distinct_struct_iff {p : Position} {q : Qualified} (distinct : k.Distinct) :
    (k ++ {q}).Distinct ↔ (state s k stack p).isDeclared q.text = false := by
  have hnames : ((k ++ {q}).structs.map Qualified.text ++ (k ++ {q}).enums.map Enumeration.name) =
      k.structs.map Qualified.text ++ q.text :: k.enums.map Enumeration.name := by
    simp
  rw [isDeclared_eq_false]
  constructor
  · intro h
    have hnodup := h.names
    rw [hnames, List.nodup_middle, List.nodup_cons] at hnodup
    exact hnodup.1
  · intro h
    refine ⟨?_, by simpa using distinct.labels⟩
    rw [hnames, List.nodup_middle, List.nodup_cons]
    exact ⟨h, distinct.names⟩

/-- An enumeration can be declared if its name is free. -/
theorem distinct_enum_iff {p : Position} {e : Enumeration} (distinct : k.Distinct) :
    (k ++ ⟨[], [e]⟩).Distinct ↔
      (e.labels.map Label.name).Nodup ∧ (state s k stack p).isDeclared e.name = false := by
  have hnames : ((k ++ ⟨[], [e]⟩).structs.map Qualified.text ++
      (k ++ ⟨[], [e]⟩).enums.map Enumeration.name) =
        (k.structs.map Qualified.text ++ k.enums.map Enumeration.name) ++ e.name :: [] := by
    simp
  rw [isDeclared_eq_false]
  constructor
  · intro h
    have hnodup := h.names
    rw [hnames, List.nodup_middle, List.nodup_cons, List.append_nil] at hnodup
    exact ⟨h.labels e (by simp), hnodup.1⟩
  · rintro ⟨hlabels, h⟩
    refine ⟨?_, ?_⟩
    · rw [hnames, List.nodup_middle, List.nodup_cons, List.append_nil]
      exact ⟨h, distinct.names⟩
    · intro e' he'
      rcases List.mem_append.mp he' with he' | he'
      · exact distinct.labels e' he'
      · exact List.mem_singleton.mp he' ▸ hlabels

/-! ## Members -/

section Members

variable {owner : Struct}

theorem take_typeName {name : Text} (h : IsTypeName name) (what : Text) :
    typeName what ⟨0, name⟩ = .ok name := by
  simp [typeName, h.1, h.2]

/-- Opening a struct fails only if its name is taken. -/
theorem toOption_openStruct {name : Text} {parent? : Option Text} {p : Position} :
    ((state s k stack p).openStruct name 0 parent?).toOption =
      if (state s k stack p).isDeclared ((state s k stack p).scope ++ [name]).text then none
      else some (state s (k ++ {(state s k stack p).scope ++ [name]})
        (emptyStruct (state s k stack p).scope name parent? :: stack) .structOpen) := by
  simp only [openStruct]
  split
  · rename_i hdeclared
    exact (if_pos hdeclared).symm
  · rename_i hdeclared
    refine Eq.trans ?_ (if_neg hdeclared).symm
    simp [Except.toOption, state, emptyStruct, Struct.qualified]

/-- Behind the name of a struct, its parent and the brace open it. -/
theorem takeAll_structHead {name : Text} {parent? : Option Text} {ts : List Text}
    (hparent : ∀ parent ∈ parent?, IsTypeName parent) :
    (state s k stack (.structHead name 0)).takeAll (parentTexts parent? ++ ofString "\x7b" :: ts) =
      ((state s k stack .structName).openStruct name 0 parent?).toOption.bind fun r =>
        (r.goto .body).takeAll ts := by
  cases parent? with
  | none =>
      have hbrace : (state s k stack (.structHead name 0)).take "\x7b" =
          ((state s k stack .structName).openStruct name 0 none >>= fun r =>
            r.expect "\x7b" ⟨0, "\x7b"⟩ .body).toOption := rfl
      refine (congrArg (Option.bind · _) hbrace).trans ?_
      cases (state s k stack .structName).openStruct name 0 none <;> rfl
  | some parent =>
      have hcolon : (state s k stack (.structHead name 0)).take ":" =
          some (state s k stack (.structParent name 0)) := rfl
      have htake : (state s k stack (.structParent name 0)).take parent =
          ((state s k stack .structName).openStruct name 0 (some parent)).toOption := by
        simp only [take, step, state, take_typeName (hparent parent rfl)]
        rfl
      refine (takeAll_step hcolon).trans ((congrArg (Option.bind · _) htake).trans ?_)
      rw [toOption_openStruct]
      split <;> rfl

/-- The header of a struct opens it, if its name is free. -/
theorem takeAll_header {name : Text} {parent? : Option Text} {scope : Qualified} {ts : List Text}
    {r : Reader} (hscope : (state s k stack .structName).scope = scope) (hname : IsTypeName name)
    (hparent : ∀ parent ∈ parent?, IsTypeName parent) (distinct : k.Distinct) :
    (state s k stack .structName).takeAll
        (name :: (parentTexts parent? ++ ofString "\x7b" :: ts)) = some r ↔
      (k ++ {scope ++ [name]}).Distinct ∧
        (state s (k ++ {scope ++ [name]}) (emptyStruct scope name parent? :: stack) .body).takeAll
          ts = some r := by
  have hfirst : (state s k stack .structName).take name =
      some (state s k stack (.structHead name 0)) := by
    simp only [take, step, state, take_typeName hname]
    rfl
  have hfree : (k ++ {scope ++ [name]}).Distinct ↔
      (state s k stack .structName).isDeclared (scope ++ [name]).text = false :=
    distinct_struct_iff distinct
  rw [takeAll_step hfirst, takeAll_structHead hparent, toOption_openStruct, hfree, hscope]
  cases (state s k stack .structName).isDeclared (scope ++ [name]).text with
  | true => simp
  | false => simp [state, goto]

theorem take_type {type : Text} (brace : type ≠ "\x7d") (struct : type ≠ "struct")
    (enum : type ≠ "enum") :
    (state s k stack .body).take type =
      ((state s k stack .body).resolve? type).map fun denoted =>
        state s k stack (.fieldMark ⟨type, denoted, false⟩) := by
  change ((state s k stack .body).stepBody ⟨0, type⟩).toOption = _
  simp only [stepBody, if_neg brace, if_neg struct, if_neg enum]
  cases (state s k stack .body).resolve? type <;> rfl

theorem take_struct : (state s k (owner :: stack) .body).take "struct" =
    some (state s k (owner :: stack) .structName) :=
  rfl

theorem take_enum : (state s k (owner :: stack) .body).take "enum" =
    some (state s k (owner :: stack) .enumName) :=
  rfl

/-- The end of a struct puts it into the one around it. -/
theorem takeAll_structEnd {inner : Struct} {ts : List Text} :
    (state s k (inner :: owner :: stack) .body).takeAll
        (ofString "\x7d" :: ofString ";" :: ts) =
      (state s k ({ owner with children := owner.children ++ [inner] } :: stack) .body).takeAll
        ts :=
  rfl

/-- The end of an enumeration declares it, if its name is free. -/
theorem takeAll_enumEnd {e : Enumeration} {ts : List Text} {r : Reader} :
    (state s k (owner :: stack) (.enumEnd e)).takeAll (ofString ";" :: ts) = some r ↔
      (state s k (owner :: stack) .body).isDeclared e.name = false ∧
        (state s (k ++ ⟨[], [e]⟩) ({ owner with enums := owner.enums ++ [e] } :: stack)
          .body).takeAll ts = some r := by
  have htake : (state s k (owner :: stack) (.enumEnd e)).take ";" =
      ((state s k (owner :: stack) .body).closeEnum e).toOption := rfl
  rw [takeAll_cons, htake, closeEnum]
  cases (state s k (owner :: stack) .body).isDeclared e.name with
  | true => simp [Except.toOption]
  | false => simp [Except.toOption, modifyTop, state, goto]

/-- An enumeration is taken if its labels differ and its name is free. -/
theorem takeAll_enumeration {name : Text} {entries : List LabelEntry} {ts : List Text} {r : Reader}
    (hname : IsTypeName name) (spelled : ∀ e ∈ entries, e.IsSpelled) (distinct : k.Distinct) :
    (state s k (owner :: stack) .body).takeAll
        ((Member.enumeration name entries).texts ++ ts) = some r ↔
      (k ++ ⟨[], [enumerationOf owner.qualified name entries]⟩).Distinct ∧
        (state s (k ++ ⟨[], [enumerationOf owner.qualified name entries]⟩)
          ({ owner with enums := owner.enums ++ [enumerationOf owner.qualified name entries] } ::
            stack) .body).takeAll ts = some r := by
  have henum : (state s k (owner :: stack) .enumName).take name =
      some (state s k (owner :: stack) (.enumOpen ⟨name, some owner.qualified, 0, []⟩)) := by
    simp only [take, step, state, take_typeName hname]
    rfl
  have hopen : (state s k (owner :: stack) .body).takeAll
      ((Member.enumeration name entries).texts ++ ts) =
        (state s k (owner :: stack) (.labels ⟨name, some owner.qualified, 0, []⟩ 0)).takeAll
          (entries.flatMap LabelEntry.texts ++ ofString "\x7d" :: ofString ";" :: ts) := by
    rw [Member.enumeration_texts_append, takeAll_step take_enum, takeAll_step henum]
    exact takeAll_step rfl
  have hfree : (k ++ ⟨[], [enumerationOf owner.qualified name entries]⟩).Distinct ↔
      ((labelsFrom 0 entries).map Label.name).Nodup ∧
        (state s k (owner :: stack) .body).isDeclared name = false :=
    distinct_enum_iff distinct
  rw [hopen, takeAll_entries spelled (by simp), hfree, and_assoc]
  exact and_congr_right fun _ => takeAll_enumEnd

mutual

/-- A member is taken exactly if what it declares is new and its type names denote something. -/
theorem takeAll_member (k : Known) (owner : Struct) (stack : List Struct) (ts : List Text)
    (r : Reader) (distinct : k.Distinct) :
    ∀ m : Member, m.IsSpelled →
      ((state s k (owner :: stack) .body).takeAll (m.texts ++ ts) = some r ↔
        (k ++ m.declares owner.qualified).Distinct ∧ ∃ built, m.Builds k owner built ∧
          (state s (k ++ m.declares owner.qualified) (built :: stack) .body).takeAll ts = some r)
  | .struct name parent? members, ⟨hname, hparent, spelled⟩ => by
      have hscope : (state s k (owner :: stack) .structName).scope = owner.qualified := rfl
      rw [Member.struct_texts_append, takeAll_step take_struct,
        takeAll_header hscope hname hparent distinct]
      -- The header declares the struct, so its members are read with the name known.
      refine ((and_congr_right fun hheader => takeAll_members _ _ (owner :: stack) _ r hheader
        members spelled).trans (and_iff_right_of_imp fun h => h.1.of_append)).trans ?_
      simp only [Member.declares, Member.Builds, ← Known.append_assoc]
      refine and_congr_right fun _ => ?_
      constructor
      · rintro ⟨inner, hinner, h⟩
        rw [takeAll_structEnd] at h
        exact ⟨_, ⟨inner, hinner, rfl⟩, h⟩
      · rintro ⟨_, ⟨inner, hinner, rfl⟩, h⟩
        rw [← takeAll_structEnd] at h
        exact ⟨inner, hinner, h⟩
  | .enumeration name entries, ⟨hname, spelled⟩ => by
      rw [takeAll_enumeration hname spelled distinct]
      simp only [Member.declares, Member.Builds, exists_eq_left]
  | .fields type optional first rest, ⟨brace, struct, enum, hfirst, hrest⟩ => by
      rw [Member.fields_texts_append, takeAll_cons, take_type brace struct enum,
        Option.bind_map, Option.bind_eq_some_iff]
      simp only [Member.declares, Member.Builds, Known.append_empty, distinct, true_and]
      constructor
      · rintro ⟨denoted, hdenoted, h⟩
        rw [Known.resolve?_eq_some_iff distinct.names.of_append_right] at hdenoted
        refine ⟨_, ⟨denoted, hdenoted, rfl⟩, ?_⟩
        rw [← takeAll_fields hfirst hrest]
        exact h
      · rintro ⟨_, ⟨denoted, hdenoted, rfl⟩, h⟩
        refine ⟨denoted, (Known.resolve?_eq_some_iff distinct.names.of_append_right).mpr hdenoted,
          ?_⟩
        rw [← takeAll_fields hfirst hrest] at h
        exact h

theorem takeAll_members (k : Known) (owner : Struct) (stack : List Struct) (ts : List Text)
    (r : Reader) (distinct : k.Distinct) :
    ∀ ms : List Member, Member.IsSpelledAll ms →
      ((state s k (owner :: stack) .body).takeAll (Member.textsAll ms ++ ts) = some r ↔
        (k ++ Member.declaresAll owner.qualified ms).Distinct ∧
          ∃ built, Member.BuildsAll k owner ms built ∧
            (state s (k ++ Member.declaresAll owner.qualified ms) (built :: stack) .body).takeAll
              ts = some r)
  | [], _ => by
      simp [Member.textsAll, Member.declaresAll, Member.BuildsAll, distinct]
  | m :: ms, ⟨hm, hms⟩ => by
      rw [Member.textsAll, List.append_assoc, takeAll_member k owner stack _ r distinct m hm]
      simp only [Member.declaresAll, Member.BuildsAll, ← Known.append_assoc]
      -- Names that differ in the end differed in between, which the way back needs.
      constructor
      · rintro ⟨hdistinct, mid, hmid, h⟩
        rw [takeAll_members _ mid stack ts r hdistinct ms hms, Member.qualified_of_builds hmid] at h
        obtain ⟨hall, built, hbuilt, h⟩ := h
        exact ⟨hall, built, ⟨mid, hmid, hbuilt⟩, h⟩
      · rintro ⟨hall, built, ⟨mid, hmid, hbuilt⟩, h⟩
        refine ⟨hall.of_append, mid, hmid, ?_⟩
        rw [takeAll_members _ mid stack ts r hall.of_append ms hms, Member.qualified_of_builds hmid]
        exact ⟨hall, built, hbuilt, h⟩

end

end Members

/-! ## Files -/

/-- The end of the outermost struct puts it into the file. -/
theorem takeAll_fileStructEnd {st : Struct} {ts : List Text} :
    (state s k [st] .body).takeAll (ofString "\x7d" :: ofString ";" :: ts) =
      (state { s with structs := s.structs ++ [st] } k [] .file).takeAll ts :=
  rfl

/-- An item is taken exactly if what it declares is new and its type names denote something. -/
theorem takeAll_item {ts : List Text} {r : Reader} (distinct : k.Distinct) :
    ∀ item : Item, item.IsSpelled →
      ((state s k [] .file).takeAll (item.texts ++ ts) = some r ↔
        (k ++ item.declares).Distinct ∧ ∃ built, item.Builds k s built ∧
          (state built (k ++ item.declares) [] .file).takeAll ts = some r)
  | .struct ⟨name, parent?, members⟩, ⟨hname, hparent, spelled⟩ => by
      have hscope : (state s k [] .structName).scope = [] := rfl
      have hkeyword : (state s k [] .file).take "struct" = some (state s k [] .structName) := rfl
      rw [Item.texts, TopStruct.member, Member.struct_texts_append, takeAll_step hkeyword,
        takeAll_header hscope hname hparent distinct]
      refine ((and_congr_right fun hheader => takeAll_members _ _ [] _ r hheader members
        spelled).trans (and_iff_right_of_imp fun h => h.1.of_append)).trans ?_
      simp only [Item.declares, TopStruct.member, Member.declares, Item.Builds,
        ← Known.append_assoc]
      refine and_congr_right fun _ => ?_
      constructor
      · rintro ⟨st, hst, h⟩
        rw [takeAll_fileStructEnd] at h
        exact ⟨_, ⟨st, hst, rfl⟩, h⟩
      · rintro ⟨_, ⟨st, hst, rfl⟩, h⟩
        rw [← takeAll_fileStructEnd] at h
        exact ⟨st, hst, h⟩
  | .directive side name, hname => by
      have hsign : (state s k [] (.namespaceSign side)).take "=" =
          some (state s k [] (.namespaceName side)) := rfl
      have htake : (state s k [] (.namespaceName side)).take name =
          some (state s k [] (.namespaceEnd side name)) := by
        simp only [take, step, state, take_typeName hname]
        rfl
      have htexts : (Item.directive side name).texts ++ ts =
          keyword side :: ofString "=" :: name :: ofString ";" :: ts := rfl
      have hkeyword : (state s k [] .file).take (keyword side) =
          some (state s k [] (.namespaceSign side)) := by
        cases side <;> rfl
      have hend : (state s k [] (.namespaceEnd side name)).take ";" =
          some (state (setNamespace s name side) k [] .file) := by
        cases side <;> rfl
      rw [htexts, takeAll_step hkeyword, takeAll_step hsign, takeAll_step htake,
        takeAll_step hend]
      simp only [Item.declares, Item.Builds, Known.append_empty, distinct, true_and,
        exists_eq_left]

theorem takeAll_items {items : List Item} {ts : List Text} {r : Reader} (distinct : k.Distinct)
    (spelled : ∀ item ∈ items, item.IsSpelled) :
    (state s k [] .file).takeAll (items.flatMap Item.texts ++ ts) = some r ↔
      (k ++ Item.declaresAll items).Distinct ∧ ∃ built, Item.BuildsAll k s items built ∧
        (state built (k ++ Item.declaresAll items) [] .file).takeAll ts = some r := by
  induction items generalizing s k with
  | nil => simp [Item.declaresAll, Item.BuildsAll, distinct]
  | cons item items ih =>
      have hrest : ∀ item ∈ items, item.IsSpelled := fun item h => spelled item (by simp [h])
      rw [List.flatMap_cons, List.append_assoc, takeAll_item distinct item (spelled item (by simp))]
      simp only [Item.declaresAll, Item.BuildsAll, ← Known.append_assoc]
      constructor
      · rintro ⟨hdistinct, mid, hmid, h⟩
        obtain ⟨hall, built, hbuilt, h⟩ := (ih hdistinct hrest).mp h
        exact ⟨hall, built, ⟨mid, hmid, hbuilt⟩, h⟩
      · rintro ⟨hall, built, ⟨mid, hmid, hbuilt⟩, h⟩
        exact ⟨hall.of_append, mid, hmid, (ih hall.of_append hrest).mpr ⟨hall, built, hbuilt, h⟩⟩

theorem takeAll_finished (unread : List Text) :
    (state s k [] .finished).takeAll unread = some (state s k [] .finished) := by
  induction unread with
  | nil => rfl
  | cons t unread ih => exact (takeAll_step rfl).trans ih

/-- The reader can end behind the items of a file, whatever stands behind a brace that ends it
early. -/
theorem finish_unread (unread? : Option (List Text)) :
    ((state s k [] .file).takeAll
      (unread?.elim [] fun unread => "\x7d" :: ";" :: unread)).bind
        (fun r => (r.finish 0).toOption) = some s := by
  cases unread? with
  | none => rfl
  | some unread =>
      have hbrace : (state s k [] .file).takeAll (ofString "\x7d" :: ofString ";" :: unread) =
          (state s k [] .finished).takeAll unread := rfl
      rw [Option.elim_some, hbrace, takeAll_finished]
      rfl

theorem takeAll_eq_foldlM (r : Reader) (ts : List Text) :
    ((ts.map (Token.mk 0)).foldlM step r).toOption = r.takeAll ts := by
  induction ts generalizing r with
  | nil => rfl
  | cons t ts ih =>
      rw [List.map_cons, List.foldlM_cons, takeAll_cons, take]
      cases r.step ⟨0, t⟩ with
      | error e => rfl
      | ok r' => exact ih r'

theorem toOption_read (ts : List Text) :
    (read (ts.map (Token.mk 0))).toOption =
      (takeAll {} ts).bind fun r => (r.finish 0).toOption := by
  have hline : (((ts.map (Token.mk 0)).getLast?).map Token.line).getD 0 = 0 := by
    cases h : (ts.map (Token.mk 0)).getLast? with
    | none => rfl
    | some t =>
        obtain ⟨text, _, rfl⟩ := List.mem_map.mp (List.mem_of_getLast? h)
        rfl
  rw [read, ← takeAll_eq_foldlM, hline]
  cases (ts.map (Token.mk 0)).foldlM step {} <;> rfl

/-- Along a derivation, the reader succeeds exactly if all names are new and all types denote
something; and it reads what the derivation builds. -/
theorem read_eq_ok_iff_of_derives {file : File} {ts : List Text} (derives : file.Derives ts)
    {s : Schema} :
    read (ts.map (Token.mk 0)) = .ok s ↔ file.declares.Distinct ∧ file.Builds s := by
  obtain ⟨spelled, rfl⟩ := derives
  have hok : read (file.texts.map (Token.mk 0)) = .ok s ↔
      (read (file.texts.map (Token.mk 0))).toOption = some s := by
    cases read (file.texts.map (Token.mk 0)) <;> simp [Except.toOption]
  have hstart : ({} : Reader) = state ⟨none, none, []⟩ ∅ [] .file := rfl
  rw [hok, toOption_read, File.texts, List.flatten_cons, List.flatten_singleton, hstart,
    Option.bind_eq_some_iff]
  simp only [takeAll_items Known.distinct_empty spelled, Known.empty_append]
  constructor
  · rintro ⟨r, ⟨hdistinct, built, hbuilt, htail⟩, hfinish⟩
    have hend := finish_unread file.unread? (s := built) (k := Item.declaresAll file.items)
    rw [htail, Option.bind_some, hfinish] at hend
    exact ⟨hdistinct, Option.some.inj hend ▸ hbuilt⟩
  · rintro ⟨hdistinct, hbuilt⟩
    obtain ⟨r, htail, hfinish⟩ := Option.bind_eq_some_iff.mp (finish_unread file.unread?)
    exact ⟨r, ⟨hdistinct, s, hbuilt, htail⟩, hfinish⟩

end Reader

end Schematic
