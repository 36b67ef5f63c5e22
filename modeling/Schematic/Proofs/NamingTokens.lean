import Schematic.Proofs.Phases

/-!
# Tokens that name members

A field is named by one token and added to its struct some tokens later, when it is complete; a
label waits for its value in the same way. Main statement: every field of a schema that was read
carries the text and the line of the token that named it, in the struct that was open there and
behind the fields that this struct had.

## Implementation notes

`Naming` says what one token does to the names at hand, and the statements about a whole source
follow from it by induction on the tokens, from their end.
-/

namespace Schematic

namespace Position

/-- The field that is named but not yet complete. -/
def pending? : Position → Option Field
  | fieldShape _ f => some f
  | fieldCount _ f => some f
  | fieldBracket _ f => some f
  | fieldSign _ f => some f
  | fieldDefault _ f => some f
  | fieldEnd _ f => some f
  | _ => none

/-- The label that is named but not yet complete. -/
def label? : Position → Option Token
  | labelSign _ _ label => some label
  | labelValue _ label => some label
  | _ => none

/-- A place where no member is left incomplete. -/
def IsPlain (position : Position) : Prop :=
  position.pending? = none ∧ position.label? = none

/-- A field that is named stays so where a clause is left out. -/
theorem Skips.pending?_eq {t : Token} {p q : Position} (h : p.Skips t q) :
    q.pending? = p.pending? := by
  induction h with
  | refl _ => rfl
  | value _ _ _ ih | comma _ _ ih | mark _ _ ih | brackets _ _ ih | default _ _ ih => exact ih

/-- Where a clause is left out, the label in front of it is complete. -/
theorem Skips.eq_of_label {t label : Token} {p q : Position} (h : p.Skips t q)
    (hlabel : q.label? = some label) : p = q := by
  induction h with
  | refl _ => rfl
  | value _ _ _ ih | comma _ _ ih | mark _ _ ih | brackets _ _ ih | default _ _ ih =>
      rw [← ih hlabel] at hlabel
      exact absurd hlabel (by simp [label?])

/-- No member is named before the one in front of it is complete. -/
theorem label?_of_pending {position : Position} {f : Field} (h : position.pending? = some f) :
    position.label? = none := by
  cases position <;> first | rfl | exact absurd h (by simp [pending?])

end Position

/-- A field that carries the text and the line of a token. -/
structure Field.NamedBy (f : Field) (t : Token) : Prop where
  name : f.name = t.text
  line : f.line = t.line

namespace Reader

/-! ## What one token does to the names at hand -/

/-- A token opens a struct, names a label or a field, says more of either, completes a field or does
something else. -/
inductive Naming (r : Reader) (t : Token) (r' : Reader) : Prop where
  | other (seen : r'.seen.map Struct.interface = r.seen.map Struct.interface)
      (plain : r'.position.IsPlain)
  | opened {q : Qualified}
      (seen : r'.seen.map Struct.interface = r.seen.map Struct.interface ++ [(q, [])])
      (plain : r'.position.IsPlain)
  | label {enum : Enumeration} {next : Int} (eq : r' = r.goto (.labelSign enum next t))
  | sign {enum : Enumeration} {next : Int} {label : Token}
      (here : r.position = .labelSign enum next label) (equals : t.text = "=")
      (eq : r' = r.goto (.labelValue enum label))
  | field {g : FieldGroup} {f : Field} (named : f.NamedBy t) (eq : r' = r.goto (.fieldShape g f))
  | more {f f' : Field} {position : Position} (pending : r.position.pending? = some f)
      (eq : r' = r.goto position) (pending' : position.pending? = some f')
      (name : f'.name = f.name) (line : f'.line = f.line)
  | added {f : Field} {position : Position} (pending : r.position.pending? = some f)
      (plain : position.IsPlain) (eq : r' = (r.addField f).goto position)

section Steps

variable {r r' : Reader} {t : Token}

/-- Going on at a place where no member is left incomplete. -/
theorem naming_goto {position : Position} (plain : position.IsPlain) :
    Naming r t (r.goto position) :=
  .other rfl plain

/-- A sign says more of a member or leads to a place where none is left incomplete. -/
theorem naming_of_leads {p q : Position} (here : r.position.Skips t p)
    (leads : p.Leads t.text q) : Naming r t (r.goto q) := by
  have hpending : r.position.pending? = p.pending? := here.pending?_eq.symm
  generalize hsign : t.text = sign at leads
  cases leads with
  | value enum next label => exact .sign (here.eq_of_label rfl) hsign rfl
  | brackets g f | dynamic g f | fixed g f | default g f => exact .more hpending rfl rfl rfl rfl
  | _ => exact naming_goto ⟨rfl, rfl⟩

theorem naming_openStruct {name : Text} {line : Nat} {parent : Option Text} {position : Position}
    (h : r.openStruct name line parent = .ok r') (plain : position.IsPlain) :
    Naming r t (r'.goto position) := by
  obtain ⟨_, rfl⟩ := openStruct_eq_ok h
  refine .opened (q := r.scope ++ [name]) ?_ plain
  have hseen := seen_cons (r := { r with
    position
    stack := ⟨name, r.scope, parent, none, line, [], [], []⟩ :: r.stack
    declared := r.declared ++ [r.scope ++ [name]] }) rfl
  exact (congrArg (List.map Struct.interface) hseen).trans List.map_append

theorem naming_closeStruct : Naming r t r.closeStruct := by
  refine .other (interface_closeStruct r) ?_
  rcases hstack : r.stack with _ | ⟨s, _ | ⟨outer, stack⟩⟩ <;>
    simp [closeStruct, hstack, goto, Position.IsPlain, Position.pending?, Position.label?]

/-- Every token that is accepted does one of the seven. -/
theorem naming_of_step (h : r.step t = .ok r') : Naming r t r' := by
  cases takes_of_step h with
  | sign here leads => exact naming_of_leads here leads
  | finished here => exact .other rfl (by rw [here]; exact ⟨rfl, rfl⟩)
  | namespaceName here name => exact naming_goto ⟨rfl, rfl⟩
  | binary here sign => exact .other rfl ⟨rfl, rfl⟩
  | friendly here sign => exact .other rfl ⟨rfl, rfl⟩
  | structName here name => exact naming_goto ⟨rfl, rfl⟩
  | root here opened sign => exact naming_openStruct opened ⟨rfl, rfl⟩
  | heir here parent opened =>
      have hgoto : r' = r'.goto .structOpen := by
        obtain ⟨_, rfl⟩ := openStruct_eq_ok opened
        rfl
      rw [hgoto]
      exact naming_openStruct opened ⟨rfl, rfl⟩
  | type here brace struct enum resolved => exact naming_goto ⟨rfl, rfl⟩
  | closeStruct here sign => exact naming_closeStruct
  | enumName here name => exact naming_goto ⟨rfl, rfl⟩
  | label here brace name => exact .label rfl
  | value here number added => exact naming_goto ⟨rfl, rfl⟩
  | @closeEnum enum r' here sign closed =>
      obtain rfl := closeEnum_eq_ok closed
      refine .other ?_ ⟨rfl, rfl⟩
      exact interface_modifyTop { r with enums := r.enums ++ [enum] } (fun _ => rfl) fun _ => rfl
  | field here name => exact .field ⟨rfl, rfl⟩ rfl
  | @count g f shape here bracket count =>
      exact .more (f := f) (by rw [here]; rfl) rfl rfl rfl rfl
  | @default g f here =>
      exact .more (f := f) (by rw [here]; rfl) rfl rfl rfl rfl
  | next here sign => exact .added here.pending?_eq.symm ⟨rfl, rfl⟩ rfl
  | last here sign => exact .added here.pending?_eq.symm ⟨rfl, rfl⟩ rfl

end Steps

/-! ## Which token named a label -/

section Labels

variable {r r' : Reader} {t label : Token} {before : List Token}

theorem foldlM_concat {start : Reader} :
    (before ++ [t]).foldlM step start = .ok r' ↔
      ∃ r, before.foldlM step start = .ok r ∧ r.step t = .ok r' := by
  rw [List.foldlM_append, bind_eq_ok]
  simp only [List.foldlM_cons, List.foldlM_nil, bind_pure]

/-- A label is left incomplete by the token that names it and by the sign behind it. -/
theorem label_of_step (h : r.step t = .ok r') (hlabel : r'.position.label? = some label) :
    (t = label ∧ ∃ enum next, r'.position = .labelSign enum next label) ∨
      (t.text = "=" ∧ ∃ enum next, r.position = .labelSign enum next label ∧
        r'.position = .labelValue enum label) := by
  have hnot {position : Position} (hnone : position.label? = none) : r'.position ≠ position := by
    rintro rfl
    exact absurd (hnone.symm.trans hlabel) (by simp)
  cases naming_of_step h with
  | other seen plain => exact absurd rfl (hnot plain.2)
  | opened seen plain => exact absurd rfl (hnot plain.2)
  | label eq =>
      obtain rfl := eq
      obtain rfl := Option.some.inj hlabel
      exact .inl ⟨rfl, _, _, rfl⟩
  | sign here equals eq =>
      obtain rfl := eq
      obtain rfl := Option.some.inj hlabel
      exact .inr ⟨equals, _, _, here, rfl⟩
  | field named eq =>
      obtain rfl := eq
      exact absurd rfl (hnot rfl)
  | more pending eq pending' name line =>
      obtain rfl := eq
      exact absurd rfl (hnot (Position.label?_of_pending pending'))
  | added pending plain eq =>
      obtain rfl := eq
      exact absurd rfl (hnot plain.2)

theorem exists_of_label (h : before.foldlM step {} = .ok r')
    (hlabel : r'.position.label? = some label) :
    ∃ front t r, before = front ++ [t] ∧ front.foldlM step {} = .ok r ∧ r.step t = .ok r' := by
  rcases List.eq_nil_or_concat before with rfl | ⟨front, t, rfl⟩
  · obtain rfl := Except.ok.inj h
    exact absurd hlabel (by simp [Position.label?])
  · rw [List.concat_eq_append] at h ⊢
    obtain ⟨r, hfront, hstep⟩ := foldlM_concat.mp h
    exact ⟨front, t, r, rfl, hfront, hstep⟩

/-- Behind a label, the label is the token read last. -/
theorem eq_concat_of_labelSign {enum : Enumeration} {next : Int}
    (h : before.foldlM step {} = .ok r) (hp : r.position = .labelSign enum next label) :
    ∃ front, before = front ++ [label] := by
  have hlabel : r.position.label? = some label := by rw [hp]; rfl
  obtain ⟨front, t, r₁, rfl, _, hstep⟩ := exists_of_label h hlabel
  rcases label_of_step hstep hlabel with ⟨rfl, _⟩ | ⟨_, _, _, _, hp'⟩
  · exact ⟨front, rfl⟩
  · exact absurd (hp.symm.trans hp') (by simp)

/-- Behind the sign of a label, the label and the sign are the tokens read last. -/
theorem eq_append_of_labelValue {enum : Enumeration}
    (h : before.foldlM step {} = .ok r) (hp : r.position = .labelValue enum label) :
    ∃ front sign r₁ next, before = front ++ [label, sign] ∧ sign.text = "=" ∧
      (front ++ [label]).foldlM step {} = .ok r₁ ∧ r₁.position = .labelSign enum next label := by
  have hlabel : r.position.label? = some label := by rw [hp]; rfl
  obtain ⟨front, sign, r₁, rfl, hfront, hstep⟩ := exists_of_label h hlabel
  rcases label_of_step hstep hlabel with ⟨_, _, _, hp'⟩ | ⟨hsign, enum', next, here, hp'⟩
  · exact absurd (hp.symm.trans hp') (by simp)
  · obtain rfl : enum = enum' := by
      have := hp.symm.trans hp'
      simpa using this
    obtain ⟨front, rfl⟩ := eq_concat_of_labelSign hfront here
    exact ⟨front, sign, r₁, next, by simp, hsign, hfront, here⟩

end Labels

/-! ## Which token named a field -/

/-- The innermost open struct, as far as others can refer to it. -/
def innermost? (r : Reader) : Option (Qualified × List Field) :=
  r.stack.head?.map Struct.interface

/-- The token `t` behind those of `before` names the field `f` of a struct that is open there. -/
structure NamesField (before : List Token) (t : Token) (struct? : Option (Qualified × List Field))
    (f : Field) : Prop where
  here : ∃ r g f₀, (before ++ [t]).foldlM step {} = .ok r ∧ r.position = .fieldShape g f₀ ∧
    r.innermost? = struct?
  named : f.NamedBy t

/-- One of the tokens names the field. -/
def NamedIn (tokens : List Token) (struct? : Option (Qualified × List Field)) (f : Field) : Prop :=
  ∃ before t after, tokens = before ++ t :: after ∧ NamesField before t struct? f

theorem NamedIn.append {tokens : List Token} {struct? : Option (Qualified × List Field)}
    {f : Field} (h : NamedIn tokens struct? f) (more : List Token) :
    NamedIn (tokens ++ more) struct? f := by
  obtain ⟨before, t, after, rfl, hnames⟩ := h
  exact ⟨before, t, after ++ more, by simp, hnames⟩

/-- All fields of a struct are named, each in the struct as it was by then. -/
def FieldsNamedIn (tokens : List Token) (struct : Qualified × List Field) : Prop :=
  ∀ earlier f later, struct.2 = earlier ++ f :: later →
    NamedIn tokens (some (struct.1, earlier)) f

/-- All fields that were read are named, and so is the one that is not yet complete. -/
structure Named (tokens : List Token) (r : Reader) : Prop where
  fields : ∀ struct ∈ r.seen.map Struct.interface, FieldsNamedIn tokens struct
  pending : ∀ f, r.position.pending? = some f → NamedIn tokens r.innermost? f

section Fields

variable {r r' : Reader} {t : Token} {tokens : List Token}

theorem FieldsNamedIn.append {struct : Qualified × List Field} (h : FieldsNamedIn tokens struct)
    (more : List Token) : FieldsNamedIn (tokens ++ more) struct :=
  fun earlier f later heq => (h earlier f later heq).append more

/-- One more field, named when the struct had all the others. -/
theorem FieldsNamedIn.concat {q : Qualified} {fields : List Field} {f : Field}
    (h : FieldsNamedIn tokens (q, fields)) (hf : NamedIn tokens (some (q, fields)) f) :
    FieldsNamedIn tokens (q, fields ++ [f]) := by
  intro earlier f' later heq
  rcases List.eq_nil_or_concat later with rfl | ⟨later, last, rfl⟩
  · obtain ⟨rfl, rfl⟩ := List.append_inj' heq rfl |>.imp_right List.singleton_inj.mp
    exact hf
  · rw [List.concat_eq_append, ← List.cons_append, ← List.append_assoc] at heq
    exact h earlier f' later (List.append_inj' heq rfl).1

theorem NamedIn.congr {struct? : Option (Qualified × List Field)} {f f' : Field}
    (h : NamedIn tokens struct? f) (name : f'.name = f.name) (line : f'.line = f.line) :
    NamedIn tokens struct? f' := by
  obtain ⟨before, t, after, heq, here, named⟩ := h
  exact ⟨before, t, after, heq, here, name.trans named.name, line.trans named.line⟩

namespace Named

/-- A token that leaves the structs as they are and no field incomplete. -/
theorem of_interface (hr : Named tokens r)
    (seen : r'.seen.map Struct.interface = r.seen.map Struct.interface)
    (pending : r'.position.pending? = none) (more : List Token) : Named (tokens ++ more) r' where
  fields := fun struct hstruct => (hr.fields struct (seen ▸ hstruct)).append more
  pending := fun f hf => absurd (pending.symm.trans hf) (by simp)

/-- The field that was left incomplete goes to the innermost open struct. -/
theorem addField (hr : Named tokens r) {f : Field} (hf : r.position.pending? = some f)
    {struct : Qualified × List Field}
    (hstruct : struct ∈ (r.addField f).seen.map Struct.interface) :
    FieldsNamedIn tokens struct := by
  have hnamed := hr.pending f hf
  have hfields := hr.fields
  cases hstack : r.stack with
  | nil =>
      rw [Reader.addField, modifyTop, hstack] at hstruct
      exact hfields struct hstruct
  | cons top stack =>
      have hadded : r.addField f =
          { r with stack := { top with fields := top.fields ++ [f] } :: stack } := by
        rw [Reader.addField, modifyTop, hstack]
      rw [innermost?, hstack] at hnamed
      rw [seen_cons hstack, List.map_append, List.map_cons, List.forall_mem_append,
        List.forall_mem_cons] at hfields
      rw [hadded, seen_cons rfl, List.map_append, List.map_cons, List.mem_append,
        List.mem_cons] at hstruct
      rcases hstruct with hstruct | rfl | hstruct
      · exact hfields.1 struct hstruct
      · exact hfields.2.1.concat hnamed
      · exact hfields.2.2 struct hstruct

/-- One more token keeps all fields named. -/
theorem step (hr : Named tokens r) (hfold : (tokens ++ [t]).foldlM Reader.step {} = .ok r')
    (h : r.step t = .ok r') : Named (tokens ++ [t]) r' := by
  cases naming_of_step h with
  | other seen plain => exact hr.of_interface seen plain.1 [t]
  | opened seen plain =>
      refine ⟨fun struct hstruct => ?_, fun f hf => absurd (plain.1.symm.trans hf) (by simp)⟩
      rw [seen, List.mem_append, List.mem_singleton] at hstruct
      rcases hstruct with hstruct | rfl
      · exact (hr.fields struct hstruct).append [t]
      · intro earlier f later heq
        exact absurd heq (by simp)
  | label eq =>
      obtain rfl := eq
      refine hr.of_interface ?_ ?_ [t] <;> rfl
  | sign here equals eq =>
      obtain rfl := eq
      refine hr.of_interface ?_ ?_ [t] <;> rfl
  | field named eq =>
      obtain rfl := eq
      refine ⟨fun struct hstruct => (hr.fields struct hstruct).append [t], fun f hf => ?_⟩
      obtain rfl := Option.some.inj hf
      exact ⟨tokens, t, [], rfl, ⟨_, _, _, hfold, rfl, rfl⟩, named⟩
  | more pending eq pending' name line =>
      obtain rfl := eq
      refine ⟨fun struct hstruct => (hr.fields struct hstruct).append [t], fun f hf => ?_⟩
      obtain rfl := Option.some.inj (pending'.symm.trans hf)
      exact ((hr.pending _ pending).congr name line).append [t]
  | added pending plain eq =>
      obtain rfl := eq
      refine ⟨fun struct hstruct => (hr.addField pending hstruct).append [t], fun f hf => ?_⟩
      exact absurd (plain.1.symm.trans hf) (by simp)

/-- Whatever tokens were read, all fields are named. -/
theorem of_foldlM (h : tokens.foldlM Reader.step {} = .ok r) : Named tokens r := by
  induction tokens using List.reverseRecOn generalizing r with
  | nil =>
      obtain rfl := Except.ok.inj h
      constructor <;> simp [seen, Struct.walkAll, Position.pending?]
  | append_singleton tokens t ih =>
      obtain ⟨r₁, h₁, hstep⟩ := foldlM_concat.mp h
      exact (ih h₁).step h hstep

end Named

end Fields

end Reader

namespace Schema

/-- Every field of a schema is named by a token, in its struct and behind the fields in front of
it. -/
theorem namedIn_of_link {tokens : List Token} {s₀ s : Schema} (hread : Reader.read tokens = .ok s₀)
    (hlink : s₀.link = .ok s) {st : Struct} (hst : st ∈ s.walk) {earlier later : List Field}
    {f : Field} (hfields : st.fields = earlier ++ f :: later) :
    Reader.NamedIn tokens (some (st.qualified, earlier)) f := by
  obtain ⟨r, hfold, hfinish⟩ := bind_eq_ok.mp hread
  have hseen := Reader.seen_of_finish hfold hfinish
  have hlinked := Struct.linkedTo_walkAll (linkAll_of_link hlink)
  obtain ⟨st₀, hst₀, hsame⟩ := exists_of_forall₂_right hlinked hst
  have hnamed := (Reader.Named.of_foldlM hfold).fields st₀.interface
    (List.mem_map_of_mem (hseen ▸ hst₀))
  rw [← hsame.interface] at hnamed
  exact hnamed earlier f later hfields

end Schema

end Schematic
