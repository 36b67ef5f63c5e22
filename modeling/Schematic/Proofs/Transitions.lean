import Schematic.Proofs.Grammar
import Schematic.Proofs.Sequences

/-!
# What a token does at each position

A sign leads from one position to the next, a name or a number is put where it belongs, and what is
complete is added to what was read. A clause may be left out at the end of another one; the token is
then taken at the position behind it. Main statement: the reader takes and refuses tokens as the two
relations `Takes` and `Refuses` say, which have one rule for each thing that can happen.
-/

namespace Schematic

open Grammar (IsTypeName)

namespace Position

/-- A sign leads from one position to another, and nothing else comes of it. -/
inductive Leads : Position → Text → Position → Prop where
  | struct : Leads file "struct" structName
  | binary : Leads file "binary_namespace" (namespaceSign .binary)
  | friendly : Leads file "friendly_namespace" (namespaceSign .friendly)
  | fileEnd : Leads file "\x7d" fileEnd
  | namespaceName (side : Side) : Leads (namespaceSign side) "=" (namespaceName side)
  | finished : Leads fileEnd ";" finished
  | parent (name : Text) (line : Nat) : Leads (structHead name line) ":" (structParent name line)
  | body : Leads structOpen "\x7b" body
  | structEnd : Leads body "\x7d" structEnd
  | child : Leads body "struct" structName
  | enum : Leads body "enum" enumName
  | labels (e : Enumeration) : Leads (enumOpen e) "\x7b" (labels e 0)
  | enumEnd (e : Enumeration) (next : Int) : Leads (labels e next) "\x7d" (enumEnd e)
  | value (e : Enumeration) (next : Int) (label : Token) :
      Leads (labelSign e next label) "=" (labelValue e label)
  | label (e : Enumeration) (next : Int) : Leads (labelEnd e next) "," (labels e next)
  | optional (g : FieldGroup) : Leads (fieldMark g) "?" (fieldName { g with optional := true })
  | brackets (g : FieldGroup) (f : Field) : Leads (fieldShape g f) "[" (fieldCount g f)
  | dynamic (g : FieldGroup) (f : Field) :
      Leads (fieldCount g f) "]" (fieldSign g { f with shape := .dynamic })
  | fixed (g : FieldGroup) (f : Field) : Leads (fieldBracket g f) "]" (fieldSign g f)
  | default (g : FieldGroup) (f : Field) : Leads (fieldSign g f) "=" (fieldDefault g f)

/-- A token that does not start the clause at a position is taken at a position behind it. -/
inductive Skips (t : Token) : Position → Position → Prop where
  | refl (position : Position) : Skips t position position
  | value {e e' : Enumeration} {next : Int} {label : Token} {position : Position}
      (other : t.text ≠ "=") (added : Reader.addLabel e label next label.line = .ok e')
      (rest : Skips t (labelEnd e' (next + 1)) position) : Skips t (labelSign e next label) position
  | comma {e : Enumeration} {next : Int} {position : Position} (other : t.text ≠ ",")
      (rest : Skips t (labels e next) position) : Skips t (labelEnd e next) position
  | mark {g : FieldGroup} {position : Position} (other : t.text ≠ "?")
      (rest : Skips t (fieldName g) position) : Skips t (fieldMark g) position
  | brackets {g : FieldGroup} {f : Field} {position : Position} (other : t.text ≠ "[")
      (rest : Skips t (fieldSign g f) position) : Skips t (fieldShape g f) position
  | default {g : FieldGroup} {f : Field} {position : Position} (other : t.text ≠ "=")
      (rest : Skips t (fieldEnd g f) position) : Skips t (fieldSign g f) position

/-- What a token skips from a place that it skips to, it skips from the first place on. -/
theorem Skips.trans {t : Token} {p q position : Position} (h : Skips t p q)
    (later : Skips t q position) : Skips t p position := by
  induction h with
  | refl _ => exact later
  | value other added _ ih => exact .value other added (ih later)
  | comma other _ ih => exact .comma other (ih later)
  | mark other _ ih => exact .mark other (ih later)
  | brackets other _ ih => exact .brackets other (ih later)
  | default other _ ih => exact .default other (ih later)

/-- The one sign that can stand at a position. -/
inductive Needs : Position → Text → Prop where
  | namespaceSign (side : Side) : Needs (namespaceSign side) "="
  | namespaceEnd (side : Side) (name : Text) : Needs (namespaceEnd side name) ";"
  | fileEnd : Needs fileEnd ";"
  | structOpen : Needs structOpen "\x7b"
  | structEnd : Needs structEnd ";"
  | enumOpen (e : Enumeration) : Needs (enumOpen e) "\x7b"
  | enumEnd (e : Enumeration) : Needs (enumEnd e) ";"
  | fieldBracket (g : FieldGroup) (f : Field) : Needs (fieldBracket g f) "]"

/-- What the name of a type or package at a position is to name. -/
inductive Names : Position → Text → Prop where
  | namespaceName (side : Side) : Names (namespaceName side) "namespace name"
  | structName : Names structName "struct name"
  | structParent (name : Text) (line : Nat) : Names (structParent name line) "parent struct name"
  | enumName : Names enumName "enum name"

end Position

namespace Reader

/-- What becomes of the reader with a token that it takes. -/
inductive Takes (r : Reader) (t : Token) : Reader → Prop where
  | sign {p q : Position} (here : r.position.Skips t p) (leads : p.Leads t.text q) :
      Takes r t (r.goto q)
  | finished (here : r.position = .finished) : Takes r t r
  | namespaceName {side : Side} (here : r.position = .namespaceName side)
      (name : IsTypeName t.text) : Takes r t (r.goto (.namespaceEnd side t.text))
  | binary {name : Text} (here : r.position = .namespaceEnd .binary name) (sign : t.text = ";") :
      Takes r t { r with position := .file, binaryNamespace := some name }
  | friendly {name : Text} (here : r.position = .namespaceEnd .friendly name)
      (sign : t.text = ";") :
      Takes r t { r with position := .file, friendlyNamespace := some name }
  | structName (here : r.position = .structName) (name : IsTypeName t.text) :
      Takes r t (r.goto (.structHead t.text t.line))
  | root {name : Text} {line : Nat} {r' : Reader} (here : r.position = .structHead name line)
      (opened : r.openStruct name line none = .ok r') (sign : t.text = "\x7b") :
      Takes r t (r'.goto .body)
  | heir {name : Text} {line : Nat} {r' : Reader} (here : r.position = .structParent name line)
      (parent : IsTypeName t.text) (opened : r.openStruct name line (some t.text) = .ok r') :
      Takes r t r'
  | type {type : FieldType} (here : r.position = .body) (brace : t.text ≠ "\x7d")
      (struct : t.text ≠ "struct") (enum : t.text ≠ "enum")
      (resolved : r.resolve? t.text = some type) :
      Takes r t (r.goto (.fieldMark ⟨t.text, type, false⟩))
  | closeStruct (here : r.position = .structEnd) (sign : t.text = ";") : Takes r t r.closeStruct
  | enumName (here : r.position = .enumName) (name : IsTypeName t.text) :
      Takes r t (r.goto (.enumOpen ⟨t.text, some r.scope, t.line, []⟩))
  | label {e : Enumeration} {next : Int} (here : r.position.Skips t (.labels e next))
      (brace : t.text ≠ "\x7d") (name : Text.isIdentifier t.text = true) :
      Takes r t (r.goto (.labelSign e next t))
  | value {e e' : Enumeration} {label : Token} {value : Int}
      (here : r.position = .labelValue e label) (number : Text.int32? t.text = some value)
      (added : addLabel e label value t.line = .ok e') :
      Takes r t (r.goto (.labelEnd e' (value + 1)))
  | closeEnum {e : Enumeration} {r' : Reader} (here : r.position = .enumEnd e)
      (sign : t.text = ";") (closed : (r.goto .body).closeEnum e = .ok r') : Takes r t r'
  | field {g : FieldGroup} (here : r.position.Skips t (.fieldName g))
      (name : Text.isIdentifier t.text = true) :
      Takes r t (r.goto (.fieldShape g
        ⟨t.text, g.typeName, g.type, .scalar, g.optional, none, t.line⟩))
  | count {g : FieldGroup} {f : Field} {shape : Shape} (here : r.position = .fieldCount g f)
      (bracket : t.text ≠ "]") (count : count? t.text = some shape) :
      Takes r t (r.goto (.fieldBracket g { f with shape }))
  | default {g : FieldGroup} {f : Field} (here : r.position = .fieldDefault g f) :
      Takes r t (r.goto (.fieldEnd g { f with default? := some t.text }))
  | next {g : FieldGroup} {f : Field} (here : r.position.Skips t (.fieldEnd g f))
      (sign : t.text = ",") : Takes r t ((r.addField f).goto (.fieldName g))
  | last {g : FieldGroup} {f : Field} (here : r.position.Skips t (.fieldEnd g f))
      (sign : t.text = ";") : Takes r t ((r.addField f).goto .body)

/-- What a token is refused for. -/
inductive Refuses (r : Reader) (t : Token) : SchemaError → Prop where
  | sign {expected : Text} (needs : r.position.Needs expected) (other : t.text ≠ expected) :
      Refuses r t (.unexpected expected t.text t.line)
  | name {what : Text} (names : r.position.Names what) (other : ¬IsTypeName t.text) :
      Refuses r t (.unexpected what t.text t.line)
  | declaration (here : r.position = .file) (struct : t.text ≠ "struct")
      (binary : t.text ≠ "binary_namespace") (friendly : t.text ≠ "friendly_namespace")
      (brace : t.text ≠ "\x7d") :
      Refuses r t (.unexpected "struct, binary_namespace or friendly_namespace" t.text t.line)
  | root {name : Text} {line : Nat} {e : SchemaError} (here : r.position = .structHead name line)
      (colon : t.text ≠ ":") (taken : r.openStruct name line none = .error e) : Refuses r t e
  | brace {name : Text} {line : Nat} {r' : Reader} (here : r.position = .structHead name line)
      (colon : t.text ≠ ":") (opened : r.openStruct name line none = .ok r')
      (other : t.text ≠ "\x7b") : Refuses r t (.unexpected "\x7b" t.text t.line)
  | heir {name : Text} {line : Nat} {e : SchemaError} (here : r.position = .structParent name line)
      (parent : IsTypeName t.text) (taken : r.openStruct name line (some t.text) = .error e) :
      Refuses r t e
  | type (here : r.position = .body) (brace : t.text ≠ "\x7d") (struct : t.text ≠ "struct")
      (enum : t.text ≠ "enum") (unresolved : r.resolve? t.text = none) :
      Refuses r t (.unknownType t.text r.scope.text t.line)
  | label {e : Enumeration} {next : Int} (here : r.position.Skips t (.labels e next))
      (brace : t.text ≠ "\x7d") (other : ¬Text.isIdentifier t.text = true) :
      Refuses r t (.unexpected "enum label" t.text t.line)
  | unsigned {enum : Enumeration} {next : Int} {label : Token} {e : SchemaError}
      (here : r.position = .labelSign enum next label) (other : t.text ≠ "=")
      (taken : addLabel enum label next label.line = .error e) : Refuses r t e
  | number {enum : Enumeration} {label : Token} (here : r.position = .labelValue enum label)
      (other : Text.int32? t.text = none) :
      Refuses r t (.unexpected "32-bit integer" t.text t.line)
  | value {enum : Enumeration} {label : Token} {value : Int} {e : SchemaError}
      (here : r.position = .labelValue enum label) (number : Text.int32? t.text = some value)
      (taken : addLabel enum label value t.line = .error e) : Refuses r t e
  | enum {enum : Enumeration} {e : SchemaError} (here : r.position = .enumEnd enum)
      (sign : t.text = ";") (taken : (r.goto .body).closeEnum enum = .error e) : Refuses r t e
  | field {g : FieldGroup} (here : r.position.Skips t (.fieldName g))
      (other : ¬Text.isIdentifier t.text = true) :
      Refuses r t (.unexpected "variable name" t.text t.line)
  | count {g : FieldGroup} {f : Field} (here : r.position = .fieldCount g f)
      (bracket : t.text ≠ "]") (other : count? t.text = none) :
      Refuses r t (.invalidCount t.text t.line)
  | undivided {g : FieldGroup} {f : Field} (here : r.position.Skips t (.fieldEnd g f))
      (comma : t.text ≠ ",") (sign : t.text ≠ ";") : Refuses r t (.undivided t.text t.line)

/-- What the rules say of an outcome. -/
def Steps (r : Reader) (t : Token) : Except SchemaError Reader → Prop
  | .ok r' => r.Takes t r'
  | .error e => r.Refuses t e

section Steps

variable {r : Reader} {t : Token}

/-! ## From the reader to the rules -/

/-- Expecting one text leads on where the token is that text and refuses it elsewhere. -/
theorem steps_expect {expected : Text} {q : Position} (needs : r.position.Needs expected)
    (leads : r.position.Leads expected q) : Steps r t (r.expect expected t q) := by
  unfold expect
  split
  · rename_i hsign
    exact Takes.sign (.refl _) (hsign ▸ leads)
  · rename_i hother
    exact Refuses.sign needs hother

theorem steps_expect_bind {expected : Text} {q : Position}
    {after : Reader → Except SchemaError Reader} (needs : r.position.Needs expected)
    (h : t.text = expected → Steps r t (after (r.goto q))) :
    Steps r t (r.expect expected t q >>= after) := by
  unfold expect
  split
  · rename_i hsign
    exact h hsign
  · rename_i hother
    exact Refuses.sign needs hother

theorem steps_typeName_bind {what : Text} {after : Text → Except SchemaError Reader}
    (names : r.position.Names what) (h : IsTypeName t.text → Steps r t (after t.text)) :
    Steps r t (typeName what t >>= after) := by
  unfold typeName
  split
  · rename_i hname
    exact h (by simpa [IsTypeName] using hname)
  · rename_i hother
    exact Refuses.name names (by simpa [IsTypeName] using hother)

/-- At the top of a file a declaration begins or the file ends, or the token is refused. -/
theorem steps_stepFile (here : r.position = .file) : Steps r t (r.stepFile t) := by
  have hsign {sign : Text} {q : Position} (leads : Position.file.Leads sign q)
      (h : t.text = sign) : Takes r t (r.goto q) :=
    .sign (here ▸ .refl _) (h ▸ leads)
  unfold stepFile
  split
  · exact hsign .struct ‹_›
  split
  · exact hsign .binary ‹_›
  split
  · exact hsign .friendly ‹_›
  split
  · exact hsign .fileEnd ‹_›
  · exact Refuses.declaration here ‹_› ‹_› ‹_› ‹_›

/-- In a body the struct ends or a member of it begins, or the type is not known. -/
theorem steps_stepBody (here : r.position = .body) : Steps r t (r.stepBody t) := by
  have hsign {sign : Text} {q : Position} (leads : Position.body.Leads sign q)
      (h : t.text = sign) : Takes r t (r.goto q) :=
    .sign (here ▸ .refl _) (h ▸ leads)
  unfold stepBody
  split
  · exact hsign .structEnd ‹_›
  split
  · exact hsign .child ‹_›
  split
  · exact hsign .enum ‹_›
  split
  · exact Takes.type here ‹_› ‹_› ‹_› ‹_›
  · exact Refuses.type here ‹_› ‹_› ‹_› ‹_›

theorem steps_stepLabels {e : Enumeration} {next : Int}
    (here : r.position.Skips t (.labels e next)) : Steps r t (r.stepLabels e next t) := by
  unfold stepLabels
  split
  · rename_i hsign
    exact Takes.sign here (hsign ▸ .enumEnd e next)
  split
  · exact Takes.label here ‹_› ‹_›
  · exact Refuses.label here ‹_› ‹_›

theorem steps_stepLabelEnd {e : Enumeration} {next : Int}
    (here : r.position.Skips t (.labelEnd e next)) : Steps r t (r.stepLabelEnd e next t) := by
  unfold stepLabelEnd
  split
  · rename_i hsign
    exact Takes.sign here (hsign ▸ .label e next)
  · exact steps_stepLabels (here.trans (.comma ‹_› (.refl _)))

theorem steps_stepFieldName {g : FieldGroup} (here : r.position.Skips t (.fieldName g)) :
    Steps r t (r.stepFieldName g t) := by
  unfold stepFieldName identifier
  split
  · exact Takes.field here ‹_›
  · exact Refuses.field here ‹_›

/-- After a field the group goes on with a comma or ends, or the token is refused. -/
theorem steps_stepFieldEnd {g : FieldGroup} {f : Field}
    (here : r.position.Skips t (.fieldEnd g f)) : Steps r t (r.stepFieldEnd g f t) := by
  unfold stepFieldEnd
  split
  · exact Takes.next here ‹_›
  split
  · exact Takes.last here ‹_›
  · exact Refuses.undivided here ‹_› ‹_›

theorem steps_stepFieldSign {g : FieldGroup} {f : Field}
    (here : r.position.Skips t (.fieldSign g f)) : Steps r t (r.stepFieldSign g f t) := by
  unfold stepFieldSign
  split
  · rename_i hsign
    exact Takes.sign here (hsign ▸ .default g f)
  · exact steps_stepFieldEnd (here.trans (.default ‹_› (.refl _)))

theorem closeStruct_goto (r : Reader) (position : Position) :
    (r.goto position).closeStruct = r.closeStruct := by
  unfold closeStruct goto
  rcases r.stack with _ | ⟨s, _ | ⟨outer, stack⟩⟩ <;> rfl

/-- Whatever token comes, the reader does what one of the rules says. -/
theorem steps (r : Reader) (t : Token) : Steps r t (r.step t) := by
  unfold step
  cases hp : r.position with
  | file => exact steps_stepFile hp
  | namespaceSign side => exact steps_expect (hp ▸ .namespaceSign side) (hp ▸ .namespaceName side)
  | namespaceName side =>
      exact steps_typeName_bind (hp ▸ .namespaceName side) fun hname => Takes.namespaceName hp hname
  | namespaceEnd side name =>
      refine steps_expect_bind (hp ▸ .namespaceEnd side name) fun hsign => ?_
      cases side with
      | binary => exact Takes.binary hp hsign
      | friendly => exact Takes.friendly hp hsign
  | fileEnd => exact steps_expect (hp ▸ .fileEnd) (hp ▸ .finished)
  | finished => exact Takes.finished hp
  | structName =>
      exact steps_typeName_bind (hp ▸ .structName) fun hname => Takes.structName hp hname
  | structHead name line =>
      dsimp only
      split
      · rename_i hsign
        exact Takes.sign (.refl _) (hp ▸ hsign ▸ .parent name line)
      · rename_i hcolon
        cases hopened : r.openStruct name line none with
        | error e => exact Refuses.root hp hcolon hopened
        | ok r' =>
            simp only [bind, Except.bind, expect]
            split
            · exact Takes.root hp hopened ‹_›
            · exact Refuses.brace hp hcolon hopened ‹_›
  | structParent name line =>
      refine steps_typeName_bind (hp ▸ .structParent name line) fun hparent => ?_
      cases hopened : r.openStruct name line (some t.text) with
      | error e => exact Refuses.heir hp hparent hopened
      | ok r' => exact Takes.heir hp hparent hopened
  | structOpen => exact steps_expect (hp ▸ .structOpen) (hp ▸ .body)
  | body => exact steps_stepBody hp
  | structEnd =>
      refine steps_expect_bind (hp ▸ .structEnd) fun hsign => ?_
      rw [closeStruct_goto]
      exact Takes.closeStruct hp hsign
  | enumName => exact steps_typeName_bind (hp ▸ .enumName) fun hname => Takes.enumName hp hname
  | enumOpen e => exact steps_expect (hp ▸ .enumOpen e) (hp ▸ .labels e)
  | labels e next => exact steps_stepLabels (hp ▸ .refl _)
  | labelSign e next label =>
      dsimp only
      split
      · rename_i hsign
        exact Takes.sign (.refl _) (hp ▸ hsign ▸ .value e next label)
      · rename_i hother
        cases hadded : addLabel e label next label.line with
        | error fault => exact Refuses.unsigned hp hother hadded
        | ok e' => exact steps_stepLabelEnd (hp ▸ .value hother hadded (.refl _))
  | labelValue e label =>
      dsimp only
      split
      · exact Refuses.number hp ‹_›
      · rename_i value hnumber
        cases hadded : addLabel e label value t.line with
        | error fault => exact Refuses.value hp hnumber hadded
        | ok e' => exact Takes.value hp hnumber hadded
  | labelEnd e next => exact steps_stepLabelEnd (hp ▸ .refl _)
  | enumEnd e =>
      refine steps_expect_bind (hp ▸ .enumEnd e) fun hsign => ?_
      cases hclosed : (r.goto .body).closeEnum e with
      | error fault => exact Refuses.enum hp hsign hclosed
      | ok r' => exact Takes.closeEnum hp hsign hclosed
  | fieldMark g =>
      dsimp only
      split
      · rename_i hsign
        exact Takes.sign (.refl _) (hp ▸ hsign ▸ .optional g)
      · exact steps_stepFieldName (hp ▸ .mark ‹_› (.refl _))
  | fieldName g => exact steps_stepFieldName (hp ▸ .refl _)
  | fieldShape g f =>
      dsimp only
      split
      · rename_i hsign
        exact Takes.sign (.refl _) (hp ▸ hsign ▸ .brackets g f)
      · exact steps_stepFieldSign (hp ▸ .brackets ‹_› (.refl _))
  | fieldCount g f =>
      dsimp only
      split
      · rename_i hsign
        exact Takes.sign (.refl _) (hp ▸ hsign ▸ .dynamic g f)
      · split
        · exact Takes.count hp ‹_› ‹_›
        · exact Refuses.count hp ‹_› ‹_›
  | fieldBracket g f => exact steps_expect (hp ▸ .fieldBracket g f) (hp ▸ .fixed g f)
  | fieldSign g f => exact steps_stepFieldSign (hp ▸ .refl _)
  | fieldDefault g f => exact Takes.default hp
  | fieldEnd g f => exact steps_stepFieldEnd (hp ▸ .refl _)

/-- A step that succeeds is one of the takings. -/
theorem takes_of_step {r' : Reader} (h : r.step t = .ok r') : r.Takes t r' := by
  have hsteps := steps r t
  rwa [h] at hsteps

/-- A step that fails is one of the refusals. -/
theorem refuses_of_step {e : SchemaError} (h : r.step t = .error e) : r.Refuses t e := by
  have hsteps := steps r t
  rwa [h] at hsteps

/-! ## From the rules to the reader -/

/-- Changing the innermost struct does not look at the position. -/
theorem modifyTop_goto (r : Reader) (position : Position) (change : Struct → Struct) :
    (r.goto position).modifyTop change = (r.modifyTop change).goto position := by
  rcases r with ⟨_, _ | ⟨s, stack⟩, _⟩ <;> rfl

theorem stepFieldEnd_goto (r : Reader) (position : Position) (g : FieldGroup) (f : Field)
    (t : Token) : (r.goto position).stepFieldEnd g f t = r.stepFieldEnd g f t := by
  simp only [stepFieldEnd, addField, modifyTop_goto]
  rfl

/-- Where a clause is left out, the token does what it does behind the clause. -/
theorem step_goto_of_skips {p : Position} (h : r.position.Skips t p) :
    (r.goto p).step t = r.step t := by
  generalize hp : r.position = start at h
  induction h generalizing r with
  | refl position => rw [← hp]; rfl
  | @value e e' next label position other added rest ih =>
      have hstep : r.step t = r.stepLabelEnd e' (next + 1) t := by
        simp only [step, hp, if_neg other, added, bind, Except.bind]
      exact (ih (r := r.goto (.labelEnd e' (next + 1))) rfl).trans hstep.symm
  | @comma e next position other rest ih =>
      have hstep : r.step t = r.stepLabels e next t := by
        simp only [step, hp, stepLabelEnd, if_neg other]
      exact (ih (r := r.goto (.labels e next)) rfl).trans hstep.symm
  | @mark g position other rest ih =>
      have hstep : r.step t = r.stepFieldName g t := by
        simp only [step, hp, if_neg other]
      exact (ih (r := r.goto (.fieldName g)) rfl).trans hstep.symm
  | @brackets g f position other rest ih =>
      have hstep : r.step t = r.stepFieldSign g f t := by
        simp only [step, hp, if_neg other]
      refine (ih (r := r.goto (.fieldSign g f)) rfl).trans (Eq.trans ?_ hstep.symm)
      simp only [step, goto, stepFieldSign]
      exact congrArg _ (stepFieldEnd_goto r _ g f t)
  | @default g f position other rest ih =>
      have hstep : r.step t = r.stepFieldEnd g f t := by
        simp only [step, hp, stepFieldSign, if_neg other]
      refine (ih (r := r.goto (.fieldEnd g f)) rfl).trans (Eq.trans ?_ hstep.symm)
      exact stepFieldEnd_goto r _ g f t

theorem step_of_labels {e : Enumeration} {next : Int}
    (here : r.position.Skips t (.labels e next)) : r.step t = r.stepLabels e next t :=
  (step_goto_of_skips here).symm

theorem step_of_fieldName {g : FieldGroup} (here : r.position.Skips t (.fieldName g)) :
    r.step t = r.stepFieldName g t :=
  (step_goto_of_skips here).symm

theorem step_of_fieldEnd {g : FieldGroup} {f : Field}
    (here : r.position.Skips t (.fieldEnd g f)) : r.step t = r.stepFieldEnd g f t :=
  (step_goto_of_skips here).symm.trans (stepFieldEnd_goto r _ g f t)

theorem typeName_eq {what : Text} (h : IsTypeName t.text) : typeName what t = .ok t.text := by
  simp [typeName, h.1, h.2]

/-- Where a text only leads on, the step changes the position and nothing else. -/
theorem step_of_leads {p q : Position} (hp : r.position = p) (h : p.Leads t.text q) :
    r.step t = .ok (r.goto q) := by
  obtain ⟨line, text⟩ := t
  cases h <;> simp only [step, hp] <;> rfl

/-- What the rules say of a token that is taken is what the reader does. -/
theorem Takes.step_eq {r' : Reader} (h : r.Takes t r') : r.step t = .ok r' := by
  cases h with
  | @sign p q here leads =>
      rw [← step_goto_of_skips here]
      exact step_of_leads rfl leads
  | finished here => simp only [step, here]
  | namespaceName here name => simp only [step, here, typeName_eq name]; rfl
  | binary here sign => simp only [step, here, expect, if_pos sign]; rfl
  | friendly here sign => simp only [step, here, expect, if_pos sign]; rfl
  | structName here name => simp only [step, here, typeName_eq name]; rfl
  | root here opened sign =>
      have hcolon : t.text ≠ ":" := by rw [sign]; decide
      simp only [step, here, if_neg hcolon, opened, bind, Except.bind, expect, if_pos sign]
  | heir here parent opened =>
      simp only [step, here, typeName_eq parent, bind, Except.bind, opened]
  | type here brace struct enum resolved =>
      simp only [step, here, stepBody, if_neg brace, if_neg struct, if_neg enum, resolved]
  | closeStruct here sign =>
      simp only [step, here, expect, if_pos sign, bind, Except.bind, closeStruct_goto]
      rfl
  | enumName here name => simp only [step, here, typeName_eq name]; rfl
  | label here brace name =>
      simp only [step_of_labels here, stepLabels, if_neg brace, if_pos name]
  | value here number added => simp only [step, here, number, added]; rfl
  | closeEnum here sign closed =>
      simp only [step, here, expect, if_pos sign, bind, Except.bind, closed]
  | field here name =>
      simp only [step_of_fieldName here, stepFieldName, identifier, if_pos name]
      rfl
  | count here bracket count => simp only [step, here, if_neg bracket, count]
  | default here => simp only [step, here]
  | next here sign => simp only [step_of_fieldEnd here, stepFieldEnd, if_pos sign]
  | last here sign =>
      have hcomma : t.text ≠ "," := by rw [sign]; decide
      simp only [step_of_fieldEnd here, stepFieldEnd, if_neg hcomma, if_pos sign]

/-- What the rules say of a token that is refused is what the reader does. -/
theorem Refuses.step_eq {e : SchemaError} (h : r.Refuses t e) : r.step t = .error e := by
  cases h with
  | @sign expected needs other =>
      generalize hp : r.position = p at needs
      cases needs <;> simp only [step, hp, expect, if_neg other] <;> rfl
  | @name what names other =>
      have hname : typeName what t = .error (.unexpected what t.text t.line) :=
        if_neg (by simpa [IsTypeName] using other)
      generalize hp : r.position = p at names
      cases names <;> simp only [step, hp, hname] <;> rfl
  | declaration here struct binary friendly brace =>
      simp only [step, here, stepFile, if_neg struct, if_neg binary, if_neg friendly,
        if_neg brace]
  | root here colon taken => simp only [step, here, if_neg colon, taken]; rfl
  | brace here colon opened other =>
      simp only [step, here, if_neg colon, opened, bind, Except.bind, expect, if_neg other]
  | heir here parent taken =>
      simp only [step, here, typeName_eq parent, bind, Except.bind, taken]
  | type here brace struct enum unresolved =>
      simp only [step, here, stepBody, if_neg brace, if_neg struct, if_neg enum, unresolved]
  | label here brace other =>
      simp only [step_of_labels here, stepLabels, if_neg brace, if_neg other]
  | unsigned here other taken => simp only [step, here, if_neg other, taken]; rfl
  | number here other => simp only [step, here, other]
  | value here number taken => simp only [step, here, number, taken]; rfl
  | enum here sign taken =>
      simp only [step, here, expect, if_pos sign, bind, Except.bind, taken]
  | field here other =>
      simp only [step_of_fieldName here, stepFieldName, identifier, if_neg other]
      rfl
  | count here bracket other => simp only [step, here, if_neg bracket, other]
  | undivided here comma sign =>
      simp only [step_of_fieldEnd here, stepFieldEnd, if_neg comma, if_neg sign]

end Steps

end Reader

end Schematic
