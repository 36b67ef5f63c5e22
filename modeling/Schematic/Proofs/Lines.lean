import Schematic.Proofs.ReaderStep

/-!
# Lines do not matter

Tokens carry the numbers of their lines, and structs, enumerations, fields and errors keep them.
Nothing is decided by a line: reading tokens whose lines are all zero gives what reading the tokens
gives, with its lines erased.
-/

namespace Schematic

namespace Token

def eraseLine (t : Token) : Token :=
  { t with line := 0 }

end Token

namespace Enumeration

def eraseLine (e : Enumeration) : Enumeration :=
  { e with line := 0 }

end Enumeration

namespace FieldType

def eraseLine : FieldType → FieldType
  | enumeration e => enumeration e.eraseLine
  | type => type

end FieldType

namespace Field

def eraseLines (f : Field) : Field :=
  { f with type := f.type.eraseLine, line := 0 }

end Field

namespace Struct

mutual

/-- The struct with zero for every line, also in what is declared in it. -/
def eraseLines : Struct → Struct
  | ⟨name, scope, parent, base, _, enums, fields, children⟩ =>
    ⟨name, scope, parent, base, 0, enums.map Enumeration.eraseLine, fields.map Field.eraseLines,
      eraseLinesAll children⟩

def eraseLinesAll : List Struct → List Struct
  | [] => []
  | s :: rest => eraseLines s :: eraseLinesAll rest

end

theorem eraseLinesAll_eq_map (structs : List Struct) :
    eraseLinesAll structs = structs.map eraseLines := by
  induction structs with
  | nil => rfl
  | cons s rest ih => rw [eraseLinesAll, ih, List.map_cons]

/-- All parts of a struct lose their lines, and nothing else. -/
theorem eraseLines_eq (s : Struct) :
    s.eraseLines =
      ⟨s.name, s.scope, s.parent, s.base, 0, s.enums.map Enumeration.eraseLine,
        s.fields.map Field.eraseLines, s.children.map eraseLines⟩ := by
  cases s
  rw [eraseLines, eraseLinesAll_eq_map]

@[simp] theorem qualified_eraseLines (s : Struct) : s.eraseLines.qualified = s.qualified := by
  rw [eraseLines_eq]
  rfl

mutual

/-- Structs are visited in the same order without their lines. -/
theorem walk_eraseLines : ∀ s : Struct, s.eraseLines.walk = s.walk.map eraseLines
  | ⟨name, scope, parent, base, line, enums, fields, children⟩ => by
      rw [eraseLines, walk, walk, List.map_cons, eraseLines, walkAll_eraseLinesAll children]

theorem walkAll_eraseLinesAll :
    ∀ structs : List Struct, walkAll (eraseLinesAll structs) = (walkAll structs).map eraseLines
  | [] => rfl
  | s :: rest => by
      rw [eraseLinesAll, walkAll, walkAll, List.map_append, walk_eraseLines s,
        walkAll_eraseLinesAll rest]

end

end Struct

namespace Schema

/-- The schema with zero for every line. -/
def eraseLines (s : Schema) : Schema :=
  { s with structs := s.structs.map Struct.eraseLines }

end Schema

namespace SchemaError

/-- The error without the line it names. -/
def eraseLine : SchemaError → SchemaError
  | comment (.unterminated _) => comment (.unterminated 0)
  | comment (.unmatchedEnd _) => comment (.unmatchedEnd 0)
  | endOfInput _ => endOfInput 0
  | unexpected expected found _ => unexpected expected found 0
  | unknownType name scope _ => unknownType name scope 0
  | undivided found _ => undivided found 0
  | invalidCount found _ => invalidCount found 0
  | duplicateType name _ => duplicateType name 0
  | duplicateMember scope name _ => duplicateMember scope name 0
  | unknownParent struct parent _ => unknownParent struct parent 0
  | inheritanceCycle struct _ => inheritanceCycle struct 0
  | containsItself struct field _ => containsItself struct field 0
  | invalidDefault value field _ fault => invalidDefault value field 0 fault

end SchemaError

/-- A result without lines; `erase` takes them out of a value. -/
def eraseResult {α β : Type} (erase : α → β) : Except SchemaError α → Except SchemaError β
  | .ok a => .ok (erase a)
  | .error e => .error e.eraseLine

/-- Lines can be erased step by step. -/
theorem eraseResult_bind {α β α' β' : Type} {eraseFirst : α → α'} {erase : β → β'}
    {x : Except SchemaError α} {x' : Except SchemaError α'} {f : α → Except SchemaError β}
    {f' : α' → Except SchemaError β'} (hx : eraseResult eraseFirst x = x')
    (hf : ∀ a, eraseResult erase (f a) = f' (eraseFirst a)) :
    eraseResult erase (x >>= f) = x' >>= f' := by
  subst hx
  cases x with
  | error e => rfl
  | ok a => exact hf a

theorem eraseResult_ite {α β : Type} {erase : α → β} {c : Prop} [Decidable c]
    (x y : Except SchemaError α) :
    eraseResult erase (if c then x else y) =
      if c then eraseResult erase x else eraseResult erase y :=
  apply_ite _ _ _ _

namespace FieldGroup

def eraseLines (g : FieldGroup) : FieldGroup :=
  { g with type := g.type.eraseLine }

end FieldGroup

namespace Position

def eraseLines : Position → Position
  | structHead name _ => structHead name 0
  | structParent name _ => structParent name 0
  | enumOpen e => enumOpen e.eraseLine
  | labels e next => labels e.eraseLine next
  | labelSign e next label => labelSign e.eraseLine next label.eraseLine
  | labelValue e label => labelValue e.eraseLine label.eraseLine
  | labelEnd e next => labelEnd e.eraseLine next
  | enumEnd e => enumEnd e.eraseLine
  | fieldMark g => fieldMark g.eraseLines
  | fieldName g => fieldName g.eraseLines
  | fieldShape g f => fieldShape g.eraseLines f.eraseLines
  | fieldCount g f => fieldCount g.eraseLines f.eraseLines
  | fieldBracket g f => fieldBracket g.eraseLines f.eraseLines
  | fieldSign g f => fieldSign g.eraseLines f.eraseLines
  | fieldDefault g f => fieldDefault g.eraseLines f.eraseLines
  | fieldEnd g f => fieldEnd g.eraseLines f.eraseLines
  | position => position

end Position

namespace Reader

/-- The reader with zero for every line. -/
def eraseLines (r : Reader) : Reader where
  position := r.position.eraseLines
  stack := r.stack.map Struct.eraseLines
  structs := r.structs.map Struct.eraseLines
  declared := r.declared
  enums := r.enums.map Enumeration.eraseLine
  binaryNamespace := r.binaryNamespace
  friendlyNamespace := r.friendlyNamespace

section Parts

variable (r : Reader)

/-- The scope is a name and has no line. -/
theorem scope_eraseLines : r.eraseLines.scope = r.scope := by
  rcases r with ⟨_, _ | ⟨s, stack⟩, _⟩
  · rfl
  · exact s.qualified_eraseLines

theorem isDeclared_eraseLines (name : Text) : r.eraseLines.isDeclared name = r.isDeclared name := by
  simp only [isDeclared, eraseLines, List.any_map]
  rfl

/-- A name means the same type whatever the lines are; an enumeration keeps its own. -/
theorem resolve?_eraseLines (name : Text) :
    r.eraseLines.resolve? name = (r.resolve? name).map FieldType.eraseLine := by
  have henum : (r.enums.map Enumeration.eraseLine).find? (fun e => e.name = name) =
      (r.enums.find? fun e => e.name = name).map Enumeration.eraseLine := by
    rw [List.find?_map]
    rfl
  have hnested : (r.scope.scopes.findSome? fun outer =>
        if r.declared.contains (outer ++ [name]) then some (FieldType.struct (outer ++ [name]))
        else none).map FieldType.eraseLine =
      r.scope.scopes.findSome? fun outer =>
        if r.declared.contains (outer ++ [name]) then some (FieldType.struct (outer ++ [name]))
        else none := by
    rw [List.map_findSome?]
    congr 1
    funext outer
    dsimp only [Function.comp]
    split <;> rfl
  have hfile : (if r.declared.contains [name] then some (FieldType.struct [name])
      else none).map FieldType.eraseLine =
        if r.declared.contains [name] then some (FieldType.struct [name]) else none := by
    split <;> rfl
  simp only [resolve?, scope_eraseLines, Option.map_or, hnested, hfile, Option.map_map]
  simp only [eraseLines, henum, Option.map_map]
  rfl

/-- A change of the innermost struct that does not look at lines can be made without them. -/
theorem modifyTop_eraseLines (change change' : Struct → Struct)
    (h : ∀ s, (change s).eraseLines = change' s.eraseLines) :
    r.eraseLines.modifyTop change' = (r.modifyTop change).eraseLines := by
  rcases r with ⟨_, _ | ⟨s, stack⟩, _⟩
  · rfl
  · simp [modifyTop, eraseLines, h]

theorem addField_eraseLines (f : Field) :
    r.eraseLines.addField f.eraseLines = (r.addField f).eraseLines := by
  refine modifyTop_eraseLines r _ _ fun s => ?_
  simp [Struct.eraseLines_eq]

/-- Where a struct goes when it closes does not depend on lines. -/
theorem closeStruct_eraseLines : r.eraseLines.closeStruct = r.closeStruct.eraseLines := by
  rcases r with ⟨_, _ | ⟨s, _ | ⟨outer, stack⟩⟩, _⟩
  · rfl
  · simp [closeStruct, eraseLines, Position.eraseLines]
  · simp [closeStruct, eraseLines, Position.eraseLines, Struct.eraseLines_eq]

/-- A struct is refused or opened by its name; the line goes into the struct or into the error. -/
theorem openStruct_eraseLines (name : Text) (line : Nat) (parent : Option Text) :
    eraseResult eraseLines (r.openStruct name line parent) =
      r.eraseLines.openStruct name 0 parent := by
  simp only [openStruct, isDeclared_eraseLines, scope_eraseLines, Struct.fullName,
    Struct.qualified]
  exact eraseResult_ite _ _

/-- An enumeration is refused or declared by its name. -/
theorem closeEnum_eraseLines (e : Enumeration) :
    eraseResult eraseLines (r.closeEnum e) = r.eraseLines.closeEnum e.eraseLine := by
  have hadd := modifyTop_eraseLines { r with enums := r.enums ++ [e] }
    (fun s => { s with enums := s.enums ++ [e] })
    (fun s => { s with enums := s.enums ++ [e.eraseLine] }) (by simp [Struct.eraseLines_eq])
  have henums : { r.eraseLines with enums := r.eraseLines.enums ++ [e.eraseLine] } =
      eraseLines { r with enums := r.enums ++ [e] } := by
    simp [eraseLines]
  have hname : e.eraseLine.name = e.name := rfl
  simp only [closeEnum, hname, isDeclared_eraseLines, henums, hadd, eraseResult_ite]
  rfl

end Parts

/-- A label is refused or added by its name. -/
theorem addLabel_eraseLine (e : Enumeration) (label : Token) (value : Int) (line : Nat) :
    eraseResult Enumeration.eraseLine (addLabel e label value line) =
      addLabel e.eraseLine label.eraseLine value 0 := by
  simp only [addLabel, eraseResult_ite]
  rfl

end Reader

namespace Position

variable {p q : Position}

/-- No sign leads anywhere for the sake of a line. -/
theorem Leads.eraseLines {sign : Text} (h : p.Leads sign q) :
    p.eraseLines.Leads sign q.eraseLines := by
  cases h <;> constructor

theorem Needs.eraseLines {expected : Text} (h : p.Needs expected) :
    p.eraseLines.Needs expected := by
  cases h <;> constructor

theorem Names.eraseLines {what : Text} (h : p.Names what) : p.eraseLines.Names what := by
  cases h <;> constructor

/-- Clauses are left out for what the next token says, not for where it stands. -/
theorem Skips.eraseLines {t : Token} (h : p.Skips t q) :
    p.eraseLines.Skips t.eraseLine q.eraseLines := by
  induction h with
  | refl position => exact .refl _
  | @value e e' next label position other added rest ih =>
      have hadded := Reader.addLabel_eraseLine e label next label.line
      rw [added] at hadded
      exact .value other hadded.symm ih
  | comma other rest ih => exact .comma other ih
  | mark other rest ih => exact .mark other ih
  | brackets other rest ih => exact .brackets other ih
  | default other rest ih => exact .default other ih

end Position

namespace Reader

section Steps

variable {r : Reader} {t : Token}

theorem position_eraseLines {position : Position} (h : r.position = position) :
    r.eraseLines.position = position.eraseLines :=
  congrArg Position.eraseLines h

/-- A token that is taken is taken without lines. -/
theorem Takes.eraseLines {r' : Reader} (h : r.Takes t r') :
    r.eraseLines.Takes t.eraseLine r'.eraseLines := by
  cases h with
  | sign here leads => exact .sign here.eraseLines leads.eraseLines
  | finished here => exact .finished (position_eraseLines here)
  | namespaceName here name => exact .namespaceName (position_eraseLines here) name
  | binary here sign => exact .binary (position_eraseLines here) sign
  | friendly here sign => exact .friendly (position_eraseLines here) sign
  | structName here name => exact .structName (position_eraseLines here) name
  | @root name line r' here opened sign =>
      have hopened := openStruct_eraseLines r name line none
      rw [opened] at hopened
      exact .root (position_eraseLines here) hopened.symm sign
  | @heir name line r' here parent opened =>
      have hopened := openStruct_eraseLines r name line (some t.text)
      rw [opened] at hopened
      exact .heir (position_eraseLines here) parent hopened.symm
  | type here brace struct enum resolved =>
      have hresolved := resolve?_eraseLines r t.text
      rw [resolved] at hresolved
      exact .type (position_eraseLines here) brace struct enum hresolved
  | closeStruct here sign =>
      rw [← closeStruct_eraseLines]
      exact .closeStruct (position_eraseLines here) sign
  | enumName here name =>
      have htaken := Takes.enumName (position_eraseLines here) (t := t.eraseLine) name
      rw [scope_eraseLines] at htaken
      exact htaken
  | label here brace name => exact .label here.eraseLines brace name
  | @value e e' label value here number added =>
      have hadded := addLabel_eraseLine e label value t.line
      rw [added] at hadded
      exact .value (position_eraseLines here) number hadded.symm
  | @closeEnum e r' here sign closed =>
      have hclosed := closeEnum_eraseLines (r.goto .body) e
      rw [closed] at hclosed
      exact .closeEnum (position_eraseLines here) sign hclosed.symm
  | field here name => exact .field here.eraseLines name
  | count here bracket count => exact .count (position_eraseLines here) bracket count
  | default here => exact .default (position_eraseLines here)
  | @next g f here sign =>
      have htaken := Takes.next (r := r.eraseLines) (g := g.eraseLines) here.eraseLines sign
      rw [addField_eraseLines] at htaken
      exact htaken
  | @last g f here sign =>
      have htaken := Takes.last (r := r.eraseLines) (g := g.eraseLines) here.eraseLines sign
      rw [addField_eraseLines] at htaken
      exact htaken

/-- A token that is refused is refused without lines, for the same reason. -/
theorem Refuses.eraseLines {e : SchemaError} (h : r.Refuses t e) :
    r.eraseLines.Refuses t.eraseLine e.eraseLine := by
  cases h with
  | sign needs other => exact .sign needs.eraseLines other
  | name names other => exact .name names.eraseLines other
  | declaration here struct binary friendly brace =>
      exact .declaration (position_eraseLines here) struct binary friendly brace
  | @root name line e here colon taken =>
      have htaken := openStruct_eraseLines r name line none
      rw [taken] at htaken
      exact .root (position_eraseLines here) colon htaken.symm
  | @brace name line r' here colon opened other =>
      have hopened := openStruct_eraseLines r name line none
      rw [opened] at hopened
      exact .brace (position_eraseLines here) colon hopened.symm other
  | @heir name line e here parent taken =>
      have htaken := openStruct_eraseLines r name line (some t.text)
      rw [taken] at htaken
      exact .heir (position_eraseLines here) parent htaken.symm
  | type here brace struct enum unresolved =>
      have hunresolved := resolve?_eraseLines r t.text
      rw [unresolved] at hunresolved
      have hrefused :=
        Refuses.type (position_eraseLines here) (t := t.eraseLine) brace struct enum hunresolved
      rw [scope_eraseLines] at hrefused
      exact hrefused
  | label here brace other => exact .label here.eraseLines brace other
  | @unsigned enum next label e here other taken =>
      have htaken := addLabel_eraseLine enum label next label.line
      rw [taken] at htaken
      exact .unsigned (position_eraseLines here) other htaken.symm
  | number here other => exact .number (position_eraseLines here) other
  | @value enum label value e here number taken =>
      have htaken := addLabel_eraseLine enum label value t.line
      rw [taken] at htaken
      exact .value (position_eraseLines here) number htaken.symm
  | @enum enum e here sign taken =>
      have htaken := closeEnum_eraseLines (r.goto .body) enum
      rw [taken] at htaken
      exact .enum (position_eraseLines here) sign htaken.symm
  | field here other => exact .field here.eraseLines other
  | count here bracket other => exact .count (position_eraseLines here) bracket other
  | undivided here comma sign => exact .undivided here.eraseLines comma sign

/-- One token does the same whatever the lines are. -/
theorem step_eraseLines (r : Reader) (t : Token) :
    eraseResult eraseLines (r.step t) = r.eraseLines.step t.eraseLine := by
  cases h : r.step t with
  | ok r' => exact (takes_of_step h).eraseLines.step_eq.symm
  | error e => exact (refuses_of_step h).eraseLines.step_eq.symm

end Steps

/-- Any number of tokens do the same whatever the lines are. -/
theorem foldlM_step_eraseLines (r : Reader) (tokens : List Token) :
    eraseResult eraseLines (tokens.foldlM step r) =
      (tokens.map Token.eraseLine).foldlM step r.eraseLines := by
  induction tokens generalizing r with
  | nil => rfl
  | cons t tokens ih =>
      rw [List.map_cons, List.foldlM_cons, List.foldlM_cons]
      exact eraseResult_bind (step_eraseLines r t) ih

theorem finish_eraseLines (r : Reader) (line : Nat) :
    eraseResult Schema.eraseLines (r.finish line) = r.eraseLines.finish 0 := by
  have hat : r.eraseLines.position = r.position.eraseLines := rfl
  unfold finish
  rw [hat]
  cases r.position with
  | structHead name first =>
      exact eraseResult_bind (openStruct_eraseLines r name first none) fun _ => rfl
  | labelSign e next label =>
      exact eraseResult_bind (addLabel_eraseLine e label next label.line) fun _ => rfl
  | _ => rfl

/-- What is read from tokens, its lines erased, depends on their texts only. -/
theorem read_eraseLines (tokens : List Token) :
    eraseResult Schema.eraseLines (read tokens) = read (tokens.map Token.eraseLine) := by
  have hlast : (((tokens.map Token.eraseLine).getLast?.map Token.line).getD 0) = 0 := by
    rw [List.getLast?_map]
    cases tokens.getLast? <;> rfl
  unfold read
  rw [hlast]
  exact eraseResult_bind (foldlM_step_eraseLines {} tokens) fun r => finish_eraseLines r _

end Reader

end Schematic
