import Schematic.Proofs.Derivation
import Schematic.Proofs.Lines
import Schematic.Proofs.ReaderStep

/-!
# What the reader accepts

Between two tokens the reader awaits the rest of some derivation: the rest of the clause it is in,
and then the ends of the structs that are open. A token it takes leads from what it awaited to what
it awaits next, so the tokens of every successful reading have a derivation. Main statement: a list
of tokens is read exactly if it has a derivation whose type names denote something and whose names
are declared once, and what is read is what the derivation builds.
-/

namespace Schematic

open Grammar
open Text (ofString)

namespace Grammar

/-! ## What can still come -/

/-- What can come between two declarations with `depth` structs open: the ends of the structs, each
behind more members, and the rest of the file. -/
def Closes : Nat → List Text → Prop
  | 0, ts => ∃ file : File, file.Derives ts
  | depth + 1, ts =>
    ∃ members rest, Member.IsSpelledAll members ∧
      ts = Member.textsAll members ++ ofString "\x7d" :: ofString ";" :: rest ∧ Closes depth rest

/-- What can come behind a member. There is none while no struct is open. -/
def AfterMember (depth : Nat) (ts : List Text) : Prop :=
  depth ≠ 0 → Closes depth ts

/-- What can come behind the name of a struct. -/
def StructHead (depth : Nat) (ts : List Text) : Prop :=
  ∃ parent? rest, (∀ parent ∈ parent?, IsTypeName parent) ∧
    ts = parentTexts parent? ++ ofString "\x7b" :: rest ∧ Closes (depth + 1) rest

/-- What can come behind `struct`. -/
def StructName (depth : Nat) (ts : List Text) : Prop :=
  ∃ name rest, ts = name :: rest ∧ IsTypeName name ∧ StructHead depth rest

/-- What can come in front of a label. -/
def Labels (depth : Nat) (ts : List Text) : Prop :=
  ∃ (entries : List LabelEntry) (rest : List Text), (∀ e ∈ entries, e.IsSpelled) ∧
    ts = entries.flatMap LabelEntry.texts ++ ofString "\x7d" :: ofString ";" :: rest ∧
      AfterMember depth rest

/-- What can come behind a label and its value. -/
def LabelEnd (depth : Nat) (ts : List Text) : Prop :=
  Labels depth ts ∨ ∃ rest, ts = ofString "," :: rest ∧ Labels depth rest

def LabelValue (depth : Nat) (ts : List Text) : Prop :=
  ∃ value rest, ts = value :: rest ∧ (Text.int32? value).isSome = true ∧ LabelEnd depth rest

/-- What can come behind the name of a label. -/
def LabelSign (depth : Nat) (ts : List Text) : Prop :=
  LabelEnd depth ts ∨ ∃ rest, ts = ofString "=" :: rest ∧ LabelValue depth rest

def EnumOpen (depth : Nat) (ts : List Text) : Prop :=
  ∃ rest, ts = ofString "\x7b" :: rest ∧ Labels depth rest

/-- What can come behind `enum`. -/
def EnumName (depth : Nat) (ts : List Text) : Prop :=
  ∃ name rest, ts = name :: rest ∧ IsTypeName name ∧ EnumOpen depth rest

/-- What can come behind a field. -/
def FieldEnd (depth : Nat) (ts : List Text) : Prop :=
  ∃ (more : List Declarator) (rest : List Text), (∀ d ∈ more, d.IsSpelled) ∧
    ts = Declarator.moreTexts more ++ ofString ";" :: rest ∧ AfterMember depth rest

def FieldDefault (depth : Nat) (ts : List Text) : Prop :=
  ∃ value rest, ts = value :: rest ∧ FieldEnd depth rest

/-- What can come behind the brackets of a field. -/
def FieldSign (depth : Nat) (ts : List Text) : Prop :=
  FieldEnd depth ts ∨ ∃ rest, ts = ofString "=" :: rest ∧ FieldDefault depth rest

def FieldBracket (depth : Nat) (ts : List Text) : Prop :=
  ∃ rest, ts = ofString "]" :: rest ∧ FieldSign depth rest

/-- What can come behind an opening bracket. -/
def FieldCount (depth : Nat) (ts : List Text) : Prop :=
  FieldBracket depth ts ∨
    ∃ count rest, ts = count :: rest ∧ (∃ i ∈ Text.int64? count, -1 ≤ i) ∧
      FieldBracket depth rest

/-- What can come behind the name of a field. -/
def FieldShape (depth : Nat) (ts : List Text) : Prop :=
  FieldSign depth ts ∨ ∃ rest, ts = ofString "[" :: rest ∧ FieldCount depth rest

def FieldName (depth : Nat) (ts : List Text) : Prop :=
  ∃ name rest, ts = name :: rest ∧ Text.isIdentifier name = true ∧ FieldShape depth rest

/-- What can come behind the type of a field. -/
def FieldMark (depth : Nat) (ts : List Text) : Prop :=
  FieldName depth ts ∨ ∃ rest, ts = ofString "?" :: rest ∧ FieldName depth rest

end Grammar

/-- What the reader awaits at a position with `depth` structs open. -/
def Position.Awaits (depth : Nat) : Position → List Text → Prop
  | file, ts => depth = 0 → Closes 0 ts
  | namespaceSign _, ts =>
    depth = 0 → ∃ name rest, ts = ofString "=" :: name :: ofString ";" :: rest ∧
      IsTypeName name ∧ Closes 0 rest
  | namespaceName _, ts =>
    depth = 0 → ∃ name rest, ts = name :: ofString ";" :: rest ∧ IsTypeName name ∧ Closes 0 rest
  | namespaceEnd _ _, ts => depth = 0 → ∃ rest, ts = ofString ";" :: rest ∧ Closes 0 rest
  | fileEnd, ts => ∃ rest, ts = ofString ";" :: rest
  | finished, _ => True
  | structName, ts => StructName depth ts
  | structHead _ _, ts => StructHead depth ts
  | structParent _ _, ts =>
    ∃ parent rest, ts = parent :: ofString "\x7b" :: rest ∧ IsTypeName parent ∧
      Closes (depth + 1) rest
  | structOpen, ts => ∃ rest, ts = ofString "\x7b" :: rest ∧ AfterMember depth rest
  | body, ts => AfterMember depth ts
  | structEnd, ts => depth ≠ 0 → ∃ rest, ts = ofString ";" :: rest ∧ Closes (depth - 1) rest
  | enumName, ts => EnumName depth ts
  | enumOpen _, ts => EnumOpen depth ts
  | labels _ _, ts => Labels depth ts
  | labelSign _ _ _, ts => LabelSign depth ts
  | labelValue _ _, ts => LabelValue depth ts
  | labelEnd _ _, ts => LabelEnd depth ts
  | enumEnd _, ts => ∃ rest, ts = ofString ";" :: rest ∧ AfterMember depth rest
  | fieldMark _, ts => FieldMark depth ts
  | fieldName _, ts => FieldName depth ts
  | fieldShape _ _, ts => FieldShape depth ts
  | fieldCount _ _, ts => FieldCount depth ts
  | fieldBracket _ _, ts => FieldBracket depth ts
  | fieldSign _ _, ts => FieldSign depth ts
  | fieldDefault _ _, ts => FieldDefault depth ts
  | fieldEnd _ _, ts => FieldEnd depth ts

namespace Grammar

variable {depth : Nat} {ts : List Text}

/-! ## Putting clauses together -/

theorem Closes.item (item : Item) (spelled : item.IsSpelled) (h : Closes 0 ts) :
    Closes 0 (item.texts ++ ts) := by
  obtain ⟨file, hspelled, rfl⟩ := h
  refine ⟨⟨item :: file.items, file.unread?⟩, ?_, ?_⟩
  · intro item' hitem
    rcases List.mem_cons.mp hitem with rfl | hitem
    · exact spelled
    · exact hspelled item' hitem
  · simp [File.texts]

theorem AfterMember.member {m : Member} (spelled : m.IsSpelled) (h : AfterMember depth ts) :
    AfterMember depth (m.texts ++ ts) := by
  intro hdepth
  cases depth with
  | zero => exact absurd rfl hdepth
  | succ depth =>
      obtain ⟨members, rest, hspelled, rfl, hrest⟩ := h hdepth
      exact ⟨m :: members, rest, ⟨spelled, hspelled⟩, by simp [Member.textsAll], hrest⟩

/-- The end of a struct, behind which nothing is awaited of its members. -/
theorem AfterMember.close (h : depth ≠ 0 → Closes (depth - 1) ts) :
    AfterMember depth (ofString "\x7d" :: ofString ";" :: ts) := by
  intro hdepth
  cases depth with
  | zero => exact absurd rfl hdepth
  | succ depth => exact ⟨[], ts, trivial, rfl, h hdepth⟩

/-- A struct has a header and a body, and stands in front of what comes behind its end. -/
theorem StructName.exists_struct (h : StructName depth ts) :
    ∃ d : TopStruct, ∃ rest, d.member.IsSpelled ∧ ofString "struct" :: ts = d.member.texts ++ rest ∧
      Closes depth rest := by
  obtain ⟨name, _, rfl, hname, parent?, _, hparent, rfl, members, rest, hmembers, rfl, hrest⟩ := h
  refine ⟨⟨name, parent?, members⟩, rest, ⟨hname, hparent, hmembers⟩, ?_, hrest⟩
  rw [TopStruct.member, Member.struct_texts_append]

theorem EnumName.afterMember (h : EnumName depth ts) :
    AfterMember depth (ofString "enum" :: ts) := by
  obtain ⟨name, _, rfl, hname, _, rfl, entries, rest, hentries, rfl, hrest⟩ := h
  rw [← Member.enumeration_texts_append]
  exact hrest.member ⟨hname, hentries⟩

theorem LabelEnd.exists_comma (h : LabelEnd depth ts) :
    ∃ comma : Bool, ∃ rest, ts = (if comma then [ofString ","] else []) ++ rest ∧
      Labels depth rest := by
  rcases h with h | ⟨rest, rfl, h⟩
  · exact ⟨false, ts, rfl, h⟩
  · exact ⟨true, rest, rfl, h⟩

/-- A label with what stands behind it is an entry in front of the others. -/
theorem LabelSign.labels {name : Text} (hname : Text.isIdentifier name = true)
    (h : LabelSign depth ts) : Labels depth (name :: ts) := by
  have hentry (value? : Option Text) (rest : List Text)
      (hvalue : ∀ value ∈ value?, (Text.int32? value).isSome = true) (h : LabelEnd depth rest) :
      Labels depth (name :: (LabelEntry.valueTexts ⟨name, value?, false⟩ ++ rest)) := by
    obtain ⟨comma, _, rfl, entries, rest, hentries, rfl, hrest⟩ := h.exists_comma
    refine ⟨⟨name, value?, comma⟩ :: entries, rest, ?_, ?_, hrest⟩
    · intro e he
      rcases List.mem_cons.mp he with rfl | he
      · exact ⟨hname, hvalue⟩
      · exact hentries e he
    · simp [LabelEntry.texts, LabelEntry.valueTexts, LabelEntry.commaTexts]
  rcases h with h | ⟨_, rfl, value, rest, rfl, hvalue, h⟩
  · exact hentry none ts (by simp) h
  · exact hentry (some value) rest (by simpa using hvalue) h

theorem FieldSign.exists_default (h : FieldSign depth ts) (name : Text) :
    ∃ default? rest, ts = Declarator.defaultTexts ⟨name, none, default?⟩ ++ rest ∧
      FieldEnd depth rest := by
  rcases h with h | ⟨_, rfl, value, rest, rfl, h⟩
  · exact ⟨none, ts, rfl, h⟩
  · exact ⟨some value, rest, rfl, h⟩

/-- A name with what stands behind it is a declarator in front of the others. -/
theorem FieldName.exists_declarator (h : FieldName depth ts) :
    ∃ d : Declarator, ∃ rest, d.IsSpelled ∧ ts = d.texts ++ rest ∧ FieldEnd depth rest := by
  obtain ⟨name, _, rfl, hname, h⟩ := h
  rcases h with h | ⟨_, rfl, ⟨_, rfl, h⟩ | ⟨count, _, rfl, hcount, _, rfl, h⟩⟩
  · obtain ⟨default?, rest, rfl, hrest⟩ := h.exists_default name
    exact ⟨⟨name, none, default?⟩, rest, ⟨hname, by simp⟩, rfl, hrest⟩
  · obtain ⟨default?, rest, rfl, hrest⟩ := h.exists_default name
    exact ⟨⟨name, some none, default?⟩, rest, ⟨hname, by simp⟩, rfl, hrest⟩
  · obtain ⟨default?, rest, rfl, hrest⟩ := h.exists_default name
    exact ⟨⟨name, some (some count), default?⟩, rest, ⟨hname, by simpa using hcount⟩, rfl, hrest⟩

theorem FieldName.fieldEnd (h : FieldName depth ts) : FieldEnd depth (ofString "," :: ts) := by
  obtain ⟨d, _, hd, rfl, more, rest, hmore, rfl, hrest⟩ := h.exists_declarator
  refine ⟨d :: more, rest, ?_, by simp [Declarator.moreTexts], hrest⟩
  intro d' hd'
  rcases List.mem_cons.mp hd' with rfl | hd'
  · exact hd
  · exact hmore d' hd'

/-- A type with what stands behind it is a member. -/
theorem FieldMark.afterMember {type : Text} (brace : type ≠ "\x7d") (struct : type ≠ "struct")
    (enum : type ≠ "enum") (h : FieldMark depth ts) : AfterMember depth (type :: ts) := by
  have hmember (optional : Bool) (rest : List Text) (h : FieldName depth rest) :
      AfterMember depth (type :: ((if optional then [ofString "?"] else []) ++ rest)) := by
    obtain ⟨d, _, hd, rfl, more, rest, hmore, rfl, hrest⟩ := h.exists_declarator
    rw [← Member.fields_texts_append]
    exact hrest.member ⟨brace, struct, enum, hd, hmore⟩
  rcases h with h | ⟨rest, rfl, h⟩
  · exact hmember false ts h
  · exact hmember true rest h

end Grammar

namespace Position

/-! ## Steps -/

variable {p q : Position} {depth : Nat} {ts : List Text}

/-- A sign stands at the front of what is awaited, and behind it what is awaited next. -/
theorem Leads.awaits {sign : Text} (h : p.Leads sign q) (later : q.Awaits depth ts) :
    p.Awaits depth (sign :: ts) := by
  cases h with
  | struct =>
      intro hdepth
      obtain ⟨d, rest, hd, htexts, hrest⟩ := StructName.exists_struct later
      rw [htexts]
      exact Closes.item (.struct d) hd (hdepth ▸ hrest)
  | binary =>
      intro hdepth
      obtain ⟨name, rest, rfl, hname, hrest⟩ := later hdepth
      exact Closes.item (.directive .binary name) hname hrest
  | friendly =>
      intro hdepth
      obtain ⟨name, rest, rfl, hname, hrest⟩ := later hdepth
      exact Closes.item (.directive .friendly name) hname hrest
  | fileEnd =>
      intro _
      obtain ⟨rest, rfl⟩ := later
      exact ⟨⟨[], some rest⟩, by simp [File.IsSpelled], by simp [File.texts]⟩
  | namespaceName side =>
      intro hdepth
      obtain ⟨name, rest, rfl, hrest⟩ := later hdepth
      exact ⟨name, rest, rfl, hrest⟩
  | finished => exact ⟨ts, rfl⟩
  | parent name line =>
      obtain ⟨parent, rest, rfl, hparent, hrest⟩ := later
      exact ⟨some parent, rest, by simpa using hparent, rfl, hrest⟩
  | body => exact ⟨ts, rfl, later⟩
  | structEnd =>
      intro hdepth
      obtain ⟨rest, rfl, hrest⟩ := later hdepth
      exact AfterMember.close (fun _ => hrest) hdepth
  | child =>
      obtain ⟨d, rest, hd, htexts, hrest⟩ := StructName.exists_struct later
      rw [htexts]
      exact AfterMember.member hd fun _ => hrest
  | enum => exact EnumName.afterMember later
  | labels e => exact ⟨ts, rfl, later⟩
  | enumEnd e next =>
      obtain ⟨rest, rfl, hrest⟩ := later
      exact ⟨[], rest, by simp, rfl, hrest⟩
  | value e next label => exact .inr ⟨ts, rfl, later⟩
  | label e next => exact .inr ⟨ts, rfl, later⟩
  | optional g => exact .inr ⟨ts, rfl, later⟩
  | brackets g f => exact .inr ⟨ts, rfl, later⟩
  | dynamic g f => exact .inl ⟨ts, rfl, later⟩
  | fixed g f => exact ⟨ts, rfl, later⟩
  | default g f => exact .inr ⟨ts, rfl, later⟩

/-- What is awaited behind a clause that may be left out is awaited in front of it. -/
theorem Skips.awaits {t : Token} (h : p.Skips t q) (later : q.Awaits depth ts) :
    p.Awaits depth ts := by
  induction h with
  | refl _ => exact later
  | value _ _ _ ih | comma _ _ ih | mark _ _ ih | brackets _ _ ih | default _ _ ih =>
      exact .inl (ih later)

end Position

namespace Reader

section Step

variable {r r' : Reader} {t : Token} {ts : List Text}

theorem stack_modifyTop (r : Reader) (change : Struct → Struct) :
    (r.modifyTop change).stack.length = r.stack.length := by
  unfold modifyTop
  split
  · rfl
  · rename_i h
    simp [h]

/-- What the reader awaits. -/
def Awaits (r : Reader) (ts : List Text) : Prop :=
  r.position.Awaits r.stack.length ts

/-- A token that is taken stands at the front of what was awaited. -/
theorem awaits_of_step (h : r.step t = .ok r') (later : r'.Awaits ts) :
    r.Awaits (t.text :: ts) := by
  unfold Awaits at later ⊢
  cases takes_of_step h with
  | sign here leads => exact here.awaits (leads.awaits later)
  | finished here =>
      rw [here]
      trivial
  | namespaceName here name =>
      rw [here]
      intro hdepth
      obtain ⟨rest, rfl, hrest⟩ := later hdepth
      exact ⟨t.text, rest, rfl, name, hrest⟩
  | binary here sign =>
      rw [here, sign]
      exact fun hdepth => ⟨ts, rfl, later hdepth⟩
  | friendly here sign =>
      rw [here, sign]
      exact fun hdepth => ⟨ts, rfl, later hdepth⟩
  | structName here name =>
      rw [here]
      exact ⟨t.text, ts, rfl, name, later⟩
  | root here opened sign =>
      obtain ⟨_, rfl⟩ := openStruct_eq_ok opened
      rw [here, sign]
      exact ⟨none, ts, by simp, rfl, later (by simp [goto])⟩
  | heir here parent opened =>
      obtain ⟨_, rfl⟩ := openStruct_eq_ok opened
      obtain ⟨rest, rfl, hrest⟩ := later
      rw [here]
      exact ⟨t.text, rest, rfl, parent, hrest (by simp)⟩
  | type here brace struct enum resolved =>
      rw [here]
      exact FieldMark.afterMember brace struct enum later
  | closeStruct here sign =>
      rw [here, sign]
      intro hdepth
      refine ⟨ts, rfl, ?_⟩
      -- Behind the last open struct comes the file, behind any other one the body around it.
      rcases hstack : r.stack with _ | ⟨inner, _ | ⟨outer, stack⟩⟩
      · exact absurd (by simp [hstack]) hdepth
      · simp only [closeStruct, hstack] at later
        exact later rfl
      · simp only [closeStruct, hstack] at later
        exact later (by simp)
  | enumName here name =>
      rw [here]
      exact ⟨t.text, ts, rfl, name, later⟩
  | label here brace name => exact here.awaits (LabelSign.labels name later)
  | value here number added =>
      rw [here]
      exact ⟨t.text, ts, rfl, by simp [number], later⟩
  | closeEnum here sign closed =>
      obtain rfl := closeEnum_eq_ok closed
      rw [goto, stack_modifyTop] at later
      rw [here, sign]
      exact ⟨ts, rfl, later⟩
  | field here name => exact here.awaits ⟨t.text, ts, rfl, name, later⟩
  | count here bracket count =>
      obtain ⟨i, hi, _⟩ := Option.map_eq_some_iff.mp count
      rw [here]
      exact .inr ⟨t.text, ts, rfl, ⟨i, by simpa using hi⟩, later⟩
  | default here =>
      rw [here]
      exact ⟨t.text, ts, rfl, later⟩
  | next here sign =>
      rw [goto, addField, stack_modifyTop] at later
      rw [sign]
      exact here.awaits (FieldName.fieldEnd later)
  | last here sign =>
      rw [goto, addField, stack_modifyTop] at later
      rw [sign]
      exact here.awaits ⟨[], ts, by simp, rfl, later⟩

/-- What is read to its end was awaited at its start. -/
theorem awaits_of_foldlM {tokens : List Token} {line : Nat} {s : Schema}
    (h : tokens.foldlM step r = .ok r') (hfinish : r'.finish line = .ok s) :
    r.Awaits (tokens.map Token.text) := by
  induction tokens generalizing r with
  | nil =>
      -- Nothing more has to come where reading can end.
      obtain rfl := Except.ok.inj h
      rcases (finish_eq_ok hfinish).1 with hp | hp <;> rw [Awaits, hp]
      · exact fun _ => ⟨⟨[], none⟩, by simp [File.IsSpelled], rfl⟩
      · trivial
  | cons t tokens ih =>
      rw [List.foldlM_cons] at h
      obtain ⟨r₁, h₁, h⟩ := bind_eq_ok.mp h
      exact awaits_of_step h₁ (ih h)

end Step

theorem exists_derives_of_read {tokens : List Token} {s : Schema} (h : read tokens = .ok s) :
    ∃ file : File, file.Derives (tokens.map Token.text) := by
  obtain ⟨r, hr, hfinish⟩ := bind_eq_ok.mp h
  exact awaits_of_foldlM hr hfinish rfl

/-- What is read depends on the texts of the tokens, but for its lines. -/
theorem eraseResult_read (tokens : List Token) :
    eraseResult Schema.eraseLines (read tokens) =
      read ((tokens.map Token.text).map (Token.mk 0)) := by
  rw [read_eraseLines, List.map_map]
  rfl

/-- What is read is what any derivation of the tokens builds. -/
theorem builds_of_read {tokens : List Token} {s : Schema} (h : read tokens = .ok s) {file : File}
    (derives : file.Derives (tokens.map Token.text)) :
    file.declares.Distinct ∧ file.Builds s.eraseLines := by
  rw [← read_eq_ok_iff_of_derives derives, ← eraseResult_read, h]
  rfl

/-- A list of tokens is read exactly if it has a derivation in which every type name denotes
something where it is used, no two declarations have one name and no enumeration has two labels of
one name. What is read is, but for its lines, what the derivation builds. -/
theorem read_iff_derivation (tokens : List Token) :
    ((∃ s, read tokens = .ok s) ↔
      ∃ file : File, file.Derives (tokens.map Token.text) ∧ file.Resolves ∧
        file.declares.Distinct) ∧
    ∀ s, read tokens = .ok s → ∀ file : File, file.Derives (tokens.map Token.text) →
      file.Builds s.eraseLines := by
  refine ⟨⟨?_, ?_⟩, fun s h file derives => (builds_of_read h derives).2⟩
  · rintro ⟨s, h⟩
    obtain ⟨file, derives⟩ := exists_derives_of_read h
    obtain ⟨distinct, builds⟩ := builds_of_read h derives
    exact ⟨file, derives, File.resolves_iff_builds.mpr ⟨_, builds⟩, distinct⟩
  · rintro ⟨file, derives, resolves, distinct⟩
    obtain ⟨built, builds⟩ := File.resolves_iff_builds.mp resolves
    have hread := eraseResult_read tokens
    rw [(read_eq_ok_iff_of_derives derives).mpr ⟨distinct, builds⟩] at hread
    cases h : read tokens with
    | ok s => exact ⟨s, rfl⟩
    | error e =>
        rw [h] at hread
        exact absurd hread (by simp [eraseResult])

end Reader

end Schematic
