import Schematic.Proofs.Coherence
import Schematic.Proofs.DeclaredNames
import Schematic.Proofs.LabelValues
import Schematic.Proofs.Pieces

/-!
# Names that generated code can use

A name that a package declares must be no keyword, and none of the words with which the code itself
means something else: built-in names, its variables and the package it writes to. The reader of a
schema refuses keywords one name at a time, and the names of nested structs and of enumerations are
put together only behind it. Main statement: constructors and constants never take such a word, and
what is left to ask of a schema that can be parsed is whether a nested name is a keyword, whether
the name of a type is a word of the code, and whether the writer's package has a declared name.
-/

namespace Schematic

/-! ## Capitals -/

namespace Text

/-- A byte of a capital, or of a rune beyond ASCII. -/
def IsMajor (b : UInt8) : Prop :=
  (0x41 ≤ b ∧ b ≤ 0x5A) ∨ 0x80 ≤ b

instance (b : UInt8) : Decidable (IsMajor b) :=
  inferInstanceAs (Decidable (_ ∨ _))

/-- The code point of a capital, or of a rune beyond ASCII. -/
def IsMajorCode (code : Nat) : Prop :=
  ((0x41 ≤ code ∧ code ≤ 0x5A) ∨ 0x80 ≤ code) ∧ code < 0x40000

instance (code : Nat) : Decidable (IsMajorCode code) :=
  inferInstanceAs (Decidable (_ ∧ _))

theorem exists_major_encode {code : Nat} (h : IsMajorCode code) : ∃ b ∈ encode code, IsMajor b := by
  obtain ⟨hmajor, hcode⟩ := h
  unfold encode
  split
  · refine ⟨_, List.mem_cons_self, .inl ?_⟩
    rw [UInt8.le_iff_toNat_le, UInt8.le_iff_toNat_le]
    simp
    omega
  all_goals
    repeat' split
    all_goals
      refine ⟨_, List.mem_cons_self, .inr ?_⟩
      rw [UInt8.le_iff_toNat_le]
      simp
      omega

theorem exists_range_of_inRanges {ranges : List (Nat × Nat)} {code : Nat}
    (h : inRanges ranges code = true) : ∃ range ∈ ranges, range.1 ≤ code ∧ code ≤ range.2 := by
  induction ranges with
  | nil => simp [inRanges] at h
  | cons range ranges ih =>
      rw [inRanges] at h
      split at h
      · simp at h
      · split at h
        · exact ⟨range, List.mem_cons_self, by omega, by omega⟩
        · obtain ⟨other, hother, hcode⟩ := ih h
          exact ⟨other, List.mem_cons_of_mem _ hother, hcode⟩

/-- A letter is a small one of ASCII, or else a capital or a rune beyond ASCII. -/
theorem isMajorCode_of_letter {code : Nat} (h : inRanges letterRanges code = true)
    (hsmall : ¬(0x61 ≤ code ∧ code ≤ 0x7A)) : IsMajorCode code := by
  have htable : ∀ range ∈ letterRanges,
      (0x61 ≤ range.1 ∧ range.2 ≤ 0x7A) ∨
        ((0x41 ≤ range.1 ∧ range.2 ≤ 0x5A) ∨ 0x80 ≤ range.1) ∧ range.2 < 0x40000 := by
    decide +kernel
  obtain ⟨range, hrange, hfirst, hlast⟩ := exists_range_of_inRanges h
  have := htable range hrange
  unfold IsMajorCode
  omega

namespace Title

theorem isMajorCode_of_place? {code target : Nat} {run : Nat × Nat × Nat × Nat}
    (hrun : run ∈ runTable) (h : place? code run = some target) : IsMajorCode target := by
  have htable : ∀ run ∈ runTable,
      ((0x41 ≤ run.2.2.2 ∧ run.2.2.2 + (run.2.1 - run.1) ≤ 0x5A) ∨ 0x80 ≤ run.2.2.2) ∧
        run.2.2.2 + (run.2.1 - run.1) < 0x40000 := by
    decide +kernel
  have hbounds := htable run hrun
  obtain ⟨first, last, stride, start⟩ := run
  dsimp only at hbounds
  simp only [place?] at h
  split at h
  · rename_i hplace
    simp only [Bool.and_eq_true, decide_eq_true_eq] at hplace
    obtain rfl := Option.some.inj h
    unfold IsMajorCode
    omega
  · simp at h

/-- In title case a letter has a capital or a rune beyond ASCII. -/
theorem exists_major_mapped {code : Nat} (h : inRanges letterRanges code = true) :
    ∃ target ∈ mapped code, IsMajorCode target := by
  have hexpansions : ∀ entry ∈ expansionTable, ∃ target ∈ entry.2, IsMajorCode target := by
    decide +kernel
  unfold mapped
  split
  · rename_i codes hlookup
    obtain ⟨before, behind, htable, -⟩ := List.lookup_eq_some_iff.mp hlookup
    exact hexpansions (code, codes) (by simp [htable])
  · refine ⟨_, List.mem_singleton_self _, ?_⟩
    cases hplace : runTable.findSome? (place? code) with
    | some target =>
        obtain ⟨run, hrun, htarget⟩ := List.exists_of_findSome?_eq_some hplace
        exact isMajorCode_of_place? hrun htarget
    | none =>
        refine isMajorCode_of_letter h fun hsmall => ?_
        have hfirst : place? code (97, 122, 1, 65) = none :=
          List.findSome?_eq_none_iff.mp hplace _ (by decide)
        rw [Option.getD_none] at hsmall
        simp [place?, hsmall, Nat.mod_one] at hfirst

theorem exists_major_titled {r : Rune} (h : r.isLetter = true) : ∃ b ∈ titled r, IsMajor b := by
  unfold Rune.isLetter Rune.codeIn at h
  unfold titled
  cases hcode : r.code? with
  | none => simp [hcode] at h
  | some code =>
      rw [hcode] at h
      obtain ⟨target, htarget, hmajor⟩ := exists_major_mapped h
      obtain ⟨b, hb, hb'⟩ := exists_major_encode hmajor
      exact ⟨b, List.mem_flatMap.mpr ⟨target, htarget, hb⟩, hb'⟩

end Title

/-- A letter without a case is none of ASCII. -/
theorem isMajor_of_uncased {a : UInt8} {t : Text} (hletter : (firstRune a t).isLetter = true)
    (huncased : Title.isCased (firstRune a t) = false) : IsMajor a := by
  have hcased : ∀ code < 0x80, inRanges letterRanges code = true →
      inRanges Title.casedRanges code = true := by
    decide +kernel
  by_cases ha : a < 0x80
  · have hfirst : firstRune a t = Rune.ofByte a := by
      simp [firstRune, ha, Rune.ofByte]
    rw [hfirst] at hletter huncased
    exact absurd (hcased a.toNat ha hletter) (Bool.eq_false_iff.mp huncased)
  · exact .inr (UInt8.not_lt.mp ha)

theorem exists_major_titleCase {a : UInt8} {t : Text} (h : (firstRune a t).isLetter = true) :
    ∃ b ∈ titleCase (a :: t), IsMajor b := by
  have hrunes : runes (a :: t) =
      firstRune a t :: runesFrom ((firstRune a t).bytes.length - 1) t := rfl
  rw [titleCase, hrunes, Title.titleFrom]
  simp only [Bool.false_and, Bool.false_eq_true, if_false]
  split
  · obtain ⟨b, hb, hmajor⟩ := Title.exists_major_titled h
    exact ⟨b, List.mem_append_left _ hb, hmajor⟩
  · rename_i huncased
    obtain ⟨s, rest, -, hbytes⟩ := exists_bytes_firstRune a t
    rw [hbytes]
    exact ⟨a, by simp, isMajor_of_uncased h (by simpa using huncased)⟩

/-- The part of a text in front of its first separator keeps its first rune. -/
theorem exists_splitOn_cons {separator a : UInt8} (hlow : isHigh separator = false)
    (ha : a ≠ separator) (t : Text) :
    ∃ p pieces, splitOn separator (a :: t) = (a :: p) :: pieces ∧
      firstRune a p = firstRune a t := by
  obtain ⟨p, pieces, hpieces⟩ := List.exists_cons_of_ne_nil (splitOn_ne_nil separator t)
  refine ⟨p, pieces, by rw [splitOn_cons, if_neg ha, hpieces]; rfl, ?_⟩
  rw [← join_splitOn separator t, hpieces]
  cases pieces with
  | nil => rfl
  | cons next pieces =>
      rw [join_cons _ _ (List.cons_ne_nil _ _), List.append_assoc]
      exact (firstRune_append_low a p hlow _).symm

/-- A name in title case has a capital or a rune beyond ASCII. -/
theorem exists_major_pascalCase {t : Text} (h : isIdentifier t = true) :
    ∃ b ∈ pascalCase t, IsMajor b := by
  match t with
  | [] => simp [isIdentifier, runes, runesFrom] at h
  | a :: t =>
      have hletter : (firstRune a t).isLetter = true := by
        rw [isIdentifier] at h
        exact (Bool.and_eq_true_iff.mp h).1
      have ha : a ≠ 0x5F := by
        rintro rfl
        have hmark : firstRune 0x5F t = Rune.ofByte 0x5F := by
          simp [firstRune, Rune.ofByte]
        rw [hmark] at hletter
        exact absurd hletter (by decide)
      obtain ⟨p, pieces, hsplit, hfirst⟩ := exists_splitOn_cons (by decide) ha t
      rw [← hfirst] at hletter
      obtain ⟨b, hb, hmajor⟩ := exists_major_titleCase hletter
      refine ⟨b, ?_, hmajor⟩
      rw [pascalCase, hsplit, List.map_cons, concat]
      simp [hb]

end Text

/-! ## Words of generated code -/

namespace Code

/-- The built-in names that generated code uses. -/
def usedBuiltins : List Text :=
  ["bool", "int32", "float32", "string", "byte", "len", "new", "nil"]

/-- The names of the receivers, parameters and variables of generated code. -/
def usedVariables : List Text :=
  ["o", "w", "e", "i", "local"]

/-- A name that a package can declare without taking a word that its code needs, where `writer` is
the name of the writer's package. -/
structure IsUsable (writer name : Text) : Prop where
  notKeyword : Text.isKeyword name = false
  notBuiltin : name ∉ usedBuiltins
  notVariable : name ∉ usedVariables
  notPackage : name ≠ writer

/-- All words that generated code needs are of small letters and digits. -/
theorem not_word_of_major {name : Text} (h : ∃ b ∈ name, Text.IsMajor b) :
    name ∉ Text.keywords ++ usedBuiltins ++ usedVariables := by
  have htable : ∀ word ∈ Text.keywords ++ usedBuiltins ++ usedVariables,
      ∀ b ∈ word, ¬Text.IsMajor b := by
    decide +kernel
  obtain ⟨b, hb, hmajor⟩ := h
  exact fun hword => htable name hword b hb hmajor

theorem isUsable_of_major {writer name : Text} (h : ∃ b ∈ name, Text.IsMajor b)
    (hwriter : name ≠ writer) : IsUsable writer name := by
  have hword := not_word_of_major h
  rw [List.mem_append, List.mem_append, not_or, not_or] at hword
  exact ⟨by simpa [Text.isKeyword] using hword.1.1, hword.1.2, hword.2, hwriter⟩

theorem pieces_deeper (l : Line) : l.deeper.pieces = l.pieces := by
  unfold Line.deeper
  split <;> rfl

theorem exists_line_block {header : List Piece} {p : Piece} (h : p ∈ header) (body : List Line) :
    ∃ l ∈ block header body, p ∈ l.pieces :=
  ⟨_, List.mem_append_left _ (List.mem_append_left _ (List.mem_singleton_self _)),
    List.mem_flatten.mpr ⟨header, List.mem_cons_self, h⟩⟩

theorem exists_line_group {rows : List (Piece × List Piece)} {row : Piece × List Piece}
    (h : row ∈ rows) (header : Piece) : ∃ l ∈ group header (columns rows), row.1 ∈ l.pieces := by
  have hrow : ∃ l ∈ columns rows, row.1 ∈ l.pieces :=
    ⟨_, List.mem_map_of_mem h, List.mem_cons_self⟩
  obtain ⟨l, hl, hpiece⟩ := hrow
  have hne : (columns rows).isEmpty = false := by
    rw [List.isEmpty_eq_false_iff]
    exact List.ne_nil_of_mem hl
  refine ⟨l.deeper, ?_, pieces_deeper l ▸ hpiece⟩
  rw [group, hne]
  exact List.mem_append_left _ (List.mem_append_right _ (List.mem_map_of_mem hl))

/-- A declaration spells the names that it adds to its package. -/
theorem Declaration.exists_line_of_declared {d : Declaration} {name : Text}
    (h : name ∈ d.declared) : ∃ l ∈ d.lines, Piece.name name ∈ l.pieces := by
  cases d with
  | number id =>
      obtain rfl := List.mem_singleton.mp h
      exact ⟨_, List.mem_singleton_self _, by simp⟩
  | constants type values =>
      obtain ⟨value, hvalue, rfl⟩ := List.mem_map.mp h
      exact exists_line_group (List.mem_map_of_mem hvalue) "const"
  | struct id base fields =>
      obtain rfl := List.mem_singleton.mp h
      rw [lines]
      split
      · exact ⟨_, List.mem_singleton_self _, by simp⟩
      · exact exists_line_block (by simp) _
  | constructor id type =>
      obtain rfl := List.mem_singleton.mp h
      apply List.exists_mem_cons_of_exists
      exact exists_line_block (by simp) _
  | remark | method | bindings => exact absurd h List.not_mem_nil

theorem isKeyword_eq_false_of_isName {t : Text} (h : isName t = true) :
    Text.isKeyword t = false := by
  unfold isName at h
  split at h
  · exact absurd h (by simp)
  · simp only [Bool.and_eq_true, Bool.not_eq_true'] at h
    exact h.2

/-- A file with a keyword for a declared name has no text. -/
theorem Source.isKeyword_eq_false_of_text? {file : Source} {t : Text} (h : file.text? = some t)
    {name : Text} (hname : name ∈ file.declared) : Text.isKeyword name = false := by
  obtain ⟨d, hd, hname⟩ := List.mem_flatMap.mp hname
  obtain ⟨l, hl, hpiece⟩ := Declaration.exists_line_of_declared hname
  have hline : l ∈ file.lines :=
    List.mem_append_right _ (List.mem_flatMap.mpr ⟨d, hd, List.mem_cons_of_mem _ hl⟩)
  have hformed : file.isWellFormed = true := by
    rw [text?] at h
    split at h
    · assumption
    · exact absurd h (by simp)
  rw [isWellFormed, List.all_eq_true] at hformed
  exact isKeyword_eq_false_of_isName (List.all_eq_true.mp (hformed l hline) _ hpiece)

end Code

namespace Artifact

/-- What a file declares depends on neither the options nor the writer's package. -/
theorem declaredNames_eq (s : Schema) (o o' : Options) (writer writer' : Text) (kind : Kind) :
    declaredNames s o writer kind = declaredNames s o' writer' kind := by
  cases kind with
  | layout => rfl
  | owned => simp [declaredNames, declarations, Code.Declaration.declared]
  | serializer => rw [Schema.declaredNames_serializer, Schema.declaredNames_serializer]

theorem isKeyword_eq_false_of_render {s : Schema} {options : Options} {kind : Kind} {t : Text}
    (h : render s options kind = .ok t) {o : Options} {writer name : Text}
    (hname : name ∈ declaredNames s o writer kind) : Text.isKeyword name = false := by
  obtain ⟨file, hfile, h⟩ := bind_eq_ok.mp h
  obtain ⟨writer', hdeclared⟩ := declared_of_sourceFile hfile
  rw [declaredNames_eq s o options.complete writer writer', ← hdeclared] at hname
  cases htext : file.text? with
  | none => simp [htext] at h
  | some text => exact file.isKeyword_eq_false_of_text? htext hname

end Artifact

/-! ## Names of types -/

namespace Qualified

theorem eraseSeparators_of_not_mem {t : Text} (h : Text.colon ∉ t) : eraseSeparators t = t := by
  induction t with
  | nil => rfl
  | cons b t ih =>
      rw [List.mem_cons, not_or] at h
      rw [eraseSeparators, ih h.2]
      rintro t' rfl -
      exact h.1 rfl

end Qualified

namespace Grammar

theorem isIdentifier_of_mem_labelsFrom {next : Int} {entries : List LabelEntry}
    (hentries : ∀ entry ∈ entries, entry.IsSpelled) {l : Label} (h : l ∈ labelsFrom next entries) :
    Text.isIdentifier l.name = true := by
  induction entries generalizing next with
  | nil => exact absurd h List.not_mem_nil
  | cons entry entries ih =>
      obtain ⟨hentry, hentries⟩ := List.forall_mem_cons.mp hentries
      rcases List.mem_cons.mp h with rfl | h
      · exact hentry.1
      · exact ih hentries h

end Grammar

namespace Schema

/-- The names of structs and enumerations in generated code. -/
def typeNames (s : Schema) : List Text :=
  s.walk.map Struct.identifier ++ s.enums.map Enumeration.identifier

section Parsed

variable {source : Text} {s : Schema}

theorem isTypeName_of_parse (parsed : parse source = .ok s) {st : Struct} (hst : st ∈ s.walk)
    {name : Text} (hname : name ∈ st.qualified) : Grammar.IsTypeName name := by
  obtain ⟨tokens, s₀, -, hread, hlink, -⟩ := parse_eq_ok_iff.mp parsed
  obtain ⟨r, hfold, hfinish⟩ := bind_eq_ok.mp hread
  obtain ⟨file, derives⟩ := Reader.exists_derives_of_read hread
  have hnames : s.names = file.declares.structs := by
    rw [names_of_link hlink, Reader.names_of_finish hfold hfinish,
      (Reader.declares_of_derives hfold derives).1]
  have hmem : st.qualified ∈ file.declares.structs := hnames ▸ List.mem_map_of_mem hst
  exact Grammar.Item.isTypeName_of_declaresAll derives.1 _ hmem name hname

/-- A struct that is not nested keeps its name, and that was tested. -/
theorem isKeyword_eq_false_of_scope (parsed : parse source = .ok s) {st : Struct}
    (hst : st ∈ s.walk) (hscope : st.scope = []) : Text.isKeyword st.identifier = false := by
  have htype : Grammar.IsTypeName st.name :=
    isTypeName_of_parse parsed hst (by simp [Struct.qualified])
  have hidentifier : st.identifier = st.name := by
    rw [Struct.identifier, Struct.qualified, hscope, List.nil_append, Qualified.identifier]
    exact Qualified.eraseSeparators_of_not_mem (Text.colon_not_mem_of_isIdentifier htype.1)
  rw [hidentifier]
  exact htype.2

theorem exists_major_constant (parsed : parse source = .ok s) {e : Enumeration} (he : e ∈ s.enums)
    {l : Label} (hl : l ∈ e.labels) : ∃ b ∈ e.constant l.name, Text.IsMajor b := by
  obtain ⟨entries, hentries, hlabels⟩ := hasCounted_of_parse parsed he
  have hlabel := Grammar.isIdentifier_of_mem_labelsFrom hentries (hlabels ▸ hl)
  obtain ⟨b, hb, hmajor⟩ := Text.exists_major_pascalCase hlabel
  exact ⟨b, List.mem_append_right _ hb, hmajor⟩

/-- A declared name that is not the name of a type has a capital or a rune beyond ASCII. -/
theorem typeName_or_major (parsed : parse source = .ok s) {o : Artifact.Options}
    {writer name : Text} (h : name ∈ Artifact.declaredNames s o writer .owned) :
    name ∈ s.typeNames ∨ ∃ b ∈ name, Text.IsMajor b := by
  rw [(perm_declaredNames s o writer).mem_iff] at h
  obtain ⟨d, hd, rfl⟩ := List.mem_map.mp h
  obtain ⟨st, hst, hd⟩ := List.mem_flatMap.mp hd
  rcases List.mem_append.mp hd with hd | hd
  · rcases List.mem_pair.mp hd with rfl | rfl
    · exact .inl (List.mem_append_left _ (List.mem_map_of_mem hst))
    · -- The name of a constructor starts with a capital.
      exact .inr ⟨0x4E, List.mem_append_left _ (by decide), by decide⟩
  · obtain ⟨e, he, hd⟩ := List.mem_flatMap.mp hd
    have hmem : e ∈ s.enums := List.mem_flatMap.mpr ⟨st, hst, he⟩
    rcases List.mem_cons.mp hd with rfl | hd
    · exact .inl (List.mem_append_right _ (List.mem_map_of_mem hmem))
    · obtain ⟨l, hl, rfl⟩ := List.mem_map.mp hd
      exact .inr (exists_major_constant parsed hmem hl)

end Parsed

theorem typeNames_subset (s : Schema) (o : Artifact.Options) (writer : Text) :
    s.typeNames ⊆ Artifact.declaredNames s o writer .layout := by
  rw [Artifact.declaredNames, Artifact.declarations, List.flatMap_assoc]
  intro name hname
  simp only [List.mem_flatMap, Code.declared_layoutStruct]
  rcases List.mem_append.mp hname with h | h
  · obtain ⟨st, hst, rfl⟩ := List.mem_map.mp h
    exact ⟨st, hst, by simp⟩
  · obtain ⟨e, he, rfl⟩ := List.mem_map.mp h
    obtain ⟨st, hst, he⟩ := List.mem_flatMap.mp he
    refine ⟨st, hst, List.mem_append_left _ ?_⟩
    rw [List.map_flatMap, List.mem_flatMap]
    exact ⟨e, he, List.mem_cons_self⟩

/-- Whether the names that a file declares can be used depends on the names of types alone, but for
a writer's package with a declared name: constants and constructors take no word of the code, and a
struct that is not nested has no keyword for a name. A file that declares a keyword has no text. -/
theorem usable_iff_typeNames {source : Text} {s : Schema} (parsed : parse source = .ok s)
    (o : Artifact.Options) (writer : Text) {kind : Artifact.Kind} (hkind : kind ≠ .serializer) :
    ((∀ name ∈ Artifact.declaredNames s o writer kind, Code.IsUsable writer name) ↔
      (∀ st ∈ s.walk, st.scope ≠ [] → Text.isKeyword st.identifier = false) ∧
      (∀ e ∈ s.enums, Text.isKeyword e.identifier = false) ∧
      (∀ name ∈ s.typeNames, name ∉ Code.usedBuiltins ∧ name ∉ Code.usedVariables) ∧
      writer ∉ Artifact.declaredNames s o writer kind) ∧
    ∀ options t, Artifact.render s options kind = .ok t →
      ∀ name ∈ Artifact.declaredNames s o writer kind, Text.isKeyword name = false := by
  have htypes : s.typeNames ⊆ Artifact.declaredNames s o writer kind := by
    cases kind with
    | layout => exact typeNames_subset s o writer
    | owned =>
        intro name hname
        exact (declaredNames_sublist s o writer).subset (typeNames_subset s o writer hname)
    | serializer => exact absurd rfl hkind
  have howned : Artifact.declaredNames s o writer kind ⊆
      Artifact.declaredNames s o writer .owned := by
    cases kind with
    | layout => exact (declaredNames_sublist s o writer).subset
    | owned => exact List.Subset.refl _
    | serializer => exact absurd rfl hkind
  refine ⟨⟨fun h => ⟨?_, ?_, ?_, ?_⟩, ?_⟩, ?_⟩
  · intro st hst _
    exact (h _ (htypes (List.mem_append_left _ (List.mem_map_of_mem hst)))).notKeyword
  · intro e he
    exact (h _ (htypes (List.mem_append_right _ (List.mem_map_of_mem he)))).notKeyword
  · intro name hname
    exact ⟨(h name (htypes hname)).notBuiltin, (h name (htypes hname)).notVariable⟩
  · exact fun hwriter => (h writer hwriter).notPackage rfl
  · rintro ⟨hnested, henums, hwords, hwriter⟩ name hname
    have hne : name ≠ writer := fun heq => hwriter (heq ▸ hname)
    rcases typeName_or_major parsed (howned hname) with htype | hmajor
    · obtain ⟨hbuiltin, hvariable⟩ := hwords name htype
      refine ⟨?_, hbuiltin, hvariable, hne⟩
      rcases List.mem_append.mp htype with h | h
      · obtain ⟨st, hst, rfl⟩ := List.mem_map.mp h
        by_cases hscope : st.scope = []
        · exact isKeyword_eq_false_of_scope parsed hst hscope
        · exact hnested st hst hscope
      · obtain ⟨e, he, rfl⟩ := List.mem_map.mp h
        exact henums e he
    · exact Code.isUsable_of_major hmajor hne
  · intro options t hrender name hname
    exact Artifact.isKeyword_eq_false_of_render hrender hname

/-- Names that are words of the code but for a capital, or but for what stands around them. -/
def nearWordsSource : Text :=
  "struct Type \x7b enum e \x7b go, len \x7d; struct o \x7b\x7d; \x7d;"

theorem usable_iff_typeNames_near :
    ∃ s, parse nearWordsSource = .ok s ∧
      Artifact.declaredNames s ⟨"", ""⟩ "fixup" .owned =
        ["Typee", "TypeeGo", "TypeeLen", "Type", "NewType", "Typeo", "NewTypeo"] ∧
      ∀ name ∈ Artifact.declaredNames s ⟨"", ""⟩ "fixup" .owned, Code.IsUsable "fixup" name := by
  have hparse : (parse nearWordsSource).toOption.map (fun s =>
      (s.walk.map Struct.identifier, s.enums.map Enumeration.identifier,
        Artifact.declaredNames s ⟨"", ""⟩ "fixup" .owned)) =
      some ((["Type", "Typeo"] : List Text), (["Typee"] : List Text), ([
        "Typee", "TypeeGo", "TypeeLen", "Type", "NewType", "Typeo", "NewTypeo"] : List Text)) := by
    decide +kernel
  obtain ⟨s, hs, hnames⟩ := exists_ok_of_map hparse
  simp only [Prod.mk.injEq] at hnames
  obtain ⟨hstructs, henums, hdeclared⟩ := hnames
  have hst : ∀ st ∈ s.walk, Text.isKeyword st.identifier = false := by
    have hall : ∀ name ∈ s.walk.map Struct.identifier, Text.isKeyword name = false := by
      rw [hstructs]
      decide
    exact fun st hst => hall _ (List.mem_map_of_mem hst)
  have he : ∀ e ∈ s.enums, Text.isKeyword e.identifier = false := by
    have hall : ∀ name ∈ s.enums.map Enumeration.identifier, Text.isKeyword name = false := by
      rw [henums]
      decide
    exact fun e he => hall _ (List.mem_map_of_mem he)
  refine ⟨s, hs, hdeclared, ?_⟩
  refine (usable_iff_typeNames hs ⟨"", ""⟩ "fixup" (by decide)).1.mpr
    ⟨fun st hmem _ => hst st hmem, he, ?_, ?_⟩
  · rw [typeNames, hstructs, henums]
    decide
  · rw [hdeclared]
    decide

/-- A struct in a struct whose names make a keyword. -/
def splitKeywordSource : Text :=
  "friendly_namespace = f; struct fu \x7b struct nc \x7b\x7d; \x7d;"

/-- A struct with the name of a function that its serializer calls. -/
def builtinSource : Text :=
  "friendly_namespace = f; struct len \x7b int xs[]; \x7d;"

/-- Neither source is refused. The first has no owning types, and the serializer of the second
calls the type that it declares. -/
theorem usable_iff_typeNames_taken :
    (∃ s, parse splitKeywordSource = .ok s ∧
      Artifact.declaredNames s ⟨"", ""⟩ "fixup" .owned = ["fu", "Newfu", "func", "Newfunc"] ∧
      ¬Code.IsUsable "fixup" "func" ∧
      Artifact.render s ⟨"", ""⟩ .owned = .error (.malformed .owned)) ∧
    ∃ s t, parse builtinSource = .ok s ∧
      Artifact.declaredNames s ⟨"", ""⟩ "fixup" .owned = ["len", "Newlen"] ∧
      ¬Code.IsUsable "fixup" "len" ∧
      Artifact.render s ⟨"", ""⟩ .serializer = .ok t ∧
      (Text.cut? "len(o.Xs)" t).isSome = true := by
  have hkeyword : (parse splitKeywordSource).toOption.map (fun s =>
      (Artifact.declaredNames s ⟨"", ""⟩ "fixup" .owned, Artifact.render s ⟨"", ""⟩ .owned)) =
      some ((["fu", "Newfu", "func", "Newfunc"] : List Text), .error (.malformed .owned)) := by
    decide +kernel
  have hbuiltin : (parse builtinSource).toOption.map (fun s =>
      (Artifact.declaredNames s ⟨"", ""⟩ "fixup" .owned,
        (Artifact.render s ⟨"", ""⟩ .serializer).toOption.map fun t =>
          (Text.cut? "len(o.Xs)" t).isSome)) =
      some ((["len", "Newlen"] : List Text), some true) := by
    decide +kernel
  obtain ⟨s, hs, hnames⟩ := exists_ok_of_map hkeyword
  obtain ⟨hdeclared, hrender⟩ := Prod.mk.inj hnames
  obtain ⟨s', hs', hnames'⟩ := exists_ok_of_map hbuiltin
  obtain ⟨hdeclared', hrender'⟩ := Prod.mk.inj hnames'
  obtain ⟨t, ht, hcall⟩ := exists_ok_of_map hrender'
  refine ⟨⟨s, hs, hdeclared, ?_, hrender⟩, s', t, hs', hdeclared', ?_, ht, hcall⟩
  · exact fun husable => absurd husable.notKeyword (by decide)
  · exact fun husable => husable.notBuiltin (by decide)

end Schema

end Schematic
