import Schematic.Proofs.LegibleRows
import Schematic.Schema.Document

/-!
# Faithful dumps

The first word of a row tells what the row is: a struct, an enumeration, the end of a struct or, if
it ends with a colon, a field. So the rows of a schema can be divided again into those of its
structs, whatever the names in them. Main statement: if two schemas have one dump, their documents
differ in nothing but lines.
-/

namespace Schematic

/-! ## Documents without some entries -/

namespace Document

mutual

/-- The document without the entries of a key, at any depth. -/
def without (key : Text) : Document → Document
  | list items => list (withoutAll key items)
  | map entries => map (withoutEntries key entries)
  | d => d

def withoutAll (key : Text) : List Document → List Document
  | [] => []
  | d :: rest => without key d :: withoutAll key rest

def withoutEntries (key : Text) : List (Text × Document) → List (Text × Document)
  | [] => []
  | (k, d) :: rest =>
    if k = key then withoutEntries key rest else (k, without key d) :: withoutEntries key rest

end

theorem withoutEntries_append (key : Text) (entries more : List (Text × Document)) :
    withoutEntries key (entries ++ more) =
      withoutEntries key entries ++ withoutEntries key more := by
  induction entries with
  | nil => rfl
  | cons entry entries ih =>
      obtain ⟨k, d⟩ := entry
      rw [List.cons_append, withoutEntries, withoutEntries, ih]
      split <;> rfl

end Document

/-! ## Words of one line -/

open Text (ofString)

namespace Enumeration

theorem length_labelWords (l : Label) (ls : List Label) :
    3 ≤ (labelWords (l :: ls)).length := by
  cases ls <;> simp [labelWords]

/-- Labels are told by their words. -/
theorem labelWords_injective : ∀ {ls ls' : List Label}, labelWords ls = labelWords ls' → ls = ls'
  | [], [], _ => rfl
  | [], l' :: ls', h => by
      have hlength := length_labelWords l' ls'
      rw [← h] at hlength
      exact absurd hlength (by simp [labelWords])
  | l :: ls, [], h => by
      have hlength := length_labelWords l ls
      rw [h] at hlength
      exact absurd hlength (by simp [labelWords])
  | [l], [l'], h => by
      obtain ⟨name, value⟩ := l
      simp only [labelWords, List.cons.injEq, true_and, and_true] at h
      rw [h.1, Text.ofInt_injective h.2]
  | [l], l' :: next' :: ls', h => by
      have hlength := length_labelWords next' ls'
      have heq := congrArg List.length h
      simp only [labelWords, List.length_cons, List.length_nil] at heq
      omega
  | l :: next :: ls, [l'], h => by
      have hlength := length_labelWords next ls
      have heq := congrArg List.length h
      simp only [labelWords, List.length_cons, List.length_nil] at heq
      omega
  | l :: next :: ls, l' :: next' :: ls', h => by
      obtain ⟨name, value⟩ := l
      simp only [labelWords, List.cons.injEq, true_and, List.append_cancel_right_eq] at h
      obtain ⟨rfl, hvalue, hrest⟩ := h
      rw [Text.ofInt_injective hvalue, labelWords_injective hrest]

/-- The words of an enumeration tell its document. -/
theorem document_of_words {e e' : Enumeration} (h : e.words = e'.words) :
    e.document = e'.document := by
  simp only [words, List.cons.injEq, true_and, List.append_cancel_right_eq] at h
  rw [document, document, h.1, labelWords_injective h.2]

end Enumeration

namespace Shape

/-- Shapes are told by their brackets. -/
theorem dump_injective {shape shape' : Shape} (h : shape.dump = shape'.dump) : shape = shape' := by
  have hscalar (count : Int) : dump (.fixed count) ≠ [] :=
    fun heq => Text.ofInt_ne_nil count (List.append_eq_nil_iff.mp
      (List.append_eq_nil_iff.mp heq).2).1
  have hdynamic (count : Int) : dump (.fixed count) ≠ dump .dynamic := by
    have hpair : dump .dynamic = ofString "[" ++ ofString "]" := rfl
    intro heq
    rw [hpair, dump, Text.concat, List.flatten_cons, List.append_cancel_left_eq] at heq
    simp only [List.flatten_cons, List.flatten_nil, List.append_nil,
      List.append_left_eq_self] at heq
    exact Text.ofInt_ne_nil count heq
  have hfixed {count count' : Int} (heq : dump (.fixed count) = dump (.fixed count')) :
      count = count' := by
    simp only [dump, Text.concat, List.flatten_cons, List.append_cancel_left_eq,
      List.append_cancel_right_eq] at heq
    exact Text.ofInt_injective heq
  cases shape with
  | scalar =>
      cases shape' with
      | scalar => rfl
      | dynamic => exact absurd h (by decide)
      | fixed count => exact absurd h.symm (hscalar count)
  | dynamic =>
      cases shape' with
      | scalar => exact absurd h (by decide)
      | dynamic => rfl
      | fixed count => exact absurd h.symm (hdynamic count)
  | fixed count =>
      cases shape' with
      | scalar => exact absurd h (hscalar count)
      | dynamic => exact absurd h (hdynamic count)
      | fixed count' => rw [hfixed h]

/-- The byte that ends a category does not stand in brackets. -/
theorem greater_not_mem_dump (shape : Shape) : 0x3E ∉ shape.dump := by
  cases shape with
  | scalar => exact List.not_mem_nil
  | dynamic => decide
  | fixed count =>
      have hcount : 0x3E ∉ Text.ofInt count := Text.not_mem_ofInt (by decide) count
      have hopen : 0x3E ∉ ofString "[" := by decide
      have hclose : 0x3E ∉ ofString "]" := by decide
      simp [dump, Text.concat, hcount, hopen, hclose]

end Shape

namespace Field

theorem HasCategory.greater_not_mem {f : Field} (h : f.HasCategory) : 0x3E ∉ f.type.category := by
  cases htype : f.type with
  | basic b => exact (by decide : 0x3E ∉ ofString "basic")
  | enumeration e => exact (by decide : 0x3E ∉ ofString "enum")
  | struct q => exact (by decide : 0x3E ∉ ofString "user")
  | described kind builtin => exact absurd htype (h kind builtin)

/-- A category ends before the brackets behind it. -/
theorem category_of_append {f f' : Field} (hf : f.HasCategory) {t t' : Text} (ht : 0x3E ∉ t)
    (h : Text.concat ["<", f.type.category, ">"] ++ t =
      Text.concat ["<", f'.type.category, ">"] ++ t') :
    f.type.category = f'.type.category ∧ t = t' := by
  have hclose : ofString ">" = [0x3E] := rfl
  simp only [Text.concat, List.flatten_cons, List.flatten_nil, List.append_nil, hclose,
    List.append_assoc, List.append_cancel_left_eq, List.singleton_append] at h
  obtain ⟨hcategory, _, ht⟩ := (List.append_cons_inj_of_notMem hf.greater_not_mem ht).mp h
  exact ⟨hcategory, ht⟩

theorem length_shapeWords (f : Field) : f.shapeWords.length = if f.optional then 2 else 1 := by
  unfold shapeWords
  split <;> rfl

theorem length_defaultWords (f : Field) :
    f.defaultWords.length = if f.default?.isSome then 2 else 0 := by
  unfold defaultWords
  cases f.default? <;> rfl

theorem shape_of_shapeWords {f f' : Field} (hf : f.HasCategory) (hmark : f.optional = f'.optional)
    (h : f.shapeWords = f'.shapeWords) :
    f.type.category = f'.type.category ∧ f.shape = f'.shape := by
  unfold shapeWords at h
  rw [← hmark] at h
  split at h
  · simp only [List.cons.injEq, List.append_cancel_left_eq, and_true] at h
    have hcategory := category_of_append hf List.not_mem_nil (congrArg (· ++ []) h.1)
    exact ⟨hcategory.1, Shape.dump_injective h.2⟩
  · obtain ⟨hcategory, hshape⟩ :=
      category_of_append hf f.shape.greater_not_mem_dump (List.singleton_inj.mp h)
    exact ⟨hcategory, Shape.dump_injective hshape⟩

theorem default_of_defaultWords {f f' : Field} (h : f.defaultWords = f'.defaultWords) :
    f.default? = f'.default? := by
  unfold defaultWords at h
  cases hdefault : f.default? <;> cases hdefault' : f'.default? <;>
    simp_all

/-- The words of a field tell its document. -/
theorem document_of_words {f f' : Field} (hf : f.HasCategory) (h : f.words = f'.words) :
    f.document = f'.document := by
  simp only [words, List.cons.injEq, List.append_cancel_right_eq] at h
  obtain ⟨hname, htype, h⟩ := h
  -- The number of words tells whether there is a mark and whether there is a default.
  have hlength := congrArg List.length h
  rw [List.length_append, List.length_append, length_shapeWords, length_shapeWords,
    length_defaultWords, length_defaultWords] at hlength
  have hmark : f.optional = f'.optional := by grind
  have hshapes : f.shapeWords.length = f'.shapeWords.length := by
    rw [length_shapeWords, length_shapeWords, hmark]
  obtain ⟨hshapes, hdefaults⟩ := List.append_inj h hshapes
  obtain ⟨hcategory, hshape⟩ := shape_of_shapeWords hf hmark hshapes
  have hdefault := default_of_defaultWords hdefaults
  rw [document, document, isScalar, isScalar, hname, htype, hcategory, hshape, hmark, hdefault]

end Field

namespace Struct

/-- What the first row of a struct tells. -/
theorem head_of_headWords {st st' : Struct} (h : st.headWords = st'.headWords) :
    st.fullName = st'.fullName ∧ st.parent = st'.parent ∧ st.isFixedSize = st'.isFixedSize := by
  simp only [headWords, List.cons.injEq, true_and] at h
  obtain ⟨hname, h⟩ := h
  refine ⟨hname, ?_⟩
  unfold parentWords sizeWords at h
  cases hparent : st.parent <;> cases hparent' : st'.parent <;> cases hsize : st.isFixedSize <;>
    cases hsize' : st'.isFixedSize <;> simp_all

end Struct

/-! ## Reading rows -/

theorem append_colon_ne {t u : Text} (h : u.getLast? ≠ some 0x3A) : t ++ ofString ":" ≠ u := by
  rintro rfl
  exact h (by rw [show ofString ":" = [0x3A] from rfl, List.getLast?_concat])

namespace Row

/-- The word that tells what a row is. -/
def first (row : Row) : Text :=
  row.words.headD []

/-- A row that stands behind the fields of a struct. -/
def IsBehindFields (row : Row) : Prop :=
  row.first = ofString "struct" ∨ row.first = ofString "\x7d"

theorem IsBehindFields.not_field {row : Row} (h : IsBehindFields row) :
    ¬∃ t, row.first = t ++ ofString ":" := by
  rintro ⟨t, ht⟩
  rcases h with h | h
  · exact append_colon_ne (by decide) (ht.symm.trans h)
  · exact append_colon_ne (by decide) (ht.symm.trans h)

theorem IsBehindFields.not_enum {row : Row} (h : IsBehindFields row) :
    row.first ≠ ofString "enum" := by
  rcases h with h | h <;> rw [h] <;> decide

end Row

namespace Struct

theorem document_without (st : Struct) :
    st.document.without "line" =
      .map ([(ofString "name", .text st.name), (ofString "fullName", .text st.fullName)] ++
        (Document.entry? "parent" .text st.parent ++
          ((ofString "fixedSize", .bool st.isFixedSize) ::
            (Document.withoutEntries "line"
                (Document.entries? "enums" (st.enums.map Enumeration.document)) ++
              (Document.withoutEntries "line"
                  (Document.entries? "vars" (st.fields.map Field.document)) ++
                Document.entries? "children"
                  (Document.withoutAll "line" (documents st.children))))))) := by
  have hname : ofString "name" ≠ ofString "line" := by decide
  have hfullName : ofString "fullName" ≠ ofString "line" := by decide
  have hparent : ofString "parent" ≠ ofString "line" := by decide
  have hfixedSize : ofString "fixedSize" ≠ ofString "line" := by decide
  have hparents : Document.withoutEntries "line" (Document.entry? "parent" .text st.parent) =
      Document.entry? "parent" .text st.parent := by
    cases st.parent <;>
      simp [Document.entry?, Document.withoutEntries, Document.without, hparent]
  have hchildren : Document.withoutEntries "line"
        (Document.entries? "children" (documents st.children)) =
      Document.entries? "children" (Document.withoutAll "line" (documents st.children)) := by
    have hkey : ofString "children" ≠ ofString "line" := by decide
    cases documents st.children <;>
      simp [Document.entries?, Document.withoutEntries, Document.withoutAll, Document.without, hkey]
  obtain ⟨name, scope, parent, base, line, enums, fields, children⟩ := st
  rw [document, Document.record, Document.without]
  simp only [List.flatten_cons, List.flatten_nil, List.append_nil, List.cons_append,
    List.nil_append, Document.withoutEntries_append, Document.withoutEntries, hname, hfullName,
    hfixedSize, if_false, if_true, Document.without, hparents, hchildren]

/-- Structs start with a row of their own. -/
theorem head_rowsAll_cons (depth : Nat) (st : Struct) (ss : List Struct) (rest : List Row) :
    ∃ row, (rowsAll depth (st :: ss) ++ rest).head? = some row ∧ row.first = ofString "struct" := by
  obtain ⟨name, scope, parent, base, line, enums, fields, children⟩ := st
  rw [rowsAll, rows, List.cons_append, List.cons_append]
  exact ⟨_, List.head?_cons, rfl⟩

/-- Behind the fields there is a struct or the end. -/
theorem isBehindFields_head {depth depth' : Nat} {ss : List Struct} {rest : List Row} :
    ∀ row ∈ (rowsAll depth ss ++ ⟨depth', [ofString "\x7d"]⟩ :: rest).head?,
      row.IsBehindFields := by
  intro row hrow
  cases ss with
  | nil =>
      obtain rfl := Option.some.inj hrow
      exact .inr rfl
  | cons st ss =>
      obtain ⟨row', hhead, hfirst⟩ :=
        head_rowsAll_cons depth st ss (⟨depth', [ofString "\x7d"]⟩ :: rest)
      obtain rfl := Option.some.inj (hhead.symm.trans hrow)
      exact .inl hfirst

theorem first_close_ne {depth : Nat} {rest : List Row} :
    ∀ row ∈ (Row.mk depth [ofString "\x7d"] :: rest).head?, row.first ≠ ofString "struct" := by
  intro row hrow
  obtain rfl := Option.some.inj hrow
  exact (by decide : ofString "\x7d" ≠ ofString "struct")

/-- The rows of enumerations and fields end where the first word says so. -/
theorem members_of_rows {depth : Nat} {enums enums' : List Enumeration}
    {fields fields' : List Field} {tail tail' : List Row}
    (htail : ∀ row ∈ tail.head?, row.IsBehindFields)
    (htail' : ∀ row ∈ tail'.head?, row.IsBehindFields)
    (h : enums.map (fun e => Row.mk depth e.words) ++
        (fields.map (fun f => Row.mk depth f.words) ++ tail) =
      enums'.map (fun e => Row.mk depth e.words) ++
        (fields'.map (fun f => Row.mk depth f.words) ++ tail')) :
    enums.map (fun e => Row.mk depth e.words) = enums'.map (fun e => Row.mk depth e.words) ∧
      fields.map (fun f => Row.mk depth f.words) = fields'.map (fun f => Row.mk depth f.words) ∧
      tail = tail' := by
  have henums : ∀ enums : List Enumeration, ∀ row ∈ enums.map fun e => Row.mk depth e.words,
      row.first = ofString "enum" := by
    intro enums
    exact List.forall_mem_map.mpr fun _ _ => rfl
  have hfields : ∀ fields : List Field, ∀ row ∈ fields.map fun f => Row.mk depth f.words,
      ∃ t, row.first = t ++ ofString ":" := by
    intro fields
    exact List.forall_mem_map.mpr fun f _ => ⟨f.name, rfl⟩
  have hbehind : ∀ {fields : List Field} {tail : List Row},
      (∀ row ∈ tail.head?, row.IsBehindFields) →
      ∀ row ∈ (fields.map (fun f => Row.mk depth f.words) ++ tail).head?,
        ¬row.first = ofString "enum" := by
    intro fields tail htail row hrow
    cases fields with
    | nil => exact (htail row hrow).not_enum
    | cons f fields =>
        obtain rfl := Option.some.inj hrow
        exact append_colon_ne (by decide)
  obtain ⟨heqEnums, h⟩ := eq_of_marked (henums enums) (henums enums') (hbehind htail)
    (hbehind htail') h
  obtain ⟨heqFields, h⟩ := eq_of_marked (hfields fields) (hfields fields')
    (fun row hrow => (htail row hrow).not_field) (fun row hrow => (htail' row hrow).not_field) h
  exact ⟨heqEnums, heqFields, h⟩

theorem Legible.name_eq {st st' : Struct} (h : st.Legible) (h' : st'.Legible)
    (heq : st.fullName = st'.fullName) : st.name = st'.name := by
  have hcolon {st : Struct} (h : st.Legible) : ∀ name ∈ st.qualified, Text.colon ∉ name :=
    fun name hname => Text.colon_not_mem_of_isIdentifier (h.names name hname)
  have hqualified : st.qualified = st'.qualified := by
    rw [← Qualified.ofText_text (by simp [qualified]) (hcolon h),
      ← Qualified.ofText_text (by simp [qualified]) (hcolon h')]
    exact congrArg Qualified.ofText heq
  exact List.singleton_inj.mp (List.append_inj' hqualified rfl).2

mutual

/-- The rows of a struct tell where they end and, but for lines, what its document is. -/
theorem document_of_rows (depth : Nat) :
    ∀ {st st' : Struct} {rest rest' : List Row}, (∀ inner ∈ st.walk, inner.Legible) →
      (∀ inner ∈ st'.walk, inner.Legible) → st.rows depth ++ rest = st'.rows depth ++ rest' →
      st.document.without "line" = st'.document.without "line" ∧ rest = rest'
  | ⟨name, scope, parent, base, line, enums, fields, children⟩, st', rest, rest', h, h', heq => by
      obtain ⟨name', scope', parent', base', line', enums', fields', children'⟩ := st'
      rw [walk, List.forall_mem_cons] at h h'
      simp only [rows, List.cons_append, List.append_assoc, List.cons.injEq, Row.mk.injEq,
        true_and] at heq
      obtain ⟨hhead, heq⟩ := heq
      obtain ⟨hfullName, hparent, hsize⟩ := head_of_headWords hhead
      have hname := h.1.name_eq h'.1 hfullName
      obtain ⟨henums, hfields, heq⟩ :=
        members_of_rows isBehindFields_head isBehindFields_head heq
      obtain ⟨hchildren, heq⟩ :=
        documents_of_rowsAll (depth + 1) h.2 h'.2 first_close_ne first_close_ne heq
      have henums := map_eq_of_map_eq henums fun e _ e' hwords =>
        Enumeration.document_of_words (Row.mk.inj hwords).2
      have hfields := map_eq_of_map_eq hfields fun f hf f' hwords =>
        Field.document_of_words (h.1.fields f hf) (Row.mk.inj hwords).2
      refine ⟨?_, (List.cons.inj heq).2⟩
      rw [document_without, document_without, hname, hfullName, hparent, hsize, henums, hfields,
        hchildren]

theorem documents_of_rowsAll (depth : Nat) :
    ∀ {ss ss' : List Struct} {rest rest' : List Row}, (∀ inner ∈ walkAll ss, inner.Legible) →
      (∀ inner ∈ walkAll ss', inner.Legible) →
      (∀ row ∈ rest.head?, row.first ≠ ofString "struct") →
      (∀ row ∈ rest'.head?, row.first ≠ ofString "struct") →
      rowsAll depth ss ++ rest = rowsAll depth ss' ++ rest' →
      Document.withoutAll "line" (documents ss) = Document.withoutAll "line" (documents ss') ∧
        rest = rest'
  | [], [], rest, rest', _, _, _, _, heq => ⟨rfl, heq⟩
  | [], st' :: ss', rest, rest', _, _, hrest, _, heq => by
      obtain ⟨row, hrow, hfirst⟩ := head_rowsAll_cons depth st' ss' rest'
      exact absurd hfirst (hrest row ((congrArg List.head? heq).trans hrow))
  | st :: ss, [], rest, rest', _, _, _, hrest', heq => by
      obtain ⟨row, hrow, hfirst⟩ := head_rowsAll_cons depth st ss rest
      exact absurd hfirst (hrest' row ((congrArg List.head? heq).symm.trans hrow))
  | st :: ss, st' :: ss', rest, rest', h, h', hrest, hrest', heq => by
      rw [walkAll, List.forall_mem_append] at h h'
      rw [rowsAll, rowsAll, List.append_assoc, List.append_assoc] at heq
      obtain ⟨hdocument, heq⟩ := document_of_rows depth h.1 h'.1 heq
      obtain ⟨hdocuments, heq⟩ := documents_of_rowsAll depth h.2 h'.2 hrest hrest' heq
      rw [documents, documents, Document.withoutAll, Document.withoutAll, hdocument, hdocuments]
      exact ⟨rfl, heq⟩

end

end Struct

/-! ## Whole schemas -/

namespace Schema

variable {source : Text} {s t : Schema}

/-- What stands for a namespace that is not given is not the name of one. -/
theorem eq_of_getD {name? name?' : Option Text}
    (h : ∀ name, name? = some name → Text.isIdentifier name = true)
    (h' : ∀ name, name?' = some name → Text.isIdentifier name = true)
    (heq : name?.getD "<none>" = name?'.getD "<none>") : name? = name?' := by
  have hnone {name : Text} (hname : Text.isIdentifier name = true) : ofString "<none>" ≠ name := by
    rintro rfl
    exact absurd hname (by decide)
  cases name? with
  | none =>
      cases name?' with
      | none => rfl
      | some name' => exact absurd heq (hnone (h' name' rfl))
  | some name =>
      cases name?' with
      | none => exact absurd heq.symm (hnone (h name rfl))
      | some name' => exact congrArg some heq

/-- Schemas that can be parsed and have one dump have one document, but for its lines. -/
theorem document_of_dump {source' : Text} (hs : parse source = .ok s) (ht : parse source' = .ok t)
    (h : s.dump = t.dump) : s.document.without "line" = t.document.without "line" := by
  have hrows : s.rows = t.rows := by
    rw [← rowsOf_dump hs, ← rowsOf_dump ht, h]
  simp only [rows, List.cons.injEq, Row.mk.injEq, true_and, and_true] at hrows
  obtain ⟨hbinary, hfriendly, hrows⟩ := hrows
  have hbinary := eq_of_getD (fun name hname => isIdentifier_of_parse hs (.inl hname))
    (fun name hname => isIdentifier_of_parse ht (.inl hname)) hbinary
  have hfriendly := eq_of_getD (fun name hname => isIdentifier_of_parse hs (.inr hname))
    (fun name hname => isIdentifier_of_parse ht (.inr hname)) hfriendly
  have hend : ∀ row ∈ ([] : List Row).head?, row.first ≠ ofString "struct" := by simp
  obtain ⟨hstructs, _⟩ := Struct.documents_of_rowsAll 0 (legible_of_parse hs) (legible_of_parse ht)
    hend hend (congrArg (· ++ []) hrows)
  simp only [document, hbinary, hfriendly, Document.without, Document.withoutEntries, hstructs]

/-- Names like keywords, and a struct in one piece. -/
def wordySource : Text :=
  "struct A \x7b enum enum \x7b x, y = 4 \x7d; int struct[2], enum = 1; \x7d;"

/-- The same on several lines and spelled in another way. -/
def scatteredSource : Text :=
  "struct A // one\n\x7b int struct[+2];\nenum enum \x7b x = 0 y = 4, \x7d;\nint enum = 1; \x7d;"

theorem document_of_dump_wordy :
    ∃ s t, parse wordySource = .ok s ∧ parse scatteredSource = .ok t ∧ s.dump = t.dump ∧
      s.document.without "line" = t.document.without "line" := by
  have hwordy : ((parse wordySource).toOption.map dump).isSome = true := by decide +kernel
  have hscattered : (parse scatteredSource).toOption.map dump =
    (parse wordySource).toOption.map dump := by decide +kernel
  obtain ⟨text, htext⟩ := Option.isSome_iff_exists.mp hwordy
  obtain ⟨s, hs, hsdump⟩ := exists_ok_of_map htext
  obtain ⟨t, ht, htdump⟩ := exists_ok_of_map (hscattered.trans htext)
  have hdump : s.dump = t.dump := hsdump.trans htdump.symm
  exact ⟨s, t, hs, ht, hdump, document_of_dump hs ht hdump⟩

end Schema

end Schematic
