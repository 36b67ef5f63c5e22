import Schematic.Proofs.ArtifactPaths
import Schematic.Proofs.DumpRows
import Schematic.Proofs.SpelledWords
import Schematic.Proofs.UsableNames

/-!
# Legible rows

In a schema that can be parsed every text is one token or is put together from identifiers, so that
no word of its rows holds a blank. Main statement: the rows of such a schema can be read back from
its dump.
-/

namespace Schematic

open Text (ofString)

/-- A type of something declared, or a built-in one. -/
def Field.HasCategory (f : Field) : Prop :=
  ∀ kind builtin, f.type ≠ .described kind builtin

/-- A struct whose rows can be read back. -/
structure Struct.Legible (st : Struct) : Prop where
  names : ∀ name ∈ st.qualified, Text.isIdentifier name = true
  spells : st.Spells Text.IsBare
  fields : ∀ f ∈ st.fields, f.HasCategory

/-! ## Rows of words -/

/-- Labels and their values are words without blanks, commas included. -/
theorem Enumeration.isBare_labelWords :
    ∀ {ls : List Label}, (∀ l ∈ ls, l.name.IsBare) → ∀ w ∈ labelWords ls, w.IsBare
  | [], _ => by simp [labelWords]; decide
  | [l], h => by
      simp only [labelWords, List.forall_mem_cons]
      exact ⟨h l List.mem_cons_self, by decide, Text.isBare_ofInt _, List.forall_mem_nil _⟩
  | l :: next :: ls, h => by
      rw [List.forall_mem_cons] at h
      simp only [labelWords, List.forall_mem_cons]
      exact ⟨h.1, by decide, (Text.isBare_ofInt _).append (by decide), isBare_labelWords h.2⟩

/-- The row of an enumeration can be read back. -/
theorem Enumeration.isLegible_row {e : Enumeration} (hname : e.name.IsBare)
    (hlabels : ∀ l ∈ e.labels, l.name.IsBare) (depth : Nat) :
    (Row.mk depth e.words).IsLegible := by
  refine ⟨?_, _, _, rfl, by decide⟩
  simp only [words, List.forall_mem_cons, List.forall_mem_append]
  exact ⟨by decide, hname, by decide, isBare_labelWords hlabels, by decide, List.forall_mem_nil _⟩

theorem Shape.isBare_dump (shape : Shape) : shape.dump.IsBare := by
  cases shape with
  | scalar => decide
  | dynamic => decide
  | fixed count =>
      have hopen : (ofString "[").IsBare := by decide
      have hclose : (ofString "]").IsBare := by decide
      simpa [dump, Text.concat] using hopen.append ((Text.isBare_ofInt count).append hclose)

namespace Field

/-- The category of a type is a word without blanks. -/
theorem HasCategory.isBare {f : Field} (h : f.HasCategory) : f.type.category.IsBare := by
  cases htype : f.type with
  | basic b => exact (by decide : (ofString "basic").IsBare)
  | enumeration e => exact (by decide : (ofString "enum").IsBare)
  | struct q => exact (by decide : (ofString "user").IsBare)
  | described kind builtin => exact absurd htype (h kind builtin)

theorem isBare_shapeWords {f : Field} (h : f.HasCategory) : ∀ w ∈ f.shapeWords, w.IsBare := by
  have hless : (ofString "<").IsBare := by decide
  have hgreater : (ofString ">").IsBare := by decide
  have hcategory : (Text.concat ["<", f.type.category, ">"]).IsBare := by
    simpa [Text.concat] using hless.append (h.isBare.append hgreater)
  unfold shapeWords
  split
  · simp only [List.forall_mem_cons]
    exact ⟨hcategory, Text.IsBare.append (by decide) f.shape.isBare_dump, List.forall_mem_nil _⟩
  · exact List.forall_mem_singleton.mpr (hcategory.append f.shape.isBare_dump)

/-- The row of a field can be read back if what it spells holds no blank. -/
theorem isLegible_row {f : Field} (hcategory : f.HasCategory) (hname : f.name.IsBare)
    (htype : f.typeName.IsBare) (hdefault : ∀ d ∈ f.default?, d.IsBare) (depth : Nat) :
    (Row.mk depth f.words).IsLegible := by
  have hdefaults : ∀ w ∈ f.defaultWords, w.IsBare := by
    unfold defaultWords
    cases hvalue : f.default? with
    | none => exact List.forall_mem_nil _
    | some d =>
        rw [Option.elim_some, List.forall_mem_cons, List.forall_mem_singleton]
        exact ⟨by decide, hdefault d hvalue⟩
  refine ⟨?_, _, _, rfl, List.append_ne_nil_of_right_ne_nil _ (by decide)⟩
  simp only [words, List.forall_mem_cons, List.forall_mem_append]
  exact ⟨hname.append (by decide), htype, isBare_shapeWords hcategory, hdefaults⟩

end Field

namespace Struct

/-- The row that opens a struct can be read back. -/
theorem isLegible_head {st : Struct} (h : st.Legible) (depth : Nat) :
    (Row.mk depth st.headWords).IsLegible := by
  have hname : st.fullName.IsBare :=
    Text.isBare_join (by decide) fun name hname => Text.isBare_of_isIdentifier (h.names name hname)
  have hparent : ∀ w ∈ st.parentWords, w.IsBare := by
    unfold parentWords
    cases hvalue : st.parent with
    | none => exact List.forall_mem_nil _
    | some parent =>
        rw [Option.elim_some, List.forall_mem_cons, List.forall_mem_singleton]
        exact ⟨by decide, h.spells.parent parent hvalue⟩
  have hsize : ∀ w ∈ st.sizeWords, w.IsBare := by
    unfold sizeWords
    split
    · exact List.forall_mem_singleton.mpr (by decide)
    · exact List.forall_mem_nil _
  refine ⟨?_, _, _, rfl, by decide⟩
  simp only [headWords, List.forall_mem_cons, List.forall_mem_append]
  exact ⟨by decide, hname, hparent, hsize, by decide, List.forall_mem_nil _⟩

mutual

/-- All rows of a struct can be read back, those of the structs in it included. -/
theorem isLegible_rows (depth : Nat) :
    ∀ {st : Struct}, (∀ inner ∈ st.walk, inner.Legible) → ∀ row ∈ st.rows depth, row.IsLegible
  | ⟨name, scope, parent, base, line, enums, fields, children⟩, h => by
      rw [walk, List.forall_mem_cons] at h
      obtain ⟨hst, hchildren⟩ := h
      have hclose : (Row.mk depth [ofString "\x7d"]).IsLegible :=
        ⟨List.forall_mem_singleton.mpr (by decide), _, _, rfl, by decide⟩
      rw [rows, List.forall_mem_cons, List.forall_mem_append, List.forall_mem_append,
        List.forall_mem_append, List.forall_mem_map, List.forall_mem_map,
        List.forall_mem_singleton]
      refine ⟨isLegible_head hst depth, fun e he => ?_, fun f hf => ?_,
        isLegible_rowsAll (depth + 1) hchildren, hclose⟩
      · have hspells := hst.spells.enums e he
        exact e.isLegible_row hspells.1 hspells.2 (depth + 1)
      · have hspells := hst.spells.fields f hf
        exact f.isLegible_row (hst.fields f hf) hspells.1 hspells.2.1 hspells.2.2 (depth + 1)

theorem isLegible_rowsAll (depth : Nat) :
    ∀ {ss : List Struct}, (∀ inner ∈ walkAll ss, inner.Legible) →
      ∀ row ∈ rowsAll depth ss, row.IsLegible
  | [], _ => by simp [rowsAll]
  | st :: rest, h => by
      rw [walkAll, List.forall_mem_append] at h
      rw [rowsAll, List.forall_mem_append]
      exact ⟨isLegible_rows depth h.1, isLegible_rowsAll depth h.2⟩

end

end Struct

/-! ## Schemas that can be parsed -/

/-- What is lexed as one token holds no blank and no line feed. -/
theorem Token.IsLexeme.isBare {t : Text} (h : Token.IsLexeme t) : t.IsBare :=
  ⟨h.not_mem (by decide) (by decide), h.not_mem (by decide) (by decide)⟩

theorem Struct.Spells.imp {motive motive' : Text → Prop} {st : Struct} (h : st.Spells motive)
    (himp : ∀ {t}, motive t → motive' t) : st.Spells motive' where
  parent := fun p hp => himp (h.parent p hp)
  enums := fun e he => ⟨himp (h.enums e he).1, fun l hl => himp ((h.enums e he).2 l hl)⟩
  fields := fun f hf => ⟨himp (h.fields f hf).1, himp (h.fields f hf).2.1,
    fun d hd => himp ((h.fields f hf).2.2 d hd)⟩

namespace Schema

variable {source : Text} {s : Schema}

/-- Whatever is parsed spells its names, types and defaults by tokens. -/
theorem legible_of_parse (h : parse source = .ok s) : ∀ st ∈ s.walk, st.Legible := by
  intro st hst
  obtain ⟨tokens, s₀, _, hread, hlink, _⟩ := parse_eq_ok_iff.mp h
  exact
    { names := fun name hname => (isTypeName_of_parse h hst hname).1
      spells := (spells_of_parse h st hst).imp Token.IsLexeme.isBare
      fields := (resolved_of_link hread hlink).declared st hst }

theorem isBare_getD {name? : Option Text}
    (h : ∀ name, name? = some name → Text.isIdentifier name = true) :
    (name?.getD "<none>").IsBare := by
  cases name? with
  | none => decide
  | some name => exact Text.isBare_of_isIdentifier (h name rfl)

/-- A row with a namespace and its name. -/
theorem isLegible_namespace {keyword name : Text} (hkeyword : keyword.IsBare)
    (hne : keyword ≠ []) (hname : name.IsBare) :
    (Row.mk 0 [keyword, ofString "=", name]).IsLegible := by
  refine ⟨?_, _, _, rfl, hne⟩
  simp only [List.forall_mem_cons]
  exact ⟨hkeyword, by decide, hname, List.forall_mem_nil _⟩

theorem isLegible_rows (h : parse source = .ok s) : ∀ row ∈ s.rows, row.IsLegible := by
  have hbinary := isBare_getD fun name hname => isIdentifier_of_parse h (.inl hname)
  have hfriendly := isBare_getD fun name hname => isIdentifier_of_parse h (.inr hname)
  rw [rows, List.forall_mem_cons, List.forall_mem_cons]
  exact ⟨isLegible_namespace (by decide) (by decide) hbinary,
    isLegible_namespace (by decide) (by decide) hfriendly,
    Struct.isLegible_rowsAll 0 (legible_of_parse h)⟩

/-- The rows of a schema can be read back from its dump. -/
theorem rowsOf_dump (h : parse source = .ok s) : Row.rowsOf s.dump = s.rows := by
  rw [dump_eq_textOf, Row.rowsOf_textOf (isLegible_rows h)]

end Schema

end Schematic
