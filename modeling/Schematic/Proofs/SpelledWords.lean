import Schematic.Proofs.Coherence
import Schematic.Proofs.Lexemes

/-!
# Spelled words

Whatever a schema holds as text, but for the full names of its structs, was one token of the
source: parents, names of enumerations, labels and fields, the type names of fields and their
defaults. So what holds of all lexemes holds of all of these.
-/

namespace Schematic

/-- A property holds of all words of a struct: of all texts in it but the names of structs. -/
structure Struct.Spells (motive : Text → Prop) (st : Struct) : Prop where
  parent : ∀ p ∈ st.parent, motive p
  enums : ∀ e ∈ st.enums, motive e.name ∧ ∀ l ∈ e.labels, motive l.name
  fields : ∀ f ∈ st.fields, motive f.name ∧ motive f.typeName ∧ ∀ d ∈ f.default?, motive d

namespace Grammar

variable {motive : Text → Prop}

theorem LabelEntry.name_mem_texts (e : LabelEntry) : e.name ∈ e.texts :=
  List.mem_cons_self

theorem exists_of_mem_labelsFrom {next : Int} {entries : List LabelEntry} {l : Label}
    (h : l ∈ labelsFrom next entries) : ∃ e ∈ entries, e.name = l.name := by
  induction entries generalizing next with
  | nil => exact absurd h List.not_mem_nil
  | cons e entries ih =>
      rcases List.mem_cons.mp h with rfl | h
      · exact ⟨e, List.mem_cons_self, rfl⟩
      · obtain ⟨e', he', hname⟩ := ih h
        exact ⟨e', List.mem_cons_of_mem _ he', hname⟩

theorem Declarator.default_mem_texts {d : Declarator} {value : Text} (h : value ∈ d.default?) :
    value ∈ d.texts := by
  rw [Option.mem_def] at h
  simp [texts, defaultTexts, h]

theorem Declarator.texts_subset_moreTexts {d : Declarator} {rest : List Declarator}
    (h : d ∈ rest) : d.texts ⊆ moreTexts rest :=
  fun _ ht => List.mem_flatMap.mpr ⟨d, h, List.mem_cons_of_mem _ ht⟩

theorem mem_parentTexts {parent? : Option Text} {parent : Text} (h : parent ∈ parent?) :
    parent ∈ parentTexts parent? := by
  rw [Option.mem_def] at h
  simp [parentTexts, h]

/-- A struct with nothing in its body spells its parent only. -/
theorem spells_emptyStruct {scope : Qualified} {name : Text} {parent? : Option Text}
    (h : ∀ parent ∈ parent?, motive parent) :
    ∀ st ∈ (emptyStruct scope name parent?).walk, st.Spells motive := by
  intro st hst
  rw [Struct.walk_eq] at hst
  obtain rfl := List.mem_singleton.mp hst
  exact ⟨h, by simp [emptyStruct], by simp [emptyStruct]⟩

namespace Member

/-- What a struct is written with: its parent and the texts of its members. -/
theorem forall_texts_struct {name : Text} {parent? : Option Text} {members : List Member}
    (h : ∀ t ∈ (struct name parent? members).texts, motive t) :
    (∀ parent ∈ parent?, motive parent) ∧ ∀ t ∈ textsAll members, motive t := by
  constructor
  · intro parent hparent
    refine h parent ?_
    simp [texts, mem_parentTexts hparent]
  · intro t ht
    refine h t ?_
    simp [texts, ht]

mutual

/-- A member adds words that are among its texts. -/
theorem spells_of_builds {k : Known} {owner built : Struct} :
    ∀ {m : Member}, (∀ t ∈ m.texts, motive t) → m.Builds k owner built →
      (∀ st ∈ owner.walk, st.Spells motive) → ∀ st ∈ built.walk, st.Spells motive
  | .struct name parent? members, htexts, h, howner => by
      obtain ⟨inner, hinner, rfl⟩ := h
      obtain ⟨hparent, hmembers⟩ := forall_texts_struct htexts
      have hspells := spellsAll_of_builds hmembers hinner (spells_emptyStruct hparent)
      rw [Struct.walk_eq, List.forall_mem_cons] at howner ⊢
      refine ⟨⟨howner.1.parent, howner.1.enums, howner.1.fields⟩, ?_⟩
      rw [Struct.walkAll_append, List.forall_mem_append]
      refine ⟨howner.2, ?_⟩
      rwa [Struct.walkAll_singleton, ← Struct.walk_eq]
  | .enumeration name entries, htexts, h, howner => by
      obtain rfl := h
      rw [Struct.walk_eq, List.forall_mem_cons] at howner ⊢
      refine ⟨⟨howner.1.parent, ?_, howner.1.fields⟩, howner.2⟩
      rw [List.forall_mem_append, List.forall_mem_singleton]
      refine ⟨howner.1.enums, htexts name (by simp [texts]), fun l hl => ?_⟩
      obtain ⟨e, he, hname⟩ := exists_of_mem_labelsFrom hl
      refine hname ▸ htexts e.name ?_
      have hmem : e.name ∈ entries.flatMap LabelEntry.texts :=
        List.mem_flatMap.mpr ⟨e, he, e.name_mem_texts⟩
      simp [texts, hmem]
  | .fields type optional first rest, htexts, h, howner => by
      obtain ⟨denoted, _, rfl⟩ := h
      rw [Struct.walk_eq, List.forall_mem_cons] at howner ⊢
      refine ⟨⟨howner.1.parent, howner.1.enums, ?_⟩, howner.2⟩
      rw [List.forall_mem_append]
      refine ⟨howner.1.fields, ?_⟩
      rw [List.forall_mem_map]
      intro d hd
      have hsubset : ∀ t ∈ d.texts, motive t := by
        intro t ht
        refine htexts t ?_
        rcases List.mem_cons.mp hd with rfl | hd
        · simp [texts, ht]
        · have := Declarator.texts_subset_moreTexts hd ht
          simp [texts, this]
      refine ⟨hsubset d.name List.mem_cons_self, htexts type (by simp [texts]), ?_⟩
      exact fun value hvalue => hsubset value (Declarator.default_mem_texts hvalue)

theorem spellsAll_of_builds {k : Known} {owner built : Struct} :
    ∀ {ms : List Member}, (∀ t ∈ textsAll ms, motive t) → BuildsAll k owner ms built →
      (∀ st ∈ owner.walk, st.Spells motive) → ∀ st ∈ built.walk, st.Spells motive
  | [], _, h, howner => by
      obtain rfl : built = owner := h
      exact howner
  | m :: ms, htexts, h, howner => by
      obtain ⟨mid, hmid, h⟩ := h
      rw [textsAll, List.forall_mem_append] at htexts
      exact spellsAll_of_builds htexts.2 h (spells_of_builds htexts.1 hmid howner)

end

end Member

theorem Item.spells_of_buildsAll {k : Known} {s built : Schema} {items : List Item}
    (htexts : ∀ t ∈ items.flatMap Item.texts, motive t) (h : BuildsAll k s items built)
    (hs : ∀ st ∈ s.walk, st.Spells motive) : ∀ st ∈ built.walk, st.Spells motive := by
  induction items generalizing k s with
  | nil =>
      obtain rfl : built = s := h
      exact hs
  | cons item items ih =>
      obtain ⟨mid, hmid, h⟩ := h
      rw [List.flatMap_cons, List.forall_mem_append] at htexts
      refine ih htexts.2 h ?_
      cases item with
      | struct d =>
          obtain ⟨st, hst, rfl⟩ := hmid
          obtain ⟨hparent, hmembers⟩ := Member.forall_texts_struct htexts.1
          have hspells := Member.spellsAll_of_builds hmembers hst (spells_emptyStruct hparent)
          rw [Schema.walk, Struct.walkAll_append, List.forall_mem_append]
          refine ⟨hs, ?_⟩
          rwa [Struct.walkAll_singleton, ← Struct.walk_eq]
      | directive side name =>
          obtain rfl : mid = setNamespace s name side := hmid
          cases side <;> exact hs

end Grammar

namespace Schema

variable {motive : Text → Prop}

theorem spells_of_eraseLines {st : Struct} (h : st.eraseLines.Spells motive) :
    st.Spells motive := by
  rw [Struct.eraseLines_eq] at h
  refine ⟨h.parent, fun e he => ?_, fun f hf => ?_⟩
  · exact h.enums e.eraseLine (List.mem_map_of_mem he)
  · exact h.fields f.eraseLines (List.mem_map_of_mem hf)

/-- What holds of the texts of all tokens holds of the words of all structs. -/
theorem spells_of_read {tokens : List Token} {s : Schema} (h : Reader.read tokens = .ok s)
    (htokens : ∀ t ∈ tokens, motive t.text) : ∀ st ∈ s.walk, st.Spells motive := by
  obtain ⟨file, derives⟩ := Reader.exists_derives_of_read h
  obtain ⟨_, builds⟩ := Reader.builds_of_read h derives
  have htexts : ∀ t ∈ file.items.flatMap Grammar.Item.texts, motive t := by
    intro t ht
    have hmem : t ∈ tokens.map Token.text := by
      rw [← derives.2]
      simp only [Grammar.File.texts, List.flatten_cons, List.mem_append]
      exact .inl ht
    obtain ⟨token, htoken, rfl⟩ := List.mem_map.mp hmem
    exact htokens token htoken
  have hspells := Grammar.Item.spells_of_buildsAll htexts builds (by simp [walk, Struct.walkAll])
  intro st hst
  refine spells_of_eraseLines (hspells _ ?_)
  rw [walk, eraseLines, ← Struct.eraseLinesAll_eq_map, Struct.walkAll_eraseLinesAll]
  exact List.mem_map_of_mem hst

theorem spells_of_link {s₀ s : Schema} (h : s₀.link = .ok s)
    (hs : ∀ st ∈ s₀.walk, st.Spells motive) : ∀ st ∈ s.walk, st.Spells motive := by
  intro st hst
  have hview : s.walk.map (fun st => (st.parent, st.enums, st.fields)) =
      s₀.walk.map fun st => (st.parent, st.enums, st.fields) :=
    map_walk_of_link (fun _ _ _ => rfl) h
  obtain ⟨st₀, hst₀, heq⟩ := List.mem_map.mp (hview ▸ List.mem_map_of_mem hst)
  simp only [Prod.mk.injEq] at heq
  obtain ⟨hparent, henums, hfields⟩ := heq
  obtain ⟨parent, enums, fields⟩ := hs st₀ hst₀
  exact ⟨hparent ▸ parent, henums ▸ enums, hfields ▸ fields⟩

/-- The words of a schema that can be parsed are lexemes. -/
theorem spells_of_parse {source : Text} {s : Schema} (h : parse source = .ok s) :
    ∀ st ∈ s.walk, st.Spells Token.IsLexeme := by
  obtain ⟨tokens, s₀, hlex, hread, hlink, _⟩ := parse_eq_ok_iff.mp h
  exact spells_of_link hlink (spells_of_read hread (Token.arranged_of_lexLines hlex).lexemes)

end Schema

end Schematic
