import Mathlib.Data.List.Perm.Subperm
import Schematic.Proofs.Appending
import Schematic.Proofs.FullNames
import Schematic.Proofs.Headers
import Schematic.Proofs.Registered

/-!
# Coherent schemas

While a source is read, the names of structs and the enumerations go into tables of their own, and
the structs come together as a forest only when they close. In the end the tables and the forest
tell the same: whatever is in the forest is in the tables under its name, and nothing else is. Main
statement: the schema of a source that can be parsed is coherent in this sense, and whatever its
fields and structs refer to is in it.
-/

namespace Schematic

/-! ## What linking keeps -/

namespace Struct

mutual

/-- Linking a struct links every struct in it. -/
theorem forall₂_link_walk {names : List Qualified} :
    ∀ {st st' : Struct}, link names st = .ok st' →
      List.Forall₂ (fun st st' => link names st = .ok st') st.walk st'.walk
  | ⟨name, scope, parent, base, line, enums, fields, children⟩, st', h => by
      obtain ⟨base', children', _, hchildren, rfl⟩ := link_eq_ok_iff.mp h
      exact .cons h (forall₂_link_walkAll hchildren)

theorem forall₂_link_walkAll {names : List Qualified} :
    ∀ {ss ss' : List Struct}, linkAll names ss = .ok ss' →
      List.Forall₂ (fun st st' => link names st = .ok st') (walkAll ss) (walkAll ss')
  | [], ss', h => by
      obtain rfl := Except.ok.inj h
      exact .nil
  | st :: rest, ss', h => by
      rw [linkAll_eq_ok_iff] at h
      obtain ⟨st', rest', hst, hrest, rfl⟩ := List.forall₂_cons_left_iff.mp h
      exact List.rel_append (forall₂_link_walk hst)
        (forall₂_link_walkAll (linkAll_eq_ok_iff.mpr hrest))

end

theorem Registered.link {known : List Enumeration} {names : List Qualified} {st st' : Struct}
    (h : st.Registered known) (hlink : link names st = .ok st') : st'.Registered known := by
  obtain ⟨base, children, _, hchildren, rfl⟩ := link_eq_ok_iff.mp hlink
  refine ⟨h.enums, h.fields, ?_⟩
  intro child' hchild'
  obtain ⟨child, hchild, hlinked⟩ :=
    exists_of_forall₂_right (linkAll_eq_ok_iff.mp hchildren) hchild'
  obtain ⟨_, _, _, _, rfl⟩ := link_eq_ok_iff.mp hlinked
  exact h.children child hchild

end Struct

namespace Schema

section Link

variable {s₀ s : Schema}

/-- Linking changes the bases of structs and nothing else of any struct. -/
theorem map_walk_of_link {β : Type} {view : Struct → β}
    (same : ∀ st base children, view { st with base, children } = view st)
    (h : s₀.link = .ok s) : s.walk.map view = s₀.walk.map view := by
  have hwalk := Struct.forall₂_link_walkAll (linkAll_of_link h)
  rw [← List.forall₂_eq_eq_eq, List.forall₂_map_left_iff, List.forall₂_map_right_iff]
  refine hwalk.flip.imp fun st' st hlink => ?_
  obtain ⟨base, children, _, _, rfl⟩ := Struct.link_eq_ok_iff.mp hlink
  exact same st base children

theorem names_of_link (h : s₀.link = .ok s) : s.names = s₀.names :=
  map_walk_of_link (fun _ _ _ => rfl) h

theorem enums_of_link (h : s₀.link = .ok s) : s.enums = s₀.enums := by
  rw [enums, enums, List.flatMap_def, List.flatMap_def]
  exact congrArg List.flatten (map_walk_of_link (fun _ _ _ => rfl) h)

/-- A struct has a base exactly if it names a parent. -/
theorem isSome_base_of_link (h : s₀.link = .ok s) {st : Struct} (hst : st ∈ s.walk) :
    st.base.isSome = st.parent.isSome := by
  have hwalk := Struct.forall₂_link_walkAll (linkAll_of_link h)
  obtain ⟨st₀, _, hlink⟩ := exists_of_forall₂_right hwalk hst
  obtain ⟨base, children, hbase, _, rfl⟩ := Struct.link_eq_ok_iff.mp hlink
  simpa using congrArg Option.isSome hbase

end Link

/-! ## Paths -/

/-- The struct stands at the end of the path, which leads from a struct of the file to a struct in
it and so on. -/
inductive LiesAt (s : Schema) : Qualified → Struct → Prop where
  | top {st : Struct} (mem : st ∈ s.structs) : LiesAt s [st.name] st
  | inner {path : Qualified} {outer st : Struct} (lies : LiesAt s path outer)
      (mem : st ∈ outer.children) : LiesAt s (path ++ [st.name]) st

end Schema

namespace Struct

theorem mem_walkAll_of_mem {st : Struct} {ss : List Struct} (h : st ∈ ss) : st ∈ walkAll ss := by
  rw [walkAll_eq_flatMap, List.mem_flatMap]
  exact ⟨st, h, by rw [walk_eq]; exact List.mem_cons_self⟩

mutual

/-- Whatever is in a visited struct is visited. -/
theorem mem_walk_of_mem_children {outer st : Struct} (mem : st ∈ outer.children) :
    ∀ {top : Struct}, outer ∈ top.walk → st ∈ top.walk
  | ⟨name, scope, parent, base, line, enums, fields, children⟩, h => by
      rw [walk, List.mem_cons] at h ⊢
      rcases h with rfl | h
      · exact Or.inr (mem_walkAll_of_mem mem)
      · exact Or.inr (mem_walkAll_of_mem_children mem h)

theorem mem_walkAll_of_mem_children {outer st : Struct} (mem : st ∈ outer.children) :
    ∀ {ss : List Struct}, outer ∈ walkAll ss → st ∈ walkAll ss
  | [], h => absurd h List.not_mem_nil
  | top :: rest, h => by
      rw [walkAll, List.mem_append] at h ⊢
      rcases h with h | h
      · exact Or.inl (mem_walk_of_mem_children mem h)
      · exact Or.inr (mem_walkAll_of_mem_children mem h)

end

end Struct

namespace Schema

variable {s : Schema}

theorem mem_walk_of_liesAt {path : Qualified} {st : Struct} (h : s.LiesAt path st) :
    st ∈ s.walk := by
  induction h with
  | top mem => exact Struct.mem_walkAll_of_mem mem
  | inner _ mem ih => exact Struct.mem_walkAll_of_mem_children mem ih

mutual

theorem exists_liesAt_of_mem_walk {inner : Struct} :
    ∀ {st : Struct} {path : Qualified}, s.LiesAt path st → inner ∈ st.walk →
      ∃ path, s.LiesAt path inner
  | ⟨name, scope, parent, base, line, enums, fields, children⟩, path, lies, h => by
      rw [Struct.walk, List.mem_cons] at h
      rcases h with rfl | h
      · exact ⟨path, lies⟩
      · exact exists_liesAt_of_mem_walkAll (fun st hst => ⟨_, .inner lies hst⟩) h

theorem exists_liesAt_of_mem_walkAll {inner : Struct} :
    ∀ {ss : List Struct}, (∀ st ∈ ss, ∃ path, s.LiesAt path st) → inner ∈ Struct.walkAll ss →
      ∃ path, s.LiesAt path inner
  | [], _, h => absurd h List.not_mem_nil
  | st :: rest, lies, h => by
      rw [List.forall_mem_cons] at lies
      rw [Struct.walkAll, List.mem_append] at h
      obtain ⟨⟨path, hpath⟩, hrest⟩ := lies
      rcases h with h | h
      · exact exists_liesAt_of_mem_walk hpath h
      · exact exists_liesAt_of_mem_walkAll hrest h

end

/-- The visited structs are those at the end of a path. -/
theorem mem_walk_iff_liesAt {st : Struct} : st ∈ s.walk ↔ ∃ path, s.LiesAt path st := by
  constructor
  · exact exists_liesAt_of_mem_walkAll fun st hst => ⟨_, .top hst⟩
  · rintro ⟨path, h⟩
    exact mem_walk_of_liesAt h

/-- Where every struct has its path for its scope, the path to a struct is its name. -/
theorem qualified_of_liesAt {known : List Enumeration}
    (registered : ∀ st ∈ s.walk, st.Registered known) (top : ∀ st ∈ s.structs, st.scope = [])
    {path : Qualified} {st : Struct} (h : s.LiesAt path st) : st.qualified = path := by
  induction h with
  | @top st mem => rw [Struct.qualified, top st mem, List.nil_append]
  | @inner path outer st lies mem ih =>
      rw [Struct.qualified, (registered outer (mem_walk_of_liesAt lies)).children st mem, ih]

/-! ## Coherence -/

end Schema

/-- A type refers to exactly one thing, of the kind that its category says, and to nothing that is
not in the schema. -/
def FieldType.HasTarget (s : Schema) (type : FieldType) : Prop :=
  (type.category = "basic" ∧ ∃ b, type = .basic b) ∨
  (type.category = "enum" ∧ ∃ e ∈ s.enums, type = .enumeration e) ∨
  (type.category = "user" ∧ ∃ st ∈ s.walk, type = .struct st.qualified ∧
    s.struct? st.qualified = some st)

namespace Schema

/-- The tables of a reader that has read the tokens fit the schema, and the schema is closed. -/
structure Coherent (s : Schema) (tokens : List Token) (r : Reader) : Prop where
  /-- There is one entry for each visited struct, in the order of the visit. -/
  structs : r.declared = s.walk.map Struct.qualified
  /-- A struct is found under its full name, and under no other. The table holds names in place of
  references: a name stands for the struct that it leads to among those visited, so that this
  follows from `structs` and `distinct`. -/
  struct_iff : ∀ name st, ((r.declared.find? fun q => q.text = name).bind s.struct?) = some st ↔
    st ∈ s.walk ∧ st.fullName = name
  /-- There is one entry for each enumeration of a visited struct. -/
  enums : r.enums.Perm s.enums
  /-- An enumeration is found under its name, and under no other. -/
  enum_iff : ∀ name e, (r.enums.find? fun e => e.name = name) = some e ↔
    e ∈ s.enums ∧ e.name = name
  /-- No two structs or enumerations have one name. -/
  distinct : (s.walk.map Struct.fullName ++ s.enums.map Enumeration.name).Nodup
  /-- The tokens have a derivation. -/
  derivation : ∃ file : Grammar.File, file.Derives (tokens.map Token.text)
  /-- The structs are visited in the order in which their headers stand among the tokens. -/
  headers : ∀ file : Grammar.File, file.Derives (tokens.map Token.text) →
    file.headers.map Grammar.Header.name = s.walk.map Struct.qualified ∧
    (file.headers.Pairwise fun h h' => h.place < h'.place) ∧
    ∀ h ∈ file.headers, h.StandsIn (tokens.map Token.text)
  /-- The structs at the end of a path are those visited. -/
  visited : ∀ st, st ∈ s.walk ↔ ∃ path, s.LiesAt path st
  /-- A full name divides into the names on the path to the struct. -/
  path : ∀ path st, s.LiesAt path st → Qualified.ofText st.fullName = path
  /-- The type of a field refers to something in the schema. -/
  field : ∀ st ∈ s.walk, ∀ f ∈ st.fields, f.type.HasTarget s
  /-- A struct that names a parent has a visited struct for its base, and no other struct has a
  base. -/
  base : ∀ st ∈ s.walk, st.base.isSome = st.parent.isSome ∧
    ∀ q, st.base = some q → ∃ base ∈ s.walk, base.qualified = q ∧ s.struct? q = some base

section Read

variable {tokens : List Token} {r : Reader} {s₀ s : Schema}

theorem nodup_names_of_read (hfold : tokens.foldlM Reader.step {} = .ok r)
    (hread : Reader.read tokens = .ok s₀) :
    (r.declared.map Qualified.text ++ r.enums.map Enumeration.name).Nodup := by
  obtain ⟨file, derives⟩ := Reader.exists_derives_of_read hread
  obtain ⟨hstructs, henums⟩ := Reader.declares_of_derives hfold derives
  have hdistinct := (Reader.builds_of_read hread derives).1.names
  rw [← hstructs, ← henums, List.map_map] at hdistinct
  exact hdistinct

/-- The finished structs are registered, and those of the file stand in nothing. -/
theorem registered_of_link (hfold : tokens.foldlM Reader.step {} = .ok r)
    (hread : Reader.read tokens = .ok s₀) (hlink : s₀.link = .ok s) :
    (∀ st ∈ s.walk, st.Registered r.enums) ∧ ∀ st ∈ s.structs, st.scope = [] := by
  obtain ⟨r', hfold', hfinish⟩ := bind_eq_ok.mp hread
  obtain rfl : r = r' := Except.ok.inj (hfold.symm.trans hfold')
  have hstructs := (Reader.sound_of_finish hfold hfinish).2.2
  have hr : r.Registers :=
    Reader.foldlM_change Reader.Registers.change Reader.registers_initial hfold
  have hseen := Reader.seen_of_finish hfold hfinish
  have hlinked := linkAll_of_link hlink
  constructor
  · intro st hst
    obtain ⟨st₀, hst₀, h⟩ :=
      exists_of_forall₂_right (Struct.forall₂_link_walkAll hlinked) hst
    exact (hr.seen st₀ (hseen ▸ hst₀)).link h
  · intro st hst
    obtain ⟨st₀, hst₀, h⟩ := exists_of_forall₂_right (Struct.linkAll_eq_ok_iff.mp hlinked) hst
    obtain ⟨_, _, _, _, rfl⟩ := Struct.link_eq_ok_iff.mp h
    exact hr.top st₀ (hstructs ▸ hst₀)

/-- The table of enumerations holds those of the structs. Lines are compared too, so this needs that
the structs hold no enumeration but from the table. -/
theorem perm_enums_of_link (hfold : tokens.foldlM Reader.step {} = .ok r)
    (hread : Reader.read tokens = .ok s₀) (hlink : s₀.link = .ok s) : r.enums.Perm s.enums := by
  have hperm := Reader.perm_enums_of_read hfold hread
  rw [← enums_of_link hlink] at hperm
  have hnames : ((r.enums.map Enumeration.eraseLine).map Enumeration.name).Nodup := by
    rw [List.map_map]
    exact (nodup_names_of_read hfold hread).of_append_right
  have hnodup : s.enums.Nodup := (hperm.nodup_iff.mpr (hnames.of_map _)).of_map _
  have hsubset : s.enums ⊆ r.enums := by
    intro e he
    obtain ⟨st, hst, he⟩ := List.mem_flatMap.mp he
    exact ((registered_of_link hfold hread hlink).1 st hst).enums he
  have hlength : r.enums.length ≤ s.enums.length := by
    simpa using hperm.length_eq.ge
  exact ((List.subperm_of_subset hnodup hsubset).perm_of_length_le hlength).symm

/-- Names on the way to a struct hold no colon, so its full name has no other separators. -/
theorem ofText_fullName (hfold : tokens.foldlM Reader.step {} = .ok r)
    (hread : Reader.read tokens = .ok s₀) {st : Struct} (hst : st.qualified ∈ r.declared) :
    Qualified.ofText st.fullName = st.qualified := by
  obtain ⟨file, derives⟩ := Reader.exists_derives_of_read hread
  rw [(Reader.declares_of_derives hfold derives).1] at hst
  apply Qualified.ofText_text
  · simp [Struct.qualified]
  · intro name hname
    have htype := Grammar.Item.isTypeName_of_declaresAll derives.1 st.qualified hst name hname
    exact Text.colon_not_mem_of_isIdentifier htype.1

theorem Resolved.bind_struct?_eq_some_iff (hs : s.Resolved) {declared : List Qualified}
    (hdeclared : declared = s.names) (distinct : (declared.map Qualified.text).Nodup)
    {name : Text} {st : Struct} :
    (declared.find? fun q => q.text = name).bind s.struct? = some st ↔
      st ∈ s.walk ∧ st.fullName = name := by
  rw [Option.bind_eq_some_iff]
  constructor
  · rintro ⟨q, hq, hst⟩
    obtain ⟨hmem, rfl⟩ := mem_walk_of_struct? hst
    exact ⟨hmem, ((find?_key_eq_some_iff distinct).mp hq).2⟩
  · rintro ⟨hmem, hname⟩
    refine ⟨st.qualified, (find?_key_eq_some_iff distinct).mpr ⟨?_, hname⟩, hs.struct?_eq hmem⟩
    rw [hdeclared]
    exact List.mem_map_of_mem hmem

theorem Resolved.hasTarget (hs : s.Resolved) {st : Struct} (hst : st ∈ s.walk) {f : Field}
    (hf : f ∈ st.fields) (henums : ∀ e, f.type = .enumeration e → e ∈ s.enums) :
    f.type.HasTarget s := by
  cases htype : f.type with
  | basic b => exact Or.inl ⟨rfl, b, rfl⟩
  | enumeration e => exact Or.inr (Or.inl ⟨rfl, e, henums e htype, rfl⟩)
  | struct q =>
      obtain ⟨target, htarget, rfl, hfound⟩ := hs.exists_struct (hs.field st hst f hf q htype)
      exact Or.inr (Or.inr ⟨rfl, target, htarget, rfl, hfound⟩)
  | described kind builtin => exact absurd htype (hs.declared st hst f hf kind builtin)

end Read

/-- Reading a source that can be parsed leaves tables that fit its schema: all that they name is in
the schema under that name and the other way round, structs are visited in the order of their
headers, full names divide into paths, and whatever a field or struct refers to is visited. -/
theorem coherent_of_parse {source : Text} {s : Schema} (h : parse source = .ok s) :
    ∃ tokens r, Token.lex source = .ok tokens ∧ tokens.foldlM Reader.step {} = .ok r ∧
      s.Coherent tokens r := by
  obtain ⟨tokens, s₀, hlex, hread, hlink, _⟩ := parse_eq_ok_iff.mp h
  obtain ⟨r, hfold, hfinish⟩ := bind_eq_ok.mp hread
  have hnames : r.declared = s.names :=
    ((names_of_link hlink).trans (Reader.names_of_finish hfold hfinish)).symm
  have hdistinct := nodup_names_of_read hfold hread
  have hperm := perm_enums_of_link hfold hread hlink
  have hs := resolved_of_link hread hlink
  obtain ⟨hregistered, htop⟩ := registered_of_link hfold hread hlink
  refine ⟨tokens, r, hlex, hfold, hnames, ?_, hperm, ?_, ?_, ?_, ?_, ?_, ?_, ?_, ?_⟩
  · intro name st
    exact hs.bind_struct?_eq_some_iff hnames hdistinct.of_append_left
  · intro name e
    rw [find?_key_eq_some_iff hdistinct.of_append_right, hperm.mem_iff]
  · have hfull : r.declared.map Qualified.text = s.walk.map Struct.fullName := by
      rw [hnames, names, List.map_map]
      rfl
    rw [hfull] at hdistinct
    exact ((hperm.map Enumeration.name).append_left _).nodup_iff.mp hdistinct
  · exact Reader.exists_derives_of_read hread
  · intro file derives
    rw [Grammar.File.map_name_headers, ← (Reader.declares_of_derives hfold derives).1, hnames,
      ← derives.2]
    exact ⟨rfl, Grammar.File.sorted_headers, fun h hmem => Grammar.File.standsIn_headers hmem⟩
  · exact fun st => mem_walk_iff_liesAt
  · intro path st hlies
    have hmem : st.qualified ∈ r.declared := by
      rw [hnames]
      exact List.mem_map_of_mem (mem_walk_of_liesAt hlies)
    rw [ofText_fullName hfold hread hmem, qualified_of_liesAt hregistered htop hlies]
  · intro st hst f hf
    apply hs.hasTarget hst hf
    exact fun e he => hperm.mem_iff.mp ((hregistered st hst).fields f hf e he)
  · intro st hst
    refine ⟨isSome_base_of_link hlink hst, fun q hq => ?_⟩
    exact hs.exists_struct (hs.base st hst q hq)

/-- A struct with an enumeration and another struct in it, and one that builds on it. -/
def enclosingSource : Text :=
  "struct A \x7b enum E \x7b x \x7d; struct B \x7b E e; \x7d; B b; \x7d; struct C : A \x7b \x7d;"

theorem coherent_of_parse_nested :
    ∃ s tokens r, parse enclosingSource = .ok s ∧ Token.lex enclosingSource = .ok tokens ∧
      tokens.foldlM Reader.step {} = .ok r ∧
      s.walk.map Struct.fullName = ["A", "A::B", "C"] ∧ s.enums.map Enumeration.name = ["E"] ∧
      s.Coherent tokens r := by
  have hparse : (parse enclosingSource).toOption.map
      (fun s => (s.walk.map Struct.fullName, s.enums.map Enumeration.name)) =
        some ((["A", "A::B", "C"] : List Text), (["E"] : List Text)) := by
    decide +kernel
  obtain ⟨s, hs, hnames⟩ := exists_ok_of_map hparse
  obtain ⟨hwalk, henums⟩ := Prod.mk.inj hnames
  obtain ⟨tokens, r, hlex, hfold, hcoherent⟩ := coherent_of_parse hs
  exact ⟨s, tokens, r, hs, hlex, hfold, hwalk, henums, hcoherent⟩

end Schema

end Schematic
