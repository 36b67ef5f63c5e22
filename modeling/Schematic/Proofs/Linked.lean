import Schematic.Proofs.ReaderStep
import Schematic.Schema.Check

/-!
# Linked schemas

Looking up the parents adds a base to every struct that names one and changes nothing else. So in
a schema that was read and linked, names are unique and lead to structs of the schema.
-/

namespace Schematic

namespace Schema

/-- The names of all structs. -/
def names (s : Schema) : List Qualified :=
  s.walk.map Struct.qualified

/-- A schema in which all names lead somewhere. -/
structure Resolved (s : Schema) : Prop where
  distinct : s.names.Nodup
  field : ∀ st ∈ s.walk, ∀ f ∈ st.fields, ∀ q, f.type = .struct q → q ∈ s.names
  declared : ∀ st ∈ s.walk, ∀ f ∈ st.fields, ∀ kind builtin, f.type ≠ .described kind builtin
  base : ∀ st ∈ s.walk, ∀ q, st.base = some q → q ∈ s.names
  parent : ∀ st ∈ s.walk, st.base.isSome → st.parent.isSome

end Schema

namespace Struct

/-- What a struct keeps when its base is looked up. -/
structure LinkedTo (names : List Qualified) (st st' : Struct) : Prop where
  interface : st'.interface = st.interface
  base : ∀ q, st'.base = some q → q ∈ names ∧ st'.parent.isSome

theorem mem_of_parent {declared : List Qualified} {scope : Qualified} {parent : Text}
    {q : Qualified} (h : parent? declared scope parent = some q) : q ∈ declared := by
  obtain ⟨outer, _, h⟩ := List.exists_of_findSome?_eq_some h
  simp only at h
  split at h
  · rename_i hmem
    obtain rfl := Option.some.inj h
    exact List.contains_iff_mem.mp hmem
  · exact absurd h (by simp)

mutual

/-- Linking goes struct by struct, in the order of the walk. -/
theorem linkedTo_walk {names : List Qualified} :
    ∀ {st st' : Struct}, link names st = .ok st' → List.Forall₂ (LinkedTo names) st.walk st'.walk
  | ⟨name, scope, parent, base, line, enums, fields, children⟩, st', h => by
      have hdone : ∀ base' : Option Qualified,
          (linkAll names children >>= fun children' => Except.ok
            (Struct.mk name scope parent base' line enums fields children')) = .ok st' →
          (∀ q, base' = some q → q ∈ names ∧ parent.isSome) →
            List.Forall₂ (LinkedTo names)
              (Struct.mk name scope parent base line enums fields children).walk st'.walk := by
        intro base' h hbase
        obtain ⟨children', hchildren, h⟩ := bind_eq_ok.mp h
        obtain rfl := Except.ok.inj h
        exact List.Forall₂.cons ⟨rfl, hbase⟩ (linkedTo_walkAll hchildren)
      unfold link at h
      cases parent with
      | none => exact hdone none h (by simp)
      | some p =>
          simp only at h
          split at h
          · rename_i q hq
            refine hdone (some q) h fun q' hq' => ?_
            obtain rfl := Option.some.inj hq'
            exact ⟨mem_of_parent hq, rfl⟩
          · exact absurd h (by simp [throw, throwThe, MonadExceptOf.throw, bind, Except.bind])

theorem linkedTo_walkAll {names : List Qualified} :
    ∀ {ss ss' : List Struct}, linkAll names ss = .ok ss' →
      List.Forall₂ (LinkedTo names) (walkAll ss) (walkAll ss')
  | [], ss', h => by
      rw [linkAll] at h
      obtain rfl := Except.ok.inj h
      exact List.Forall₂.nil
  | st :: rest, ss', h => by
      rw [linkAll] at h
      obtain ⟨st₁, hst, h⟩ := bind_eq_ok.mp h
      obtain ⟨rest', hrest, h⟩ := bind_eq_ok.mp h
      obtain rfl := Except.ok.inj h
      exact List.rel_append (linkedTo_walk hst) (linkedTo_walkAll hrest)

end

end Struct

namespace Schema

/-- A schema that was read and linked is resolved. -/
theorem resolved_of_link {tokens : List Token} {s₀ s : Schema}
    (hread : Reader.read tokens = .ok s₀) (hlink : s₀.link = .ok s) : s.Resolved := by
  obtain ⟨r, hr, hseen⟩ := Reader.exists_sound_of_read hread
  obtain ⟨structs, hstructs, h⟩ := bind_eq_ok.mp hlink
  obtain rfl := Except.ok.inj h
  have hlinked : List.Forall₂ (Struct.LinkedTo s₀.names) s₀.walk (Struct.walkAll structs) :=
    Struct.linkedTo_walkAll hstructs
  have hwalk : walk { s₀ with structs } = Struct.walkAll structs := rfl
  have hinterface : (Struct.walkAll structs).map Struct.interface =
      s₀.walk.map Struct.interface := by
    rw [← List.forall₂_eq_eq_eq, List.forall₂_map_left_iff, List.forall₂_map_right_iff]
    exact hlinked.flip.imp fun _ _ h => h.interface
  have hnames : names { s₀ with structs } = r.declared := by
    have hfst := congrArg (List.map Prod.fst) hinterface
    simp only [List.map_map] at hfst
    rw [names, hwalk, ← hr.declared, hseen]
    exact hfst
  have hfields : ∀ st ∈ Struct.walkAll structs, ∀ f ∈ st.fields, r.Declares f.type := by
    intro st hst f hf
    obtain ⟨st₀, hst₀, heq⟩ := List.mem_map.mp (hinterface ▸ List.mem_map_of_mem hst)
    have hsame : st₀.fields = st.fields := congrArg Prod.snd heq
    exact hr.fields st₀ (hseen ▸ hst₀) f (hsame ▸ hf)
  have hbases : ∀ st ∈ Struct.walkAll structs, ∀ q, st.base = some q →
      q ∈ s₀.names ∧ st.parent.isSome := by
    intro st hst
    obtain ⟨i, hi, rfl⟩ := List.mem_iff_getElem.mp hst
    have hi₀ : i < s₀.walk.length := hlinked.length_eq ▸ hi
    exact (hlinked.get hi₀ hi).base
  have hnames₀ : s₀.names = r.declared := by
    rw [names, ← hseen, hr.declared]
  refine ⟨?_, ?_, ?_, ?_, ?_⟩
  · rw [hnames]
    exact hr.distinct.of_map _
  · intro st hst f hf q hq
    have := hfields st hst f hf
    rw [hq] at this
    exact hnames ▸ this
  · intro st hst f hf kind builtin hdescribed
    have := hfields st hst f hf
    rw [hdescribed] at this
    exact this
  · intro st hst q hq
    rw [hnames, ← hnames₀]
    exact (hbases st hst q hq).1
  · intro st hst hbase
    obtain ⟨q, hq⟩ := Option.isSome_iff_exists.mp hbase
    exact (hbases st hst q hq).2

namespace Resolved

variable {s : Schema}

/-- A name leads back to the struct that has it. -/
theorem struct?_eq (hs : s.Resolved) {st : Struct} (h : st ∈ s.walk) :
    s.struct? st.qualified = some st := by
  cases hfind : s.struct? st.qualified with
  | none =>
      have := List.find?_eq_none.mp hfind st h
      exact absurd this (by simp)
  | some found =>
      have hmem := List.mem_of_find?_eq_some hfind
      have hname : found.qualified = st.qualified := by
        simpa using List.find?_some hfind
      rw [List.inj_on_of_nodup_map hs.distinct hmem h hname]

theorem exists_struct (hs : s.Resolved) {q : Qualified} (h : q ∈ s.names) :
    ∃ st ∈ s.walk, st.qualified = q ∧ s.struct? q = some st := by
  obtain ⟨st, hst, rfl⟩ := List.mem_map.mp h
  exact ⟨st, hst, rfl, hs.struct?_eq hst⟩

end Resolved

/-- A source is lexed, read, linked and checked. -/
theorem parse_eq_ok_iff {source : Text} {s : Schema} :
    parse source = .ok s ↔
      ∃ tokens s₀, Token.lex source = .ok tokens ∧ Reader.read tokens = .ok s₀ ∧
        s₀.link = .ok s ∧ s.check = .ok () := by
  have hlex {tokens : List Token} :
      (Token.lex source).mapError SchemaError.comment = .ok tokens ↔
        Token.lex source = .ok tokens := by
    cases Token.lex source <;> simp [Except.mapError]
  simp only [parse, bind_eq_ok, hlex]
  constructor
  · rintro ⟨tokens, htokens, s₀, hread, s', hlink, _, hcheck, h⟩
    obtain rfl := Except.ok.inj h
    exact ⟨tokens, s₀, htokens, hread, hlink, hcheck⟩
  · rintro ⟨tokens, s₀, htokens, hread, hlink, hcheck⟩
    exact ⟨tokens, htokens, s₀, hread, s, hlink, (), hcheck, rfl⟩

theorem linkAll_of_link {s s' : Schema} (h : s.link = .ok s') :
    Struct.linkAll s.names s.structs = .ok s'.structs := by
  obtain ⟨structs, hstructs, h⟩ := bind_eq_ok.mp h
  obtain rfl := Except.ok.inj h
  exact hstructs

theorem mem_walk_of_struct? {s : Schema} {q : Qualified} {st : Struct} (h : s.struct? q = some st) :
    st ∈ s.walk ∧ st.qualified = q :=
  ⟨List.mem_of_find?_eq_some h, by simpa using List.find?_some h⟩

end Schema

end Schematic
