import Mathlib.Data.List.Infix
import Schematic.Proofs.Grammar

/-!
# Looking names up in scopes

The scopes of a name are its beginnings, the longest first. So the reader finds a type exactly where
the grammar says it is.
-/

namespace Schematic

namespace Qualified

theorem mem_scopes {outer q : Qualified} : outer ∈ q.scopes ↔ outer ≠ [] ∧ outer <+: q := by
  simp only [scopes, List.mem_map, List.mem_range]
  constructor
  · rintro ⟨i, hi, rfl⟩
    refine ⟨fun hempty => ?_, List.take_prefix _ _⟩
    have hlength := congrArg List.length hempty
    rw [List.length_take, List.length_nil] at hlength
    omega
  · rintro ⟨hne, hbegins⟩
    have hle := hbegins.length_le
    have hpos := List.length_pos_iff.mpr hne
    refine ⟨q.length - outer.length, by omega, ?_⟩
    rw [Nat.sub_sub_self hle]
    exact (List.prefix_iff_eq_take.mp hbegins).symm

/-- The scopes get shorter and shorter. -/
theorem scopes_pairwise (q : Qualified) :
    q.scopes.Pairwise fun inner outer => outer.length < inner.length := by
  rw [scopes, List.pairwise_map]
  refine List.pairwise_lt_range.imp_of_mem fun {i j} hi hj hij => ?_
  rw [List.mem_range] at hi hj
  simp only [List.length_take]
  omega

/-- A name stands in the same struct of the file as any beginning of it. -/
theorem take_one_eq {outer q : Qualified} (hne : outer ≠ []) (h : outer <+: q) :
    q.take 1 = outer.take 1 := by
  obtain ⟨rest, rfl⟩ := h
  cases outer with
  | nil => exact absurd rfl hne
  | cons name outer => rfl

end Qualified

namespace Basic

theorem ofName?_eq_some_iff {name : Text} {b : Basic} : ofName? name = some b ↔ b.name = name := by
  constructor
  · intro h
    simpa using List.find?_some h
  · rintro rfl
    cases b <;> rfl

end Basic

/-- Where no two entries have one key, a search for a key finds the entry that has it. -/
theorem find?_key_eq_some_iff {α : Type} {key : α → Text} {entries : List α}
    (distinct : (entries.map key).Nodup) {name : Text} {a : α} :
    (entries.find? fun a => key a = name) = some a ↔ a ∈ entries ∧ key a = name := by
  constructor
  · intro h
    exact ⟨List.mem_of_find?_eq_some h, by simpa using List.find?_some h⟩
  · rintro ⟨hmem, hname⟩
    cases hfind : entries.find? fun a => key a = name with
    | none => exact absurd hname (by simpa using List.find?_eq_none.mp hfind a hmem)
    | some found =>
        have hfound : key found = name := by simpa using List.find?_some hfind
        rw [List.inj_on_of_nodup_map distinct (List.mem_of_find?_eq_some hfind) hmem
          (hfound.trans hname.symm)]

namespace Grammar.Known

/-- What the reader finds of a name in the scopes around it. -/
def nested? (k : Known) (scope : Qualified) (name : Text) : Option FieldType :=
  scope.scopes.findSome? fun outer =>
    if k.structs.contains (outer ++ [name]) then some (.struct (outer ++ [name])) else none

variable {k : Known} {scope : Qualified} {name : Text}

/-- The search through the scopes stops at the innermost that declares the name. -/
theorem innermost_of_nested? {type : FieldType} (h : k.nested? scope name = some type) :
    ∃ outer, k.Encloses scope name outer ∧
      (∀ inner, k.Encloses scope name inner → inner.length ≤ outer.length) ∧
        type = .struct (outer ++ [name]) := by
  obtain ⟨before, outer, behind, hscopes, hfound, hbefore⟩ := List.findSome?_eq_some_iff.mp h
  have hmem : outer ∈ scope.scopes := by simp [hscopes]
  have hordered := scope.scopes_pairwise
  rw [hscopes, List.pairwise_append, List.pairwise_cons] at hordered
  split at hfound
  · rename_i hdeclared
    obtain ⟨hne, hbegins⟩ := Qualified.mem_scopes.mp hmem
    refine ⟨outer, ⟨hne, hbegins, by simpa using hdeclared⟩, ?_, (Option.some.inj hfound).symm⟩
    rintro inner ⟨hinner, hinnerBegins, hinnerMem⟩
    have hin : inner ∈ before ++ outer :: behind :=
      hscopes ▸ Qualified.mem_scopes.mpr ⟨hinner, hinnerBegins⟩
    rcases List.mem_append.mp hin with hin | hin
    · exact absurd (hbefore inner hin) (by simp [hinnerMem])
    · rcases List.mem_cons.mp hin with rfl | hin
      · exact le_refl _
      · exact (hordered.2.1.1 inner hin).le
  · exact absurd hfound (by simp)

/-- There is one innermost scope that declares a name. -/
theorem Encloses.eq_of_innermost {outer outer' : Qualified} (here : k.Encloses scope name outer)
    (here' : k.Encloses scope name outer')
    (innermost : ∀ inner, k.Encloses scope name inner → inner.length ≤ outer.length)
    (innermost' : ∀ inner, k.Encloses scope name inner → inner.length ≤ outer'.length) :
    outer = outer' := by
  have hlength : outer.length = outer'.length :=
    le_antisymm (innermost' outer here) (innermost outer' here')
  exact (List.prefix_of_prefix_length_le here.2.1 here'.2.1 hlength.le).eq_of_length hlength

theorem nested?_eq_none_iff :
    k.nested? scope name = none ↔ ∀ outer, ¬k.Encloses scope name outer := by
  rw [nested?, List.findSome?_eq_none_iff]
  constructor
  · rintro h outer ⟨hne, hbegins, hmem⟩
    exact absurd (h outer (Qualified.mem_scopes.mpr ⟨hne, hbegins⟩)) (by simp [hmem])
  · intro h outer houter
    obtain ⟨hne, hbegins⟩ := Qualified.mem_scopes.mp houter
    have hmem : outer ++ [name] ∉ k.structs := fun hmem => h outer ⟨hne, hbegins, hmem⟩
    simp [hmem]

theorem nested?_eq_some_iff {type : FieldType} :
    k.nested? scope name = some type ↔
      ∃ outer, k.Encloses scope name outer ∧
        (∀ inner, k.Encloses scope name inner → inner.length ≤ outer.length) ∧
          type = .struct (outer ++ [name]) := by
  refine ⟨innermost_of_nested?, ?_⟩
  rintro ⟨outer, here, hinnermost, rfl⟩
  cases hfound : k.nested? scope name with
  | none => exact absurd here (nested?_eq_none_iff.mp hfound outer)
  | some type =>
      obtain ⟨outer', here', hinnermost', rfl⟩ := innermost_of_nested? hfound
      rw [here'.eq_of_innermost here hinnermost' hinnermost]

/-- The reader finds what a type name denotes. -/
theorem resolve?_eq_some_iff {r : Reader} (distinct : (r.enums.map Enumeration.name).Nodup)
    {type : FieldType} :
    r.resolve? name = some type ↔ Denotes ⟨r.declared, r.enums⟩ r.scope name type := by
  have hresolve : r.resolve? name =
      (((nested? ⟨r.declared, r.enums⟩ r.scope name).or
          ((r.enums.find? fun e => e.name = name).map .enumeration)).or
        (if r.declared.contains [name] then some (.struct [name]) else none)).or
          ((Basic.ofName? name).map .basic) := rfl
  have hunnamed : (r.enums.find? fun e => e.name = name) = none ↔ ∀ e ∈ r.enums, e.name ≠ name := by
    simp
  rw [hresolve]
  simp only [Option.or_eq_some_iff, Option.or_eq_none_iff, Option.map_eq_none_iff,
    nested?_eq_some_iff, nested?_eq_none_iff, hunnamed]
  constructor
  · rintro (((⟨outer, here, innermost, rfl⟩ | ⟨away, h⟩) | ⟨⟨away, unnamed⟩, h⟩) |
      ⟨⟨⟨away, unnamed⟩, absent⟩, h⟩)
    · exact .nested here innermost
    · obtain ⟨e, he, rfl⟩ := Option.map_eq_some_iff.mp h
      obtain ⟨mem, named⟩ := (find?_key_eq_some_iff distinct).mp he
      exact .enumeration away mem named
    · split at h
      · rename_i mem
        obtain rfl := Option.some.inj h
        exact .top away unnamed (by simpa using mem)
      · exact absurd h (by simp)
    · obtain ⟨b, hb, rfl⟩ := Option.map_eq_some_iff.mp h
      exact .basic away unnamed (by simpa using absent) (Basic.ofName?_eq_some_iff.mp hb)
  · intro h
    cases h with
    | nested here innermost => exact .inl (.inl (.inl ⟨_, here, innermost, rfl⟩))
    | enumeration away mem named =>
        refine .inl (.inl (.inr ⟨away, ?_⟩))
        rw [(find?_key_eq_some_iff distinct).mpr ⟨mem, named⟩, Option.map_some]
    | top away unnamed mem => exact .inl (.inr ⟨⟨away, unnamed⟩, by simpa using mem⟩)
    | basic away unnamed absent named =>
        refine .inr ⟨⟨⟨away, unnamed⟩, by simpa using absent⟩, ?_⟩
        rw [Basic.ofName?_eq_some_iff.mpr named, Option.map_some]

end Grammar.Known

end Schematic
