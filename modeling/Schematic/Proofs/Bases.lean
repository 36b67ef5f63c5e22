import Mathlib.Data.List.Basic
import Mathlib.Data.List.Forall2
import Schematic.Proofs.Linked
import Schematic.Proofs.Lines
import Schematic.Proofs.Scopes

/-!
# Where bases are found

A base is the struct that the parent's name stands for in the innermost scope that has one. Linking
puts it into the struct and leaves the rest alone, so two sets of names give the same schema if
they give the same bases.
-/

namespace Schematic

namespace Struct

/-- The base that a struct gets, with none for a struct that names no parent. -/
def IsBase (names : List Qualified) (st : Struct) (base : Option Qualified) : Prop :=
  base.map some = st.parent.map (parent? names st.scope)

theorem link_eq_ok_iff {names : List Qualified} {st st' : Struct} :
    link names st = .ok st' ↔
      ∃ base children, IsBase names st base ∧ linkAll names st.children = .ok children ∧
        st' = { st with base, children } := by
  obtain ⟨name, scope, parent, base, line, enums, fields, children⟩ := st
  have hdone {base' : Option Qualified}
      (hbase : base'.map some = parent.map (parent? names scope)) :
      (linkAll names children >>= fun children => Except.ok
        (Struct.mk name scope parent base' line enums fields children)) = .ok st' ↔
          ∃ found children', found.map some = parent.map (parent? names scope) ∧
            linkAll names children = .ok children' ∧
              st' = Struct.mk name scope parent found line enums fields children' := by
    rw [bind_eq_ok, ← hbase]
    constructor
    · rintro ⟨children', hchildren, h⟩
      exact ⟨base', children', rfl, hchildren, (Except.ok.inj h).symm⟩
    · rintro ⟨found, children', hfound, hchildren, rfl⟩
      obtain rfl := (Option.map_inj_right fun _ _ => Option.some.inj).mp hfound
      exact ⟨children', hchildren, rfl⟩
  unfold link
  simp only [IsBase]
  cases parent with
  | none => exact hdone rfl
  | some p =>
      simp only
      cases hparent : parent? names scope p with
      | some q => exact hdone (by simp [hparent])
      | none =>
          refine ⟨fun h => absurd h ?_, ?_⟩
          · simp [throw, throwThe, MonadExceptOf.throw, bind, Except.bind]
          · rintro ⟨found, _, hfound, _⟩
            cases found <;> simp [hparent] at hfound

theorem linkAll_eq_ok_iff {names : List Qualified} {ss ss' : List Struct} :
    linkAll names ss = .ok ss' ↔ List.Forall₂ (fun st st' => link names st = .ok st') ss ss' := by
  induction ss generalizing ss' with
  | nil =>
      rw [linkAll, List.forall₂_nil_left_iff]
      exact ⟨fun h => (Except.ok.inj h).symm, fun h => h ▸ rfl⟩
  | cons st rest ih =>
      rw [linkAll, List.forall₂_cons_left_iff, bind_eq_ok]
      simp only [bind_eq_ok, ih]
      constructor
      · rintro ⟨st', hst, rest', hrest, h⟩
        exact ⟨st', rest', hst, hrest, (Except.ok.inj h).symm⟩
      · rintro ⟨st', rest', hst, hrest, rfl⟩
        exact ⟨st', hst, rest', hrest, rfl⟩

theorem linkAll_append_left {names : List Qualified} {ss more all : List Struct}
    (h : linkAll names (ss ++ more) = .ok all) :
    ∃ ss', linkAll names ss = .ok ss' ∧ ss' <+: all := by
  induction ss generalizing all with
  | nil => exact ⟨[], rfl, List.nil_prefix⟩
  | cons st rest ih =>
      rw [List.cons_append, linkAll] at h
      obtain ⟨st', hst, h⟩ := bind_eq_ok.mp h
      obtain ⟨all', hall, h⟩ := bind_eq_ok.mp h
      obtain rfl := Except.ok.inj h
      obtain ⟨rest', hrest, hbegins⟩ := ih hall
      refine ⟨st' :: rest', ?_, List.cons_prefix_cons.mpr ⟨rfl, hbegins⟩⟩
      exact bind_eq_ok.mpr ⟨st', hst, bind_eq_ok.mpr ⟨rest', hrest, rfl⟩⟩

mutual

/-- Names among which every struct has the base it had give the same struct. -/
theorem link_of_isBase {names names' : List Qualified} :
    ∀ {st st' : Struct},
      (∀ inner ∈ st.walk, ∀ base, IsBase names inner base → IsBase names' inner base) →
        link names st = .ok st' → link names' st = .ok st'
  | ⟨name, scope, parent, base, line, enums, fields, children⟩, st', same, h => by
      rw [walk, List.forall_mem_cons] at same
      obtain ⟨base', children', hbase, hchildren, rfl⟩ := link_eq_ok_iff.mp h
      exact link_eq_ok_iff.mpr
        ⟨base', children', same.1 base' hbase, linkAll_of_isBase same.2 hchildren, rfl⟩

theorem linkAll_of_isBase {names names' : List Qualified} :
    ∀ {ss ss' : List Struct},
      (∀ inner ∈ walkAll ss, ∀ base, IsBase names inner base → IsBase names' inner base) →
        linkAll names ss = .ok ss' → linkAll names' ss = .ok ss'
  | [], _, _, h => h
  | st :: rest, ss', same, h => by
      rw [walkAll, List.forall_mem_append] at same
      rw [linkAll_eq_ok_iff] at h ⊢
      obtain ⟨st', rest', hst, hrest, rfl⟩ := List.forall₂_cons_left_iff.mp h
      exact .cons (link_of_isBase same.1 hst)
        (linkAll_eq_ok_iff.mp (linkAll_of_isBase same.2 (linkAll_eq_ok_iff.mpr hrest)))

end

mutual

/-- Lines do not matter for bases. -/
theorem link_eraseLines (names : List Qualified) :
    ∀ st : Struct, eraseResult eraseLines (link names st) = link names st.eraseLines
  | ⟨name, scope, parent, base, line, enums, fields, children⟩ => by
      have hchildren := linkAll_eraseLines names children
      have hdone (base' : Option Qualified) :
          eraseResult eraseLines (linkAll names children >>= fun children => Except.ok
            (Struct.mk name scope parent base' line enums fields children)) =
          (linkAll names (eraseLinesAll children) >>= fun children => Except.ok
            (Struct.mk name scope parent base' 0 (enums.map Enumeration.eraseLine)
              (fields.map Field.eraseLines) children)) :=
        eraseResult_bind hchildren fun _ => rfl
      rw [eraseLines]
      unfold link
      cases parent with
      | none => exact hdone none
      | some p =>
          simp only
          cases parent? names scope p with
          | some q => exact hdone (some q)
          | none => rfl

theorem linkAll_eraseLines (names : List Qualified) :
    ∀ ss : List Struct,
      eraseResult eraseLinesAll (linkAll names ss) = linkAll names (eraseLinesAll ss)
  | [] => rfl
  | st :: rest => by
      rw [eraseLinesAll, linkAll, linkAll]
      exact eraseResult_bind (link_eraseLines names st) fun _ =>
        eraseResult_bind (linkAll_eraseLines names rest) fun _ => rfl

end

/-- A struct is looked for in the scopes around the heir and then in the file. -/
theorem parent?_eq (names : List Qualified) (scope : Qualified) (parent : Text) :
    parent? names scope parent =
      (scope.scopes.findSome? fun outer =>
        if names.contains (outer ++ [parent]) then some (outer ++ [parent]) else none).or
          (if names.contains [parent] then some [parent] else none) := by
  rw [parent?, List.findSome?_append, List.findSome?_singleton]
  rfl

theorem parent?_congr {names names' : List Qualified} (same : ∀ q, q ∈ names ↔ q ∈ names') :
    parent? names = parent? names' := by
  funext scope parent
  simp only [parent?, List.contains_eq_mem, same]

theorem link_congr {names names' : List Qualified} (same : ∀ q, q ∈ names ↔ q ∈ names')
    {st st' : Struct} (h : link names st = .ok st') : link names' st = .ok st' := by
  refine link_of_isBase (fun inner _ base hbase => ?_) h
  rwa [IsBase, ← parent?_congr same]

/-- More names do not change a base, if none of them is in a scope around the heir. -/
theorem parent?_append {names more : List Qualified} {scope q : Qualified} {parent : Text}
    (apart : ∀ outer, outer ≠ [] → outer <+: scope → outer ++ [parent] ∉ more)
    (h : parent? names scope parent = some q) : parent? (names ++ more) scope parent = some q := by
  -- No scope but the file itself can tell the difference.
  have hnested : (scope.scopes.findSome? fun outer =>
      if (names ++ more).contains (outer ++ [parent]) then some (outer ++ [parent]) else none) =
        scope.scopes.findSome? fun outer =>
          if names.contains (outer ++ [parent]) then some (outer ++ [parent]) else none := by
    rw [← List.head?_filterMap, ← List.head?_filterMap]
    refine congrArg List.head? (List.filterMap_congr fun outer houter => ?_)
    obtain ⟨hne, hbegins⟩ := Qualified.mem_scopes.mp houter
    simp [apart outer hne hbegins]
  rw [parent?_eq, Option.or_eq_some_iff] at h ⊢
  rw [hnested]
  refine h.imp id fun ⟨hnone, htop⟩ => ⟨hnone, ?_⟩
  split at htop
  · rename_i hmem
    rw [if_pos (by simp_all), htop]
  · exact absurd htop (by simp)

end Struct

end Schematic
