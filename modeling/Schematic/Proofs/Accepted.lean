import Mathlib.Data.List.Flatten
import Schematic.Proofs.Instance

/-!
# Accepted schemas

What the checks on a schema establish for the methods generated from it: names lead somewhere, no
struct holds itself, and the members of a struct have different names.
-/

namespace Schematic.Schema

/-- A schema that passed its checks. -/
structure Accepted (s : Schema) : Prop where
  resolved : s.Resolved
  acyclic : s.Acyclic
  members : ∀ st ∈ s.walk, (st.members.map Member.name).Nodup

/-- Names are taken if they differ, also from those taken before. -/
theorem takeNames_eq_some_iff {taken taken' names : List Text} :
    takeNames taken names = some taken' ↔
      names.Nodup ∧ (∀ name ∈ names, name ∉ taken) ∧ names.reverse ++ taken = taken' := by
  induction names generalizing taken with
  | nil => simp [takeNames]
  | cons name names ih =>
      rw [takeNames, List.nodup_cons, List.forall_mem_cons, List.reverse_cons, List.append_assoc,
        List.singleton_append]
      split
      · rename_i htaken
        simp only [reduceCtorEq, false_iff]
        exact fun h => h.2.1.1 (by simpa using htaken)
      · rename_i hfree
        have hcons : (∀ other ∈ names, other ∉ name :: taken) ↔
            name ∉ names ∧ ∀ other ∈ names, other ∉ taken := by
          constructor
          · intro h
            exact ⟨fun hname => h name hname List.mem_cons_self,
              fun other hother htaken => h other hother (List.mem_cons_of_mem _ htaken)⟩
          · rintro ⟨hname, hothers⟩ other hother hmem
            rcases List.mem_cons.mp hmem with rfl | htaken
            · exact hname hother
            · exact hothers other hother htaken
        rw [ih, hcons]
        have hname : name ∉ taken := by simpa using hfree
        tauto

/-- The check on fields passes if all names that they take differ, also from those taken before. -/
theorem checkFieldNames_eq_ok_iff {scope : Text} {taken : List Text} {fields : List Field} :
    checkFieldNames scope taken fields = .ok () ↔
      (fields.flatMap memberNames).Nodup ∧ ∀ name ∈ fields.flatMap memberNames, name ∉ taken := by
  induction fields generalizing taken with
  | nil => simp [checkFieldNames]
  | cons f fields ih =>
      rw [checkFieldNames, List.flatMap_cons, List.nodup_append, List.forall_mem_append]
      split
      · rename_i taken' htake
        obtain ⟨hnodup, hfree, rfl⟩ := takeNames_eq_some_iff.mp htake
        have hbehind :
            (∀ name ∈ fields.flatMap memberNames, name ∉ (memberNames f).reverse ++ taken) ↔
              (∀ name ∈ memberNames f, ∀ other ∈ fields.flatMap memberNames, name ≠ other) ∧
                ∀ name ∈ fields.flatMap memberNames, name ∉ taken := by
          simp only [List.mem_append, List.mem_reverse, not_or]
          constructor
          · intro h
            exact ⟨fun name hname other hother heq => (h other hother).1 (heq ▸ hname),
              fun name hname => (h name hname).2⟩
          · rintro ⟨hapart, hothers⟩ name hname
            exact ⟨fun hmem => hapart name hmem name hname rfl, hothers name hname⟩
        rw [ih, hbehind]
        tauto
      · rename_i hnone
        simp only [reduceCtorEq, false_iff]
        rintro ⟨⟨hnodup, _, _⟩, hfree, _⟩
        have htake := takeNames_eq_some_iff.mpr ⟨hnodup, hfree, rfl⟩
        rw [hnone] at htake
        exact absurd htake (by simp)

/-- The check on the members of a struct passes if the names that its fields take differ, also from
the base and from the members that every struct has. -/
theorem checkMembers_eq_ok_iff {st : Struct} :
    checkMembers st = .ok () ↔
      (st.fields.flatMap memberNames).Nodup ∧
        ∀ name ∈ st.fields.flatMap memberNames,
          (∀ b, st.base = some b → name ≠ b.identifier) ∧ name ∉ reservedMembers := by
  rw [checkMembers, checkFieldNames_eq_ok_iff]
  simp [eq_comm]

theorem map_identifier_sublist (fields : List Field) :
    (fields.map Field.identifier).Sublist (fields.flatMap memberNames) := by
  rw [← List.flatMap_pure_eq_map]
  exact List.Sublist.flatMap_right _ fun f _ => by simp [memberNames]

theorem nodup_members_of_check {st : Struct} (h : checkMembers st = .ok ()) :
    (st.members.map Member.name).Nodup := by
  obtain ⟨hnodup, hfree⟩ := checkMembers_eq_ok_iff.mp h
  have hfields : (st.fields.map Field.member).map Member.name = st.fields.map Field.identifier := by
    rw [List.map_map]
    rfl
  have hsublist := map_identifier_sublist st.fields
  rw [Struct.members, List.map_append, hfields]
  cases hbase : st.base with
  | none => exact hnodup.sublist hsublist
  | some b =>
      simp only [baseMembers, Option.map_some, Option.toList_some, List.map_cons, List.map_nil,
        List.singleton_append, List.nodup_cons]
      refine ⟨fun hmem => ?_, hnodup.sublist hsublist⟩
      exact (hfree _ (hsublist.subset hmem)).1 b hbase rfl

/-- A source that can be parsed spells an accepted schema. -/
theorem accepted_of_parse {source : Text} {s : Schema} (h : parse source = .ok s) :
    s.Accepted := by
  obtain ⟨tokens, s₀, _, hread, hlink, hcheck⟩ := parse_eq_ok_iff.mp h
  have hs := resolved_of_link hread hlink
  obtain ⟨hinheritance, hcontainment, hmembers, _, _⟩ := check_eq_ok_iff.mp hcheck
  refine ⟨hs, ?_, fun st hst => nodup_members_of_check (hmembers st hst)⟩
  exact (acyclic_iff hs).mp ⟨hinheritance, hcontainment⟩

end Schematic.Schema
