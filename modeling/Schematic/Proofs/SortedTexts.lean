import Mathlib.Data.List.Perm.Basic
import Schematic.Text

/-!
# Sorted texts

The byte-wise order of texts is a strict total order. Main statement: sorting texts into a set gives
the one strictly increasing list with the same texts, in whatever order and however often they come.
-/

namespace Schematic.Text

/-! ## Byte-wise order -/

theorem less_cons {a b : UInt8} {s t : Text} :
    less (a :: s) (b :: t) = true ↔ a < b ∨ a = b ∧ less s t = true := by
  simp [less]

theorem less_irrefl (t : Text) : less t t = false := by
  induction t with
  | nil => rfl
  | cons b t ih => simp [less, ih, UInt8.lt_irrefl]

/-- The order of texts is transitive. -/
theorem less_trans {s t u : Text} (hst : less s t = true) (htu : less t u = true) :
    less s u = true := by
  induction s generalizing t u with
  | nil =>
      cases u with
      | nil => cases t <;> exact absurd htu (by simp [less])
      | cons c u => rfl
  | cons a s ih =>
      cases t with
      | nil => exact absurd hst (by simp [less])
      | cons b t =>
          cases u with
          | nil => exact absurd htu (by simp [less])
          | cons c u =>
              -- The texts differ at this byte, or else behind it.
              rw [less_cons] at hst htu ⊢
              rcases hst with hab | ⟨rfl, hst⟩
              · rcases htu with hbc | ⟨rfl, -⟩
                · exact .inl (UInt8.lt_trans hab hbc)
                · exact .inl hab
              · rcases htu with hbc | ⟨rfl, htu⟩
                · exact .inl hbc
                · exact .inr ⟨rfl, ih hst htu⟩

/-- Of two different texts one is less. -/
theorem less_or_less {s t : Text} (h : s ≠ t) : less s t = true ∨ less t s = true := by
  induction s generalizing t with
  | nil =>
      cases t with
      | nil => exact absurd rfl h
      | cons b t => exact .inl rfl
  | cons a s ih =>
      cases t with
      | nil => exact .inr rfl
      | cons b t =>
          rw [less_cons, less_cons]
          by_cases hab : a = b
          · have hst : s ≠ t := fun hst => h (by rw [hab, hst])
            exact (ih hst).imp (fun hless => .inr ⟨hab, hless⟩) fun hless => .inr ⟨hab.symm, hless⟩
          · exact (UInt8.lt_or_lt_of_ne hab).imp .inl .inl

/-! ## Strictly increasing lists -/

/-- Each text comes before all that follow it. -/
def Increasing (ts : List Text) : Prop :=
  ts.Pairwise fun s t => less s t = true

theorem Increasing.nodup {ts : List Text} (h : Increasing ts) : ts.Nodup := by
  refine h.imp ?_
  rintro s t hless rfl
  exact absurd hless (by simp [less_irrefl])

/-- A strictly increasing list is known by its texts. -/
theorem Increasing.eq_of_mem_iff {ts us : List Text} (hts : Increasing ts) (hus : Increasing us)
    (h : ∀ t, t ∈ ts ↔ t ∈ us) : ts = us := by
  have hperm : ts.Perm us := (List.perm_ext_iff_of_nodup hts.nodup hus.nodup).mpr h
  refine hperm.eq_of_pairwise (fun s t _ _ hst hts => ?_) hts hus
  exact absurd (less_trans hst hts) (by simp [less_irrefl])

theorem mem_insertSorted {t x : Text} {us : List Text} :
    x ∈ insertSorted t us ↔ x = t ∨ x ∈ us := by
  induction us with
  | nil => simp [insertSorted]
  | cons u us ih =>
      rw [insertSorted]
      split
      · exact List.mem_cons
      · split
        · rename_i htu
          simp [htu]
        · rw [List.mem_cons, ih, List.mem_cons, or_left_comm]

theorem Increasing.insertSorted {us : List Text} (h : Increasing us) (t : Text) :
    Increasing (insertSorted t us) := by
  induction us with
  | nil => exact List.pairwise_singleton _ t
  | cons u us ih =>
      obtain ⟨hfirst, hrest⟩ := List.pairwise_cons.mp h
      rw [Text.insertSorted]
      split
      · rename_i htu
        refine List.pairwise_cons.mpr ⟨fun v hv => ?_, h⟩
        rcases List.mem_cons.mp hv with rfl | hv
        · exact htu
        · exact less_trans htu (hfirst v hv)
      · rename_i htu
        split
        · exact h
        · rename_i hne
          refine List.pairwise_cons.mpr ⟨fun v hv => ?_, ih hrest⟩
          rcases mem_insertSorted.mp hv with rfl | hv
          · exact (less_or_less hne).resolve_left htu
          · exact hfirst v hv

/-- Sorting keeps exactly the texts that were there. -/
theorem mem_sortedSet {ts : List Text} {x : Text} : x ∈ sortedSet ts ↔ x ∈ ts := by
  induction ts with
  | nil => exact Iff.rfl
  | cons t ts ih =>
      rw [List.mem_cons, ← ih]
      exact mem_insertSorted

/-- Sorting puts each text behind the smaller ones, once. -/
theorem increasing_sortedSet (ts : List Text) : Increasing (sortedSet ts) := by
  induction ts with
  | nil => exact List.Pairwise.nil
  | cons t ts ih => exact ih.insertSorted t

/-- Sorting is known by the texts to be sorted. -/
theorem sortedSet_eq_iff {ts us : List Text} :
    sortedSet ts = us ↔ Increasing us ∧ ∀ t, t ∈ us ↔ t ∈ ts := by
  constructor
  · rintro rfl
    exact ⟨increasing_sortedSet ts, fun _ => mem_sortedSet⟩
  · rintro ⟨hus, hmem⟩
    refine (increasing_sortedSet ts).eq_of_mem_iff hus fun t => ?_
    rw [mem_sortedSet, hmem]

end Schematic.Text
