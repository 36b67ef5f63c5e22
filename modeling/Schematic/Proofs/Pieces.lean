import Schematic.Text

/-!
# Texts in pieces

Lines are the pieces of a source between line feeds, and names the pieces of a path between slashes.
No piece holds the byte that separates them, and putting the pieces together gives the text back.
-/

namespace Schematic.Text

variable {separator : UInt8}

theorem splitOn_cons (separator b : UInt8) (t : Text) :
    splitOn separator (b :: t) =
      if b = separator then [] :: splitOn separator t
      else (splitOn separator t).modifyHead (b :: ·) := by
  simp only [splitOn, List.foldr_cons]
  split <;> rfl

theorem splitOn_ne_nil (separator : UInt8) (t : Text) : splitOn separator t ≠ [] :=
  List.cons_ne_nil _ _

/-- A separator divides a text, whatever stands in front of it and behind it. -/
theorem splitOn_append (separator : UInt8) (p q : Text) :
    splitOn separator (p ++ separator :: q) = splitOn separator p ++ splitOn separator q := by
  induction p with
  | nil => rw [List.nil_append, splitOn_cons, if_pos rfl]; rfl
  | cons b p ih =>
      rw [List.cons_append, splitOn_cons, splitOn_cons, ih]
      split
      · rfl
      · obtain ⟨piece, pieces, hpieces⟩ := List.exists_cons_of_ne_nil (splitOn_ne_nil separator p)
        rw [hpieces]
        rfl

/-- There is one piece more than there are separators. -/
theorem length_splitOn (separator : UInt8) (t : Text) :
    (splitOn separator t).length = t.count separator + 1 := by
  induction t with
  | nil => rfl
  | cons b t ih =>
      rw [splitOn_cons, List.count_cons]
      split
      · rename_i hb
        simp [ih, hb]
      · rename_i hb
        simp [ih, hb]

theorem splitOn_of_not_mem {t : Text} (h : separator ∉ t) : splitOn separator t = [t] := by
  induction t with
  | nil => rfl
  | cons b t ih =>
      rw [List.mem_cons, not_or] at h
      rw [splitOn_cons, if_neg (Ne.symm h.1), ih h.2]
      rfl

/-- No piece holds the separator. -/
theorem not_mem_of_mem_splitOn {t piece : Text} (h : piece ∈ splitOn separator t) :
    separator ∉ piece := by
  induction t generalizing piece with
  | nil =>
      obtain rfl : piece = [] := List.mem_singleton.mp h
      exact List.not_mem_nil
  | cons b t ih =>
      rw [splitOn_cons] at h
      obtain ⟨first, pieces, hpieces⟩ := List.exists_cons_of_ne_nil (splitOn_ne_nil separator t)
      rw [hpieces] at h ih
      split at h
      · rcases List.mem_cons.mp h with rfl | h
        · exact List.not_mem_nil
        · exact ih h
      · rename_i hb
        rcases List.mem_cons.mp h with rfl | h
        · rw [List.mem_cons, not_or]
          exact ⟨Ne.symm hb, ih List.mem_cons_self⟩
        · exact ih (List.mem_cons_of_mem _ h)

theorem join_cons (separator part : Text) {parts : List Text} (h : parts ≠ []) :
    join separator (part :: parts) = part ++ separator ++ join separator parts := by
  cases parts with
  | nil => exact absurd rfl h
  | cons next parts => rfl

theorem join_append (separator : Text) {parts more : List Text} (hparts : parts ≠ [])
    (hmore : more ≠ []) :
    join separator (parts ++ more) =
      join separator parts ++ (separator ++ join separator more) := by
  induction parts with
  | nil => exact absurd rfl hparts
  | cons part parts ih =>
      by_cases hnil : parts = []
      · rw [hnil, List.singleton_append, join_cons _ _ hmore, List.append_assoc]
        rfl
      · rw [List.cons_append, join_cons _ _ (by simp [hnil]), join_cons _ _ hnil, ih hnil]
        simp

/-- Joining the pieces of a text gives the text back. -/
theorem join_splitOn (separator : UInt8) (t : Text) :
    join [separator] (splitOn separator t) = t := by
  induction t with
  | nil => rfl
  | cons b t ih =>
      rw [splitOn_cons]
      split
      · rename_i hb
        rw [join_cons _ _ (splitOn_ne_nil separator t), ih, hb]
        rfl
      · obtain ⟨first, pieces, hpieces⟩ := List.exists_cons_of_ne_nil (splitOn_ne_nil separator t)
        rw [hpieces] at ih ⊢
        cases pieces with
        | nil => exact congrArg (b :: ·) ih
        | cons next pieces => exact congrArg (b :: ·) ih

/-- Pieces without the separator are found again in the text that they are joined to. -/
theorem splitOn_join {parts : List Text} (hne : parts ≠ [])
    (h : ∀ part ∈ parts, separator ∉ part) :
    splitOn separator (join [separator] parts) = parts := by
  induction parts with
  | nil => exact absurd rfl hne
  | cons part parts ih =>
      have hpart : splitOn separator part = [part] :=
        splitOn_of_not_mem (h part List.mem_cons_self)
      by_cases hparts : parts = []
      · rw [hparts]
        exact hpart
      · have hrest := ih hparts fun other hother => h other (List.mem_cons_of_mem _ hother)
        rw [join_cons _ _ hparts, List.append_assoc, List.singleton_append, splitOn_append, hrest,
          hpart, List.singleton_append]

end Schematic.Text
