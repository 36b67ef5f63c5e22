import Schematic.Identifier
import Schematic.Proofs.Runes
import Schematic.Schema.Name

/-!
# Full names

No identifier holds a colon: a colon is a rune of its own wherever it stands, as every byte is that
does not continue a rune, and no rune of an identifier. So the separators of a full name are those
between its names, and dividing the full name gives the names back.
-/

namespace Schematic

namespace Text

/-- The byte of a colon. -/
def colon : UInt8 :=
  0x3A

theorem not_mem_of_isIdentifier {low : UInt8} (hlow : low < 0x80)
    (hcontinues : Rune.continuesIdentifier ⟨[low], some low.toNat⟩ = false) {t : Text}
    (h : isIdentifier t = true) : low ∉ t := by
  intro hmem
  have hr := mem_runes_of_low hlow hmem
  have hletter : (Rune.ofByte low).isLetter = false := by
    simp only [Rune.continuesIdentifier, Bool.or_eq_false_iff] at hcontinues
    exact hcontinues.1.1
  rw [isIdentifier] at h
  cases hrunes : runes t with
  | nil => simp [hrunes] at hr
  | cons first rest =>
      rw [hrunes] at h hr
      simp only [Bool.and_eq_true, List.all_eq_true] at h
      rcases List.mem_cons.mp hr with rfl | hr
      · rw [h.1] at hletter
        exact absurd hletter (by simp)
      · exact absurd (h.2 _ hr) (Bool.eq_false_iff.mp hcontinues)

theorem colon_not_mem_of_isIdentifier {t : Text} (h : isIdentifier t = true) : colon ∉ t :=
  not_mem_of_isIdentifier (by decide) rfl h

end Text

namespace Qualified

open Text (colon)

theorem divide_cons {b : UInt8} (h : b ≠ colon) (t : Text) :
    divide (b :: t) = (b :: (divide t).1, (divide t).2) := by
  rw [divide]
  rintro t' rfl
  exact absurd rfl h

theorem divide_name {name : Text} (h : colon ∉ name) : divide name = (name, []) := by
  induction name with
  | nil => rfl
  | cons b name ih =>
      rw [List.mem_cons, not_or] at h
      rw [divide_cons (Ne.symm h.1), ih h.2]

theorem divide_append {name : Text} (h : colon ∉ name) (t : Text) :
    divide (name ++ separator ++ t) = (name, ofText t) := by
  induction name with
  | nil => rfl
  | cons b name ih =>
      rw [List.mem_cons, not_or] at h
      rw [List.cons_append, List.cons_append, divide_cons (Ne.symm h.1), ih h.2]

/-- A full name is divided into the names that it was put together from. -/
theorem ofText_text {q : Qualified} (hne : q ≠ []) (h : ∀ name ∈ q, colon ∉ name) :
    ofText q.text = q := by
  induction q with
  | nil => exact absurd rfl hne
  | cons name q ih =>
      rw [List.forall_mem_cons] at h
      cases q with
      | nil => rw [text, Text.join, ofText, divide_name h.1]
      | cons next q =>
          have hrest := ih (by simp) h.2
          rw [text, Text.join, ofText, divide_append h.1]
          · exact congrArg (name :: ·) hrest
          · simp

end Qualified

end Schematic
