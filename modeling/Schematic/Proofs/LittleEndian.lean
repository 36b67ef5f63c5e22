import Mathlib.Data.List.Basic
import Mathlib.Tactic.Ring
import Schematic.Text.Decimal
import Schematic.Text.LittleEndian

/-!
# Words in a text

Writing a number as little-endian bytes and reading it back, and what it means that some bytes
stand at a position of a longer text.
-/

namespace Schematic.Text

theorem fitsWord_iff {width : Nat} {i : Int} :
    fitsWord width i = true ↔ -2 ^ (width - 1) ≤ i ∧ i < 2 ^ (width - 1) := by
  simp [fitsWord, Nat.one_shiftLeft]

@[simp] theorem length_littleEndian (width n : Nat) : (littleEndian width n).length = width := by
  induction width generalizing n with
  | zero => rfl
  | succ width ih => simp [littleEndian, ih]

/-- Reading back gives the number as far as the width holds it. -/
theorem ofLittleEndian_littleEndian (width n : Nat) :
    ofLittleEndian (littleEndian width n) = n % 256 ^ width := by
  induction width generalizing n with
  | zero => simp [littleEndian, ofLittleEndian, Nat.mod_one]
  | succ width ih =>
      have hbyte : (n % 256).toUInt8.toNat = n % 256 := by
        simp [Nat.toUInt8]
      rw [littleEndian, ofLittleEndian, ih, hbyte, pow_succ', Nat.mod_mul]

theorem ofLittleEndian_littleEndian_of_lt {width n : Nat} (h : n < 256 ^ width) :
    ofLittleEndian (littleEndian width n) = n := by
  rw [ofLittleEndian_littleEndian, Nat.mod_eq_of_lt h]

theorem ofLittleEndian_lt (t : Text) : ofLittleEndian t < 256 ^ t.length := by
  induction t with
  | nil => decide
  | cons b t ih =>
      have hb := b.toNat_lt
      rw [ofLittleEndian, List.length_cons, Nat.pow_succ]
      omega

/-- Bytes are what the number they spell is written as. -/
theorem littleEndian_ofLittleEndian (t : Text) : littleEndian t.length (ofLittleEndian t) = t := by
  induction t with
  | nil => rfl
  | cons b t ih =>
      have hb := b.toNat_lt
      have hlow : (b.toNat + 256 * ofLittleEndian t) % 256 = b.toNat := by omega
      have hhigh : (b.toNat + 256 * ofLittleEndian t) / 256 = ofLittleEndian t := by omega
      rw [List.length_cons, ofLittleEndian, littleEndian, hlow, hhigh, ih]
      simp [Nat.toUInt8]

theorem words32_append_word (n : Nat) (t : Text) :
    words32 (littleEndian 4 n ++ t) = n % 256 ^ 4 :: words32 t := by
  rw [← ofLittleEndian_littleEndian]
  simp [littleEndian, words32]

/-- A row of words is read back word by word. -/
theorem words32_flatMap {ns : List Nat} (h : ∀ n ∈ ns, n < 2 ^ 32) :
    words32 (ns.flatMap (littleEndian 4)) = ns := by
  induction ns with
  | nil => rfl
  | cons n ns ih =>
      have hn : n < 256 ^ 4 := h n (by simp)
      have hrest : ∀ m ∈ ns, m < 2 ^ 32 := fun m hm => h m (by simp [hm])
      rw [List.flatMap_cons, words32_append_word, Nat.mod_eq_of_lt hn, ih hrest]

theorem length_flatMap_littleEndian (width : Nat) (ns : List Nat) :
    (ns.flatMap (littleEndian width)).length = width * ns.length := by
  induction ns with
  | nil => rfl
  | cons n ns ih =>
      rw [List.flatMap_cons, List.length_append, ih, length_littleEndian, List.length_cons]
      ring

theorem words32_lt {t : Text} {n : Nat} (h : n ∈ words32 t) : n < 2 ^ 32 := by
  fun_induction words32 t with
  | case1 a b c d t ih =>
      rcases List.mem_cons.mp h with rfl | h
      · have hlt : ofLittleEndian [a, b, c, d] < 256 ^ 4 := ofLittleEndian_lt [a, b, c, d]
        exact hlt
      · exact ih h
  | case2 => exact absurd h (by simp)

/-- Bytes that make whole words are what these words are written as. -/
theorem flatMap_words32 {t : Text} {n : Nat} (h : t.length = 4 * n) :
    (words32 t).flatMap (littleEndian 4) = t := by
  fun_induction words32 t generalizing n with
  | case1 a b c d t ih =>
      have hrest : t.length = 4 * (n - 1) := by
        simp only [List.length_cons] at h
        omega
      have hword : littleEndian 4 (ofLittleEndian [a, b, c, d]) = [a, b, c, d] :=
        littleEndian_ofLittleEndian [a, b, c, d]
      rw [List.flatMap_cons, ih hrest, hword]
      rfl
  | case2 t short =>
      match t, h, short with
      | [], _, _ => rfl
      | a :: b :: c :: d :: t, _, short => exact absurd rfl (short a b c d t)
      | [_], h, _ | [_, _], h, _ | [_, _, _], h, _ =>
          simp only [List.length_cons, List.length_nil] at h
          omega

theorem length_words32 {t : Text} {n : Nat} (h : t.length = 4 * n) : (words32 t).length = n := by
  have hwhole := length_flatMap_littleEndian 4 (words32 t)
  rw [flatMap_words32 h, h] at hwhole
  omega

/-- The bytes of `part` stand in `t` from a position on. -/
def StandsAt (t : Text) (position : Nat) (part : Text) : Prop :=
  ∀ i < part.length, t[position + i]? = part[i]?

namespace StandsAt

variable {t part : Text} {position : Nat}

theorem take_drop (h : StandsAt t position part) :
    (t.drop position).take part.length = part := by
  apply List.ext_getElem?
  intro i
  rw [List.getElem?_take, List.getElem?_drop]
  split
  · exact h i ‹_›
  · exact (List.getElem?_eq_none (by omega)).symm

/-- Where something stands, the text goes on at least as far. -/
theorem length_le (h : StandsAt t position part) (hne : part ≠ []) :
    position + part.length ≤ t.length := by
  have hpos : 0 < part.length := List.length_pos_iff.mpr hne
  have hlast := h (part.length - 1) (by omega)
  by_contra hshort
  rw [List.getElem?_eq_none (by omega), List.getElem?_eq_getElem (by omega)] at hlast
  exact absurd hlast (by simp)

/-- What stands at a position is a beginning of the text from there on. -/
theorem drop_eq (h : StandsAt t position part) (hne : part ≠ []) :
    t.drop position = part ++ t.drop (position + part.length) := by
  have hlen := h.length_le hne
  calc
    t.drop position
        = (t.drop position).take part.length ++ (t.drop position).drop part.length :=
          (List.take_append_drop _ _).symm
    _ = part ++ t.drop (position + part.length) := by
          rw [h.take_drop, List.drop_drop]

end StandsAt

end Schematic.Text
