import Mathlib.Algebra.Group.Nat.Defs
import Schematic.Literal.Single

/-!
# Rounding to single precision

A whole number is rounded to 24 places, which moves it by less than a part in sixteen million. Main
statement: two whole numbers that are an eighth apart stay apart.
-/

namespace Schematic.Literal

/-- Rounding to a whole number moves a quotient by no more than a half. -/
theorem roundDiv_bounds (a : Nat) {b : Nat} (hb : 0 < b) :
    2 * a ≤ 2 * (b * roundDiv a b) + b ∧ 2 * (b * roundDiv a b) ≤ 2 * a + b := by
  have hdiv := Nat.div_add_mod a b
  have hmod := Nat.mod_lt a hb
  have hsucc : b * (a / b + 1) = b * (a / b) + b := Nat.mul_succ _ _
  unfold roundDiv
  dsimp only
  split
  · omega
  · split
    · rw [hsucc]
      omega
    · rcases Nat.mod_two_eq_zero_or_one (a / b) with h | h
      · rw [h, Nat.add_zero]
        omega
      · rw [h, hsucc]
        omega

theorem floorLog_one {a : Nat} (ha : a ≠ 0) : floorLog a 1 = (Nat.log2 a : Int) := by
  have hlog : (Nat.log2 1 : Int) = 0 := rfl
  have hreached : 1 <<< Nat.log2 a ≤ a := by
    rw [Nat.one_shiftLeft]
    exact Nat.log2_self_le ha
  simp [floorLog, hlog, hreached]

/-- The places that are kept of a whole number. -/
def places (a : Nat) : Nat :=
  inUnits a 1 (Nat.log2 a - 23)

theorem magnitudeBits_whole {a : Nat} (ha : a ≠ 0) :
    magnitudeBits a 1 = (Nat.log2 a + 126) * 2 ^ 23 + places a := by
  have hunit : max ((Nat.log2 a : Int) - 23) (-149) = (Nat.log2 a : Int) - 23 := by omega
  have hexponent : ((Nat.log2 a : Int) - 23 + 149).toNat = Nat.log2 a + 126 := by omega
  rw [magnitudeBits, if_neg ha, floorLog_one ha, hunit]
  dsimp only
  rw [hexponent, Nat.shiftLeft_eq]
  rfl

/-- The places are those of the number, moved by no more than half a unit. -/
theorem places_bounds (a : Nat) :
    2 ^ 24 * a ≤ 2 * (2 ^ Nat.log2 a * places a) + 2 ^ Nat.log2 a ∧
      2 * (2 ^ Nat.log2 a * places a) ≤ 2 ^ 24 * a + 2 ^ Nat.log2 a := by
  unfold places inUnits
  generalize Nat.log2 a = l
  split
  · rename_i h
    obtain ⟨k, rfl⟩ : ∃ k, l = k + 23 := ⟨l - 23, by omega⟩
    have hk : ((k + 23 : Nat) : Int) - 23 = k := by omega
    rw [hk, Int.toNat_natCast, Nat.one_shiftLeft]
    have hround := roundDiv_bounds a (Nat.two_pow_pos k)
    rw [Nat.pow_add, Nat.mul_comm (2 ^ k), Nat.mul_assoc]
    omega
  · rename_i h
    have hk : ((l : Int) - 23).natAbs = 23 - l := by omega
    have hpow : 2 ^ l * 2 ^ (23 - l) = 2 ^ 23 := by
      rw [← Nat.pow_add, Nat.add_sub_cancel' (by omega)]
    have hround : roundDiv (a <<< (23 - l)) 1 = a * 2 ^ (23 - l) := by
      simp [roundDiv, Nat.mod_one, Nat.shiftLeft_eq]
    have hexact : 2 ^ l * (a * 2 ^ (23 - l)) = 2 ^ 23 * a := by
      rw [Nat.mul_left_comm, hpow, Nat.mul_comm]
    have hpos := Nat.two_pow_pos l
    rw [hk, hround, hexact]
    omega

theorem places_le (a : Nat) : places a ≤ 2 ^ 24 := by
  have hlt : a < 2 ^ Nat.log2 a * 2 := Nat.lt_log2_self
  have hupper := (places_bounds a).2
  refine Nat.le_of_not_lt fun h => ?_
  have hmul : 2 ^ Nat.log2 a * (2 ^ 24 + 1) ≤ 2 ^ Nat.log2 a * places a :=
    Nat.mul_le_mul_left _ (by omega)
  omega

theorem le_places {a : Nat} (ha : a ≠ 0) : 2 ^ 23 ≤ places a := by
  have hle : 2 ^ Nat.log2 a ≤ a := Nat.log2_self_le ha
  have hlower := (places_bounds a).1
  refine Nat.le_of_not_lt fun h => ?_
  have hmul : 2 ^ Nat.log2 a * places a ≤ 2 ^ Nat.log2 a * (2 ^ 23 - 1) :=
    Nat.mul_le_mul_left _ (by omega)
  omega

/-- Whole numbers that are an eighth apart stay apart. -/
theorem magnitudeBits_ne {a b : Nat} (hb : b ≠ 0) (h : 9 * a ≤ 8 * b) :
    magnitudeBits a 1 ≠ magnitudeBits b 1 := by
  intro heq
  by_cases ha : a = 0
  · rw [ha, magnitudeBits_whole hb, magnitudeBits, if_pos rfl] at heq
    omega
  rw [magnitudeBits_whole ha, magnitudeBits_whole hb] at heq
  obtain ⟨-, hupper⟩ := places_bounds a
  obtain ⟨hlower, -⟩ := places_bounds b
  have hpowa : 2 ^ Nat.log2 a ≤ a := Nat.log2_self_le ha
  have hlog : Nat.log2 a ≤ Nat.log2 b := (Nat.le_log2 hb).mpr (by omega)
  have hbounds := And.intro (places_le a) (le_places hb)
  by_cases hsame : Nat.log2 a = Nat.log2 b
  · -- Within one power of two the places differ by more than rounding takes away.
    have hplaces : places a = places b := by omega
    rw [hsame, hplaces] at hupper
    rw [hsame] at hpowa
    omega
  · -- Only neighbours of one power of two could meet there, and an eighth is too far.
    have hnext : Nat.log2 b = Nat.log2 a + 1 ∧ places a = 2 ^ 24 ∧ places b = 2 ^ 23 := by omega
    obtain ⟨hnext, hplacesa, hplacesb⟩ := hnext
    rw [hplacesa] at hupper
    rw [hnext, hplacesb, Nat.pow_succ] at hlower
    omega

end Schematic.Literal
