import Mathlib.Data.List.TakeWhile
import Schematic.Code.Constant

/-!
# Numerals of generated code

How the target language spells numbers: whole ones in four bases, of which a leading zero alone
means eight, and floating ones with a point or an exponent, in base ten or sixteen. Main statements:
no numeral is both whole and floating, letters may be capitals or small, and digits behind a zero
are as good in base ten only if they spell less than eight.
-/

namespace Schematic.Literal

/-! ## Digits -/

/-- How many digits there are. -/
def digitCount (t : Text) : Nat :=
  t.countP fun b => (hexDigit? b).isSome

/-- Digits and underscores in any order. -/
def IsRow (base : Nat) (t : Text) : Prop :=
  ∀ b ∈ t, isDigitIn base b = true ∨ b = 0x5F

/-- At least one digit, with single underscores between some of them. -/
inductive IsDigits (base : Nat) : Text → Prop where
  | last {b : UInt8} (digit : isDigitIn base b = true) : IsDigits base [b]
  | next {b : UInt8} {t : Text} (digit : isDigitIn base b = true) (rest : IsDigits base t) :
      IsDigits base (b :: t)
  | apart {b : UInt8} {t : Text} (digit : isDigitIn base b = true) (rest : IsDigits base t) :
      IsDigits base (b :: 0x5F :: t)

theorem forall_byte {motive : UInt8 → Prop} (h : ∀ n < 256, motive (UInt8.ofNat n)) (b : UInt8) :
    motive b := by
  simpa using h b.toNat b.toNat_lt

section Digits

variable {base base' : Nat} {b : UInt8} {t : Text}

theorem isDigitIn_iff : isDigitIn base b = true ↔ ∃ d < base, hexDigit? b = some d := by
  simp [isDigitIn, Option.any_eq_true, and_comm]

theorem isDigitIn_mono (h : isDigitIn base b = true) (hbase : base ≤ base') :
    isDigitIn base' b = true := by
  obtain ⟨d, hd, hb⟩ := isDigitIn_iff.mp h
  exact isDigitIn_iff.mpr ⟨d, Nat.lt_of_lt_of_le hd hbase, hb⟩

theorem IsDigits.ne_nil (h : IsDigits base t) : t ≠ [] := by
  cases h <;> simp

theorem IsDigits.isRow (h : IsDigits base t) : IsRow base t := by
  induction h with
  | last digit => simpa [IsRow] using .inl digit
  | next digit _ ih => simpa [IsRow] using ⟨.inl digit, ih⟩
  | apart digit _ ih => simpa [IsRow] using ⟨.inl digit, ih⟩

theorem IsDigits.mono (h : IsDigits base t) (hbase : base ≤ base') : IsDigits base' t := by
  induction h with
  | last digit => exact .last (isDigitIn_mono digit hbase)
  | next digit _ ih => exact .next (isDigitIn_mono digit hbase) ih
  | apart digit _ ih => exact .apart (isDigitIn_mono digit hbase) ih

theorem IsDigits.of_isRow (h : IsDigits base' t) (hrow : IsRow base t) : IsDigits base t := by
  have hscore : ¬isDigitIn base' 0x5F = true := by simp [isDigitIn, hexDigit?]
  induction h with
  | last digit =>
      exact .last (((List.forall_mem_cons.mp hrow).1).resolve_right fun h => hscore (h ▸ digit))
  | next digit _ ih =>
      obtain ⟨hb, hrow⟩ := List.forall_mem_cons.mp hrow
      exact .next (hb.resolve_right fun h => hscore (h ▸ digit)) (ih hrow)
  | apart digit _ ih =>
      obtain ⟨hb, hrow⟩ := List.forall_mem_cons.mp hrow
      exact .apart (hb.resolve_right fun h => hscore (h ▸ digit))
        (ih (List.forall_mem_cons.mp hrow).2)

theorem IsDigits.exists_cons (h : IsDigits base t) :
    ∃ b rest, t = b :: rest ∧ isDigitIn base b = true := by
  cases h with
  | last digit => exact ⟨_, _, rfl, digit⟩
  | next digit _ => exact ⟨_, _, rfl, digit⟩
  | apart digit _ => exact ⟨_, _, rfl, digit⟩

/-- The digits behind a row of digits go on from the number that the row spells. -/
theorem spelledFrom_append (before : Nat) (t more : Text) :
    spelledFrom base before (t ++ more) = spelledFrom base (spelledFrom base before t) more := by
  induction t generalizing before with
  | nil => rfl
  | cons b t ih => exact ih _

end Digits

/-- What is no digit does not come first among digits. -/
theorem IsDigits.head?_ne {base : Nat} {t : Text} (h : IsDigits base t) {b : UInt8}
    (hb : hexDigit? b = none) (rest : Text) : (t ++ rest).head? ≠ some b := by
  obtain ⟨c, more, rfl, hc⟩ := h.exists_cons
  rintro hhead
  obtain rfl : c = b := by simpa using hhead
  simp [isDigitIn, hb] at hc

theorem IsDigits.head_ne_sign {base : Nat} {t : Text} (h : IsDigits base t) :
    ∀ b ∈ t.head?, b ≠ 0x2B ∧ b ≠ 0x2D := by
  have hhead {c : UInt8} (hc : hexDigit? c = none) : t.head? ≠ some c := by
    simpa using h.head?_ne hc []
  rintro b hb
  constructor
  · rintro rfl
    exact hhead rfl hb
  · rintro rfl
    exact hhead rfl hb

/-! ## Grammar -/

/-- A sign, or none. -/
def IsSign (sign : Text) : Prop :=
  sign = [] ∨ sign = [0x2B] ∨ sign = [0x2D]

/-- A whole number with its sign. -/
def signed (sign : Text) (n : Nat) : Int :=
  if sign = [0x2D] then -(n : Int) else n

/-- Behind the mark of a base there may be an underscore. -/
def IsSkip (skip : Text) : Prop :=
  skip = [] ∨ skip = [0x5F]

/-- The base that a letter behind a leading zero names. -/
inductive Marks : UInt8 → Nat → Prop where
  | binary {c : UInt8} (h : c = 0x62 ∨ c = 0x42) : Marks c 2
  | octal {c : UInt8} (h : c = 0x6F ∨ c = 0x4F) : Marks c 8
  | hexadecimal {c : UInt8} (h : c = 0x78 ∨ c = 0x58) : Marks c 16

/-- A whole number: digits of base ten that start with no zero, digits of base eight that do, or
digits behind the mark of a base. -/
inductive Whole : Text → Nat → Prop where
  | decimal {b : UInt8} {t : Text} (first : b ≠ 0x30) (digits : IsDigits 10 (b :: t)) :
      Whole (b :: t) (spelled 10 (b :: t))
  | octal {t : Text} (digits : IsDigits 8 (0x30 :: t)) : Whole (0x30 :: t) (spelled 8 (0x30 :: t))
  | marked {c : UInt8} {base : Nat} {skip t : Text} (mark : Marks c base) (hskip : IsSkip skip)
      (digits : IsDigits base t) : Whole (0x30 :: c :: (skip ++ t)) (spelled base t)

/-- Digits, with or without a point. There may be none on one side of it. -/
inductive Significand (base : Nat) : Text → Mantissa → Prop where
  | whole {w : Text} (digits : IsDigits base w) :
      Significand base w ⟨spelled base w, 0, false, true⟩
  | point {w f : Text} (hw : w = [] ∨ IsDigits base w) (hf : f = [] ∨ IsDigits base f)
      (hne : w ≠ [] ∨ f ≠ []) :
      Significand base (w ++ 0x2E :: f) ⟨spelled base (w ++ f), digitCount f, true, true⟩

/-- The mark of an exponent. -/
def exponentMark (hex : Bool) : UInt8 :=
  if hex then 0x70 else 0x65

/-- A mark, small or capital, a sign or none, and digits. -/
inductive Exponent (mark : UInt8) : Text → Int → Prop where
  | digits {c : UInt8} {sign ds : Text} (hc : c = mark ∨ c = mark - 0x20) (hsign : IsSign sign)
      (digits : IsDigits 10 ds) : Exponent mark (c :: (sign ++ ds)) (signed sign (spelled 10 ds))

/-- A number with a point or an exponent, and always with an exponent in base sixteen. -/
inductive Floating : Text → Number → Prop where
  | point {t : Text} {m : Mantissa} (significand : Significand 10 t m)
      (hpoint : m.sawPoint = true) : Floating t ⟨false, m.value, 10, 0 - m.places⟩
  | exponent {t x : Text} {m : Mantissa} {e : Int} (significand : Significand 10 t m)
      (exponent : Exponent 0x65 x e) : Floating (t ++ x) ⟨false, m.value, 10, e - m.places⟩
  | hexadecimal {c : UInt8} {skip t x : Text} {m : Mantissa} {e : Int} (hc : c = 0x78 ∨ c = 0x58)
      (hskip : IsSkip skip) (hpoint : skip ≠ [] → t.head? ≠ some 0x2E)
      (significand : Significand 16 t m) (exponent : Exponent 0x70 x e) :
      Floating (0x30 :: c :: (skip ++ (t ++ x))) ⟨false, m.value, 2, e - (4 * m.places : Nat)⟩

/-! ## Bytes of numerals -/

theorem Significand.sawDigit {base : Nat} {t : Text} {m : Mantissa} (h : Significand base t m) :
    m.sawDigit = true := by
  cases h <;> rfl

/-- The bytes of a mantissa. -/
theorem Significand.bytes {base : Nat} {t : Text} {m : Mantissa} (h : Significand base t m) :
    ∀ b ∈ t, isDigitIn base b = true ∨ b = 0x5F ∨ b = 0x2E := by
  have hpart : ∀ t, t = [] ∨ IsDigits base t →
      ∀ b ∈ t, isDigitIn base b = true ∨ b = 0x5F ∨ b = 0x2E := by
    rintro t (rfl | h) b hb
    · exact absurd hb List.not_mem_nil
    · exact (h.isRow b hb).imp_right .inl
  cases h with
  | whole digits => exact hpart _ (.inr digits)
  | point hw hf _ =>
      rw [List.forall_mem_append, List.forall_mem_cons]
      exact ⟨hpart _ hw, .inr (.inr rfl), hpart _ hf⟩

section Decimal

/-- A byte of a number in base ten. -/
def isDecimalByte (b : UInt8) : Bool :=
  isDigitIn 10 b || [0x5F, 0x2E, 0x65, 0x45, 0x2B, 0x2D].contains b

variable {u : Text}

theorem IsRow.isDecimalByte (h : IsRow 10 u) : ∀ b ∈ u, isDecimalByte b = true := by
  intro b hb
  rcases h b hb with h | rfl
  · simp [Literal.isDecimalByte, h]
  · rfl

theorem Significand.isDecimalByte {m : Mantissa} (h : Significand 10 u m) :
    ∀ b ∈ u, isDecimalByte b = true := by
  intro b hb
  rcases h.bytes b hb with h | rfl | rfl
  · simp [Literal.isDecimalByte, h]
  · rfl
  · rfl

theorem Exponent.isDecimalByte {e : Int} (h : Exponent 0x65 u e) :
    ∀ b ∈ u, isDecimalByte b = true := by
  cases h with
  | digits hc hsign digits =>
      rw [List.forall_mem_cons, List.forall_mem_append]
      refine ⟨?_, ?_, digits.isRow.isDecimalByte⟩
      · rcases hc with rfl | rfl <;> rfl
      · rcases hsign with rfl | rfl | rfl <;> simp [Literal.isDecimalByte]

theorem ne_of_isDecimalByte {b : UInt8} (h : isDecimalByte b = true) {mark : UInt8}
    (hmark : isDecimalByte mark = false) : b ≠ mark := by
  rintro rfl
  exact Bool.eq_false_iff.mp hmark h

end Decimal

/-! ## One numeral is not another -/

section Apart

variable {u : Text} {n : Number} {k : Nat}

/-- A number with a point or an exponent has a byte that is neither a digit nor an underscore. -/
theorem Floating.not_isRow (h : Floating u n) : ¬IsRow 10 u := by
  intro hrow
  cases h with
  | point significand hpoint =>
      cases significand with
      | whole _ => exact absurd hpoint (by simp)
      | point _ _ _ => exact absurd (hrow 0x2E (by simp)) (by decide)
  | exponent _ exponent =>
      cases exponent with
      | @digits c _ _ hc _ _ =>
          have hbyte := hrow c (by simp)
          rcases hc with rfl | rfl <;> exact absurd hbyte (by decide)
  | @hexadecimal c _ _ _ _ _ hc _ _ _ _ =>
      have hbyte := hrow c (by simp)
      rcases hc with rfl | rfl <;> exact absurd hbyte (by decide)

theorem Marks.isDecimalByte {c : UInt8} {base : Nat} (h : Marks c base) :
    isDecimalByte c = false := by
  cases h with
  | binary h => rcases h with rfl | rfl <;> rfl
  | octal h => rcases h with rfl | rfl <;> rfl
  | hexadecimal h => rcases h with rfl | rfl <;> rfl

/-- A whole numeral of decimal bytes is a row of digits: nothing marks another base. -/
theorem Whole.isDigits_of_decimal (h : Whole u k) (hu : ∀ b ∈ u, isDecimalByte b = true) :
    IsDigits 10 u := by
  cases h with
  | decimal _ digits => exact digits
  | octal digits => exact digits.mono (by decide)
  | @marked c _ _ _ mark _ _ =>
      exact absurd (hu c (by simp)) (Bool.eq_false_iff.mp mark.isDecimalByte)

/-- Digits alone are read in base ten, or in base eight behind a zero. -/
theorem whole_iff_of_digits (hu : IsDigits 10 u) :
    Whole u k ↔ u.head? ≠ some 0x30 ∧ k = spelled 10 u ∨
      u.head? = some 0x30 ∧ IsDigits 8 u ∧ k = spelled 8 u := by
  constructor
  · intro h
    cases h with
    | decimal first _ => exact .inl ⟨by simpa using first, rfl⟩
    | octal digits => exact .inr ⟨rfl, digits, rfl⟩
    | @marked c _ _ _ mark _ _ =>
        exact absurd (hu.isRow.isDecimalByte c (by simp)) (Bool.eq_false_iff.mp mark.isDecimalByte)
  · obtain ⟨b, t, rfl, -⟩ := hu.exists_cons
    rintro (⟨hfirst, rfl⟩ | ⟨hfirst, digits, rfl⟩)
    · exact .decimal (by simpa using hfirst) hu
    · obtain rfl : b = 0x30 := by simpa using hfirst
      exact .octal digits

/-- No whole number has the mark of a binary exponent. -/
theorem Whole.not_mem_mark (h : Whole u k) {c : UInt8} (hc : c = 0x70 ∨ c = 0x50) : c ∉ u := by
  have hdigits {base : Nat} {t : Text} (digits : IsDigits base t) : c ∉ t := by
    intro hmem
    have hbyte := digits.isRow c hmem
    rcases hc with rfl | rfl <;> simp [isDigitIn, hexDigit?] at hbyte
  cases h with
  | decimal _ digits => exact hdigits digits
  | octal digits => exact hdigits digits
  | @marked c' base skip t mark hskip digits =>
      have hne : c ≠ c' := by
        rintro rfl
        cases mark with
        | binary h => rcases h with rfl | rfl <;> exact absurd hc (by decide)
        | octal h => rcases h with rfl | rfl <;> exact absurd hc (by decide)
        | hexadecimal h => rcases h with rfl | rfl <;> exact absurd hc (by decide)
      have hzero : c ≠ 0x30 := by rintro rfl; exact absurd hc (by decide)
      have hscore : c ≠ 0x5F := by rintro rfl; exact absurd hc (by decide)
      rcases hskip with rfl | rfl
      · simpa [hzero, hne] using hdigits digits
      · simpa [hzero, hne, hscore] using hdigits digits

/-- No number with a point or an exponent is a whole one. -/
theorem Floating.not_whole (h : Floating u n) : ¬Whole u k := by
  intro hwhole
  cases h with
  | point significand hpoint =>
      exact (Floating.point significand hpoint).not_isRow
        (hwhole.isDigits_of_decimal significand.isDecimalByte).isRow
  | exponent significand exponent =>
      refine (Floating.exponent significand exponent).not_isRow
        (hwhole.isDigits_of_decimal ?_).isRow
      rw [List.forall_mem_append]
      exact ⟨significand.isDecimalByte, exponent.isDecimalByte⟩
  | hexadecimal _ _ _ _ exponent =>
      cases exponent with
      | digits hc _ _ => exact hwhole.not_mem_mark hc (by simp)

end Apart

/-! ## Base eight and base ten -/

section Octal

variable {t : Text}

/-- More digits never make a number smaller. -/
theorem le_spelledFrom (before : Nat) (t : Text) : before ≤ spelledFrom 10 before t := by
  induction t generalizing before with
  | nil => exact Nat.le_refl _
  | cons b t ih =>
      refine Nat.le_trans ?_ (ih _)
      cases hexDigit? b with
      | none => exact Nat.le_refl _
      | some d => simp only [Option.elim_some]; omega

/-- Digits that spell less than eight are all digits of base eight. -/
theorem IsDigits.octal_of_lt (h : IsDigits 10 t) {before : Nat}
    (hlt : spelledFrom 10 before t < 8) : IsDigits 8 t := by
  have hdigit {before : Nat} {b : UInt8} {t : Text} (hb : isDigitIn 10 b = true)
      (hlt : spelledFrom 10 before (b :: t) < 8) : isDigitIn 8 b = true := by
    obtain ⟨d, -, hd⟩ := isDigitIn_iff.mp hb
    have hle := le_spelledFrom (before * 10 + d) t
    rw [spelledFrom, hd, Option.elim_some] at hlt
    exact isDigitIn_iff.mpr ⟨d, by omega, hd⟩
  induction h generalizing before with
  | last digit => exact .last (hdigit digit hlt)
  | next digit _ ih => exact .next (hdigit digit hlt) (ih hlt)
  | apart digit _ ih => exact .apart (hdigit digit hlt) (ih hlt)

/-- Two readings of the same digits are the same below eight, and else an eighth apart. -/
def Drift (octal decimal : Nat) : Prop :=
  octal = decimal ∧ decimal < 8 ∨ 9 * octal ≤ 8 * decimal ∧ 8 ≤ decimal

theorem Drift.digit {octal decimal d : Nat} (h : Drift octal decimal) (hd : d < 8) :
    Drift (octal * 8 + d) (decimal * 10 + d) := by
  unfold Drift at h ⊢
  omega

theorem drift_spelledFrom (h : IsRow 8 t) {octal decimal : Nat} (hdrift : Drift octal decimal) :
    Drift (spelledFrom 8 octal t) (spelledFrom 10 decimal t) := by
  induction t generalizing octal decimal with
  | nil => exact hdrift
  | cons b t ih =>
      obtain ⟨hb, ht⟩ := List.forall_mem_cons.mp h
      rw [spelledFrom, spelledFrom]
      apply ih ht
      rcases hb with hb | rfl
      · obtain ⟨d, hd, hdigit⟩ := isDigitIn_iff.mp hb
        rw [hdigit]
        exact hdrift.digit hd
      · exact hdrift

/-- The octal digits of a number from eight on spell less in base eight than in base ten. -/
theorem drift_spelled (h : IsRow 8 t) : Drift (spelled 8 t) (spelled 10 t) :=
  drift_spelledFrom h (.inl ⟨rfl, by decide⟩)

/-- Digits are read in base ten, or as well as in base ten, unless they stand behind a zero and
spell eight or more. -/
theorem whole_iff_eq_spelled (ht : IsDigits 10 t)
    (h : ¬(t.head? = some 0x30 ∧ 8 ≤ spelled 10 t)) {k : Nat} : Whole t k ↔ k = spelled 10 t := by
  rw [whole_iff_of_digits ht]
  by_cases hzero : t.head? = some 0x30
  · have hlt : spelled 10 t < 8 := Nat.lt_of_not_le fun hle => h ⟨hzero, hle⟩
    have hoctal : IsDigits 8 t := ht.octal_of_lt hlt
    have hsame : spelled 8 t = spelled 10 t := by
      have hdrift := drift_spelled hoctal.isRow
      unfold Drift at hdrift
      omega
    simp [hzero, hoctal, hsame]
  · simp [hzero]

/-- A zero in front makes a number from eight on smaller, by a ninth at least. -/
theorem Whole.le_of_zero {k : Nat} (h : Whole t k) (ht : IsDigits 10 t)
    (hzero : t.head? = some 0x30) (hle : 8 ≤ spelled 10 t) : 9 * k ≤ 8 * spelled 10 t := by
  rcases (whole_iff_of_digits ht).mp h with ⟨hfirst, -⟩ | ⟨-, hoctal, rfl⟩
  · exact absurd hzero hfirst
  · have hdrift := drift_spelled hoctal.isRow
    unfold Drift at hdrift
    omega

end Octal

end Schematic.Literal

namespace Schematic.Code

open Literal

/-! ## Numerals as they are written -/

theorem replaceLast_of_not_mem {old new : UInt8} {t : Text} (h : old ∉ t) :
    replaceLast old new t = t := by
  have htail : t.reverse.takeWhile (fun b => decide (b ≠ old)) = t.reverse := by
    rw [List.takeWhile_eq_self_iff]
    intro b hb
    simp only [decide_eq_true_eq]
    rintro rfl
    exact h (List.mem_reverse.mp hb)
  rw [replaceLast, htail, if_neg (by simp)]

theorem replaceLast_append {old new : UInt8} {s t : Text} (h : old ∉ t) :
    replaceLast old new (s ++ old :: t) = s ++ new :: t := by
  have htail : (s ++ old :: t).reverse.takeWhile (fun b => decide (b ≠ old)) = t.reverse := by
    rw [List.reverse_append, List.reverse_cons, List.append_assoc, List.takeWhile_append_of_pos]
    · simp
    · intro b hb
      simp only [decide_eq_true_eq]
      rintro rfl
      exact h (List.mem_reverse.mp hb)
  have hlength : (s ++ old :: t).length - t.length - 1 = s.length := by
    rw [List.length_append, List.length_cons]
    omega
  rw [replaceLast, htail, List.length_reverse, if_pos (by simp; omega), hlength,
    List.take_left, List.reverse_reverse]

/-- An exponent keeps its value when its mark becomes a small letter. -/
theorem exists_replaceLast {hex : Bool} {s x : Text} {e : Int}
    (hs : exponentMark hex - 0x20 ∉ s) (h : Exponent (exponentMark hex) x e) :
    ∃ x', Exponent (exponentMark hex) x' e ∧
      replaceLast (exponentMark hex - 0x20) (exponentMark hex) (s ++ x) = s ++ x' := by
  cases h with
  | @digits c sign ds hc hsign digits =>
      have hbehind : exponentMark hex - 0x20 ∉ sign ++ ds := by
        rw [List.mem_append]
        rintro (h | h)
        · revert h
          rcases hsign with rfl | rfl | rfl <;> cases hex <;> decide
        · have hbyte := digits.isRow _ h
          revert hbyte
          cases hex <;> decide
      rcases hc with rfl | rfl
      · refine ⟨_, .digits (.inl rfl) hsign digits, replaceLast_of_not_mem ?_⟩
        rw [List.mem_append, List.mem_cons]
        rintro (h | h | h)
        · exact hs h
        · revert h
          cases hex <;> decide
        · exact hbehind h
      · exact ⟨_, .digits (.inl rfl) hsign digits, replaceLast_append hbehind⟩

theorem normalNumber_of_decimal {u : Text} (h : ∀ b ∈ u, isDecimalByte b = true) :
    normalNumber u = replaceLast 0x45 0x65 u := by
  unfold normalNumber
  split
  · exact absurd (h 0x58 (by simp)) (by decide)
  · exact absurd (h 0x78 (by simp)) (by decide)
  · rfl

theorem normalNumber_of_digits {u : Text} (h : IsDigits 10 u) : normalNumber u = u := by
  rw [normalNumber_of_decimal h.isRow.isDecimalByte]
  exact replaceLast_of_not_mem fun hmem => absurd (h.isRow _ hmem) (by decide)

/-- A number keeps its value when its letters become small. -/
theorem floating_normalNumber {u : Text} {n : Number} (h : Floating u n) :
    Floating (normalNumber u) n := by
  cases h with
  | point significand hpoint =>
      rw [normalNumber_of_decimal significand.isDecimalByte, replaceLast_of_not_mem]
      · exact .point significand hpoint
      · exact fun hmem => absurd (significand.bytes _ hmem) (by decide)
  | @exponent t x m e significand exponent =>
      have hmark : exponentMark false - 0x20 ∉ t :=
        fun hmem => absurd (significand.bytes _ hmem) (by decide)
      obtain ⟨x', hx', hreplace⟩ := exists_replaceLast hmark exponent
      have hdecimal : ∀ b ∈ t ++ x, isDecimalByte b = true := by
        rw [List.forall_mem_append]
        exact ⟨significand.isDecimalByte, exponent.isDecimalByte⟩
      rw [normalNumber_of_decimal hdecimal]
      exact hreplace ▸ .exponent significand hx'
  | @hexadecimal c skip t x m e hc hskip hpoint significand exponent =>
      have hmark : exponentMark true - 0x20 ∉ skip ++ t := by
        rw [List.mem_append]
        rintro (h | h)
        · revert h
          rcases hskip with rfl | rfl <;> decide
        · exact absurd (significand.bytes _ h) (by decide)
      obtain ⟨x', hx', hreplace⟩ := exists_replaceLast hmark exponent
      rw [List.append_assoc, List.append_assoc] at hreplace
      have hnormal : normalNumber (0x30 :: c :: (skip ++ (t ++ x))) =
          0x30 :: 0x78 :: (skip ++ (t ++ x')) := by
        rcases hc with rfl | rfl
        · exact congrArg (fun t => 0x30 :: 0x78 :: t) hreplace
        · exact congrArg (fun t => 0x30 :: 0x78 :: t) hreplace
      rw [hnormal]
      exact .hexadecimal (.inl rfl) hskip hpoint significand hx'

end Schematic.Code
