import Mathlib.Data.Option.Basic
import Schematic.Proofs.Numerals

/-!
# Reading numbers

Main statements: a number that the schema language reads is either spelled in digits alone or has a
point or an exponent, and of these the target language reads the same number, but for the digits of
an exponent beyond those that are kept.
-/

namespace Schematic.Literal

/-! ## Reading digits -/

/-- The base of the digits of a number. -/
def radix (hex : Bool) : Nat :=
  if hex then 16 else 10

theorem digit?_eq (hex : Bool) (b : UInt8) :
    digit? hex b = (hexDigit? b).filter fun d => d < radix hex := by
  cases hex with
  | true =>
      exact forall_byte (motive := fun b => digit? true b = (hexDigit? b).filter fun d => d < 16)
        (by decide +kernel) b
  | false =>
      exact forall_byte (motive := fun b => digit? false b = (hexDigit? b).filter fun d => d < 10)
        (by decide +kernel) b

theorem digit?_eq_some {hex : Bool} {b : UInt8} (h : isDigitIn (radix hex) b = true) :
    ∃ d, hexDigit? b = some d ∧ digit? hex b = some d := by
  obtain ⟨d, hd, hb⟩ := isDigitIn_iff.mp h
  exact ⟨d, hb, by simp [digit?_eq, hb, Option.filter, hd]⟩

theorem isSome_digit? (hex : Bool) (b : UInt8) :
    (digit? hex b).isSome = isDigitIn (radix hex) b := by
  rw [digit?_eq, isDigitIn]
  cases hexDigit? b <;> simp [Option.filter, apply_ite]

theorem digit?_eq_none {hex : Bool} {b : UInt8} (h : isDigitIn (radix hex) b = false) :
    digit? hex b = none := by
  rw [← isSome_digit?] at h
  simpa using h

/-- What is read of a mantissa when a row of digits follows. -/
def Mantissa.after (hex : Bool) (m : Mantissa) (w : Text) : Mantissa where
  value := spelledFrom (radix hex) m.value w
  places := if m.sawPoint then m.places + digitCount w else m.places
  sawPoint := m.sawPoint
  sawDigit := m.sawDigit || digitCount w ≠ 0

theorem readMantissa_row {hex : Bool} {w : Text} (hw : IsRow (radix hex) w) (m : Mantissa)
    (rest : Text) : readMantissa hex m (w ++ rest) = readMantissa hex (m.after hex w) rest := by
  induction w generalizing m with
  | nil => simp [Mantissa.after, spelledFrom, digitCount]
  | cons b w ih =>
      obtain ⟨hb, hrest⟩ := List.forall_mem_cons.mp hw
      rw [List.cons_append, readMantissa]
      by_cases hscore : b = 0x5F
      · subst hscore
        rw [if_pos rfl, ih hrest]
        rfl
      · have hdigit := hb.resolve_right hscore
        obtain ⟨d, hd, hd'⟩ := digit?_eq_some hdigit
        have hpoint : b ≠ 0x2E := by
          rintro rfl
          exact absurd hdigit (by cases hex <;> decide)
        rw [if_neg hscore, if_neg hpoint, hd']
        dsimp only
        rw [ih hrest]
        congr 1
        simp only [Mantissa.after, spelledFrom, digitCount, hd, List.countP_cons,
          Option.isSome_some, if_true, Option.elim_some, radix]
        cases hsaw : m.sawPoint with
        | false => simp
        | true => simp [Nat.add_assoc, Nat.add_comm]

/-- No row of digits goes on here. -/
def Ends (hex : Bool) (rest : Text) : Prop :=
  ∀ b ∈ rest.head?, isDigitIn (radix hex) b = false ∧ b ≠ 0x5F

/-- Neither a row of digits nor a point goes on here. -/
def Stops (hex : Bool) (rest : Text) : Prop :=
  Ends hex rest ∧ rest.head? ≠ some 0x2E

theorem readMantissa_ends {hex : Bool} {m : Mantissa} {rest : Text} (h : Ends hex rest)
    (hpoint : m.sawPoint = true ∨ rest.head? ≠ some 0x2E) :
    readMantissa hex m rest = (m, rest) := by
  cases rest with
  | nil => rfl
  | cons b rest =>
      obtain ⟨hdigit, hscore⟩ := h b rfl
      rw [readMantissa, if_neg hscore, digit?_eq_none hdigit]
      split
      · rename_i hb
        rw [if_pos (hpoint.resolve_right (by simp [hb]))]
      · rfl

theorem readMantissa_stop {hex : Bool} {rest : Text} (h : Stops hex rest) (m : Mantissa) :
    readMantissa hex m rest = (m, rest) :=
  readMantissa_ends h.1 (.inr h.2)

theorem IsDigits.digitCount_ne_zero {base : Nat} {t : Text} (h : IsDigits base t) :
    digitCount t ≠ 0 := by
  obtain ⟨b, rest, rfl, hb⟩ := h.exists_cons
  obtain ⟨d, -, hd⟩ := isDigitIn_iff.mp hb
  simp [digitCount, hd]

/-- The mantissa that is read is the one that is spelled. -/
theorem readMantissa_significand {hex : Bool} {t rest : Text} {m : Mantissa}
    (h : Significand (radix hex) t m) (hrest : Stops hex rest) :
    readMantissa hex {} (t ++ rest) = (m, rest) := by
  cases h with
  | whole digits =>
      rw [readMantissa_row digits.isRow, readMantissa_stop hrest]
      simp [Mantissa.after, spelled, digits.digitCount_ne_zero]
  | @point w f hw hf hne =>
      have hrow : ∀ t, t = [] ∨ IsDigits (radix hex) t → IsRow (radix hex) t := by
        rintro t (rfl | h)
        · simp [IsRow]
        · exact h.isRow
      have hdigit : digitCount w ≠ 0 ∨ digitCount f ≠ 0 := by
        rcases hne with hne | hne
        · exact .inl (hw.resolve_left hne).digitCount_ne_zero
        · exact .inr (hf.resolve_left hne).digitCount_ne_zero
      rw [List.append_assoc, readMantissa_row (hrow w hw), List.cons_append, readMantissa]
      simp only [Mantissa.after, Bool.false_eq_true, if_false, if_true,
        show (0x2E : UInt8) ≠ 0x5F by decide]
      rw [readMantissa_row (hrow f hf), readMantissa_stop hrest]
      simp [Mantissa.after, spelled, spelledFrom_append, hdigit]

/-! ## Underscores -/

theorem separated_digits {hex : Bool} {base : Nat} (hbase : base ≤ radix hex) {w : Text}
    (h : IsDigits base w) (before : Neighbour) (rest : Text) :
    separated hex before (w ++ rest) = separated hex .digit rest := by
  have hsome {b : UInt8} (digit : isDigitIn base b = true) : (digit? hex b).isSome = true := by
    rw [isSome_digit?]
    exact isDigitIn_mono digit hbase
  induction h generalizing before with
  | last digit => simp [separated, hsome digit]
  | next digit _ ih => simp [separated, hsome digit, ih]
  | apart digit _ ih =>
      have hscore : (digit? hex 0x5F).isSome = false := by cases hex <;> rfl
      simp [separated, hsome digit, hscore, ih]

theorem separated_stop {hex : Bool} {rest : Text} (h : Stops hex rest) :
    separated hex .digit rest = separated hex .other rest := by
  cases rest with
  | nil => rfl
  | cons b rest =>
      obtain ⟨hdigit, hscore⟩ := h.1 b rfl
      rw [← isSome_digit?] at hdigit
      simp [separated, hdigit, hscore]

theorem separated_significand {hex : Bool} {t rest : Text} {m : Mantissa}
    (h : Significand (radix hex) t m) (hrest : Stops hex rest) {before : Neighbour}
    (hbefore : before = .underscore → t.head? ≠ some 0x2E) :
    separated hex before (t ++ rest) = separated hex .other rest := by
  have hpoint : (digit? hex 0x2E).isSome = false := by cases hex <;> rfl
  cases h with
  | whole digits => rw [separated_digits (Nat.le_refl _) digits, separated_stop hrest]
  | @point w f hw hf hne =>
      have hbehind : separated hex .other (f ++ rest) = separated hex .other rest := by
        rcases hf with rfl | hf
        · rfl
        · rw [separated_digits (Nat.le_refl _) hf, separated_stop hrest]
      rw [List.append_assoc, List.cons_append]
      rcases hw with rfl | hw
      · have hne : before ≠ .underscore := fun h => hbefore h rfl
        simp [separated, hpoint, hne, hbehind]
      · rw [separated_digits (Nat.le_refl _) hw]
        simp [separated, hpoint, hbehind]

/-! ## Exponents -/

theorem isDigitByte_eq (b : UInt8) : Text.isDigitByte b = isDigitIn 10 b :=
  forall_byte (motive := fun b => Text.isDigitByte b = isDigitIn 10 b) (by decide +kernel) b

theorem readExponent_digits {ds : Text} (h : IsRow 10 ds) (e : Nat) :
    (readExponent e ds).2 = [] := by
  induction ds generalizing e with
  | nil => rfl
  | cons b ds ih =>
      obtain ⟨hb, hds⟩ := List.forall_mem_cons.mp h
      rw [readExponent]
      split
      · exact ih hds e
      · rename_i hscore
        rw [isDigitByte_eq, if_pos (hb.resolve_right hscore)]
        exact ih hds _

theorem readSign_unsigned {u : Text} (hu : ∀ b ∈ u.head?, b ≠ 0x2B ∧ b ≠ 0x2D) :
    readSign u = (false, u) := by
  unfold readSign
  split
  · exact absurd rfl (hu _ rfl).2
  · exact absurd rfl (hu _ rfl).1
  · rfl

theorem readSign_append {sign u : Text} (hsign : IsSign sign)
    (hu : ∀ b ∈ u.head?, b ≠ 0x2B ∧ b ≠ 0x2D) :
    readSign (sign ++ u) = (decide (sign = [0x2D]), u) := by
  rcases hsign with rfl | rfl | rfl
  · exact readSign_unsigned hu
  · rfl
  · rfl

/-- An exponent is read up to what is kept of its digits. -/
theorem exponentPart?_digits {mark c : UInt8} {sign ds : Text} (hc : c = mark ∨ c = mark - 0x20)
    (hsign : IsSign sign) (digits : IsDigits 10 ds) :
    exponentPart? mark (c :: (sign ++ ds)) = some (some (signed sign (keptExponent ds))) := by
  have hread : readExponent 0 ds = (keptExponent ds, []) :=
    Prod.ext rfl (readExponent_digits digits.isRow 0)
  rw [exponentPart?, if_pos (by simpa using hc), readSign_append hsign digits.head_ne_sign]
  obtain ⟨d, rest, rfl, hd⟩ := digits.exists_cons
  simp only [isDigitByte_eq, hd, if_true, hread, signed, decide_eq_true_eq]

/-! ## Reading numbers -/

/-- The number of a mantissa and an exponent. -/
def numberOf (negative hex : Bool) (m : Mantissa) (e : Int) : Number where
  negative := negative
  mantissa := m.value
  base := if hex then 2 else 10
  exponent := e - (if hex then 4 * m.places else m.places : Nat)

theorem number?_eq_some_iff {t : Text} {n : Number} :
    number? t = some n ↔ ∃ e : Option Int,
      (mantissaOf t).1.sawDigit = true ∧
      exponentPart? (exponentMark (isHex t)) (mantissaOf t).2 = some e ∧
      (isHex t = true → e.isSome = true) ∧
      (0x5F ∈ (readSign t).2 → underscoresOk (readSign t).2 = true) ∧
      n = numberOf (readSign t).1 (isHex t) (mantissaOf t).1 (e.getD 0) := by
  unfold mantissaOf unmarked isHex exponentMark numberOf number?
  rcases readSign t with ⟨negative, unsigned⟩
  dsimp only
  cases hexBody? unsigned with
  | none =>
      simp [Option.guard_eq_some', Option.bind_eq_some_iff, ← imp_iff_not_or, @eq_comm _ n]
  | some body =>
      simp [Option.guard_eq_some', Option.bind_eq_some_iff, ← imp_iff_not_or, @eq_comm _ n]

section Decimal

variable {u : Text}

theorem hexBody?_of_decimal (h : ∀ b ∈ u, isDecimalByte b = true) : hexBody? u = none := by
  unfold hexBody?
  split
  · rename_i c b t
    have hc : isDecimalByte c = true := h c (by simp)
    have hsmall : c ≠ 0x78 := ne_of_isDecimalByte hc rfl
    have hcapital : c ≠ 0x58 := ne_of_isDecimalByte hc rfl
    simp [hsmall, hcapital]
  · rfl

theorem underscoresOk_of_decimal (h : ∀ b ∈ u, isDecimalByte b = true) :
    underscoresOk u = separated false .other u := by
  unfold underscoresOk
  split
  · rename_i c t
    have hc : isDecimalByte c = true := h c (by simp)
    have hne (mark : UInt8) (hmark : isDecimalByte mark = false) : c ≠ mark :=
      ne_of_isDecimalByte hc hmark
    simp [hne 0x78 rfl, hne 0x58 rfl, hne 0x62 rfl, hne 0x42 rfl, hne 0x6F rfl, hne 0x4F rfl]
  · rfl

end Decimal

/-! ## Numbers that are spelled -/

section Spelled

variable {t s rest : Text} {m : Mantissa}

theorem Stops.nil (hex : Bool) : Stops hex [] := by
  simp [Stops, Ends]

theorem Exponent.stops {hex : Bool} {e : Int} (h : Exponent (exponentMark hex) rest e) :
    Stops hex rest := by
  cases h with
  | digits hc _ _ =>
      constructor
      · intro b hb
        obtain rfl := Option.some.inj hb
        cases hex <;> rcases hc with rfl | rfl <;> decide
      · rw [List.head?_cons]
        cases hex <;> rcases hc with rfl | rfl <;> decide

/-- The marks of an exponent and its sign stand next to no underscore. -/
theorem Exponent.separated {hex : Bool} {e : Int} (h : Exponent (exponentMark hex) rest e) :
    separated hex .other rest = true := by
  cases h with
  | @digits c sign ds hc hsign digits =>
      have hds : Literal.separated hex .other ds = true := by
        have hbase : 10 ≤ radix hex := by cases hex <;> decide
        rw [← List.append_nil ds, separated_digits hbase digits]
        rfl
      have hmark : (digit? hex c).isSome = false ∧ c ≠ 0x5F := by
        cases hex <;> rcases hc with rfl | rfl <;> decide
      have hbehind : Literal.separated hex .other (sign ++ ds) = true := by
        have hplus : (digit? hex 0x2B).isSome = false := by cases hex <;> rfl
        have hminus : (digit? hex 0x2D).isSome = false := by cases hex <;> rfl
        rcases hsign with rfl | rfl | rfl
        · exact hds
        · simp [Literal.separated, hplus, hds]
        · simp [Literal.separated, hminus, hds]
      simp [Literal.separated, hmark, hbehind]

theorem mantissaOf_decimal (hsplit : (readSign t).2 = s ++ rest) (hs : Significand 10 s m)
    (hrest : Stops false rest) (hbytes : ∀ b ∈ rest, isDecimalByte b = true) :
    isHex t = false ∧ mantissaOf t = (m, rest) ∧
      underscoresOk (readSign t).2 = Literal.separated false .other rest := by
  have hdecimal : ∀ b ∈ (readSign t).2, isDecimalByte b = true := by
    rw [hsplit, List.forall_mem_append]
    exact ⟨hs.isDecimalByte, hbytes⟩
  have hbody := hexBody?_of_decimal hdecimal
  have hhex : isHex t = false := by rw [isHex, hbody]; rfl
  refine ⟨hhex, ?_, ?_⟩
  · rw [mantissaOf, hhex, unmarked, hbody, Option.getD_none, hsplit]
    exact readMantissa_significand hs hrest
  · rw [underscoresOk_of_decimal hdecimal, hsplit]
    exact separated_significand (show Significand (radix false) s m from hs) hrest (by simp)

theorem number?_of_mantissaOf {e : Option Int} (hm : mantissaOf t = (m, rest))
    (hdigit : m.sawDigit = true) (he : exponentPart? (exponentMark (isHex t)) rest = some e)
    (hsome : isHex t = true → e.isSome = true) (hscore : underscoresOk (readSign t).2 = true) :
    number? t = some (numberOf (readSign t).1 (isHex t) m (e.getD 0)) := by
  rw [number?_eq_some_iff, hm]
  exact ⟨e, hdigit, he, hsome, fun _ => hscore, rfl⟩

/-- Digits alone are read in base ten. -/
theorem number?_of_digits (h : IsDigits 10 (readSign t).2) :
    number? t = some ⟨(readSign t).1, spelled 10 (readSign t).2, 10, 0⟩ ∧ lostExponent t = 0 := by
  obtain ⟨hhex, hm, hscore⟩ := mantissaOf_decimal (List.append_nil _).symm (.whole h)
    (Stops.nil false) (by simp)
  constructor
  · rw [number?_of_mantissaOf hm rfl (e := none) rfl (by simp [hhex]) hscore, hhex]
    rfl
  · rw [lostExponent, hm]
    rfl

theorem mantissaOf_hexadecimal {c : UInt8} {skip : Text} (hc : c = 0x78 ∨ c = 0x58)
    (hskip : IsSkip skip) (hsplit : (readSign t).2 = 0x30 :: c :: (skip ++ (s ++ rest)))
    (hpoint : skip ≠ [] → s.head? ≠ some 0x2E) (hs : Significand 16 s m)
    (hrest : Stops true rest) :
    isHex t = true ∧ mantissaOf t = (m, rest) ∧
      underscoresOk (readSign t).2 = Literal.separated true .other rest := by
  have hread : readMantissa true {} (s ++ rest) = (m, rest) :=
    readMantissa_significand (show Significand (radix true) s m from hs) hrest
  have hmark : (decide (c = 0x78) || decide (c = 0x58)) = true := by simpa using hc
  have hbody : hexBody? (readSign t).2 = some (skip ++ (s ++ rest)) := by
    have hne : skip ++ (s ++ rest) ≠ [] := by
      cases hs with
      | whole digits => simp [digits.ne_nil]
      | point _ _ _ => simp
    obtain ⟨b, more, hmore⟩ := List.exists_cons_of_ne_nil hne
    rw [hsplit, hmore, hexBody?, if_pos hmark]
  have hhex : isHex t = true := by rw [isHex, hbody]; rfl
  refine ⟨hhex, ?_, ?_⟩
  · rw [mantissaOf, hhex, unmarked, hbody, Option.getD_some]
    rcases hskip with rfl | rfl
    · exact hread
    · rw [List.singleton_append, readMantissa, if_pos rfl, hread]
  · rw [hsplit, underscoresOk, if_pos hmark]
    rcases hskip with rfl | rfl
    · exact separated_significand (show Significand (radix true) s m from hs) hrest (by simp)
    · rw [List.singleton_append, Literal.separated]
      exact separated_significand (show Significand (radix true) s m from hs) hrest
        fun _ => hpoint (by simp)

/-- What is kept of an exponent and what it loses make up the whole of it. -/
theorem scaled_lostExponent {c : UInt8} {sign ds : Text}
    (hm : mantissaOf t = (m, c :: (sign ++ ds))) (hsign : IsSign sign) (digits : IsDigits 10 ds)
    (negative hex : Bool) :
    (numberOf negative hex m (signed sign (keptExponent ds))).scaled (lostExponent t) =
      numberOf negative hex m (signed sign (spelled 10 ds)) := by
  rw [lostExponent, hm, List.tail_cons, readSign_append hsign digits.head_ne_sign]
  simp only [numberOf, Number.scaled, signed, decide_eq_true_eq, Number.mk.injEq, true_and]
  split <;> omega

/-- A number with a point or an exponent is read up to what its exponent loses. -/
theorem number?_of_floating {n : Number} (h : Floating (readSign t).2 n) :
    ∃ n', number? t = some n' ∧
      n'.scaled (lostExponent t) = { n with negative := (readSign t).1 } := by
  generalize hu : (readSign t).2 = u at h
  cases h with
  | point significand hpoint =>
      obtain ⟨hhex, hm, hscore⟩ := mantissaOf_decimal (hu.trans (List.append_nil _).symm)
        significand (Stops.nil false) (by simp)
      refine ⟨_, number?_of_mantissaOf hm significand.sawDigit (e := none) rfl (by simp [hhex])
        hscore, ?_⟩
      have hlost : lostExponent t = 0 := by rw [lostExponent, hm]; rfl
      rw [hlost, hhex]
      simp [numberOf, Number.scaled]
  | exponent significand exponent =>
      have hexponent : Exponent (exponentMark false) _ _ := exponent
      obtain ⟨hhex, hm, hscore⟩ := mantissaOf_decimal hu significand hexponent.stops
        exponent.isDecimalByte
      rw [hexponent.separated] at hscore
      cases exponent with
      | digits hc hsign digits =>
          refine ⟨_, number?_of_mantissaOf hm significand.sawDigit
            (by rw [hhex]; exact exponentPart?_digits hc hsign digits) (by simp) hscore, ?_⟩
          rw [hhex]
          exact scaled_lostExponent hm hsign digits _ false
  | hexadecimal hc hskip hpoint significand exponent =>
      have hexponent : Exponent (exponentMark true) _ _ := exponent
      obtain ⟨hhex, hm, hscore⟩ := mantissaOf_hexadecimal hc hskip hu hpoint significand
        hexponent.stops
      rw [hexponent.separated] at hscore
      cases exponent with
      | digits hc hsign digits =>
          refine ⟨_, number?_of_mantissaOf hm significand.sawDigit
            (by rw [hhex]; exact exponentPart?_digits hc hsign digits) (by simp) hscore, ?_⟩
          rw [hhex]
          exact scaled_lostExponent hm hsign digits _ true

end Spelled

/-! ## Numbers that are read -/

section Read

variable {hex : Bool} {base : Nat} {before : Neighbour} {w body rest : Text}

theorem exists_row (hex : Bool) (t : Text) :
    ∃ w rest, t = w ++ rest ∧ IsRow (radix hex) w ∧ Ends hex rest := by
  let continues : UInt8 → Bool := fun b => isDigitIn (radix hex) b || b = 0x5F
  refine ⟨t.takeWhile continues, t.dropWhile continues, List.takeWhile_append_dropWhile.symm,
    ?_, ?_⟩
  · intro b hb
    simpa [continues] using List.mem_takeWhile_imp hb
  · intro b hb
    have hhead := List.head?_dropWhile_not continues t
    rw [Option.mem_def.mp hb] at hhead
    simpa [continues] using hhead

/-- A mantissa is a row of digits, or two with a point between them. -/
theorem exists_rows_of_readMantissa {m : Mantissa} (h : readMantissa hex {} body = (m, rest)) :
    ∃ w, IsRow (radix hex) w ∧
      (body = w ++ rest ∧ (m.sawDigit = true → w ≠ []) ∨
        ∃ f, IsRow (radix hex) f ∧ body = w ++ 0x2E :: (f ++ rest) ∧
          (m.sawDigit = true → w ≠ [] ∨ f ≠ [])) := by
  obtain ⟨w, more, rfl, hw, hmore⟩ := exists_row hex body
  refine ⟨w, hw, ?_⟩
  rw [readMantissa_row hw] at h
  by_cases hpoint : more.head? = some 0x2E
  · obtain ⟨more, rfl⟩ : ∃ t, more = 0x2E :: t := by
      cases more with
      | nil => simp at hpoint
      | cons b t => exact ⟨t, by simpa using hpoint⟩
    obtain ⟨f, rest', rfl, hf, hrest'⟩ := exists_row hex more
    rw [readMantissa] at h
    simp only [Mantissa.after, Bool.false_eq_true, if_false, if_true,
      show (0x2E : UInt8) ≠ 0x5F by decide] at h
    rw [readMantissa_row hf, readMantissa_ends hrest' (.inl rfl)] at h
    obtain ⟨rfl, rfl⟩ := Prod.mk.inj h
    refine .inr ⟨f, hf, rfl, ?_⟩
    intro hdigit
    by_contra hempty
    obtain ⟨rfl, rfl⟩ : w = [] ∧ f = [] := by simpa using hempty
    simp [Mantissa.after, digitCount] at hdigit
  · rw [readMantissa_stop ⟨hmore, hpoint⟩] at h
    obtain ⟨rfl, rfl⟩ := Prod.mk.inj h
    refine .inl ⟨rfl, ?_⟩
    rintro hdigit rfl
    simp [Mantissa.after, digitCount] at hdigit

/-- A row in which every underscore stands between two digits, or directly behind one. -/
theorem digits_of_separated (hbase : base ≤ radix hex) (hw : IsRow base w) (hrest : Ends hex rest)
    (h : separated hex before (w ++ rest) = true) :
    (w = [] ∧ before ≠ .underscore ∨ IsDigits base w ∨
      before = .digit ∧ ∃ w', w = 0x5F :: w' ∧ IsDigits base w') ∧
    separated hex .other rest = true := by
  -- What was read last is carried along: only a digit lets the row start with an underscore.
  induction w generalizing before with
  | nil =>
      cases rest with
      | nil => exact ⟨.inl ⟨rfl, by simpa [separated] using h⟩, rfl⟩
      | cons b rest =>
          obtain ⟨hdigit, hscore⟩ := hrest b rfl
          rw [← isSome_digit?] at hdigit
          simp only [List.nil_append, separated, hdigit, hscore, Bool.false_eq_true, if_false,
            Bool.and_eq_true, decide_eq_true_eq] at h
          exact ⟨.inl ⟨rfl, h.1⟩, by simpa [separated, hdigit, hscore] using h.2⟩
  | cons b w ih =>
      obtain ⟨hb, hmore⟩ := List.forall_mem_cons.mp hw
      rw [List.cons_append, separated, isSome_digit?] at h
      by_cases hdigit : isDigitIn base b = true
      · rw [if_pos (isDigitIn_mono hdigit hbase)] at h
        obtain ⟨hshape, hother⟩ := ih hmore h
        refine ⟨.inr (.inl ?_), hother⟩
        rcases hshape with ⟨rfl, -⟩ | hdigits | ⟨-, w', rfl, hdigits⟩
        · exact .last hdigit
        · exact .next hdigit hdigits
        · exact .apart hdigit hdigits
      · obtain rfl := hb.resolve_left hdigit
        have hnone : isDigitIn (radix hex) 0x5F = false := by cases hex <;> rfl
        rw [hnone, if_neg (by simp), if_pos rfl, Bool.and_eq_true, decide_eq_true_eq] at h
        obtain ⟨hshape, hother⟩ := ih hmore h.2
        refine ⟨.inr (.inr ⟨h.1, w, rfl, ?_⟩), hother⟩
        rcases hshape with ⟨-, hne⟩ | hdigits | ⟨hne, -⟩
        · exact absurd rfl hne
        · exact hdigits
        · exact absurd hne (by simp)

theorem separated_of_not_mem (h : 0x5F ∉ w) (hbefore : before ≠ .underscore) :
    separated hex before w = true := by
  induction w generalizing before with
  | nil => simpa [separated] using hbefore
  | cons b w ih =>
      obtain ⟨hb, hw⟩ := not_or.mp (List.mem_cons.not.mp h)
      rw [separated]
      split
      · exact ih hw (by simp)
      · rw [if_neg (Ne.symm hb), ih hw (by simp)]
        simpa using hbefore

/-- What is read as a mantissa is spelled as one, where underscores stand in their places. -/
theorem exists_significand {m : Mantissa} (hread : readMantissa hex {} body = (m, rest))
    (hdigit : m.sawDigit = true) (hrest : Ends hex rest)
    (hsep : separated hex before body = true) :
    ∃ skip s m', body = skip ++ (s ++ rest) ∧ IsSkip skip ∧
      (skip ≠ [] → before = .digit ∧ s.head? ≠ some 0x2E) ∧
      Significand (radix hex) s m' ∧ (m'.sawPoint = true ∨ IsDigits (radix hex) s) ∧
      separated hex .other rest = true := by
  have hpoint : (digit? hex 0x2E).isSome = false := by cases hex <;> rfl
  obtain ⟨w, hw, ⟨rfl, hne⟩ | ⟨f, hf, rfl, hne⟩⟩ := exists_rows_of_readMantissa hread
  · obtain ⟨hshape, hother⟩ := digits_of_separated (Nat.le_refl _) hw hrest hsep
    rcases hshape with ⟨rfl, -⟩ | hdigits | ⟨hdigit, w', rfl, hdigits⟩
    · exact absurd rfl (hne hdigit)
    · exact ⟨[], w, _, rfl, .inl rfl, by simp, .whole hdigits, .inr hdigits, hother⟩
    · refine ⟨[0x5F], w', _, rfl, .inr rfl, fun _ => ⟨hdigit, ?_⟩, .whole hdigits, .inr hdigits,
        hother⟩
      simpa using hdigits.head?_ne rfl []
  · have hends : Ends hex (0x2E :: (f ++ rest)) := by
      intro b hb
      obtain rfl := Option.some.inj hb
      cases hex <;> decide
    obtain ⟨hwhole, hother⟩ := digits_of_separated (Nat.le_refl _) hw hends hsep
    have hbehind : separated hex .other (f ++ rest) = true := by
      simpa [separated, hpoint] using hother
    obtain ⟨hfraction, hother⟩ := digits_of_separated (Nat.le_refl _) hf hrest hbehind
    have hf' : f = [] ∨ IsDigits (radix hex) f := by
      rcases hfraction with ⟨h, -⟩ | h | ⟨h, -⟩
      · exact .inl h
      · exact .inr h
      · exact absurd h (by simp)
    rcases hwhole with ⟨rfl, -⟩ | hdigits | ⟨hdigit', w', rfl, hdigits⟩
    · exact ⟨[], [] ++ 0x2E :: f, _, by simp, .inl rfl, by simp,
        .point (.inl rfl) hf' (hne hdigit), .inl rfl, hother⟩
    · exact ⟨[], w ++ 0x2E :: f, _, by simp, .inl rfl, by simp,
        .point (.inr hdigits) hf' (hne hdigit), .inl rfl, hother⟩
    · exact ⟨[0x5F], w' ++ 0x2E :: f, _, by simp, .inr rfl,
        fun _ => ⟨hdigit', hdigits.head?_ne rfl _⟩,
        .point (.inr hdigits) hf' (.inl hdigits.ne_nil), .inl rfl, hother⟩

theorem exists_sign (t : Text) : ∃ sign, IsSign sign ∧ t = sign ++ (readSign t).2 := by
  unfold readSign
  split
  · exact ⟨[0x2D], .inr (.inr rfl), rfl⟩
  · exact ⟨[0x2B], .inr (.inl rfl), rfl⟩
  · exact ⟨[], .inl rfl, rfl⟩

theorem isRow_of_readExponent {e : Nat} (h : (readExponent e w).2 = []) : IsRow 10 w := by
  induction w generalizing e with
  | nil => simp [IsRow]
  | cons b w ih =>
      rw [readExponent] at h
      rw [IsRow, List.forall_mem_cons]
      split at h
      · rename_i hb
        exact ⟨.inr hb, ih h⟩
      · split at h
        · rename_i hb
          rw [isDigitByte_eq] at hb
          exact ⟨.inl hb, ih h⟩
        · exact absurd h (by simp)

/-- What can be read as an exponent: nothing, or a mark, a sign or none and a row of digits. -/
theorem exponentPart?_cases {mark : UInt8} {e : Option Int} (h : exponentPart? mark rest = some e) :
    rest = [] ∧ e = none ∨ ∃ c sign ds, rest = c :: (sign ++ ds) ∧ (c = mark ∨ c = mark - 0x20) ∧
      IsSign sign ∧ ds ≠ [] ∧ IsRow 10 ds := by
  cases rest with
  | nil => exact .inl ⟨rfl, (Option.some.inj h).symm⟩
  | cons c x =>
      obtain ⟨sign, hsign, hx⟩ := exists_sign x
      rw [exponentPart?] at h
      split at h
      · rename_i hc
        refine .inr ⟨c, sign, (readSign x).2, by rw [← hx], by simpa using hc, hsign, ?_⟩
        revert h
        rcases readSign x with ⟨negative, digits⟩
        cases digits with
        | nil => simp
        | cons d ds =>
            dsimp only
            split
            · split
              · rename_i hread
                exact fun _ => ⟨by simp, isRow_of_readExponent (congrArg Prod.snd hread)⟩
              · simp
            · simp
      · exact absurd h (by simp)

theorem ends_of_exponentPart? {e : Option Int}
    (h : exponentPart? (exponentMark hex) rest = some e) : Ends hex rest := by
  obtain ⟨rfl, -⟩ | ⟨c, sign, ds, rfl, hc, -⟩ := exponentPart?_cases h
  · exact (Stops.nil hex).1
  · intro b hb
    obtain rfl := Option.some.inj hb
    cases hex <;> rcases hc with rfl | rfl <;> decide

/-- What is read as an exponent is spelled as one, where underscores stand in their places. -/
theorem exists_exponent {e : Option Int}
    (hread : exponentPart? (exponentMark hex) rest = some e)
    (hsep : separated hex .other rest = true) :
    rest = [] ∧ e = none ∨ ∃ e', Exponent (exponentMark hex) rest e' := by
  obtain h | ⟨c, sign, ds, rfl, hc, hsign, hne, hds⟩ := exponentPart?_cases hread
  · exact .inl h
  · have hmark : (digit? hex c).isSome = false ∧ c ≠ 0x5F := by
      cases hex <;> rcases hc with rfl | rfl <;> decide
    have hbehind : separated hex .other (sign ++ ds) = true := by
      simpa [separated, hmark] using hsep
    have hdigits : separated hex .other ds = true := by
      have hplus : (digit? hex 0x2B).isSome = false := by cases hex <;> rfl
      have hminus : (digit? hex 0x2D).isSome = false := by cases hex <;> rfl
      rcases hsign with rfl | rfl | rfl
      · exact hbehind
      · simpa [separated, hplus] using hbehind
      · simpa [separated, hminus] using hbehind
    have hbase : 10 ≤ radix hex := by cases hex <;> decide
    rw [← List.append_nil ds] at hdigits
    obtain ⟨⟨h, -⟩ | h | ⟨h, -⟩, -⟩ := digits_of_separated hbase hds (Stops.nil hex).1 hdigits
    · exact absurd h hne
    · exact .inr ⟨_, .digits hc hsign h⟩
    · exact absurd h (by simp)

/-- What is read in base ten has no mark of another base. -/
theorem isDecimalByte_of_read {m : Mantissa} {e : Option Int}
    (hread : readMantissa false {} body = (m, rest)) (he : exponentPart? 0x65 rest = some e) :
    ∀ b ∈ body, isDecimalByte b = true := by
  have hrest : ∀ b ∈ rest, isDecimalByte b = true := by
    obtain ⟨rfl, -⟩ | ⟨c, sign, ds, rfl, hc, hsign, -, hds⟩ := exponentPart?_cases he
    · simp
    · rw [List.forall_mem_cons, List.forall_mem_append]
      refine ⟨?_, ?_, hds.isDecimalByte⟩
      · rcases hc with rfl | rfl <;> rfl
      · rcases hsign with rfl | rfl | rfl <;> simp [isDecimalByte]
  obtain ⟨w, hw, ⟨rfl, -⟩ | ⟨f, hf, rfl, -⟩⟩ := exists_rows_of_readMantissa hread
  · rw [List.forall_mem_append]
    exact ⟨IsRow.isDecimalByte hw, hrest⟩
  · rw [List.forall_mem_append, List.forall_mem_cons, List.forall_mem_append]
    exact ⟨IsRow.isDecimalByte hw, rfl, IsRow.isDecimalByte hf, hrest⟩

theorem exists_mark_of_hexBody? {u : Text} (h : hexBody? u = some body) :
    ∃ c : UInt8, (c = 0x78 ∨ c = 0x58) ∧ u = 0x30 :: c :: body := by
  unfold hexBody? at h
  split at h
  · split at h
    · rename_i c b t hc
      obtain rfl := Option.some.inj h
      exact ⟨c, by simpa using hc, rfl⟩
    · exact absurd h (by simp)
  · exact absurd h (by simp)

end Read

/-- A number that is read is spelled in digits alone, or with a point or an exponent. -/
theorem digits_or_floating_of_number? {t : Text} {n : Number} (h : number? t = some n) :
    IsDigits 10 (readSign t).2 ∨ ∃ n', Floating (readSign t).2 n' := by
  obtain ⟨e, hdigit, he, hsome, hscore, -⟩ := number?_eq_some_iff.mp h
  rcases hm : mantissaOf t with ⟨m, rest⟩
  rw [hm] at hdigit he
  have hends := ends_of_exponentPart? he
  rw [mantissaOf, unmarked] at hm
  rw [isHex] at hm he hsome hends
  cases hbody : hexBody? (readSign t).2 with
  | none =>
      rw [hbody] at hm he hends
      replace hm : readMantissa false {} (readSign t).2 = (m, rest) := hm
      have hsep : separated false .other (readSign t).2 = true := by
        by_cases hmem : 0x5F ∈ (readSign t).2
        · rw [← underscoresOk_of_decimal (isDecimalByte_of_read hm he)]
          exact hscore hmem
        · exact separated_of_not_mem hmem (by simp)
      obtain ⟨skip, s, m', hsplit, -, hskip, hs, hdigits, hother⟩ :=
        exists_significand hm hdigit hends hsep
      obtain rfl : skip = [] := by
        by_contra hne
        exact absurd (hskip hne).1 (by simp)
      rw [List.nil_append] at hsplit
      rw [hsplit]
      obtain ⟨rfl, -⟩ | ⟨e', hexponent⟩ := exists_exponent he hother
      · rw [List.append_nil]
        rcases hdigits with hpoint | hdigits
        · exact .inr ⟨_, .point hs hpoint⟩
        · exact .inl hdigits
      · exact .inr ⟨_, .exponent hs hexponent⟩
  | some body =>
      obtain ⟨c, hc, hu⟩ := exists_mark_of_hexBody? hbody
      have hmark : (decide (c = 0x78) || decide (c = 0x58)) = true := by simpa using hc
      rw [hbody] at hm he hends hsome
      replace hm : readMantissa true {} body = (m, rest) := hm
      have hsep : separated true .digit body = true := by
        by_cases hmem : 0x5F ∈ (readSign t).2
        · have hok := hscore hmem
          rwa [hu, underscoresOk, if_pos hmark] at hok
        · refine separated_of_not_mem (fun hbody => hmem ?_) (by simp)
          rw [hu]
          exact List.mem_cons_of_mem _ (List.mem_cons_of_mem _ hbody)
      obtain ⟨skip, s, m', hsplit, hskip, hpoint, hs, -, hother⟩ :=
        exists_significand hm hdigit hends hsep
      obtain ⟨-, rfl⟩ | ⟨e', hexponent⟩ := exists_exponent he hother
      · exact absurd (hsome rfl) (by simp)
      · rw [hu, hsplit]
        exact .inr ⟨_, .hexadecimal hc hskip (fun hne => (hpoint hne).2) hs hexponent⟩

end Schematic.Literal
