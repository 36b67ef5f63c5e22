import Mathlib.Data.List.Pairwise
import Schematic.Proofs.NumberReading
import Schematic.Proofs.QuotedTexts
import Schematic.Proofs.SingleRounding
import Schematic.Proofs.UsableNames

/-!
# What generated code denotes

The values of the expressions that generated code assigns: truth values, numbers, quoted texts and
constants, each where its type is expected. Main statements: for each kind of literal of the schema
language, when what is written for it denotes the value that the schema language reads, and no
other.
-/

namespace Schematic

namespace Literal

theorem Number.singleBits_eq (n : Number) :
    n.singleBits = (if n.negative then 1 <<< 31 else 0) + n.magnitude :=
  rfl

/-- A number without a sign, whole or not. -/
inductive Numeral : Text → Number → Prop where
  | whole {t : Text} {k : Nat} (whole : Whole t k) : Numeral t ⟨false, k, 10, 0⟩
  | floating {t : Text} {n : Number} (floating : Floating t n) : Numeral t n

/-- A number with its sign. -/
def Number.withSign (n : Number) (sign : Text) : Number :=
  { n with negative := sign = [0x2D] }

end Literal

namespace Code

open Literal

/-! ## What code denotes -/

/-- The name of a truth value. -/
def boolText (b : Bool) : Text :=
  if b then "true" else "false"

/-- The value of an expression where one of a type is expected, in a package with the given
declarations: a truth value, a number with a sign or none, a quoted text, or the name of a
constant. Numbers have to fit their type. -/
inductive Denotes (declarations : List Declaration) : TypeExpr → Text → Value → Prop where
  | bool (b : Bool) (free : boolText b ∉ declarations.flatMap Declaration.declared) :
      Denotes declarations (.builtin "bool") (boolText b) (.bool b)
  | int {sign t : Text} {k : Nat} (hsign : IsSign sign) (whole : Whole t k)
      (fits : Text.fitsWord 32 (signed sign k) = true) :
      Denotes declarations (.builtin "int32") (sign ++ t) (.int (signed sign k))
  | float {sign t : Text} {n : Number} (hsign : IsSign sign) (numeral : Numeral t n)
      (fits : n.fitsSingle = true) :
      Denotes declarations (.builtin "float32") (sign ++ t) (.float (n.withSign sign).constantBits)
  | string {t v : Text} (quoted : Quoted t v) (admissible : isAdmissible t = true) :
      Denotes declarations (.builtin "string") t (.string v)
  | constant {type name : Text} {values : List (Text × Int)} {i : Int} (hname : isName name = true)
      (free : name ∉ usedVariables) (declared : .constants type values ∈ declarations)
      (value : (name, i) ∈ values) (fits : Text.fitsWord 32 i = true) :
      Denotes declarations (.named type) name (.int i)

/-- A text with at most one value denotes another just if it has one that is the other. -/
theorem forall_iff_eq_iff {Q : Value → Prop} {P : Prop} {v v' : Value} (h : ∀ w, Q w ↔ P ∧ w = v) :
    (∀ w, Q w ↔ w = v') ↔ P ∧ v = v' := by
  simp only [h]
  constructor
  · intro hall
    obtain ⟨hP, heq⟩ := (hall v').mpr rfl
    exact ⟨hP, heq.symm⟩
  · rintro ⟨hP, rfl⟩ w
    simp [hP]

section Inversion

variable {declarations : List Declaration} {text : Text} {w : Value}

theorem denotes_bool_iff : Denotes declarations (.builtin "bool") text w ↔
    ∃ b, text = boolText b ∧ w = .bool b ∧
      boolText b ∉ declarations.flatMap Declaration.declared := by
  constructor
  · intro h
    generalize htype : TypeExpr.builtin "bool" = type at h
    cases h with
    | bool b free => exact ⟨b, rfl, rfl, free⟩
    | constant => exact nomatch htype
    | _ => exact absurd htype (by decide)
  · rintro ⟨b, rfl, rfl, free⟩
    exact .bool b free

theorem denotes_int_iff : Denotes declarations (.builtin "int32") text w ↔
    ∃ sign t k, IsSign sign ∧ text = sign ++ t ∧ Whole t k ∧
      Text.fitsWord 32 (signed sign k) = true ∧ w = .int (signed sign k) := by
  constructor
  · intro h
    generalize htype : TypeExpr.builtin "int32" = type at h
    cases h with
    | int hsign whole fits => exact ⟨_, _, _, hsign, rfl, whole, fits, rfl⟩
    | constant => exact nomatch htype
    | _ => exact absurd htype (by decide)
  · rintro ⟨sign, t, k, hsign, rfl, whole, fits, rfl⟩
    exact .int hsign whole fits

theorem denotes_float_iff : Denotes declarations (.builtin "float32") text w ↔
    ∃ sign t n, IsSign sign ∧ text = sign ++ t ∧ Numeral t n ∧ n.fitsSingle = true ∧
      w = .float (n.withSign sign).constantBits := by
  constructor
  · intro h
    generalize htype : TypeExpr.builtin "float32" = type at h
    cases h with
    | float hsign numeral fits => exact ⟨_, _, _, hsign, rfl, numeral, fits, rfl⟩
    | constant => exact nomatch htype
    | _ => exact absurd htype (by decide)
  · rintro ⟨sign, t, n, hsign, rfl, numeral, fits, rfl⟩
    exact .float hsign numeral fits

theorem denotes_string_iff : Denotes declarations (.builtin "string") text w ↔
    ∃ v, Quoted text v ∧ isAdmissible text = true ∧ w = .string v := by
  constructor
  · intro h
    generalize htype : TypeExpr.builtin "string" = type at h
    cases h with
    | string quoted admissible => exact ⟨_, quoted, admissible, rfl⟩
    | constant => exact nomatch htype
    | _ => exact absurd htype (by decide)
  · rintro ⟨v, quoted, admissible, rfl⟩
    exact .string quoted admissible

theorem denotes_constant_iff {type : Text} : Denotes declarations (.named type) text w ↔
    ∃ values i, isName text = true ∧ text ∉ usedVariables ∧
      .constants type values ∈ declarations ∧ (text, i) ∈ values ∧
      Text.fitsWord 32 i = true ∧ w = .int i := by
  constructor
  · rintro (_ | _ | _ | _ | ⟨hname, free, declared, value, fits⟩)
    exact ⟨_, _, hname, free, declared, value, fits, rfl⟩
  · rintro ⟨values, i, hname, free, declared, value, fits, rfl⟩
    exact .constant hname free declared value fits

end Inversion

/-! ## Signs -/

/-- A text that starts like a number without a sign. -/
def Unsigned (u : Text) : Prop :=
  ∀ b ∈ u.head?, b ≠ 0x2B ∧ b ≠ 0x2D

theorem sign_append {sign u : Text} (hsign : IsSign sign) (hu : Unsigned u) :
    Code.sign (sign ++ u) = (sign, u) := by
  rcases hsign with rfl | rfl | rfl
  · cases u with
    | nil => rfl
    | cons b u =>
        obtain ⟨hplus, hminus⟩ := hu b rfl
        simp [Code.sign, hplus, hminus]
  · rfl
  · rfl

theorem append_inj_of_sign {sign sign' u u' : Text} (hsign : IsSign sign) (hsign' : IsSign sign')
    (hu : Unsigned u) (hu' : Unsigned u') (h : sign ++ u = sign' ++ u') :
    sign = sign' ∧ u = u' := by
  have hparts := sign_append hsign hu
  rw [h, sign_append hsign' hu'] at hparts
  obtain ⟨hs, ht⟩ := Prod.mk.inj hparts
  exact ⟨hs.symm, ht.symm⟩

theorem normalLiteral_append {sign u : Text} (hsign : IsSign sign) (hu : Unsigned u)
    (hnumeric : isNumeric u = true) : normalLiteral (sign ++ u) = sign ++ normalNumber u := by
  rw [normalLiteral, sign_append hsign hu]
  simp [hnumeric]

end Code

namespace Literal

open Code

theorem unsigned_of_isNumeric {u : Text} (h : isNumeric u = true) : Unsigned u := by
  rintro b hb
  cases u with
  | nil => exact absurd hb (by simp)
  | cons c u =>
      obtain rfl := Option.some.inj hb
      constructor <;> rintro rfl <;> exact absurd h (by simp [isNumeric, Text.isDigitByte])

theorem IsDigits.isNumeric {t : Text} (h : IsDigits 10 t) (rest : Text) :
    isNumeric (t ++ rest) = true := by
  obtain ⟨b, more, rfl, hb⟩ := h.exists_cons
  simp [Code.isNumeric, isDigitByte_eq, hb]

theorem Significand.isNumeric {s : Text} {m : Mantissa} (h : Significand 10 s m) (rest : Text) :
    isNumeric (s ++ rest) = true := by
  cases h with
  | whole digits => exact digits.isNumeric rest
  | point hw hf hne =>
      rcases hw with rfl | hw
      · rfl
      · rw [List.append_assoc]
        exact hw.isNumeric _

theorem Floating.isNumeric {u : Text} {n : Number} (h : Floating u n) : isNumeric u = true := by
  cases h with
  | point significand _ => simpa using significand.isNumeric []
  | exponent significand _ => exact significand.isNumeric _
  | hexadecimal _ _ _ _ _ => rfl

theorem Whole.isNumeric {u : Text} {k : Nat} (h : Whole u k) : isNumeric u = true := by
  cases h with
  | decimal _ digits => simpa using digits.isNumeric []
  | octal _ => rfl
  | marked _ _ _ => rfl

theorem Numeral.isNumeric {u : Text} {n : Number} (h : Numeral u n) : isNumeric u = true := by
  cases h with
  | whole whole => exact whole.isNumeric
  | floating floating => exact floating.isNumeric

theorem Floating.negative {u : Text} {n : Number} (h : Floating u n) : n.negative = false := by
  cases h <;> rfl

/-- A text with a point or an exponent spells one number. -/
theorem Floating.unique {u : Text} {n n' : Number} (h : Floating u n) (h' : Floating u n') :
    n' = n := by
  have hread : readSign u = (false, u) := readSign_unsigned (unsigned_of_isNumeric h.isNumeric)
  -- Both are what the schema language reads, with what it loses of the exponent put back.
  obtain ⟨m, hm, hscaled⟩ := number?_of_floating (t := u) (n := n) (by rwa [hread])
  obtain ⟨m', hm', hscaled'⟩ := number?_of_floating (t := u) (n := n') (by rwa [hread])
  obtain rfl := Option.some.inj (hm.symm.trans hm')
  have heq := hscaled'.symm.trans hscaled
  rw [hread] at heq
  calc n' = { n' with negative := false } := by rw [← h'.negative]
    _ = { n with negative := false } := heq
    _ = n := by rw [← h.negative]

/-- A sign and what follows it are what the reader of numbers takes them for. -/
theorem exists_sign_of_number {token : Text} (h : isNumeric (readSign token).2 = true) :
    ∃ sign, IsSign sign ∧ token = sign ++ (readSign token).2 ∧
      (readSign token).1 = decide (sign = [0x2D]) ∧
      normalLiteral token = sign ++ normalNumber (readSign token).2 := by
  obtain ⟨sign, hsign, htoken⟩ := exists_sign token
  have hunsigned := unsigned_of_isNumeric h
  refine ⟨sign, hsign, htoken, ?_, ?_⟩
  · have hread := readSign_append hsign hunsigned
    rw [← htoken] at hread
    exact congrArg Prod.fst hread
  · rw [← normalLiteral_append hsign hunsigned h, ← htoken]

section Signs

variable {declarations : List Declaration} {sign u : Text} {w : Value}

theorem denotes_int_append (hsign : IsSign sign) (hu : isNumeric u = true) :
    Denotes declarations (.builtin "int32") (sign ++ u) w ↔
      ∃ k, Whole u k ∧ Text.fitsWord 32 (signed sign k) = true ∧ w = .int (signed sign k) := by
  rw [denotes_int_iff]
  constructor
  · rintro ⟨sign', t, k, hsign', heq, whole, fits, rfl⟩
    obtain ⟨rfl, rfl⟩ := append_inj_of_sign hsign hsign' (unsigned_of_isNumeric hu)
      (unsigned_of_isNumeric whole.isNumeric) heq
    exact ⟨k, whole, fits, rfl⟩
  · rintro ⟨k, whole, fits, rfl⟩
    exact ⟨sign, u, k, hsign, rfl, whole, fits, rfl⟩

theorem denotes_float_append (hsign : IsSign sign) (hu : isNumeric u = true) :
    Denotes declarations (.builtin "float32") (sign ++ u) w ↔
      ∃ n, Numeral u n ∧ n.fitsSingle = true ∧ w = .float (n.withSign sign).constantBits := by
  rw [denotes_float_iff]
  constructor
  · rintro ⟨sign', t, n, hsign', heq, numeral, fits, rfl⟩
    obtain ⟨rfl, rfl⟩ := append_inj_of_sign hsign hsign' (unsigned_of_isNumeric hu)
      (unsigned_of_isNumeric numeral.isNumeric) heq
    exact ⟨n, numeral, fits, rfl⟩
  · rintro ⟨n, numeral, fits, rfl⟩
    exact ⟨sign, u, n, hsign, rfl, numeral, fits, rfl⟩

end Signs

/-! ## Whole numbers -/

theorem natAbs_signed (sign : Text) (k : Nat) : (signed sign k).natAbs = k := by
  rw [signed]
  split <;> simp

/-- Digits alone, a zero first. -/
def ZeroLed (token : Text) : Prop :=
  (readSign token).2.head? = some 0x30 ∧ IsRow 10 (readSign token).2

theorem spelledFrom_eq_foldl {ds : Text} (h : ∀ b ∈ ds, Text.isDigitByte b = true) (n : Nat) :
    ds.foldl (fun n d => 10 * n + (d.toNat - 0x30)) n = spelledFrom 10 n ds := by
  have hdigit (b : UInt8) : Text.isDigitByte b = true → hexDigit? b = some (b.toNat - 0x30) :=
    forall_byte (motive := fun b => Text.isDigitByte b = true →
      hexDigit? b = some (b.toNat - 0x30)) (by decide +kernel) b
  induction ds generalizing n with
  | nil => rfl
  | cons b ds ih =>
      obtain ⟨hb, hds⟩ := List.forall_mem_cons.mp h
      rw [List.foldl_cons, ih hds, spelledFrom, hdigit b hb, Option.elim_some, Nat.mul_comm]

theorem isDigits_of_all {ds : Text} (hne : ds ≠ []) (h : ∀ b ∈ ds, Text.isDigitByte b = true) :
    IsDigits 10 ds := by
  induction ds with
  | nil => exact absurd rfl hne
  | cons b ds ih =>
      obtain ⟨hb, hds⟩ := List.forall_mem_cons.mp h
      rw [isDigitByte_eq] at hb
      cases ds with
      | nil => exact .last hb
      | cons c ds => exact .next hb (ih (List.cons_ne_nil _ _) hds)

/-- An integer is a sign or none and digits. -/
theorem digits_of_int32? {token : Text} {i : Int} (h : Text.int32? token = some i) :
    IsDigits 10 (readSign token).2 ∧ Text.fitsWord 32 i = true ∧
      i = if (readSign token).1 then -(spelled 10 (readSign token).2 : Int)
        else spelled 10 (readSign token).2 := by
  have hint : Text.int? token = (Text.nat? (readSign token).2).map fun n : Nat =>
      if (readSign token).1 then -(n : Int) else (n : Int) := by
    unfold Text.int? readSign
    split <;> simp [Option.map_eq_bind, Option.bind_assoc]
  obtain ⟨hi, hfits⟩ := Option.filter_eq_some_iff.mp h
  rw [hint] at hi
  obtain ⟨n, hn, rfl⟩ := Option.map_eq_some_iff.mp hi
  rw [Text.nat?] at hn
  split at hn
  · exact absurd hn (by simp)
  · rename_i hdigits
    obtain rfl := Option.some.inj hn
    simp only [Bool.or_eq_true, List.isEmpty_iff, Bool.not_eq_true', not_or, Bool.not_eq_false,
      List.all_eq_true] at hdigits
    refine ⟨isDigits_of_all hdigits.1 hdigits.2, hfits, ?_⟩
    rw [Text.digitsValue, spelledFrom_eq_foldl hdigits.2]
    rfl

theorem isZeroLed_iff {u : Text} :
    isZeroLed u = true ↔ u.head? = some 0x30 ∧ IsRow 10 u := by
  simp [isZeroLed, IsRow]

theorem octal?_eq_some_iff {u : Text} (digits : IsDigits 10 u) {k : Nat} :
    octal? u = some k ↔ IsDigits 8 u ∧ k = spelled 8 u := by
  have hrow : (u.all fun b => isDigitIn 8 b || b = 0x5F) = true ↔ IsDigits 8 u := by
    refine ⟨fun h => digits.of_isRow ?_, fun h => ?_⟩
    · simpa [IsRow] using h
    · simpa [IsRow] using h.isRow
  rw [octal?]
  split
  · rename_i h
    simp [hrow.mp h, eq_comm]
  · rename_i h
    simp [mt hrow.mpr h]

/-- What is written for an integer denotes what code reads. -/
theorem denotes_int32 {declarations : List Declaration} {token : Text} {i : Int}
    (h : Text.int32? token = some i) {w : Value} :
    Denotes declarations (.builtin "int32") (normalLiteral token) w ↔
      denoted? (declarations.flatMap Declaration.declared) token (.int i) = some w := by
  obtain ⟨digits, hfits, hi⟩ := digits_of_int32? h
  have hnumeric : isNumeric (readSign token).2 = true := by simpa using digits.isNumeric []
  obtain ⟨sign, hsign, -, hnegative, htext⟩ := exists_sign_of_number hnumeric
  have hcode (k : Int) : codeInt? token i = some k ↔
      ∃ n, Whole (readSign token).2 n ∧ signed sign n = k := by
    simp only [codeInt?, whole_iff_of_digits digits, signed]
    by_cases hzero : (readSign token).2.head? = some 0x30
    · rw [if_pos (isZeroLed_iff.mpr ⟨hzero, digits.isRow⟩), Option.map_eq_some_iff]
      simp [octal?_eq_some_iff digits, hzero, hnegative]
    · rw [if_neg fun hled => hzero (isZeroLed_iff.mp hled).1]
      simp [hzero, hi, hnegative]
  rw [htext, normalNumber_of_digits digits, denotes_int_append hsign hnumeric]
  simp only [denoted?, Option.map_eq_some_iff, Option.filter_eq_some_iff, hcode]
  constructor
  · rintro ⟨k, whole, fits, rfl⟩
    exact ⟨_, ⟨⟨k, whole, rfl⟩, fits⟩, rfl⟩
  · rintro ⟨_, ⟨⟨k, whole, rfl⟩, fits⟩, rfl⟩
    exact ⟨k, whole, fits, rfl⟩

/-- What is written for an integer denotes it unless it stands behind a zero and is read in another
base. -/
theorem denotes_int32_iff {declarations : List Declaration} {token : Text} {i : Int}
    (h : Text.int32? token = some i) :
    (∀ w, Denotes declarations (.builtin "int32") (normalLiteral token) w ↔ w = .int i) ↔
      ¬(ZeroLed token ∧ 8 ≤ i.natAbs) := by
  obtain ⟨digits, hfits, hi⟩ := digits_of_int32? h
  have hnumeric : isNumeric (readSign token).2 = true := by simpa using digits.isNumeric []
  obtain ⟨sign, hsign, -, hnegative, htext⟩ := exists_sign_of_number hnumeric
  have hvalue : i = signed sign (spelled 10 (readSign token).2) := by
    rw [hi, hnegative, signed]
    simp
  rw [htext, normalNumber_of_digits digits]
  simp only [denotes_int_append hsign hnumeric]
  constructor
  · rintro hall ⟨⟨hzero, -⟩, hle⟩
    obtain ⟨k, whole, -, heq⟩ := (hall (.int i)).mpr rfl
    have hsame : spelled 10 (readSign token).2 = k := by
      rw [← natAbs_signed sign k, ← Value.int.inj heq, hvalue, natAbs_signed]
    rw [hvalue, natAbs_signed] at hle
    have hbound := whole.le_of_zero digits hzero hle
    omega
  · intro hnot w
    have hread (k : Nat) : Whole (readSign token).2 k ↔ k = spelled 10 (readSign token).2 := by
      apply whole_iff_eq_spelled digits
      rintro ⟨hzero, hle⟩
      exact hnot ⟨⟨hzero, digits.isRow⟩, by rwa [hvalue, natAbs_signed]⟩
    simp only [hread, exists_eq_left, ← hvalue, hfits, true_and]

/-! ## Numbers of single precision -/

section Bits

variable {n c : Number}

/-- A constant has the bits of a number of the same sign just if it has its magnitude and they are
not those of a negative zero. -/
theorem constantBits_eq_iff (hsign : c.negative = n.negative) :
    c.constantBits = n.singleBits ↔
      c.magnitude = n.magnitude ∧ ¬(n.negative = true ∧ n.magnitude = 0) := by
  rw [Number.constantBits, Number.singleBits_eq, Number.singleBits_eq, hsign]
  cases n.negative <;> simp <;> split <;> omega

theorem singleBits_eq_iff (hsign : c.negative = n.negative) :
    c.singleBits = n.singleBits ↔ c.magnitude = n.magnitude := by
  rw [Number.singleBits_eq, Number.singleBits_eq, hsign]
  omega

theorem magnitude_whole (negative : Bool) (k : Nat) :
    Number.magnitude ⟨negative, k, 10, 0⟩ = magnitudeBits k 1 := by
  simp [Number.magnitude, Number.ratio]

end Bits

section Floats

variable {declarations : List Declaration} {token : Text} {n : Number}

theorem number?_of_single? (h : single? token = some n) : number? token = some n := by
  rw [single?] at h
  split at h
  · exact (Option.filter_eq_some_iff.mp h).1
  · exact absurd h (by simp)

theorem isNumeric_of_number? (h : number? token = some n) :
    isNumeric (readSign token).2 = true := by
  rcases digits_or_floating_of_number? h with digits | ⟨_, floating⟩
  · simpa using digits.isNumeric []
  · exact floating.isNumeric

theorem isNumeric_normalNumber (h : number? token = some n) :
    isNumeric (normalNumber (readSign token).2) = true := by
  rcases digits_or_floating_of_number? h with digits | ⟨_, floating⟩
  · rw [normalNumber_of_digits digits]
    simpa using digits.isNumeric []
  · exact (floating_normalNumber floating).isNumeric

theorem negative_of_number? (h : number? token = some n) : n.negative = (readSign token).1 := by
  obtain ⟨_, -, -, -, -, rfl⟩ := number?_eq_some_iff.mp h
  rfl

/-- Digits behind a zero that spell eight or more denote another number. -/
theorem not_denotes_of_zeroLed (hnumber : number? token = some n) (hzero : ZeroLed token)
    (hle : 8 ≤ n.mantissa) :
    ¬Denotes declarations (.builtin "float32") (normalLiteral token) (.float n.singleBits) := by
  obtain ⟨hfirst, hrow⟩ := hzero
  have digits : IsDigits 10 (readSign token).2 := by
    rcases digits_or_floating_of_number? hnumber with digits | ⟨_, floating⟩
    · exact digits
    · exact absurd hrow floating.not_isRow
  obtain rfl := Option.some.inj ((number?_of_digits digits).1.symm.trans hnumber)
  have hnumeric : isNumeric (readSign token).2 = true := by simpa using digits.isNumeric []
  obtain ⟨sign, hsign, -, hnegative, htext⟩ := exists_sign_of_number hnumeric
  rw [htext, normalNumber_of_digits digits, denotes_float_append hsign hnumeric]
  rintro ⟨n', numeral, -, heq⟩
  obtain ⟨hmagnitude, -⟩ := (constantBits_eq_iff hnegative.symm).mp (Value.float.inj heq).symm
  cases numeral with
  | floating floating => exact floating.not_isRow hrow
  | whole whole =>
      -- In base eight the digits spell a number so much lower that rounding cannot hide it.
      rw [Number.withSign, magnitude_whole, magnitude_whole] at hmagnitude
      have hne : spelled 10 (readSign token).2 ≠ 0 :=
        Nat.ne_of_gt (Nat.lt_of_lt_of_le (by decide) hle)
      exact magnitudeBits_ne hne (whole.le_of_zero digits hfirst hle) hmagnitude

/-- A number that is read is the only one that its text spells, but for what its exponent loses. -/
theorem numeral_iff_of_number? (hnumber : number? token = some n)
    (h : ¬(ZeroLed token ∧ 8 ≤ n.mantissa)) (n' : Number) :
    Numeral (normalNumber (readSign token).2) n' ↔
      n' = (n.scaled (lostExponent token)).withSign [] := by
  rcases digits_or_floating_of_number? hnumber with digits | ⟨c, floating⟩
  · obtain ⟨hread, hlost⟩ := number?_of_digits digits
    obtain rfl := Option.some.inj (hread.symm.trans hnumber)
    rw [hlost, normalNumber_of_digits digits]
    have hwhole (k : Nat) : Whole (readSign token).2 k ↔ k = spelled 10 (readSign token).2 :=
      whole_iff_eq_spelled digits fun hzero => h ⟨⟨hzero.1, digits.isRow⟩, hzero.2⟩
    constructor
    · rintro (⟨whole⟩ | ⟨floating⟩)
      · rw [(hwhole _).mp whole]
        rfl
      · exact absurd digits.isRow floating.not_isRow
    · rintro rfl
      exact .whole ((hwhole _).mpr rfl)
  · obtain ⟨m, hread, hscaled⟩ := number?_of_floating floating
    obtain rfl : m = n := Option.some.inj (hread.symm.trans hnumber)
    have hsame : (m.scaled (lostExponent token)).withSign [] = c := by
      rw [hscaled]
      calc _ = { c with negative := false } := rfl
        _ = c := by rw [← floating.negative]
    have hnormal := floating_normalNumber floating
    rw [hsame]
    constructor
    · rintro (⟨whole⟩ | ⟨other⟩)
      · exact absurd whole hnormal.not_whole
      · exact hnormal.unique other
    · rintro rfl
      exact .floating hnormal

/-- The text of a number that is read spells the number that code reads, and no other. -/
theorem numeral_iff_codeNumber? (hnumber : number? token = some n) (n' : Number) :
    Numeral (normalNumber (readSign token).2) n' ↔
      (codeNumber? token n).map (Number.withSign · []) = some n' := by
  rw [codeNumber?]
  cases hled : isZeroLed (readSign token).2 with
  | false =>
      have hzero : ¬(ZeroLed token ∧ 8 ≤ n.mantissa) := by
        rintro ⟨hzero, -⟩
        exact absurd (isZeroLed_iff.mpr hzero) (by simp [hled])
      simp [numeral_iff_of_number? hnumber hzero, eq_comm]
  | true =>
      obtain ⟨hzero, hrow⟩ := isZeroLed_iff.mp hled
      have digits : IsDigits 10 (readSign token).2 := by
        rcases digits_or_floating_of_number? hnumber with digits | ⟨_, floating⟩
        · exact digits
        · exact absurd hrow floating.not_isRow
      have hread (k : Nat) : Whole (readSign token).2 k ↔ octal? (readSign token).2 = some k := by
        simp [whole_iff_of_digits digits, hzero, octal?_eq_some_iff digits]
      rw [normalNumber_of_digits digits, if_pos rfl, Option.map_map, Option.map_eq_some_iff]
      constructor
      · rintro (⟨whole⟩ | ⟨floating⟩)
        · exact ⟨_, (hread _).mp whole, rfl⟩
        · exact absurd hrow floating.not_isRow
      · rintro ⟨k, hk, rfl⟩
        exact .whole ((hread k).mpr hk)

/-- What is written for a number denotes the bits of what code reads. -/
theorem denotes_single (hnumber : number? token = some n) {w : Value} :
    Denotes declarations (.builtin "float32") (normalLiteral token) w ↔
      denoted? (declarations.flatMap Declaration.declared) token (.float n) = some w := by
  obtain ⟨sign, hsign, -, hnegative, htext⟩ :=
    exists_sign_of_number (isNumeric_of_number? hnumber)
  have hsame {c : Number} (hc : codeNumber? token n = some c) :
      (c.withSign []).withSign sign = c := by
    have hsign : c.negative = (readSign token).1 := by
      rw [codeNumber?] at hc
      split at hc
      · obtain ⟨k, -, rfl⟩ := Option.map_eq_some_iff.mp hc
        rfl
      · have hn : n.negative = (readSign token).1 := negative_of_number? hnumber
        rw [← Option.some.inj hc]
        exact hn
    rw [Number.withSign, ← hnegative, ← hsign]
    rfl
  rw [htext, denotes_float_append hsign (isNumeric_normalNumber hnumber)]
  simp only [numeral_iff_codeNumber? hnumber, denoted?, Option.map_eq_some_iff,
    Option.filter_eq_some_iff]
  constructor
  · rintro ⟨_, ⟨c, hc, rfl⟩, fits, rfl⟩
    exact ⟨c, ⟨hc, fits⟩, by rw [hsame hc]⟩
  · rintro ⟨c, ⟨hc, fits⟩, rfl⟩
    exact ⟨_, ⟨c, hc, rfl⟩, fits, by rw [hsame hc]⟩

/-- What is written for a number denotes its bits unless it stands behind a zero and is read in
another base, is a negative zero, or has an exponent that is not kept and matters. -/
theorem denotes_single_iff (h : single? token = some n) :
    (∀ w, Denotes declarations (.builtin "float32") (normalLiteral token) w ↔
        w = .float n.singleBits) ↔
      ¬(ZeroLed token ∧ 8 ≤ n.mantissa) ∧ ¬(n.negative = true ∧ n.magnitude = 0) ∧
        (n.scaled (lostExponent token)).fitsSingle = true ∧
        (n.scaled (lostExponent token)).singleBits = n.singleBits := by
  have hnumber := number?_of_single? h
  by_cases hzero : ZeroLed token ∧ 8 ≤ n.mantissa
  · constructor
    · intro hall
      exact absurd ((hall _).mpr rfl) (not_denotes_of_zeroLed hnumber hzero.1 hzero.2)
    · intro hfaithful
      exact absurd hzero hfaithful.1
  · have hread := numeral_iff_of_number? hnumber hzero
    obtain ⟨sign, hsign, -, hnegative, htext⟩ :=
      exists_sign_of_number (isNumeric_of_number? hnumber)
    have hsame : ((n.scaled (lostExponent token)).withSign []).withSign sign =
        n.scaled (lostExponent token) := by
      rw [Number.withSign, ← hnegative, ← negative_of_number? hnumber]
      rfl
    have hfits : ((n.scaled (lostExponent token)).withSign []).fitsSingle =
        (n.scaled (lostExponent token)).fitsSingle := rfl
    have hsign' : (n.scaled (lostExponent token)).negative = n.negative := rfl
    simp only [htext, denotes_float_append hsign ((hread _).mpr rfl).isNumeric, hread,
      exists_eq_left, hsame, hfits]
    rw [forall_iff_eq_iff fun w => Iff.rfl, Value.float.injEq, constantBits_eq_iff hsign',
      singleBits_eq_iff hsign']
    tauto

end Floats

end Literal

namespace Code

open Literal

variable {declarations : List Declaration} {token : Text}

/-! ## Truth values and texts -/

theorem denotes_boolText (b : Bool) {w : Value} :
    Denotes declarations (.builtin "bool") (normalLiteral (boolText b)) w ↔
      boolText b ∉ declarations.flatMap Declaration.declared ∧ w = .bool b := by
  have htext : normalLiteral (boolText b) = boolText b := by cases b <;> decide
  have hinj (b' : Bool) : boolText b = boolText b' ↔ b = b' := by
    cases b <;> cases b' <;> decide
  rw [htext, denotes_bool_iff]
  constructor
  · rintro ⟨b', heq, rfl, free⟩
    obtain rfl := (hinj b').mp heq
    exact ⟨free, rfl⟩
  · rintro ⟨free, rfl⟩
    exact ⟨b, rfl, rfl, free⟩

theorem denotes_boolText_iff (b : Bool) :
    (∀ w, Denotes declarations (.builtin "bool") (normalLiteral (boolText b)) w ↔ w = .bool b) ↔
      boolText b ∉ declarations.flatMap Declaration.declared := by
  rw [forall_iff_eq_iff fun _ => denotes_boolText b, and_iff_left rfl]

/-- A quoted text is written as it stands. -/
theorem normalLiteral_of_unquote? {v : Text} (h : unquote? token = some v) :
    normalLiteral token = token := by
  unfold unquote? at h
  split at h
  all_goals first | rfl | exact absurd h (by simp)

theorem denotes_quoted {v : Text} (h : unquote? token = some v) {w : Value} :
    Denotes declarations (.builtin "string") (normalLiteral token) w ↔
      ((token.head? = some 0x22 ∨ token.head? = some 0x60) ∧ isAdmissible token = true) ∧
        w = .string v := by
  rw [normalLiteral_of_unquote? h, denotes_string_iff]
  constructor
  · rintro ⟨v', quoted, admissible, rfl⟩
    obtain rfl := Option.some.inj ((unquote?_of_quoted quoted).symm.trans h)
    exact ⟨⟨quoted.head?, admissible⟩, rfl⟩
  · rintro ⟨⟨hmark, admissible⟩, rfl⟩
    have hutf8 : Text.isUtf8 token = true := (Bool.and_eq_true_iff.mp admissible).1
    exact ⟨v, quoted_of_unquote? h hmark hutf8, admissible, rfl⟩

theorem denotes_quoted_iff {v : Text} (h : unquote? token = some v) :
    (∀ w, Denotes declarations (.builtin "string") (normalLiteral token) w ↔ w = .string v) ↔
      (token.head? = some 0x22 ∨ token.head? = some 0x60) ∧ isAdmissible token = true := by
  rw [forall_iff_eq_iff fun _ => denotes_quoted h, and_iff_left rfl]

/-! ## Labels -/

/-- A name that is declared once has one value. -/
theorem constant_unique (hnodup : (declarations.flatMap Declaration.declared).Nodup)
    {type type' name : Text} {values values' : List (Text × Int)} {i i' : Int}
    (h : .constants type values ∈ declarations) (hi : (name, i) ∈ values)
    (h' : .constants type' values' ∈ declarations) (hi' : (name, i') ∈ values') : i' = i := by
  obtain ⟨heach, hapart⟩ := List.nodup_flatMap.mp hnodup
  have hname : name ∈ values.map Prod.fst := List.mem_map_of_mem hi
  have hname' : name ∈ values'.map Prod.fst := List.mem_map_of_mem hi'
  have hsame : Declaration.constants type values = .constants type' values' := by
    have hsymm : Std.Symm (Function.onFun List.Disjoint Declaration.declared) :=
      ⟨fun _ _ hdisjoint => hdisjoint.symm⟩
    by_contra hne
    exact hapart.forall h h' hne hname hname'
  obtain ⟨-, rfl⟩ := Declaration.constants.inj hsame
  have hpair := List.inj_on_of_nodup_map (heach _ h) hi' hi rfl
  exact (Prod.mk.inj hpair).2

section Labels

variable {e : Enumeration} {name : Text}

theorem exists_label (hlabel : e.hasLabel name = true) :
    ∃ l, e.labels.find? (fun l => l.name = name) = some l ∧ l ∈ e.labels ∧ l.name = name := by
  obtain ⟨l, hfind⟩ := Option.isSome_iff_exists.mp (List.find?_isSome.mpr
    (List.any_eq_true.mp hlabel))
  exact ⟨l, hfind, List.mem_of_find?_eq_some hfind, by simpa using List.find?_some hfind⟩

theorem mem_constants (he : enumeration e ⊆ declarations) :
    .constants e.identifier (e.labels.map fun l => (e.constant l.name, l.value)) ∈ declarations :=
  he (by simp [enumeration])

theorem mem_values {l : Label} (hl : l ∈ e.labels) (hname : l.name = name) :
    (e.constant name, l.value) ∈ e.labels.map fun l => (e.constant l.name, l.value) :=
  List.mem_map.mpr ⟨l, hl, by rw [hname]⟩

/-- All labels of one name have one value. -/
theorem value_unique (hnodup : (declarations.flatMap Declaration.declared).Nodup)
    (he : enumeration e ⊆ declarations) {values : List (Text × Int)} {i : Int}
    (hvalues : .constants e.identifier values ∈ declarations)
    (hi : (e.constant name, i) ∈ values) {l : Label} (hl : l ∈ e.labels) (hname : l.name = name) :
    i = l.value :=
  constant_unique hnodup (mem_constants he) (mem_values hl hname) hvalues hi

/-- The constant of a label denotes its value if it is a name and the value has 32 bits. -/
theorem denotes_label (hnodup : (declarations.flatMap Declaration.declared).Nodup)
    (he : enumeration e ⊆ declarations) {l : Label} (hl : l ∈ e.labels) (hname : l.name = name)
    (hfree : e.constant name ∉ usedVariables) {w : Value} :
    Denotes declarations (.named e.identifier) (e.constant name) w ↔
      (isName (e.constant name) = true ∧ Text.fitsWord 32 l.value = true) ∧ w = .int l.value := by
  rw [denotes_constant_iff]
  constructor
  · rintro ⟨values, i, isName, -, hvalues, hi, fits, rfl⟩
    obtain rfl := value_unique hnodup he hvalues hi hl hname
    exact ⟨⟨isName, fits⟩, rfl⟩
  · rintro ⟨⟨isName, fits⟩, rfl⟩
    exact ⟨_, l.value, isName, hfree, mem_constants he, mem_values hl hname, fits, rfl⟩

theorem denotes_label_iff (hnodup : (declarations.flatMap Declaration.declared).Nodup)
    (he : enumeration e ⊆ declarations) (hlabel : e.hasLabel name = true)
    (hfree : e.constant name ∉ usedVariables) :
    (∀ w, Denotes declarations (.named e.identifier) (e.constant name) w ↔
        w = (DefaultValue.label e name).value) ↔
      isName (e.constant name) = true ∧
        ∀ l ∈ e.labels, l.name = name → Text.fitsWord 32 l.value = true := by
  obtain ⟨l, hfind, hl, hname⟩ := exists_label hlabel
  have hvalue : (DefaultValue.label e name).value = .int l.value := by
    rw [DefaultValue.value, hfind]
    rfl
  have hsame (l' : Label) (hl' : l' ∈ e.labels) (hname' : l'.name = name) : l'.value = l.value :=
    value_unique hnodup he (mem_constants he) (mem_values hl' hname') hl hname
  rw [hvalue, forall_iff_eq_iff fun _ => denotes_label hnodup he hl hname hfree, and_iff_left rfl]
  refine and_congr_right fun _ => ⟨fun fits l' hl' hname' => ?_, fun fits => fits l hl hname⟩
  rwa [hsame l' hl' hname']

end Labels

end Code

end Schematic
