import Mathlib.Data.Option.Basic
import Schematic.Literal.Quoted
import Schematic.Proofs.Numerals
import Schematic.Proofs.Runes

/-!
# Quoted texts of generated code

How the target language spells texts: between backquotes as they are, and between double quotation
marks with escapes. Main statements: the schema language reads every such text as the target
language does, and of what it reads between these marks the target language takes all that is
UTF-8. Between single quotation marks the target language has no texts.
-/

namespace Schematic.Literal

/-! ## Grammar -/

/-- The letters behind a backslash and the bytes they stand for. -/
def escapes : List (UInt8 × UInt8) :=
  [(0x61, 0x07), (0x62, 0x08), (0x66, 0x0C), (0x6E, 0x0A), (0x72, 0x0D), (0x74, 0x09), (0x76, 0x0B),
    (0x5C, 0x5C), (0x22, 0x22)]

/-- A fixed number of digits. -/
def AreDigits (base count : Nat) (ds : Text) : Prop :=
  ds.length = count ∧ ∀ b ∈ ds, isDigitIn base b = true

/-- What may stand behind a backslash, and what it stands for. -/
inductive Escape : Text → Text → Prop where
  | letter {c b : UInt8} (known : (c, b) ∈ escapes) : Escape [c] [b]
  | octal {ds : Text} (digits : AreDigits 8 3 ds) (small : spelled 8 ds ≤ 255) :
      Escape ds [(spelled 8 ds).toUInt8]
  | byte {ds : Text} (digits : AreDigits 16 2 ds) : Escape (0x78 :: ds) [(spelled 16 ds).toUInt8]
  | short {ds : Text} (digits : AreDigits 16 4 ds) (scalar : isScalar (spelled 16 ds) = true) :
      Escape (0x75 :: ds) (Text.encode (spelled 16 ds))
  | long {ds : Text} (digits : AreDigits 16 8 ds) (scalar : isScalar (spelled 16 ds) = true) :
      Escape (0x55 :: ds) (Text.encode (spelled 16 ds))

/-- A character between double quotation marks, and what it stands for. -/
inductive Character : Text → Text → Prop where
  | plain {a : UInt8} {s : Text} {code : Nat} (rune : Text.firstRune a s = ⟨a :: s, some code⟩)
      (quote : a ≠ 0x22) (backslash : a ≠ 0x5C) (feed : a ≠ 0x0A) : Character (a :: s) (a :: s)
  | escaped {ds bytes : Text} (escape : Escape ds bytes) : Character (0x5C :: ds) bytes

/-- A text between backquotes, where carriage returns are dropped, or between double quotation
marks. -/
inductive Quoted : Text → Text → Prop where
  | raw {body : Text} (noMark : 0x60 ∉ body) :
      Quoted (0x60 :: (body ++ [0x60])) (body.filter fun b => b ≠ 0x0D)
  | interpreted {parts : List (Text × Text)} (characters : ∀ p ∈ parts, Character p.1 p.2) :
      Quoted (0x22 :: (parts.flatMap Prod.fst ++ [0x22])) (parts.flatMap Prod.snd)

/-! ## Digits of escapes -/

/-- Folding digits into a number fails at what is none. -/
theorem foldlM_digits {base : Nat} {step : Nat → UInt8 → Option Nat}
    (hstep : ∀ n b, step n b =
      if isDigitIn base b then some ((hexDigit? b).elim n fun d => n * base + d) else none)
    {ds : Text} {n v : Nat} :
    ds.foldlM step n = some v ↔
      (∀ b ∈ ds, isDigitIn base b = true) ∧ v = spelledFrom base n ds := by
  induction ds generalizing n with
  | nil => exact ⟨fun h => ⟨by simp, (Option.some.inj h).symm⟩, fun h => congrArg some h.2.symm⟩
  | cons b ds ih =>
      rw [List.foldlM_cons, hstep, List.forall_mem_cons, spelledFrom]
      by_cases hb : isDigitIn base b = true
      · simp [hb, ih]
      · simp [hb]

theorem hexValue?_eq_some_iff {ds : Text} {v : Nat} :
    hexValue? ds = some v ↔ (∀ b ∈ ds, isDigitIn 16 b = true) ∧ v = spelled 16 ds := by
  have hdigit (b : UInt8) : isDigitIn 16 b = (hexDigit? b).isSome :=
    forall_byte (motive := fun b => isDigitIn 16 b = (hexDigit? b).isSome) (by decide +kernel) b
  refine foldlM_digits fun n b => ?_
  rw [hdigit]
  cases hexDigit? b with
  | none => rfl
  | some d => simp [Nat.mul_comm]

theorem octalValue?_eq_some_iff {ds : Text} {v : Nat} :
    octalValue? ds = some v ↔ (∀ b ∈ ds, isDigitIn 8 b = true) ∧ v = spelled 8 ds := by
  have hdigit (b : UInt8) : isDigitIn 8 b = (decide (0x30 ≤ b) && decide (b ≤ 0x37)) ∧
      (isDigitIn 8 b = true → hexDigit? b = some (b.toNat - 0x30)) :=
    forall_byte (motive := fun b =>
      isDigitIn 8 b = (decide (0x30 ≤ b) && decide (b ≤ 0x37)) ∧
        (isDigitIn 8 b = true → hexDigit? b = some (b.toNat - 0x30))) (by decide +kernel) b
  refine foldlM_digits fun n b => ?_
  rw [← (hdigit b).1]
  by_cases hb : isDigitIn 8 b = true
  · simp [hb, (hdigit b).2 hb, Nat.mul_comm]
  · simp [hb]

/-! ## Escapes -/

/-- Reads a fixed number of digits. -/
theorem guard_digits {base count : Nat} {read : Text → Option Nat}
    (hread : ∀ {ds v}, read ds = some v ↔ (∀ b ∈ ds, isDigitIn base b = true) ∧ v = spelled base ds)
    {t : Text} {v : Nat} :
    (count ≤ t.length ∧ read (t.take count) = some v) ↔
      ∃ ds rest, t = ds ++ rest ∧ AreDigits base count ds ∧ v = spelled base ds := by
  rw [hread]
  constructor
  · rintro ⟨hle, hdigits, hv⟩
    exact ⟨t.take count, t.drop count, (List.take_append_drop _ _).symm,
      ⟨List.length_take_of_le hle, hdigits⟩, hv⟩
  · rintro ⟨ds, rest, rfl, ⟨rfl, hdigits⟩, hv⟩
    rw [List.take_left]
    exact ⟨by simp, hdigits, hv⟩

theorem bind_hexValue?_iff {count : Nat} {t : Text} {next : Nat → Option (Text × Nat)}
    {r : Text × Nat} :
    (do
      guard (count ≤ t.length)
      let v ← hexValue? (t.take count)
      next v) = some r ↔
      ∃ ds rest, t = ds ++ rest ∧ AreDigits 16 count ds ∧ next (spelled 16 ds) = some r := by
  simp only [Option.bind_eq_bind, Option.bind_eq_some_iff, Option.guard_eq_some', exists_const]
  constructor
  · rintro ⟨hle, v, hv, hnext⟩
    obtain ⟨ds, rest, hsplit, digits, rfl⟩ := (guard_digits hexValue?_eq_some_iff).mp ⟨hle, hv⟩
    exact ⟨ds, rest, hsplit, digits, hnext⟩
  · rintro ⟨ds, rest, hsplit, digits, hnext⟩
    obtain ⟨hle, hv⟩ := (guard_digits hexValue?_eq_some_iff).mpr ⟨ds, rest, hsplit, digits, rfl⟩
    exact ⟨hle, _, hv, hnext⟩

/-- A code point that is no surrogate is encoded. -/
theorem guard_isScalar_iff {v n n' : Nat} {bytes : Text} :
    (do
      guard (isScalar v)
      return (Text.encode v, n)) = some (bytes, n') ↔
      isScalar v = true ∧ Text.encode v = bytes ∧ n = n' := by
  simp [Option.bind_eq_some_iff, Option.guard_eq_some']

theorem escape?_letter {c b : UInt8} (h : (c, b) ∈ escapes) (t : Text) :
    escape? 0x22 (c :: t) = some ([b], 1) := by
  simp only [escapes, List.mem_cons, Prod.mk.injEq, List.not_mem_nil, or_false] at h
  rcases h with ⟨rfl, rfl⟩ | ⟨rfl, rfl⟩ | ⟨rfl, rfl⟩ | ⟨rfl, rfl⟩ | ⟨rfl, rfl⟩ | ⟨rfl, rfl⟩ |
    ⟨rfl, rfl⟩ | ⟨rfl, rfl⟩ | ⟨rfl, rfl⟩ <;> rfl

theorem escape?_octal {c : UInt8} (h : isDigitIn 8 c = true) (t : Text) :
    escape? 0x22 (c :: t) = do
      guard (2 ≤ t.length)
      let v ← octalValue? (c :: t.take 2)
      guard (v ≤ 255)
      return ([v.toUInt8], 3) := by
  have hdigit : isDigitIn 8 c = true →
      c ∈ ([0x30, 0x31, 0x32, 0x33, 0x34, 0x35, 0x36, 0x37] : Text) :=
    forall_byte (motive := fun c => isDigitIn 8 c = true →
      c ∈ ([0x30, 0x31, 0x32, 0x33, 0x34, 0x35, 0x36, 0x37] : Text)) (by decide +kernel) c
  have hc := hdigit h
  simp only [List.mem_cons, List.not_mem_nil, or_false] at hc
  rcases hc with rfl | rfl | rfl | rfl | rfl | rfl | rfl | rfl <;> rfl

theorem exists_escape {t bytes : Text} {n : Nat} (h : escape? 0x22 t = some (bytes, n)) :
    ∃ ds rest, t = ds ++ rest ∧ n = ds.length ∧ Escape ds bytes := by
  have hletter {c b : UInt8} {t : Text} (known : (c, b) ∈ escapes)
      (h : some ([b], 1) = some (bytes, n)) :
      ∃ ds rest, c :: t = ds ++ rest ∧ n = ds.length ∧ Escape ds bytes := by
    obtain ⟨rfl, rfl⟩ := Prod.mk.inj (Option.some.inj h)
    exact ⟨[c], t, rfl, rfl, .letter known⟩
  unfold escape? at h
  split at h
  · exact absurd h (by simp)
  · rename_i c t
    split at h
    case h_9 =>
      obtain ⟨ds, rest, rfl, digits, h⟩ := bind_hexValue?_iff.mp h
      obtain ⟨rfl, rfl⟩ := Prod.mk.inj (Option.some.inj h)
      exact ⟨0x78 :: ds, rest, rfl, by rw [List.length_cons, digits.1], .byte digits⟩
    case h_10 =>
      obtain ⟨ds, rest, rfl, digits, h⟩ := bind_hexValue?_iff.mp h
      obtain ⟨scalar, rfl, rfl⟩ := guard_isScalar_iff.mp h
      exact ⟨0x75 :: ds, rest, rfl, by rw [List.length_cons, digits.1], .short digits scalar⟩
    case h_11 =>
      obtain ⟨ds, rest, rfl, digits, h⟩ := bind_hexValue?_iff.mp h
      obtain ⟨scalar, rfl, rfl⟩ := guard_isScalar_iff.mp h
      exact ⟨0x55 :: ds, rest, rfl, by rw [List.length_cons, digits.1], .long digits scalar⟩
    case h_12 =>
      split at h
      · simp only [Option.bind_eq_bind, Option.bind_eq_some_iff, Option.guard_eq_some',
          exists_const] at h
        obtain ⟨hle, v, hv, small, h⟩ := h
        have hlong : 3 ≤ (c :: t).length := Nat.succ_le_succ hle
        obtain ⟨ds, rest, hsplit, digits, rfl⟩ :=
          (guard_digits octalValue?_eq_some_iff).mp ⟨hlong, hv⟩
        obtain ⟨rfl, rfl⟩ := Prod.mk.inj (Option.some.inj h)
        exact ⟨ds, rest, hsplit, digits.1.symm, .octal digits small⟩
      · split at h
        · rename_i hc
          subst hc
          exact hletter (by decide) h
        · exact absurd h (by simp)
    all_goals exact hletter (by decide) h

theorem escape?_of_escape {ds bytes : Text} (h : Escape ds bytes) (rest : Text) :
    escape? 0x22 (ds ++ rest) = some (bytes, ds.length) := by
  cases h with
  | letter known => exact escape?_letter known rest
  | octal digits small =>
      obtain ⟨c, ds, rfl⟩ := List.exists_cons_of_length_pos (by rw [digits.1]; decide)
      obtain ⟨hle, hv⟩ := (guard_digits octalValue?_eq_some_iff).mpr
        ⟨c :: ds, rest, rfl, digits, rfl⟩
      rw [List.cons_append, escape?_octal (digits.2 c List.mem_cons_self)]
      simp only [Option.bind_eq_bind, Option.bind_eq_some_iff, Option.guard_eq_some', exists_const]
      exact ⟨Nat.le_of_succ_le_succ hle, _, hv, small, by rw [digits.1]; rfl⟩
  | @byte ds digits =>
      rw [List.length_cons, digits.1]
      exact bind_hexValue?_iff.mpr ⟨ds, rest, rfl, digits, rfl⟩
  | @short ds digits scalar =>
      rw [List.length_cons, digits.1]
      exact bind_hexValue?_iff.mpr
        ⟨ds, rest, rfl, digits, guard_isScalar_iff.mpr ⟨scalar, rfl, rfl⟩⟩
  | @long ds digits scalar =>
      rw [List.length_cons, digits.1]
      exact bind_hexValue?_iff.mpr
        ⟨ds, rest, rfl, digits, guard_isScalar_iff.mpr ⟨scalar, rfl, rfl⟩⟩

/-! ## Characters -/

theorem Escape.low {ds bytes : Text} (h : Escape ds bytes) : ∀ b ∈ ds, b < 0x80 := by
  have hdigits {base count : Nat} {ds : Text} (digits : AreDigits base count ds) :
      ∀ b ∈ ds, b < 0x80 := by
    intro b hb
    have hlow : (hexDigit? b).isSome = true → b < 0x80 :=
      forall_byte (motive := fun b => (hexDigit? b).isSome = true → b < 0x80) (by decide +kernel) b
    obtain ⟨d, -, hd⟩ := isDigitIn_iff.mp (digits.2 b hb)
    exact hlow (by rw [hd]; rfl)
  cases h with
  | @letter c b known =>
      have htable : escapes.all (fun e => e.1 < 0x80) = true := by decide
      simpa using List.all_eq_true.mp htable (c, b) known
  | octal digits _ => exact hdigits digits
  | byte digits => simpa using hdigits digits
  | short digits _ => simpa using hdigits digits
  | long digits _ => simpa using hdigits digits

end Schematic.Literal

namespace Schematic.Text

theorem isUtf8_cons {a : UInt8} {s rest : Text} (h : (firstRune a (s ++ rest)).bytes = a :: s) :
    isUtf8 (a :: (s ++ rest)) = ((firstRune a (s ++ rest)).code?.isSome && isUtf8 rest) := by
  rw [isUtf8, runes, runesFrom, h, List.length_cons, Nat.add_sub_cancel, runesFrom_append]
  rfl

theorem isUtf8_of_append_low {s rest : Text} (hs : ∀ b ∈ s, b < 0x80)
    (h : isUtf8 (s ++ rest) = true) : isUtf8 rest = true := by
  induction s with
  | nil => exact h
  | cons a s ih =>
      obtain ⟨ha, hs⟩ := List.forall_mem_cons.mp hs
      have hfirst : (firstRune a ([] ++ (s ++ rest))).bytes = [a] := by simp [firstRune, ha]
      have hcons := isUtf8_cons hfirst
      rw [List.nil_append] at hcons
      rw [List.cons_append, hcons, Bool.and_eq_true] at h
      exact ih hs h.2

/-- A whole rune is one whatever follows it. -/
theorem firstRune_append_of_whole {a : UInt8} {s : Text} {code : Nat}
    (h : firstRune a s = ⟨a :: s, some code⟩) (rest : Text) :
    firstRune a (s ++ rest) = ⟨a :: s, some code⟩ := by
  revert h
  match s with
  | [] => simp only [firstRune, List.nil_append]; grind
  | [b] => simp only [firstRune, List.cons_append, List.nil_append]; grind
  | [b, c] => simp only [firstRune, List.cons_append, List.nil_append]; grind
  | b :: c :: d :: s => exact id

end Schematic.Text

namespace Schematic.Literal

open Text

/-- What is read as a character is spelled as one, where all is UTF-8. -/
theorem exists_character {b : UInt8} {t bytes : Text} {n : Nat}
    (h : character? 0x22 b t = some (bytes, n)) (hb : b ≠ 0x22) (utf8 : isUtf8 (b :: t) = true) :
    ∃ s rest, t = s ++ rest ∧ n = s.length + 1 ∧ Character (b :: s) bytes ∧ isUtf8 rest = true := by
  rw [character?] at h
  split at h
  · rename_i hslash
    subst hslash
    obtain ⟨⟨bytes', n'⟩, hescape, heq⟩ := Option.map_eq_some_iff.mp h
    obtain ⟨rfl, rfl⟩ := Prod.mk.inj heq
    obtain ⟨ds, rest, rfl, rfl, escape⟩ := exists_escape hescape
    refine ⟨ds, rest, rfl, rfl, .escaped escape, ?_⟩
    refine isUtf8_of_append_low (s := 0x5C :: ds) ?_ utf8
    rw [List.forall_mem_cons]
    exact ⟨by decide, escape.low⟩
  · split at h
    · exact absurd h (by simp)
    · rename_i hslash hfeed
      obtain ⟨s, rest, rfl, hbytes⟩ := exists_bytes_firstRune b t
      rw [isUtf8_cons hbytes, Bool.and_eq_true] at utf8
      obtain ⟨code, hcode⟩ := Option.isSome_iff_exists.mp utf8.1
      have hrune : firstRune b (s ++ rest) = ⟨b :: s, some code⟩ := by
        rw [← hbytes, ← hcode]
      have hwhole : firstRune b s = ⟨b :: s, some code⟩ := by
        rw [← hrune, firstRune_append]
        rw [hbytes, List.length_cons]
      rw [hrune] at h
      obtain ⟨rfl, rfl⟩ := Prod.mk.inj (Option.some.inj h)
      exact ⟨s, rest, rfl, rfl, .plain hwhole hb hslash hfeed, utf8.2⟩

/-- What is spelled as a character is read as one. -/
theorem character?_of_character {p bytes : Text} (h : Character p bytes) :
    ∃ a s, p = a :: s ∧ a ≠ 0x22 ∧
      ∀ rest, character? 0x22 a (s ++ rest) = some (bytes, s.length + 1) := by
  cases h with
  | @plain a s code rune quote backslash feed =>
      refine ⟨a, s, rfl, quote, fun rest => ?_⟩
      rw [character?, if_neg backslash, if_neg feed, firstRune_append_of_whole rune rest]
      rfl
  | @escaped ds bytes escape =>
      refine ⟨0x5C, ds, rfl, by decide, fun rest => ?_⟩
      rw [character?, if_pos rfl, escape?_of_escape escape rest]
      rfl

/-! ## Between marks -/

theorem unquoteFrom_drop (mark : UInt8) (taken : Nat) (t : Text) :
    unquoteFrom mark taken t = unquoteFrom mark 0 (t.drop taken) := by
  induction t generalizing taken with
  | nil => simp [unquoteFrom]
  | cons b t ih =>
      cases taken with
      | zero => rfl
      | succ taken => exact ih taken

/-- One character is read at a time. -/
theorem unquoteFrom_character {b : UInt8} {s rest bytes : Text} (hb : b ≠ 0x22)
    (h : character? 0x22 b (s ++ rest) = some (bytes, s.length + 1)) :
    unquoteFrom 0x22 0 (b :: (s ++ rest)) = (unquoteFrom 0x22 0 rest).map (bytes ++ ·) := by
  rw [unquoteFrom, if_neg hb, h]
  simp only [Option.bind_eq_bind, Option.bind_some, Nat.add_sub_cancel]
  rw [unquoteFrom_drop, List.drop_left]
  cases unquoteFrom 0x22 0 rest <;> rfl

theorem unquoteFrom_characters {parts : List (Text × Text)}
    (h : ∀ p ∈ parts, Character p.1 p.2) :
    unquoteFrom 0x22 0 (parts.flatMap Prod.fst ++ [0x22]) = some (parts.flatMap Prod.snd) := by
  induction parts with
  | nil => rfl
  | cons p parts ih =>
      obtain ⟨hp, hparts⟩ := List.forall_mem_cons.mp h
      obtain ⟨a, s, hspelled, ha, hread⟩ := character?_of_character hp
      rw [List.flatMap_cons, List.flatMap_cons, hspelled, List.append_assoc, List.cons_append,
        unquoteFrom_character ha (hread _), ih hparts]
      rfl

theorem exists_characters {t v : Text} (h : unquoteFrom 0x22 0 t = some v)
    (utf8 : isUtf8 t = true) :
    ∃ parts : List (Text × Text), (∀ p ∈ parts, Character p.1 p.2) ∧
      t = parts.flatMap Prod.fst ++ [0x22] ∧ v = parts.flatMap Prod.snd := by
  -- The text behind a character is shorter.
  induction hlength : t.length using Nat.strong_induction_on generalizing t v with
  | _ length ih =>
      cases t with
      | nil => simp [unquoteFrom] at h
      | cons b t =>
          by_cases hb : b = 0x22
          · rw [unquoteFrom, if_pos hb] at h
            split at h
            · rename_i hempty
              obtain rfl := List.isEmpty_iff.mp hempty
              exact ⟨[], by simp, by rw [hb]; rfl, (Option.some.inj h).symm⟩
            · exact absurd h (by simp)
          · cases hread : character? 0x22 b t with
            | none => simp [unquoteFrom, hb, hread] at h
            | some result =>
                obtain ⟨bytes, n⟩ := result
                obtain ⟨s, rest, rfl, rfl, character, hrest⟩ := exists_character hread hb utf8
                rw [unquoteFrom_character hb hread] at h
                obtain ⟨v, hv, rfl⟩ := Option.map_eq_some_iff.mp h
                have hshorter : rest.length < length := by
                  rw [← hlength, List.length_cons, List.length_append]
                  omega
                obtain ⟨parts, hparts, rfl, rfl⟩ := ih _ hshorter hv hrest rfl
                refine ⟨(b :: s, bytes) :: parts, ?_, by simp, rfl⟩
                rw [List.forall_mem_cons]
                exact ⟨character, hparts⟩

/-- The schema language reads every text that the target language has. -/
theorem unquote?_of_quoted {t v : Text} (h : Quoted t v) : unquote? t = some v := by
  cases h with
  | @raw body noMark => simp [unquote?, noMark]
  | interpreted characters => exact unquoteFrom_characters characters

theorem Quoted.head? {t v : Text} (h : Quoted t v) :
    t.head? = some 0x22 ∨ t.head? = some 0x60 := by
  cases h with
  | raw _ => exact .inr rfl
  | interpreted _ => exact .inl rfl

/-- What the schema language reads between double quotation marks or backquotes is a text of the
target language, if it is UTF-8. -/
theorem quoted_of_unquote? {t v : Text} (h : unquote? t = some v)
    (hmark : t.head? = some 0x22 ∨ t.head? = some 0x60) (utf8 : isUtf8 t = true) : Quoted t v := by
  obtain ⟨t, rfl | rfl⟩ : ∃ body, t = 0x22 :: body ∨ t = 0x60 :: body := by
    cases t with
    | nil => simp at hmark
    | cons b t => exact ⟨t, by simpa using hmark⟩
  · have hbody : isUtf8 t = true :=
      isUtf8_of_append_low (s := [0x22]) (by simp) utf8
    obtain ⟨parts, hparts, rfl, rfl⟩ := exists_characters h hbody
    exact .interpreted hparts
  · rw [unquote?] at h
    split at h
    · rename_i body hreverse
      obtain rfl : t = body.reverse ++ [0x60] := by
        rw [← List.reverse_cons, ← hreverse, List.reverse_reverse]
      split at h
      · exact absurd h (by simp)
      · rename_i hmem
        obtain rfl := Option.some.inj h
        exact .raw (by simpa using hmem)
    · exact absurd h (by simp)

end Schematic.Literal
