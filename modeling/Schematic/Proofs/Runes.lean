import Mathlib.Data.List.Basic
import Mathlib.Data.List.Infix
import Schematic.Text.Rune

/-!
# Runes

A text is the bytes of its runes, one after the other. A byte that is a code point by itself is a
rune wherever it stands and belongs to no other one, and runes that stand together in a text are the
runes of what they spell.
-/

namespace Schematic.Text

/-! ## The first rune -/

section Continuation

variable {a b c d : UInt8}

theorem le_of_isPair (h : isPair a b = true) : 0x80 ≤ b := by
  simp only [isPair, Bool.and_eq_true, decide_eq_true_eq] at h
  exact h.1.2

theorem le_of_isTriple (h : isTriple a b c = true) : 0x80 ≤ b ∧ 0x80 ≤ c := by
  simp only [isTriple, Bool.and_eq_true, decide_eq_true_eq] at h
  obtain ⟨⟨⟨⟨_, hb⟩, _⟩, hc⟩, _⟩ := h
  refine ⟨UInt8.le_trans ?_ hb, hc⟩
  split <;> decide

theorem le_of_isQuadruple (h : isQuadruple a b c d = true) : 0x80 ≤ b ∧ 0x80 ≤ c ∧ 0x80 ≤ d := by
  simp only [isQuadruple, Bool.and_eq_true, decide_eq_true_eq] at h
  obtain ⟨⟨⟨⟨⟨⟨_, hb⟩, _⟩, hc⟩, _⟩, hd⟩, _⟩ := h
  refine ⟨UInt8.le_trans ?_ hb, hc, hd⟩
  split <;> decide

/-- Behind its first byte a rune has only bytes that spell no rune by themselves. -/
theorem le_of_mem_firstRune (a : UInt8) (t : Text) :
    ∀ b ∈ t.take ((firstRune a t).bytes.length - 1), 0x80 ≤ b := by
  unfold firstRune
  split
  · simp
  match t with
  | [] => simp
  | b :: t =>
      dsimp only
      split
      · rename_i h
        simpa using le_of_isPair h
      match t with
      | [] => simp
      | c :: t =>
          dsimp only
          split
          · rename_i h
            simpa using le_of_isTriple h
          match t with
          | [] => simp
          | d :: t =>
              dsimp only
              split
              · rename_i h
                simpa using le_of_isQuadruple h
              · simp

end Continuation

/-- A byte that is no code point by itself. -/
def isHigh (b : UInt8) : Bool :=
  0x80 ≤ b

/-- A byte that is a code point by itself belongs to no rune begun in front of it. -/
theorem firstRune_append_low (a : UInt8) (t : Text) {low : UInt8} (hlow : isHigh low = false)
    (rest : Text) : firstRune a (t ++ low :: rest) = firstRune a t := by
  have hlow : ¬ 0x80 ≤ low := of_decide_eq_false hlow
  have hpair : isPair a low = false :=
    Bool.eq_false_iff.mpr fun h => hlow (le_of_isPair h)
  have hsecond (c : UInt8) : isTriple a low c = false :=
    Bool.eq_false_iff.mpr fun h => hlow (le_of_isTriple h).1
  have hthird (b : UInt8) : isTriple a b low = false :=
    Bool.eq_false_iff.mpr fun h => hlow (le_of_isTriple h).2
  have hquadruple (b c d : UInt8) (h : b = low ∨ c = low ∨ d = low) :
      isQuadruple a b c d = false := by
    apply Bool.eq_false_iff.mpr
    intro hall
    obtain ⟨hb, hc, hd⟩ := le_of_isQuadruple hall
    rcases h with rfl | rfl | rfl
    · exact hlow hb
    · exact hlow hc
    · exact hlow hd
  match t with
  | [] =>
      rcases rest with _ | ⟨c, _ | ⟨d, rest⟩⟩ <;>
        simp [firstRune, hpair, hsecond, hquadruple]
  | [b] =>
      rcases rest with _ | ⟨d, rest⟩ <;> simp [firstRune, hthird, hquadruple]
  | [b, c] => simp [firstRune, hquadruple]
  | b :: c :: d :: t => rfl

/-- How a rune goes on is seen from the bytes up to the next one that is a code point by itself. -/
theorem firstRune_takeWhile (a : UInt8) (t : Text) :
    firstRune a (t.takeWhile isHigh) = firstRune a t := by
  cases hrest : t.dropWhile isHigh with
  | nil =>
      have hall : t = t.takeWhile isHigh := by
        rw [← List.append_nil (t.takeWhile isHigh), ← hrest, List.takeWhile_append_dropWhile]
      rw [← hall]
  | cons low rest =>
      have hlow : isHigh low = false := by
        have hhead := List.head?_dropWhile_not isHigh t
        rw [hrest] at hhead
        simpa using hhead
      calc firstRune a (t.takeWhile isHigh)
          = firstRune a (t.takeWhile isHigh ++ low :: rest) :=
            (firstRune_append_low a _ hlow rest).symm
        _ = firstRune a t := by rw [← hrest, List.takeWhile_append_dropWhile]

/-- The bytes of a rune stand where it starts. -/
theorem exists_bytes_firstRune (a : UInt8) (t : Text) :
    ∃ s rest, t = s ++ rest ∧ (firstRune a t).bytes = a :: s := by
  refine ⟨t.take ((firstRune a t).bytes.length - 1), t.drop ((firstRune a t).bytes.length - 1),
    (List.take_append_drop _ t).symm, ?_⟩
  unfold firstRune
  split
  · simp
  · match t with
    | [] => simp
    | [b] => dsimp only; split <;> simp
    | [b, c] => dsimp only; split <;> [skip; split] <;> simp
    | b :: c :: d :: t => dsimp only; split <;> [skip; split <;> [skip; split]] <;> simp

theorem length_firstRune_le (a : UInt8) (t : Text) :
    (firstRune a t).bytes.length - 1 ≤ (t.takeWhile isHigh).length := by
  obtain ⟨s, rest, heq, hbytes⟩ := exists_bytes_firstRune a (t.takeWhile isHigh)
  rw [← firstRune_takeWhile, hbytes, heq]
  simp

/-- A rune that ends in front of further bytes does not depend on them. -/
theorem firstRune_append {a : UInt8} {t more : Text}
    (h : (firstRune a (t ++ more)).bytes.length ≤ t.length + 1) :
    firstRune a (t ++ more) = firstRune a t := by
  revert h
  match t with
  | [] =>
      rcases more with _ | ⟨b, _ | ⟨c, _ | ⟨d, more⟩⟩⟩ <;>
        simp only [firstRune, List.nil_append] <;> grind
  | [b] =>
      rcases more with _ | ⟨c, _ | ⟨d, more⟩⟩ <;>
        simp only [firstRune, List.cons_append, List.nil_append] <;> grind
  | [b, c] =>
      rcases more with _ | ⟨d, more⟩ <;>
        simp only [firstRune, List.cons_append, List.nil_append] <;> grind
  | b :: c :: d :: t => exact fun _ => rfl

/-! ## All runes -/

/-- The rune of a byte that is a code point by itself. -/
def Rune.ofByte (b : UInt8) : Rune :=
  ⟨[b], some b.toNat⟩

/-- A byte that spells a rune by itself is one wherever it stands. -/
theorem mem_runesFrom_of_low {low : UInt8} (hlow : low < 0x80) {taken : Nat} {t : Text}
    (h : low ∈ t.drop taken) : Rune.ofByte low ∈ runesFrom taken t := by
  induction t generalizing taken with
  | nil => exact absurd h (by simp)
  | cons a t ih =>
      cases taken with
      | succ taken => exact ih h
      | zero =>
          rw [runesFrom]
          rcases List.mem_cons.mp h with rfl | h
          · simp [firstRune, hlow, Rune.ofByte]
          · -- The rune that starts with `a` may go on, but not with such a byte.
            rw [← List.take_append_drop ((firstRune a t).bytes.length - 1) t,
              List.mem_append] at h
            rcases h with h | h
            · exact absurd (le_of_mem_firstRune a t _ h) (UInt8.not_le.mpr hlow)
            · exact List.mem_cons_of_mem _ (ih h)

theorem mem_runes_of_low {low : UInt8} (hlow : low < 0x80) {t : Text} (h : low ∈ t) :
    Rune.ofByte low ∈ runes t :=
  mem_runesFrom_of_low hlow (show low ∈ t.drop 0 from h)

theorem ofRunes_cons (r : Rune) (rs : List Rune) : ofRunes (r :: rs) = r.bytes ++ ofRunes rs :=
  rfl

theorem ofRunes_append (rs more : List Rune) :
    ofRunes (rs ++ more) = ofRunes rs ++ ofRunes more := by
  simp [ofRunes]

theorem ofRunes_runesFrom (taken : Nat) (t : Text) :
    ofRunes (runesFrom taken t) = t.drop taken := by
  induction t generalizing taken with
  | nil => simp [runesFrom, ofRunes]
  | cons a t ih =>
      cases taken with
      | succ taken => exact ih taken
      | zero =>
          obtain ⟨s, rest, rfl, hbytes⟩ := exists_bytes_firstRune a t
          rw [runesFrom, ofRunes_cons, ih, hbytes]
          simp

/-- A text is the bytes of its runes. -/
theorem ofRunes_runes (t : Text) : ofRunes (runes t) = t :=
  ofRunes_runesFrom 0 t

theorem runesFrom_append (t more : Text) : runesFrom t.length (t ++ more) = runes more := by
  induction t with
  | nil => rfl
  | cons a t ih => exact ih

/-- Runes that are read from the bytes that they spell. -/
def Decoded (rs : List Rune) : Prop :=
  runes (ofRunes rs) = rs

theorem decoded_runes (t : Text) : Decoded (runes t) := by
  rw [Decoded, ofRunes_runes]

theorem decoded_cons_iff {r : Rune} {rs : List Rune} :
    Decoded (r :: rs) ↔
      (∃ a s, r.bytes = a :: s ∧ firstRune a (s ++ ofRunes rs) = r) ∧ Decoded rs := by
  constructor
  · intro h
    rw [Decoded, ofRunes_cons] at h
    cases ht : r.bytes ++ ofRunes rs with
    | nil =>
        rw [ht] at h
        exact absurd h (by simp [runes, runesFrom])
    | cons a t =>
        rw [ht, runes, runesFrom] at h
        obtain ⟨hfirst, hrest⟩ := List.cons.inj h
        obtain ⟨s, rest, rfl, hbytes⟩ := exists_bytes_firstRune a t
        rw [hfirst] at hbytes hrest
        obtain rfl : ofRunes rs = rest := by simpa [hbytes] using ht
        rw [hbytes, List.length_cons, Nat.add_sub_cancel, runesFrom_append] at hrest
        exact ⟨⟨a, s, hbytes, hfirst⟩, hrest⟩
  · rintro ⟨⟨a, s, hbytes, hfirst⟩, hrest⟩
    rw [Decoded, ofRunes_cons, hbytes, List.cons_append, runes, runesFrom, hfirst, hbytes,
      List.length_cons, Nat.add_sub_cancel, runesFrom_append, hrest]

theorem decoded_nil : Decoded [] :=
  rfl

theorem Decoded.of_append_left {rs more : List Rune} (h : Decoded (rs ++ more)) : Decoded rs := by
  induction rs with
  | nil => exact decoded_nil
  | cons r rs ih =>
      rw [List.cons_append, decoded_cons_iff] at h
      obtain ⟨⟨a, s, hbytes, hfirst⟩, hrest⟩ := h
      refine decoded_cons_iff.mpr ⟨⟨a, s, hbytes, ?_⟩, ih hrest⟩
      rw [ofRunes_append, ← List.append_assoc] at hfirst
      rw [← firstRune_append, hfirst]
      rw [hfirst, hbytes, List.length_cons, List.length_append]
      omega

theorem Decoded.of_append_right {rs more : List Rune} (h : Decoded (rs ++ more)) :
    Decoded more := by
  induction rs with
  | nil => exact h
  | cons r rs ih => exact ih (decoded_cons_iff.mp h).2

/-- Runes that stand together in a text are the runes of what they spell. -/
theorem runes_of_infix {rs : List Rune} {t : Text} (h : rs <:+: runes t) :
    runes (ofRunes rs) = rs := by
  obtain ⟨front, back, heq⟩ := h
  have hall := decoded_runes t
  rw [← heq] at hall
  exact hall.of_append_left.of_append_right

theorem infix_of_runes {rs : List Rune} {t : Text} (h : rs <:+: runes t) : ofRunes rs <:+: t := by
  obtain ⟨front, back, heq⟩ := h
  refine ⟨ofRunes front, ofRunes back, ?_⟩
  rw [← ofRunes_append, ← ofRunes_append, heq, ofRunes_runes]

/-- A byte that is a code point by itself divides the runes of a text. -/
theorem runes_append_low {low : UInt8} (hlow : low < 0x80) (t rest : Text) :
    runes (t ++ low :: rest) = runes t ++ Rune.ofByte low :: runes rest := by
  have hbehind : Decoded (Rune.ofByte low :: runes rest) := by
    refine decoded_cons_iff.mpr ⟨⟨low, [], rfl, ?_⟩, decoded_runes rest⟩
    simp [firstRune, hlow, Rune.ofByte]
  have hfront : ∀ rs, Decoded rs → Decoded (rs ++ Rune.ofByte low :: runes rest) := by
    intro rs
    induction rs with
    | nil => exact fun _ => hbehind
    | cons r rs ih =>
        intro h
        obtain ⟨⟨a, s, hbytes, hfirst⟩, hrest⟩ := decoded_cons_iff.mp h
        refine decoded_cons_iff.mpr ⟨⟨a, s, hbytes, ?_⟩, ih hrest⟩
        rw [List.append_eq, ofRunes_append, ofRunes_cons, ← List.append_assoc, ← hfirst]
        exact firstRune_append_low a _ (by simpa [isHigh] using hlow) _
  have hall := hfront (runes t) (decoded_runes t)
  rw [Decoded, ofRunes_append, ofRunes_cons, ofRunes_runes, ofRunes_runes] at hall
  exact hall

end Schematic.Text
