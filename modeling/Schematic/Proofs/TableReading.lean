import Schematic.Buffer.Access
import Schematic.Proofs.Payload

/-!
# What splits

Where the table of a finished buffer starts is said only by the number at its end, which may be any
number at all. Main statement: data splits exactly if it is a payload, words for slots inside the
payload and the number of these words, and there is at most one way to read it so. Taking it apart
access by access gives the same answer and never looks outside of the data.
-/

namespace Schematic.Buffer

open Text

/-- Data that is a payload, the offsets of slots inside it as words, and how many these are. -/
structure Consists (data payload : Text) (slots : List Nat) : Prop where
  data_eq : data = payload ++ slots.flatMap (littleEndian 4) ++ littleEndian 4 slots.length
  count : slots.length < 2 ^ 32
  words : ∀ slot ∈ slots, slot < 2 ^ 32
  inside : ∀ slot ∈ slots, slot + slotSize ≤ payload.length

section Split

variable {data payload : Text} {slots : List Nat}

theorem Consists.split_eq (h : Consists data payload slots) :
    split data = .ok (payload, slots) := by
  rw [h.data_eq, List.append_assoc]
  exact split_append_table h.count h.words h.inside

theorem length_lastFour (long : 4 ≤ data.length) : (data.drop (data.length - 4)).length = 4 := by
  simp
  omega

theorem lastWord_lt (long : 4 ≤ data.length) :
    ofLittleEndian (data.drop (data.length - 4)) < 2 ^ 32 := by
  have hlt := ofLittleEndian_lt (data.drop (data.length - 4))
  rw [length_lastFour long] at hlt
  exact hlt

theorem littleEndian_lastWord (long : 4 ≤ data.length) :
    littleEndian 4 (ofLittleEndian (data.drop (data.length - 4))) =
      data.drop (data.length - 4) := by
  have hwritten := littleEndian_ofLittleEndian (data.drop (data.length - 4))
  rwa [length_lastFour long] at hwritten

/-- Data with room for as many entries as its last word says consists of what stands in front of
them and of the words they spell. -/
theorem consists_of_room {count : Nat}
    (hcount : ofLittleEndian (data.drop (data.length - 4)) = count)
    (room : 4 + 4 * count ≤ data.length)
    (hslots : slots = words32 ((data.drop (data.length - 4 - 4 * count)).take (4 * count)))
    (inside : ∀ slot ∈ slots, slot + slotSize ≤ data.length - 4 - 4 * count) :
    Consists data (data.take (data.length - 4 - 4 * count)) slots := by
  generalize hstart : data.length - 4 - 4 * count = start at *
  have hentries : ((data.drop start).take (4 * count)).length = 4 * count := by
    simp
    omega
  have hlength : slots.length = count := by
    rw [hslots]
    exact length_words32 hentries
  refine ⟨?_, ?_, ?_, ?_⟩
  · have hend : start + 4 * count = data.length - 4 := by omega
    have htable : slots.flatMap (littleEndian 4) = (data.drop start).take (4 * count) := by
      rw [hslots]
      exact flatMap_words32 hentries
    calc
      data = data.take start ++ data.drop start := (List.take_append_drop _ _).symm
      _ = data.take start ++
            ((data.drop start).take (4 * count) ++ (data.drop start).drop (4 * count)) := by
          rw [List.take_append_drop (4 * count) (data.drop start)]
      _ = data.take start ++ (slots.flatMap (littleEndian 4) ++ data.drop (data.length - 4)) := by
          rw [List.drop_drop, hend, htable]
      _ = data.take start ++ slots.flatMap (littleEndian 4) ++ littleEndian 4 slots.length := by
          rw [hlength, ← hcount, littleEndian_lastWord (by omega), List.append_assoc]
  · rw [hlength, ← hcount]
    exact lastWord_lt (by omega)
  · intro slot hslot
    rw [hslots] at hslot
    exact words32_lt hslot
  · intro slot hslot
    have hfront : (data.take start).length = start := by
      simp
      omega
    rw [hfront]
    exact inside slot hslot

theorem consists_of_split (h : split data = .ok (payload, slots)) :
    Consists data payload slots := by
  unfold split at h
  split at h
  · exact absurd h (by simp)
  · dsimp only at h
    split at h
    · exact absurd h (by simp)
    · rename_i long
      split at h
      · rename_i hall
        obtain ⟨rfl, rfl⟩ := Prod.mk.inj (Except.ok.inj h)
        exact consists_of_room rfl (Nat.le_of_not_lt long) rfl (by simpa using hall)
      · exact absurd h (by simp)

theorem split_eq_ok_iff : split data = .ok (payload, slots) ↔ Consists data payload slots :=
  ⟨consists_of_split, Consists.split_eq⟩

end Split

/-! ## Access by access -/

/-- A number that 64 bits hold is not wrapped around. -/
theorem bmod_of_fits {i : Int} (low : -2 ^ 63 ≤ i) (high : i < 2 ^ 63) : i.bmod (2 ^ 64) = i :=
  Int.bmod_eq_of_le (by omega) (by omega)

section Access

variable {data payload : Text}

theorem slice_eq {first last : Int64} {p q : Nat} (hfirst : first.toInt = p)
    (hlast : last.toInt = q) (ordered : p ≤ q) (inside : q ≤ data.length) :
    slice data first last = .ok ((data.drop p).take (q - p)) := by
  have hzero : 0 ≤ first := by
    rw [Int64.le_iff_toInt_le, hfirst]
    exact Int.natCast_nonneg p
  have hordered : first ≤ last := by
    rw [Int64.le_iff_toInt_le, hfirst, hlast]
    exact Int.ofNat_le.mpr ordered
  have hinside : last.toInt ≤ data.length := by
    rw [hlast]
    exact Int.ofNat_le.mpr inside
  rw [slice, if_pos ⟨hzero, hordered, hinside⟩, hfirst, hlast]
  rfl

theorem firstWord_eq {t : Text} (h : t.length = 4) : firstWord t = .ok (ofLittleEndian t) :=
  match t, h with
  | [_, _, _, _], _ => rfl

/-- Four bytes inside the data are read as a word. -/
theorem firstWord_slice (data : Text) {first last : Int64} {p : Nat} (hfirst : first.toInt = p)
    (hlast : last.toInt = p + 4) (inside : p + 4 ≤ data.length) :
    (do firstWord (← slice data first last)) = .ok (ofLittleEndian ((data.drop p).take 4)) := by
  rw [slice_eq hfirst (q := p + 4) hlast (by omega) inside, Nat.add_sub_cancel_left]
  apply firstWord_eq
  simp
  omega

theorem words32_take_succ {t : Text} (n : Nat) (h : 4 ≤ t.length) :
    words32 (t.take (4 * (n + 1))) =
      ofLittleEndian (t.take 4) :: words32 ((t.drop 4).take (4 * n)) :=
  match t, h with
  | _ :: _ :: _ :: _ :: _, _ => rfl

/-- An entry is held against the end of the payload as it is: its sum is not wrapped around. -/
theorem exceeds_iff {slot : Nat} (large : payload.length < 2 ^ 63) (small : slot < 2 ^ 32) :
    Int64.ofNat payload.length < Int64.ofNat slot + Int64.ofNat slotSize ↔
      payload.length < slot + slotSize := by
  have hsize : (Int64.ofNat slotSize).toInt = 8 := rfl
  rw [Int64.lt_iff_toInt_lt, Int64.toInt_add, hsize, Int64.toInt_ofNat_of_lt large,
    Int64.toInt_ofNat_of_lt (by omega), bmod_of_fits (by omega) (by omega), slotSize]
  omega

/-- Slots that lie inside a payload, all of them. -/
def allInside (payload : Text) (slots : List Nat) : Except AccessFault (List Nat) :=
  if ∀ slot ∈ slots, slot + slotSize ≤ payload.length then .ok slots
  else .error (.table .corrupt)

theorem allInside_cons (payload : Text) (slot : Nat) (slots : List Nat) :
    allInside payload (slot :: slots) =
      if payload.length < slot + slotSize then .error (.table .corrupt)
      else do return slot :: (← allInside payload slots) := by
  have hcons : (∀ s ∈ slot :: slots, s + slotSize ≤ payload.length) ↔
      slot + slotSize ≤ payload.length ∧ ∀ s ∈ slots, s + slotSize ≤ payload.length :=
    List.forall_mem_cons
  by_cases hslot : slot + slotSize ≤ payload.length
  · rw [if_neg (Nat.not_lt.mpr hslot)]
    by_cases hslots : ∀ s ∈ slots, s + slotSize ≤ payload.length
    · rw [allInside, allInside, if_pos hslots, if_pos (hcons.mpr ⟨hslot, hslots⟩)]
      rfl
    · rw [allInside, allInside, if_neg hslots, if_neg fun h => hslots (hcons.mp h).2]
      rfl
  · rw [if_pos (Nat.lt_of_not_le hslot), allInside, if_neg fun h => hslot (hcons.mp h).1]

/-- Slots held against the payload, one after the other or all at the end. -/
theorem allInside_bind {slots : List Nat} {start : Nat} (hstart : payload.length = start) :
    (do return (payload, ← allInside payload slots)) =
      Except.mapError .table
        (if slots.all fun slot => slot + slotSize ≤ start then .ok (payload, slots)
        else .error .corrupt) := by
  have hall : (slots.all fun slot => slot + slotSize ≤ start) = true ↔
      ∀ slot ∈ slots, slot + slotSize ≤ payload.length := by
    simp [hstart]
  by_cases hinside : ∀ slot ∈ slots, slot + slotSize ≤ payload.length
  · rw [allInside, if_pos hinside, if_pos (hall.mpr hinside)]
    rfl
  · rw [allInside, if_neg hinside, if_neg (mt hall.mp hinside)]
    rfl

/-- The entries that are read are the words that stand there, if all of them fit the payload. -/
theorem entries_eq {start index : Int64} {left i : Nat} (large : data.length < 2 ^ 63)
    (hstart : start.toInt = payload.length) (hindex : index.toInt = i)
    (room : payload.length + 4 * (i + left) ≤ data.length) :
    entries data payload start left index =
      allInside payload (words32 ((data.drop (payload.length + 4 * i)).take (4 * left))) := by
  induction left generalizing index i with
  | zero => rfl
  | succ left ih =>
      -- All positions lie inside the data, so 64 bits hold them.
      have hfour : (4 : Int64).toInt = 4 := rfl
      have hposition : (start + 4 * index).toInt = (payload.length + 4 * i : Nat) := by
        rw [Int64.toInt_add, Int64.toInt_mul, hfour, hindex, hstart,
          bmod_of_fits (i := 4 * (i : Int)) (by omega) (by omega),
          bmod_of_fits (by omega) (by omega)]
        omega
      have hend : (start + 4 * index + 4).toInt = (payload.length + 4 * i : Nat) + 4 := by
        rw [Int64.toInt_add, hposition, hfour, bmod_of_fits (by omega) (by omega)]
      have hnext : (index + 1).toInt = (i + 1 : Nat) := by
        rw [Int64.toInt_add, hindex, Int64.toInt_one, bmod_of_fits (by omega) (by omega)]
        omega
      have hword := firstWord_slice data hposition hend (by omega)
      have hslots := words32_take_succ (t := data.drop (payload.length + 4 * i)) left
        (by simp; omega)
      rw [List.drop_drop, show payload.length + 4 * i + 4 = payload.length + 4 * (i + 1) by omega]
        at hslots
      have hbound : ofLittleEndian ((data.drop (payload.length + 4 * i)).take 4) < 2 ^ 32 :=
        words32_lt (hslots ▸ List.mem_cons_self)
      rw [entries, ← bind_assoc, hword, hslots, allInside_cons, ← ih hnext (by omega)]
      exact if_congr (exceeds_iff (by omega) hbound) rfl rfl

theorem toInt_tableStart {count : Nat} (large : data.length < 2 ^ 63) (small : count < 2 ^ 32) :
    (tableStart data count).toInt = (data.length : Int) - 4 - 4 * count := by
  have hfour : (4 : Int64).toInt = 4 := rfl
  rw [tableStart, Int64.toInt_sub, Int64.toInt_sub, Int64.toInt_mul, hfour,
    Int64.toInt_ofNat_of_lt large, Int64.toInt_ofNat_of_lt (by omega),
    bmod_of_fits (i := (data.length : Int) - 4) (by omega) (by omega),
    bmod_of_fits (i := 4 * (count : Int)) (by omega) (by omega),
    bmod_of_fits (by omega) (by omega)]

/-- The data is too short for its table exactly if the table would start before it. -/
theorem tableStart_neg_iff {count : Nat} (large : data.length < 2 ^ 63) (small : count < 2 ^ 32) :
    Int64.ofNat count < 0 ∨ tableStart data count < 0 ↔ data.length < 4 + 4 * count := by
  rw [Int64.lt_iff_toInt_lt, Int64.lt_iff_toInt_lt, toInt_tableStart large small,
    Int64.toInt_ofNat_of_lt (by omega), Int64.toInt_zero]
  omega

/-- In front of a table that the data has room for stands the payload, and in it the entries. -/
theorem entries_tableStart {count : Nat} (large : data.length < 2 ^ 63) (small : count < 2 ^ 32)
    (room : 4 + 4 * count ≤ data.length) :
    slice data 0 (tableStart data count) = .ok (data.take (data.length - 4 - 4 * count)) ∧
      entries data (data.take (data.length - 4 - 4 * count)) (tableStart data count) count 0 =
        allInside (data.take (data.length - 4 - 4 * count))
          (words32 ((data.drop (data.length - 4 - 4 * count)).take (4 * count))) := by
  have hstart := toInt_tableStart large small
  have hfront : (data.take (data.length - 4 - 4 * count)).length = data.length - 4 - 4 * count := by
    simp
    omega
  constructor
  · rw [slice_eq (p := 0) (q := data.length - 4 - 4 * count) rfl (by rw [hstart]; omega)
      (Nat.zero_le _) (by omega)]
    rfl
  · rw [entries_eq (i := 0) large (by rw [hstart, hfront]; omega) rfl (by omega), hfront]
    rfl

/-- Taking data apart access by access gives what splitting gives: no access leaves the data and
no position is wrapped around. -/
theorem cut_eq (large : data.length < 2 ^ 63) : cut data = (split data).mapError .table := by
  have hlength : (Int64.ofNat data.length).toInt = data.length := Int64.toInt_ofNat_of_lt large
  have hfour : (4 : Int64).toInt = 4 := rfl
  have hshort : Int64.ofNat data.length < 4 ↔ data.length < 4 := by
    rw [Int64.lt_iff_toInt_lt, hlength, hfour]
    omega
  by_cases short : data.length < 4
  · rw [cut, split, if_pos (hshort.mpr short), if_pos short]
    rfl
  · have hlast : (Int64.ofNat data.length - 4).toInt = (data.length - 4 : Nat) := by
      rw [Int64.toInt_sub, hlength, hfour, bmod_of_fits (by omega) (by omega)]
      omega
    have hword := firstWord_slice data hlast (by rw [hlength]; omega) (by omega)
    rw [List.take_of_length_le (length_lastFour (Nat.le_of_not_lt short)).le] at hword
    have small := lastWord_lt (Nat.le_of_not_lt short)
    rw [cut, if_neg (mt hshort.mp short), ← bind_assoc, hword, split, if_neg short]
    -- What follows holds of any word at the end.
    generalize ofLittleEndian (data.drop (data.length - 4)) = count at small
    change (if _ then _ else _) = Except.mapError _ (if _ then _ else _)
    by_cases missing : data.length < 4 + 4 * count
    · rw [if_pos ((tableStart_neg_iff large small).mpr missing), if_pos missing]
      rfl
    · obtain ⟨hpayload, hentries⟩ := entries_tableStart large small (Nat.le_of_not_lt missing)
      rw [if_neg (mt (tableStart_neg_iff large small).mp missing), if_neg missing, hpayload]
      change (entries data (data.take (data.length - 4 - 4 * count)) _ count 0 >>= _) = _
      rw [hentries]
      exact allInside_bind (by simp; omega)

end Access

/-! ## What data splits into -/

/-- Data splits exactly into what it consists of, which is settled by the data, and all other data
has a corrupt table. Data of any length that a position can name is taken apart access by access in
the same way, so that no access is out of range. -/
theorem split_exact (data : Text) :
    (∀ payload slots, split data = .ok (payload, slots) ↔ Consists data payload slots) ∧
      (∀ payload slots payload' slots', Consists data payload slots →
        Consists data payload' slots' → payload = payload' ∧ slots = slots') ∧
      (split data = .error .corrupt ↔ ¬∃ payload slots, Consists data payload slots) ∧
      (data.length < 2 ^ 63 → cut data = (split data).mapError .table) := by
  refine ⟨fun payload slots => split_eq_ok_iff, ?_, ?_, cut_eq⟩
  · intro payload slots payload' slots' h h'
    have hsame : (payload, slots) = (payload', slots') :=
      Except.ok.inj (h.split_eq.symm.trans h'.split_eq)
    exact Prod.mk.inj hsame
  · cases hsplit : split data with
    | error e =>
        cases e
        simp only [true_iff]
        rintro ⟨payload, slots, h⟩
        exact absurd (h.split_eq.symm.trans hsplit) (by simp)
    | ok parts =>
        have hparts : Consists data parts.1 parts.2 := consists_of_split hsplit
        simp only [reduceCtorEq, false_iff, not_not]
        exact ⟨parts.1, parts.2, hparts⟩

/-- One slot behind a byte, filled in with the end of the payload. -/
def slotData : Text :=
  [7, 9, 0, 0, 0, 0, 0, 0, 0] ++ [1, 0, 0, 0] ++ [1, 0, 0, 0]

/-- The same with a table that claims as many entries as a word can count. -/
def crowdedData : Text :=
  [7, 9, 0, 0, 0, 0, 0, 0, 0] ++ [1, 0, 0, 0] ++ [255, 255, 255, 255]

theorem split_exact_slot :
    cut slotData = .ok ([7, 9, 0, 0, 0, 0, 0, 0, 0], [1]) ∧
      cut crowdedData = .error (.table .corrupt) ∧
      ¬∃ payload slots, Consists crowdedData payload slots := by
  have hslot : split slotData = .ok ([7, 9, 0, 0, 0, 0, 0, 0, 0], [1]) := by
    apply ((split_exact slotData).1 _ _).mpr
    exact ⟨by decide, by decide, by decide, by decide⟩
  have hcrowded : split crowdedData = .error .corrupt := by decide
  refine ⟨?_, ?_, ((split_exact crowdedData).2.2.1).mp hcrowded⟩
  · rw [(split_exact slotData).2.2.2 (by decide), hslot]
    rfl
  · rw [(split_exact crowdedData).2.2.2 (by decide), hcrowded]
    rfl

end Schematic.Buffer
