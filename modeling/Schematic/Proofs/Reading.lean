import Schematic.Method.Run
import Schematic.Method.Reader
import Schematic.Proofs.Instance
import Schematic.Proofs.LittleEndian
import Schematic.Proofs.BufferStep

/-!
# Reading back what was written

Whatever an operation puts into a buffer, the reader finds again where it stands: words by their
bytes, texts by the zero behind them. Reads of several things are put together from reads of one.
-/

namespace Schematic.Method

open Text Buffer

/-! ## Words and texts -/

section Bytes

variable {payload : Text} {position : Nat}

theorem wordAt_of_standsAt {width n : Nat} (h : payload.StandsAt position (littleEndian width n))
    (hn : n < 256 ^ width) : wordAt payload width position = some (n, position + width) := by
  have hbytes := h.take_drop
  rw [length_littleEndian] at hbytes
  simp only [wordAt, hbytes, length_littleEndian, if_true, ofLittleEndian_littleEndian_of_lt hn]

theorem slotAt_of_standsAt {target : Nat}
    (h : payload.StandsAt position (littleEndian slotSize target)) (htarget : target < 2 ^ 32) :
    slotAt payload position = some (target, position + slotSize) :=
  wordAt_of_standsAt h (Nat.lt_trans htarget (by decide))

/-- A text without a zero is read up to the zero that stands behind it. -/
theorem textAt_of_standsAt {t : Text} (h : payload.StandsAt position (t ++ [0]))
    (nulFree : 0 ∉ t) : textAt payload position = some (t, position + t.length + 1) := by
  have hlen := h.length_le (by simp)
  have hdrop := h.drop_eq (by simp)
  have htext : (payload.drop position).takeWhile (· ≠ 0) = t := by
    rw [hdrop, List.append_assoc, List.takeWhile_append_of_pos]
    · simp
    · intro a ha
      simp only [ne_eq, decide_not, Bool.not_eq_eq_eq_not, Bool.not_true, decide_eq_false_iff_not]
      rintro rfl
      exact nulFree ha
  simp only [List.length_append, List.length_singleton] at hlen
  simp only [textAt, htext]
  rw [if_pos (by omega)]

end Bytes

theorem word32_lt (i : Int) : word32 i < 2 ^ 32 := by
  unfold word32
  omega

/-- An integer of 32 bits is what its two's complement stands for. -/
theorem signed32_word32 {i : Int} (fits : fitsWord 32 i = true) : signed32 (word32 i) = i := by
  have := fitsWord_iff.mp fits
  unfold signed32 word32
  split <;> omega

/-! ## Plain values -/

end Schematic.Method

namespace Schematic

open Method Buffer

/-- The bytes that a value takes in place, if it is not stored behind a slot. -/
def FieldType.width : FieldType → Nat
  | basic .bool => 1
  | _ => 4

/-- An operation that writes a value so that it can be read back. -/
structure WrittenBy (op : Operation) (v : Value) (type : FieldType) : Prop where
  plain : op.isPlain = true
  fits : ∀ n, op = .count n → Text.fitsWord 32 n = true
  run : ∀ (c : Callees) (w : Writing) (p : Place), w.read p = some v →
    (type.write p).run c w = some { w with buffer := op.apply w.buffer }
  value : v.isNulFree = true → ∀ (source : Source) (position : Nat),
    source.payload.StandsAt position op.bytes →
      source.value type position = some (v, position + op.bytes.length)
  width : type.isIndirect = false → op.bytes.length = type.width

theorem writtenBy_bool (b : Bool) : WrittenBy (.bool b) (.bool b) (.basic .bool) where
  plain := rfl
  fits := by simp
  run := by
    intro c w p hread
    simp [FieldType.write, Basic.plain, WriteStep.run, hread, Plain.write, Operation.apply]
  value := by
    intro _ source position hstands
    have hword : wordAt source.payload 1 position = some (if b then 1 else 0, position + 1) := by
      apply wordAt_of_standsAt
      · cases b <;> exact hstands
      · split <;> decide
    cases b <;> simp [Source.value, hword, Operation.bytes]
  width := by simp [Operation.bytes, FieldType.width]

theorem writtenBy_int {type : FieldType} {i : Int} (integer : type.isInteger = true)
    (fits : Text.fitsWord 32 i = true) : WrittenBy (.int32 i) (.int i) type := by
  have hsigned := signed32_word32 fits
  constructor
  · rfl
  · simp
  · intro c w p hread
    cases type with
    | basic b =>
        cases b <;> simp_all [FieldType.isInteger, FieldType.write, Basic.plain, WriteStep.run,
          Plain.write, Operation.apply]
    | enumeration e =>
        simp [FieldType.write, WriteStep.run, hread, Plain.write, Operation.apply]
    | _ => exact absurd integer (by simp [FieldType.isInteger])
  · intro _ source position hstands
    have hword : wordAt source.payload 4 position = some (word32 i, position + 4) :=
      wordAt_of_standsAt hstands (word32_lt i)
    cases type with
    | basic b => cases b <;> simp_all [FieldType.isInteger, Source.value, Operation.bytes]
    | enumeration e => simp [Source.value, Operation.bytes, hword, hsigned]
    | _ => exact absurd integer (by simp [FieldType.isInteger])
  · intro _
    cases type with
    | basic b => cases b <;> simp_all [FieldType.isInteger, FieldType.width, Operation.bytes]
    | _ => simp [FieldType.width, Operation.bytes]

theorem writtenBy_float {bits : Nat} (small : bits < 2 ^ 32) :
    WrittenBy (.float32 bits) (.float bits) (.basic .float) where
  plain := rfl
  fits := by simp
  run := by
    intro c w p hread
    simp [FieldType.write, Basic.plain, WriteStep.run, hread, Plain.write, Operation.apply]
  value := by
    intro _ source position hstands
    have hword : wordAt source.payload 4 position = some (bits, position + 4) :=
      wordAt_of_standsAt hstands small
    simp [Source.value, hword, Operation.bytes]
  width := by simp [Operation.bytes, FieldType.width]

theorem writtenBy_string (t : Text) : WrittenBy (.string t) (.string t) (.basic .string) where
  plain := rfl
  fits := by simp
  run := by
    intro c w p hread
    simp [FieldType.write, Basic.plain, WriteStep.run, hread, Plain.write, Operation.apply]
  value := by
    intro nulFree source position hstands
    have htext : textAt source.payload position = some (t, position + t.length + 1) :=
      textAt_of_standsAt hstands (by simpa [Value.isNulFree] using nulFree)
    simp [Source.value, htext, Operation.bytes, Nat.add_assoc]
  width := by simp [FieldType.isIndirect]

/-- Every value that is no struct is written by one operation. -/
theorem exists_writtenBy {s : Schema} {v : Value} {type : FieldType}
    (h : s.admits v type .scalar = true) (plain : type.isStruct = false) :
    ∃ op, WrittenBy op v type := by
  cases type with
  | basic b =>
      cases b with
      | bool =>
          obtain ⟨b, rfl⟩ := Schema.eq_bool_of_admits h
          exact ⟨_, writtenBy_bool b⟩
      | int =>
          obtain ⟨i, rfl, fits⟩ := Schema.eq_int_of_admits rfl h
          exact ⟨_, writtenBy_int rfl fits⟩
      | float =>
          obtain ⟨bits, rfl, small⟩ := Schema.eq_float_of_admits h
          exact ⟨_, writtenBy_float small⟩
      | string =>
          obtain ⟨t, rfl⟩ := Schema.eq_string_of_admits h
          exact ⟨_, writtenBy_string t⟩
  | enumeration e =>
      obtain ⟨i, rfl, fits⟩ := Schema.eq_int_of_admits rfl h
      exact ⟨_, writtenBy_int rfl fits⟩
  | struct q => exact absurd plain (by simp [FieldType.isStruct])
  | described kind builtin =>
      rw [Schema.not_admits_described] at h
      exact absurd h (by simp)

end Schematic
