import Mathlib.Algebra.Group.Nat.Defs
import Mathlib.Data.List.Forall2
import Schematic.Proofs.ByValue
import Schematic.Value

/-!
# Values of a type

Which values the types of a schema have. An element of a dynamic array of structs may be absent and
then stands for the value that its struct starts with; filling in a value makes that explicit. The
value that a struct starts with is one of its values and has nothing to fill in.
-/

namespace Schematic

/-- A member of the values of a struct. -/
structure Member where
  name : Text
  type : FieldType
  shape : Shape
  deriving Repr, DecidableEq

/-- The member that holds the value of a field. -/
def Field.member (f : Field) : Member :=
  ⟨f.identifier, f.type, f.shape⟩

/-- The member that holds the base of a struct. -/
def baseMembers (base : Option Qualified) : List Member :=
  (base.map fun b => ⟨b.identifier, .struct b, .scalar⟩).toList

/-- The members of a struct's values, the base first. -/
def Struct.members (st : Struct) : List Member :=
  baseMembers st.base ++ st.fields.map Field.member

namespace FieldType

/-- Whether a type is a struct. -/
def isStruct : FieldType → Bool
  | struct _ => true
  | _ => false

/-- Whether the values of a type are integers of 32 bits. -/
def isInteger : FieldType → Bool
  | basic b => b = .int
  | enumeration _ => true
  | _ => false

end FieldType

namespace Value

mutual

/-- Whether no text in a value holds a zero. -/
def isNulFree : Value → Bool
  | string t => !t.contains 0
  | array items => itemsNulFree items
  | record members => membersNulFree members
  | _ => true

/-- Whether no text in any item holds a zero. -/
def itemsNulFree : List Value → Bool
  | [] => true
  | v :: rest => isNulFree v && itemsNulFree rest

/-- Whether no text in any member holds a zero. -/
def membersNulFree : List (Text × Value) → Bool
  | [] => true
  | (_, v) :: rest => isNulFree v && membersNulFree rest

end

mutual

/-- How deep records are nested, where an absent one counts for as many levels as given. -/
def levels (absentLevels : Nat) : Value → Nat
  | array items => levelsItems absentLevels items
  | record members => levelsMembers absentLevels members + 1
  | absent => absentLevels
  | _ => 0

/-- The greatest number of levels among items. -/
def levelsItems (absentLevels : Nat) : List Value → Nat
  | [] => 0
  | v :: rest => max (levels absentLevels v) (levelsItems absentLevels rest)

/-- The greatest number of levels among members. -/
def levelsMembers (absentLevels : Nat) : List (Text × Value) → Nat
  | [] => 0
  | (_, v) :: rest => max (levels absentLevels v) (levelsMembers absentLevels rest)

end

end Value

namespace Schema

mutual

/-- Whether a value is one of a type and shape. -/
def admits (s : Schema) : Value → FieldType → Shape → Bool
  | .bool _, type, .scalar => type = .basic .bool
  | .int i, type, .scalar => type.isInteger && Text.fitsWord 32 i
  | .float bits, type, .scalar => type = .basic .float && bits < 2 ^ 32
  | .string _, type, .scalar => type = .basic .string
  | .record members, .struct q, .scalar =>
    match s.struct? q with
    | some st => s.admitsMembers members st.members
    | none => false
  | .array items, type, .fixed count =>
    items.length = count.toNat && s.admitsItems items type false
  | .array items, type, .dynamic => items.length < 2 ^ 31 && s.admitsItems items type true
  | _, _, _ => false

/-- Whether all items are values of a type; in some arrays structs may be absent. -/
def admitsItems (s : Schema) : List Value → FieldType → (mayBeAbsent : Bool) → Bool
  | [], _, _ => true
  | v :: rest, type, mayBeAbsent =>
    (s.admits v type .scalar || mayBeAbsent && v.isAbsent && type.isStruct) &&
      s.admitsItems rest type mayBeAbsent

/-- Whether the members of a record are those listed, each with a value of its type. -/
def admitsMembers (s : Schema) : List (Text × Value) → List Member → Bool
  | [], [] => true
  | (name, v) :: rest, m :: ms =>
    name = m.name && s.admits v m.type m.shape && s.admitsMembers rest ms
  | _, _ => false

end

mutual

/-- A value with every absent struct replaced by the value that it starts with. -/
def filled (s : Schema) : Value → FieldType → Value
  | .record members, .struct q =>
    match s.struct? q with
    | some st => .record (s.filledMembers members st.members)
    | none => .record members
  | .array items, type => .array (s.filledItems items type)
  | .absent, .struct q => s.zero q
  | v, _ => v

/-- Items with every absent struct replaced. -/
def filledItems (s : Schema) : List Value → FieldType → List Value
  | [], _ => []
  | v :: rest, type => s.filled v type :: s.filledItems rest type

/-- Members with every absent struct replaced. -/
def filledMembers (s : Schema) : List (Text × Value) → List Member → List (Text × Value)
  | (name, v) :: rest, m :: ms => (name, s.filled v m.type) :: s.filledMembers rest ms
  | members, _ => members

end

/-! ## What an admitted value is -/

section Admits

variable {s : Schema} {v : Value} {type : FieldType}

theorem admitsItems_eq_true_iff {items : List Value} {mayBeAbsent : Bool} :
    s.admitsItems items type mayBeAbsent = true ↔
      ∀ v ∈ items, s.admits v type .scalar = true ∨
        mayBeAbsent = true ∧ v.isAbsent = true ∧ type.isStruct = true := by
  induction items with
  | nil => simp [admitsItems]
  | cons v items ih => simp [admitsItems, ih, and_assoc]

theorem admitsMembers_eq_true_iff {members : List (Text × Value)} {ms : List Member} :
    s.admitsMembers members ms = true ↔
      List.Forall₂ (fun m p => p.1 = m.name ∧ s.admits p.2 m.type m.shape = true) ms members := by
  induction members generalizing ms with
  | nil => cases ms <;> simp [admitsMembers]
  | cons p members ih => cases ms <;> simp [admitsMembers, ih]

/-- The forms that the values of a type and shape have. -/
inductive Admitted (s : Schema) : Value → FieldType → Shape → Prop where
  | bool (b : Bool) : Admitted s (.bool b) (.basic .bool) .scalar
  | int {type : FieldType} {i : Int} (integer : type.isInteger = true)
      (fits : Text.fitsWord 32 i = true) : Admitted s (.int i) type .scalar
  | float {bits : Nat} (fits : bits < 2 ^ 32) : Admitted s (.float bits) (.basic .float) .scalar
  | string (t : Text) : Admitted s (.string t) (.basic .string) .scalar
  | record {q : Qualified} {st : Struct} {members : List (Text × Value)}
      (found : s.struct? q = some st) (holds : s.admitsMembers members st.members = true) :
      Admitted s (.record members) (.struct q) .scalar
  | fixed {type : FieldType} {count : Int} {items : List Value}
      (length : items.length = count.toNat)
      (holds : s.admitsItems items type false = true) :
      Admitted s (.array items) type (.fixed count)
  | dynamic {type : FieldType} {items : List Value} (length : items.length < 2 ^ 31)
      (holds : s.admitsItems items type true = true) : Admitted s (.array items) type .dynamic

/-- What the check admits is what its specification admits. -/
theorem admitted_of_admits {shape : Shape} (h : s.admits v type shape = true) :
    s.Admitted v type shape := by
  unfold admits at h
  split at h
  · rw [of_decide_eq_true h]
    exact .bool _
  · rw [Bool.and_eq_true] at h
    exact .int h.1 h.2
  · simp only [Bool.and_eq_true, decide_eq_true_eq] at h
    rw [h.1]
    exact .float h.2
  · rw [of_decide_eq_true h]
    exact .string _
  · split at h
    · exact .record ‹_› h
    · exact absurd h (by simp)
  · simp only [Bool.and_eq_true, decide_eq_true_eq] at h
    exact .fixed h.1 h.2
  · simp only [Bool.and_eq_true, decide_eq_true_eq] at h
    exact .dynamic h.1 h.2
  · exact absurd h (by simp)

theorem eq_bool_of_admits (h : s.admits v (.basic .bool) .scalar = true) :
    ∃ b, v = .bool b := by
  cases admitted_of_admits h with
  | bool b => exact ⟨b, rfl⟩
  | int integer _ => exact absurd integer (by decide)

theorem eq_int_of_admits (integer : type.isInteger = true)
    (h : s.admits v type .scalar = true) : ∃ i, v = .int i ∧ Text.fitsWord 32 i = true := by
  cases admitted_of_admits h with
  | int _ fits => exact ⟨_, rfl, fits⟩
  | record _ _ => exact absurd integer (by simp [FieldType.isInteger])
  | _ => exact absurd integer (by decide)

theorem eq_float_of_admits (h : s.admits v (.basic .float) .scalar = true) :
    ∃ bits, v = .float bits ∧ bits < 2 ^ 32 := by
  cases admitted_of_admits h with
  | float fits => exact ⟨_, rfl, fits⟩
  | int integer _ => exact absurd integer (by decide)

theorem eq_string_of_admits (h : s.admits v (.basic .string) .scalar = true) :
    ∃ t, v = .string t := by
  cases admitted_of_admits h with
  | string t => exact ⟨t, rfl⟩
  | int integer _ => exact absurd integer (by decide)

/-- A value of a struct is a record of its members, each of its own type and shape. -/
theorem eq_record_of_admits {q : Qualified} (h : s.admits v (.struct q) .scalar = true) :
    ∃ st members, s.struct? q = some st ∧ v = .record members ∧
      s.admitsMembers members st.members = true := by
  cases admitted_of_admits h with
  | record found holds => exact ⟨_, _, found, rfl, holds⟩
  | int integer _ => exact absurd integer (by simp [FieldType.isInteger])

/-- A fixed array has as many items as its count says, each of the type. -/
theorem eq_array_of_admits_fixed {count : Int} (h : s.admits v type (.fixed count) = true) :
    ∃ items, v = .array items ∧ items.length = count.toNat ∧
      ∀ item ∈ items, s.admits item type .scalar = true := by
  cases admitted_of_admits h with
  | fixed length holds =>
      exact ⟨_, rfl, length, by simpa using admitsItems_eq_true_iff.mp holds⟩

theorem eq_array_of_admits_dynamic (h : s.admits v type .dynamic = true) :
    ∃ items, v = .array items ∧ items.length < 2 ^ 31 ∧
      ∀ item ∈ items, s.admits item type .scalar = true ∨
        item.isAbsent = true ∧ type.isStruct = true := by
  cases admitted_of_admits h with
  | dynamic length holds =>
      exact ⟨_, rfl, length, by simpa using admitsItems_eq_true_iff.mp holds⟩

/-- No value has a type that is only described. -/
theorem not_admits_described {kind builtin : Text} :
    s.admits v (.described kind builtin) .scalar = false := by
  rw [← Bool.not_eq_true]
  intro h
  cases admitted_of_admits h with
  | int integer _ => exact absurd integer (by simp [FieldType.isInteger])

end Admits

/-! ## Parts of a value -/

/-- Items are filled each on its own. -/
theorem filledItems_eq_map (s : Schema) (items : List Value) (type : FieldType) :
    s.filledItems items type = items.map fun v => s.filled v type := by
  induction items with
  | nil => rfl
  | cons v items ih => rw [filledItems, ih, List.map_cons]

/-- Only structs and arrays hold something to fill in. -/
theorem filled_of_plain {s : Schema} {v : Value} {type : FieldType}
    (h : s.admits v type .scalar = true) (plain : type.isStruct = false) :
    s.filled v type = v := by
  cases admitted_of_admits h with
  | record _ _ => exact absurd plain (by simp [FieldType.isStruct])
  | _ => simp [filled]

end Schema

namespace Value

theorem itemsNulFree_iff {items : List Value} :
    itemsNulFree items = true ↔ ∀ v ∈ items, v.isNulFree = true := by
  induction items with
  | nil => simp [itemsNulFree]
  | cons v items ih => simp [itemsNulFree, ih]

theorem membersNulFree_iff {members : List (Text × Value)} :
    membersNulFree members = true ↔ ∀ p ∈ members, p.2.isNulFree = true := by
  induction members with
  | nil => simp [membersNulFree]
  | cons p members ih => simp [membersNulFree, ih]

theorem levelsItems_le_iff {absentLevels n : Nat} {items : List Value} :
    levelsItems absentLevels items ≤ n ↔ ∀ v ∈ items, v.levels absentLevels ≤ n := by
  induction items with
  | nil => simp [levelsItems]
  | cons v items ih => simp [levelsItems, ih]

theorem levelsMembers_le_iff {absentLevels n : Nat} {members : List (Text × Value)} :
    levelsMembers absentLevels members ≤ n ↔ ∀ p ∈ members, p.2.levels absentLevels ≤ n := by
  induction members with
  | nil => simp [levelsMembers]
  | cons p members ih => simp [levelsMembers, ih]

mutual

/-- Absent structs add no more than their own levels to the depth of a value. -/
theorem levels_le_depth (absentLevels : Nat) :
    ∀ v : Value, v.levels absentLevels ≤ v.depth + absentLevels
  | array items => by
      have := levelsItems_le_depth absentLevels items
      simp only [levels, depth]
      omega
  | record members => by
      have := levelsMembers_le_depth absentLevels members
      simp only [levels, depth]
      omega
  | absent => by simp [levels]
  | bool _ => by simp [levels]
  | int _ => by simp [levels]
  | float _ => by simp [levels]
  | string _ => by simp [levels]

theorem levelsItems_le_depth (absentLevels : Nat) :
    ∀ items : List Value, levelsItems absentLevels items ≤ depthItems items + absentLevels
  | [] => by simp [levelsItems]
  | v :: items => by
      have hv := levels_le_depth absentLevels v
      have hitems := levelsItems_le_depth absentLevels items
      simp only [levelsItems, depthItems]
      omega

theorem levelsMembers_le_depth (absentLevels : Nat) :
    ∀ members : List (Text × Value),
      levelsMembers absentLevels members ≤ depthMembers members + absentLevels
  | [] => by simp [levelsMembers]
  | (_, v) :: members => by
      have hv := levels_le_depth absentLevels v
      have hmembers := levelsMembers_le_depth absentLevels members
      simp only [levelsMembers, depthMembers]
      omega

end

end Value

namespace Schema

/-! ## The values that structs start with -/

/-- A value with nothing to fill in and no text in it that would be cut off. -/
structure Whole (s : Schema) (bound : Nat) (v : Value) (type : FieldType) (shape : Shape) :
    Prop where
  admitted : s.admits v type shape = true
  filled : s.filled v type = v
  levels : v.levels s.walk.length ≤ bound
  nulFree : v.isNulFree = true

section Zero

variable {s : Schema} {bound : Nat}

/-- An array of whole items is whole. -/
theorem whole_array {type : FieldType} {shape : Shape} {items : List Value}
    (admitted : s.admits (.array items) type shape = true)
    (hitems : ∀ v ∈ items, s.Whole bound v type .scalar) :
    s.Whole bound (.array items) type shape where
  admitted := admitted
  filled := by
    have hmap : (items.map fun v => s.filled v type) = items :=
      (List.map_congr_left fun v hv => (hitems v hv).filled).trans (List.map_id' items)
    rw [Schema.filled, filledItems_eq_map, hmap]
  levels := by
    rw [Value.levels]
    exact Value.levelsItems_le_iff.mpr fun v hv => (hitems v hv).levels
  nulFree := by
    rw [Value.isNulFree]
    exact Value.itemsNulFree_iff.mpr fun v hv => (hitems v hv).nulFree

theorem whole_zeroOf {struct : Qualified → Value} {type : FieldType}
    (hdeclared : ∀ kind builtin, type ≠ .described kind builtin)
    (hstruct : ∀ q, type = .struct q → s.Whole bound (struct q) (.struct q) .scalar) :
    s.Whole bound (zeroOf struct type) type .scalar := by
  cases type with
  | basic b =>
      cases b <;> constructor <;>
        simp [zeroOf, admits, filled, Value.levels, Value.isNulFree, Text.fitsWord,
          FieldType.isInteger]
  | enumeration e =>
      constructor <;>
        simp [zeroOf, admits, filled, Value.levels, Value.isNulFree, Text.fitsWord,
          FieldType.isInteger]
  | struct q => exact hstruct q rfl
  | described kind builtin => exact absurd rfl (hdeclared kind builtin)

theorem whole_zeroField {struct : Qualified → Value} {f : Field}
    (hdeclared : ∀ kind builtin, f.type ≠ .described kind builtin)
    (hstruct : ∀ q, f.type = .struct q → f.isDynamic = false →
      s.Whole bound (struct q) (.struct q) .scalar) :
    s.Whole bound (zeroField struct f) f.type f.shape := by
  unfold zeroField
  cases hshape : f.shape with
  | scalar =>
      exact whole_zeroOf hdeclared fun q hq => hstruct q hq (by simp [Field.isDynamic, hshape])
  | dynamic => exact whole_array (by simp [admits, admitsItems]) (by simp)
  | fixed count =>
      have hzero : s.Whole bound (zeroOf struct f.type) f.type .scalar :=
        whole_zeroOf hdeclared fun q hq => hstruct q hq (by simp [Field.isDynamic, hshape])
      refine whole_array ?_ fun v hv => ?_
      · simp only [admits, List.length_replicate, decide_true, Bool.true_and,
          admitsItems_eq_true_iff]
        intro v hv
        rw [List.eq_of_mem_replicate hv]
        exact Or.inl hzero.admitted
      · rw [List.eq_of_mem_replicate hv]
        exact hzero

/-- A record is whole if its members are. -/
theorem whole_record {q : Qualified} {st : Struct} {members : List (Text × Value)}
    (hst : s.struct? q = some st)
    (hmembers : List.Forall₂
      (fun m p => p.1 = m.name ∧ s.Whole bound p.2 m.type m.shape) st.members members) :
    s.Whole (bound + 1) (.record members) (.struct q) .scalar where
  admitted := by
    simp only [admits, hst, admitsMembers_eq_true_iff]
    exact hmembers.imp fun m p h => ⟨h.1, h.2.admitted⟩
  filled := by
    have hfilled : s.filledMembers members st.members = members := by
      generalize st.members = ms at hmembers
      induction hmembers with
      | nil => rfl
      | cons h _ ih => rw [filledMembers, h.2.filled, ih]
    simp only [Schema.filled, hst, hfilled]
  levels := by
    have hlevels : ∀ p ∈ members, p.2.levels s.walk.length ≤ bound :=
      ((List.forall₂_and_left _ _).mp
        (hmembers.flip.imp fun p m h => ⟨h.2.levels, h⟩)).1
    rw [Value.levels]
    exact Nat.succ_le_succ (Value.levelsMembers_le_iff.mpr hlevels)
  nulFree := by
    have hnulFree : ∀ p ∈ members, p.2.isNulFree = true :=
      ((List.forall₂_and_left _ _).mp
        (hmembers.flip.imp fun p m h => ⟨h.2.nulFree, h⟩)).1
    rw [Value.isNulFree]
    exact Value.membersNulFree_iff.mpr hnulFree

/-- The value that a struct starts with is whole, with no more levels than its rank allows. -/
theorem whole_zeroWithin {rank : Qualified → Nat} (hs : s.Ranked rank) {depth : Nat}
    {q : Qualified} (hq : q ∈ s.names) (hdepth : rank q < depth) :
    s.Whole (rank q + 1) (s.zeroWithin depth q) (.struct q) .scalar := by
  induction depth generalizing q with
  | zero => omega
  | succ depth ih =>
      obtain ⟨st, hst, rfl, hfind⟩ := hs.resolved.exists_struct hq
      have hpart : ∀ p, s.ByValue st.qualified p →
          s.Whole (rank st.qualified) (s.zeroWithin depth p) (.struct p) .scalar := by
        intro p hedge
        have hlt := hs.held st.qualified p hedge
        have hwhole := ih (ByValue.held_mem hs.resolved hedge) (by omega)
        exact { hwhole with levels := Nat.le_trans hwhole.levels (by omega) }
      rw [zeroWithin, hfind]
      refine whole_record hfind ?_
      unfold Struct.members
      apply List.rel_append
      · cases hbase : st.base with
        | none => exact List.Forall₂.nil
        | some b =>
            exact List.Forall₂.cons ⟨rfl, hpart b (hs.resolved.byValue_base hst hbase)⟩
              List.Forall₂.nil
      · rw [List.forall₂_map_left_iff, List.forall₂_map_right_iff, List.forall₂_same]
        intro f hf
        refine ⟨rfl, whole_zeroField (hs.resolved.declared st hst f hf) fun q hq hdynamic => ?_⟩
        exact hpart q ⟨f.name, Holds.field hst hf hq hdynamic⟩

/-- The zero value of a declared struct is whole. -/
theorem whole_zero {rank : Qualified → Nat} (hs : s.Ranked rank) {q : Qualified}
    (hq : q ∈ s.names) : s.Whole s.walk.length (s.zero q) (.struct q) .scalar := by
  have hwhole := whole_zeroWithin hs hq (hs.bound q hq)
  exact { hwhole with levels := Nat.le_trans hwhole.levels (hs.bound q hq) }

end Zero

end Schema

end Schematic
