import Schematic.Method.Reader
import Schematic.Proofs.Drawing
import Schematic.Proofs.StructWriting

/-!
# Reading drawings

Readers for the four kinds of drawings that follow the slots of a payload and know nothing of
schemas: where each component stands is written out. They agree with reading by the schema.
-/

namespace Schematic.Drawing

open Method

section Readers

variable (payload : Text)

/-- The 32 bits at a position. -/
def bitsAt (position : Nat) : Option (Located UInt32) :=
  (wordAt payload 4 position).map fun (n, last) => (UInt32.ofNat n, last)

/-- The integer of 32 bits at a position. -/
def intAt (position : Nat) : Option (Located Int32) :=
  (bitsAt payload position).map fun (bits, last) => (bits.toInt32, last)

/-- The byte at a position, taken for a truth value. -/
def flagAt (position : Nat) : Option (Located Bool) :=
  (wordAt payload 1 position).map fun (n, last) => (n ≠ 0, last)

/-- What stands where the slot at a position leads. -/
def behind {α : Type} (read : Nat → Option (Located α)) (position : Nat) :
    Option (Located α) := do
  let (target, _) ← slotAt payload position
  read target

/-- A count and as many things behind it. -/
def arrayAt {α : Type} (read : Nat → Option (Located α)) (position : Nat) :
    Option (Located (List α)) := do
  let (count, position) ← wordAt payload 4 position
  readEach read count position

/-- Two things, one behind the other. -/
def pairAt {α : Type} (read : Nat → Option (Located α)) (position : Nat) :
    Option (Located (α × α)) := do
  let (first, position) ← read position
  let (second, position) ← read position
  return ((first, second), position)

/-- Two things at two positions; the end of the second one counts. -/
def bothAt {α : Type} (read : Nat → Option (Located α)) (positions : Nat × Nat) :
    Option (Located (α × α)) := do
  let (first, _) ← read positions.1
  let (second, last) ← read positions.2
  return ((first, second), last)

/-- The coordinates stand one behind the other. -/
def Point.readAt (position : Nat) : Option (Located Point) := do
  let (x, position) ← bitsAt payload position
  let (y, position) ← bitsAt payload position
  return (⟨x, y⟩, position)

/-- The kind, a slot for the name, whether the shape is visible, and a slot for the kinds; then the
name and the kinds. -/
def Shape.readAt (position : Nat) : Option (Located Shape) := do
  let (kind, position) ← intAt payload position
  let (nameAt, position) ← slotAt payload position
  let (visible, position) ← flagAt payload position
  let (kindsAt, _) ← slotAt payload position
  let (name, _) ← textAt payload nameAt
  let (kinds, last) ← arrayAt payload (intAt payload) kindsAt
  return (⟨kind, name, visible, kinds⟩, last)

/-- The width and a slot for the color; then the color. -/
def Style.readAt (position : Nat) : Option (Located Style) := do
  let (width, position) ← intAt payload position
  let (colorAt, _) ← slotAt payload position
  let (color, last) ← textAt payload colorAt
  return (⟨width, color⟩, last)

/-- The numbers and slots of a path. -/
structure Path.Slots where
  pts : Nat
  style : Nat
  ids : Int32 × Int32
  tags : Nat
  corners : Nat × Nat
  names : Nat × Nat
  styles : Nat

/-- The components of a path in place. -/
def Path.slotsAt (position : Nat) : Option (Located Path.Slots) := do
  let (pts, position) ← slotAt payload position
  let (style, position) ← slotAt payload position
  let (ids, position) ← pairAt (intAt payload) position
  let (tags, position) ← slotAt payload position
  let (corners, position) ← pairAt (slotAt payload) position
  let (names, position) ← pairAt (slotAt payload) position
  let (styles, position) ← slotAt payload position
  return (⟨pts, style, ids, tags, corners, names, styles⟩, position)

/-- The components of a path from where its slots lead. -/
def Path.dataAt (shape : Shape) (slots : Path.Slots) : Option (Located Path) := do
  let (pts, _) ← arrayAt payload (behind payload (Point.readAt payload)) slots.pts
  let (style, _) ← Style.readAt payload slots.style
  let (tags, _) ← arrayAt payload (behind payload (textAt payload)) slots.tags
  let (corners, _) ← bothAt (Point.readAt payload) slots.corners
  let (names, _) ← bothAt (textAt payload) slots.names
  let (styles, last) ← arrayAt payload (behind payload (Style.readAt payload)) slots.styles
  return (⟨shape, pts.map some, style, slots.ids, tags, corners, names, styles.map some⟩, last)

/-- The shape with all its data, then the path's own components in place, then what the slots lead
to. -/
def Path.readAt (position : Nat) : Option (Located Path) := do
  let (shape, position) ← Shape.readAt payload position
  let (slots, _) ← Path.slotsAt payload position
  Path.dataAt payload shape slots

/-- A drawing of a kind. -/
def Kind.readAt (k : Kind) (position : Nat) : Option (Located Drawing) :=
  match k with
  | point => (Point.readAt payload position).map fun (p, last) => (.point p, last)
  | shape => (Shape.readAt payload position).map fun (s, last) => (.shape s, last)
  | style => (Style.readAt payload position).map fun (s, last) => (.style s, last)
  | path => (Path.readAt payload position).map fun (p, last) => (.path p, last)

end Readers

/-- Reads a drawing of a kind from the start of a payload. -/
def Kind.read (k : Kind) (payload : Text) : Option Drawing :=
  (k.readAt payload 0).map Prod.fst

/-! ## Agreement with reading by the schema -/

section Agree

variable {payload : Text}

/-- One reader finds what another one finds, as something else. -/
abbrev ReadsAs {α β : Type} (f : α → β) (read : Nat → Option (Located α))
    (read' : Nat → Option (Located β)) : Prop :=
  ∀ position, read' position = (read position).map fun r => (f r.1, r.2)

/-- A word of four bytes is below the bound of 32 bits. -/
theorem lt_of_wordAt {position n last : Nat} (h : wordAt payload 4 position = some (n, last)) :
    n < 2 ^ 32 := by
  simp only [wordAt] at h
  split at h
  · rename_i hlength
    obtain ⟨rfl, _⟩ := Prod.mk.inj (Option.some.inj h)
    have hlt := Text.ofLittleEndian_lt ((payload.drop position).take 4)
    rwa [hlength] at hlt
  · exact absurd h (by simp)

theorem signed32_eq {n : Nat} (h : n < 2 ^ 32) :
    signed32 n = (UInt32.ofNat n).toInt32.toInt := by
  have hbits : (UInt32.ofNat n).toNat = n := UInt32.toNat_ofNat_of_lt h
  have hint : (UInt32.ofNat n).toInt32.toInt = (UInt32.ofNat n).toBitVec.toInt := rfl
  rw [hint, BitVec.toInt_eq_toNat_cond, UInt32.toNat_toBitVec, hbits, signed32]
  split <;> split <;> omega

section Values

variable (source : Source)

theorem value_float :
    ReadsAs (fun bits => .float bits.toNat) (bitsAt source.payload)
      (source.value (.basic .float)) := by
  intro position
  simp only [Source.value, bitsAt]
  cases hword : wordAt source.payload 4 position with
  | none => rfl
  | some r =>
      have hbits : (UInt32.ofNat r.1).toNat = r.1 := UInt32.toNat_ofNat_of_lt (lt_of_wordAt hword)
      simp only [Option.map_some, hbits]
      rfl

theorem value_int : ReadsAs ofInt32 (intAt source.payload) (source.value (.basic .int)) := by
  intro position
  simp only [Source.value, intAt, bitsAt]
  cases hword : wordAt source.payload 4 position with
  | none => rfl
  | some r =>
      simp only [Option.map_some, ofInt32, ← signed32_eq (lt_of_wordAt hword)]
      rfl

theorem value_enumeration (e : Enumeration) :
    ReadsAs ofInt32 (intAt source.payload) (source.value (.enumeration e)) :=
  value_int source

theorem value_bool : ReadsAs .bool (flagAt source.payload) (source.value (.basic .bool)) := by
  intro position
  simp only [Source.value, flagAt]
  cases wordAt source.payload 1 position <;> rfl

theorem value_string :
    ReadsAs .string (textAt source.payload) (source.value (.basic .string)) := by
  intro position
  simp only [Source.value]
  cases textAt source.payload position <;> rfl

section Maps

variable {α β : Type} {f : α → β} {read : Nat → Option (Located α)}
  {read' : Nat → Option (Located β)}

/-- Readers that read alike read rows of the same length alike. -/
theorem readEach_map (h : ReadsAs f read read') (count : Nat) :
    ReadsAs (List.map f) (readEach read count) (readEach read' count) := by
  induction count with
  | zero => exact fun _ => rfl
  | succ count ih =>
      intro position
      simp [readEach, h, ih, Option.bind_map, Option.map_bind]

theorem pairAt_map (h : ReadsAs f read read') :
    ReadsAs (Prod.map f f) (pairAt read) (pairAt read') := by
  intro position
  simp [pairAt, h, Option.bind_map, Option.map_bind]

theorem bothAt_map (h : ReadsAs f read read') (positions : Nat × Nat) :
    bothAt read' positions = (bothAt read positions).map fun r => (Prod.map f f r.1, r.2) := by
  simp [bothAt, h, Option.bind_map, Option.map_bind]

end Maps

section Elements

variable {α : Type} {f : α → Value} {read : Nat → Option (Located α)} {type : FieldType}

/-- A reader of elements makes a reader of arrays of them. -/
theorem array_map (h : ReadsAs f read (source.element type)) :
    ReadsAs (fun as => .array (as.map f)) (arrayAt source.payload read) (source.array type) := by
  intro position
  simp only [Source.array, arrayAt, readEach_map h]
  cases wordAt source.payload 4 position with
  | none => rfl
  | some r => cases hread : readEach read r.1 r.2 <;> simp [hread]

/-- An element that is stored behind a slot is read there. -/
theorem element_behind (indirect : type.isIndirect = true)
    (h : ReadsAs f read (source.value type)) :
    ReadsAs f (behind source.payload read) (source.element type) := by
  intro position
  simp only [Source.element, indirect, if_true, behind, h]
  cases slotAt source.payload position <;> rfl

end Elements

end Values

section Fields

variable (source : Source) {name typeName : Text} {type : FieldType} {optional : Bool}
  {default? : Option Text} {line : Nat} (position last : Nat)

theorem inPlace_plain (plain : type.isIndirect = false) :
    source.inPlace ⟨name, typeName, type, .scalar, optional, default?, line⟩ position =
      (source.value type position).bind fun r => some (.values [r.1], r.2) := by
  simp [Source.inPlace, Field.isDynamic, plain, readEach, Option.bind_assoc]

theorem inPlace_enumeration (e : Enumeration) :
    source.inPlace ⟨name, typeName, .enumeration e, .scalar, optional, default?, line⟩ position =
      (source.value (.enumeration e) position).bind fun r => some (.values [r.1], r.2) :=
  inPlace_plain source position rfl

theorem inPlace_slot (indirect : type.isIndirect = true) :
    source.inPlace ⟨name, typeName, type, .scalar, optional, default?, line⟩ position =
      (slotAt source.payload position).bind fun r => some (.slots [r.1], r.2) := by
  simp [Source.inPlace, Field.isDynamic, indirect, readEach, Option.bind_assoc]

theorem inPlace_struct (q : Qualified) :
    source.inPlace ⟨name, typeName, .struct q, .scalar, optional, default?, line⟩ position =
      (slotAt source.payload position).bind fun r => some (.slots [r.1], r.2) :=
  inPlace_slot source position rfl

theorem inPlace_dynamic :
    source.inPlace ⟨name, typeName, type, .dynamic, optional, default?, line⟩ position =
      (slotAt source.payload position).bind fun r => some (.slots [r.1], r.2) := by
  simp [Source.inPlace, Field.isDynamic, readEach, Option.bind_assoc]

theorem inPlace_pair (plain : type.isIndirect = false) :
    source.inPlace ⟨name, typeName, type, .fixed 2, optional, default?, line⟩ position =
      (pairAt (source.value type) position).map fun r => (.values [r.1.1, r.1.2], r.2) := by
  simp [Source.inPlace, Field.isDynamic, plain, readEach, pairAt, Option.bind_assoc,
    Option.map_bind]

theorem inPlace_slots (indirect : type.isIndirect = true) :
    source.inPlace ⟨name, typeName, type, .fixed 2, optional, default?, line⟩ position =
      (pairAt (slotAt source.payload) position).map fun r => (.slots [r.1.1, r.1.2], r.2) := by
  simp [Source.inPlace, Field.isDynamic, indirect, readEach, pairAt, Option.bind_assoc,
    Option.map_bind]

theorem inPlace_structs (q : Qualified) :
    source.inPlace ⟨name, typeName, .struct q, .fixed 2, optional, default?, line⟩ position =
      (pairAt (slotAt source.payload) position).map fun r => (.slots [r.1.1, r.1.2], r.2) :=
  inPlace_slots source position rfl

theorem field_plain (v : Value) :
    source.field ⟨name, typeName, type, .scalar, optional, default?, line⟩ (.values [v]) last =
      some (v, last) :=
  rfl

theorem field_slot (target : Nat) :
    source.field ⟨name, typeName, type, .scalar, optional, default?, line⟩ (.slots [target]) last =
      source.value type target := by
  simp [Source.field, Field.isDynamic, readAll, Option.bind_assoc, ofItems, Field.isScalar]

theorem field_dynamic (target : Nat) :
    source.field ⟨name, typeName, type, .dynamic, optional, default?, line⟩ (.slots [target])
      last = source.array type target :=
  rfl

theorem field_pair (v w : Value) :
    source.field ⟨name, typeName, type, .fixed 2, optional, default?, line⟩ (.values [v, w])
      last = some (.array [v, w], last) :=
  rfl

theorem field_slots (targets : Nat × Nat) :
    source.field ⟨name, typeName, type, .fixed 2, optional, default?, line⟩
      (.slots [targets.1, targets.2]) last =
        (bothAt (source.value type) targets).map fun r => (.array [r.1.1, r.1.2], r.2) := by
  simp [Source.field, Field.isDynamic, readAll, ofItems, Field.isScalar, bothAt,
    Option.bind_assoc, Option.map_bind]

end Fields

/-- A struct is read as its base, then what is in place, then what is behind its slots. -/
theorem readWithin_eq_bind {s : Schema} {depth : Nat} {q : Qualified} {st : Struct}
    (hst : s.struct? q = some st) (position : Nat) :
    s.readWithin payload (depth + 1) q position =
      (Schema.readBase ⟨payload, s.readWithin payload depth⟩ st.base position).bind fun base =>
        (Source.allInPlace ⟨payload, s.readWithin payload depth⟩ st.fields base.2).bind fun r =>
          (Source.fields ⟨payload, s.readWithin payload depth⟩ r.1 r.2).bind fun members =>
            some (.record (base.1 ++ members.1), members.2) := by
  cases hbase : st.base with
  | none => simp [Schema.readWithin, hst, hbase, Schema.readBase]
  | some b => simp [Schema.readWithin, hst, hbase, Schema.readBase, Option.bind_map]

theorem readWithin_point (depth : Nat) :
    ReadsAs Point.value (Point.readAt payload)
      (Scene.schema.readWithin payload (depth + 1) ["Point"]) := by
  intro position
  rw [readWithin_eq_bind struct?_point]
  simp only [Scene.point, Scene.field, Schema.readBase, Source.allInPlace, Source.fields,
    inPlace_plain, field_plain, value_float, FieldType.isIndirect, Point.readAt,
    Option.bind_eq_bind, Option.pure_def, Option.bind_assoc, Option.bind_map, Option.map_bind,
    Option.bind_some, Function.comp_apply, reduceCtorEq, decide_false]
  rfl

theorem readWithin_style (depth : Nat) :
    ReadsAs Style.value (Style.readAt payload)
      (Scene.schema.readWithin payload (depth + 1) ["Path", "Style"]) := by
  intro position
  rw [readWithin_eq_bind struct?_style]
  simp only [Scene.style, Scene.field, Scene.fieldWith, Schema.readBase, Source.allInPlace,
    Source.fields, inPlace_plain, inPlace_slot, field_plain, field_slot, value_int, value_string,
    FieldType.isIndirect, Style.readAt, Option.bind_eq_bind, Option.pure_def, Option.bind_assoc,
    Option.bind_map, Option.map_bind, Option.bind_some, Function.comp_apply, reduceCtorEq,
    decide_false, decide_true]
  rfl

theorem readWithin_shape (depth : Nat) :
    ReadsAs Shape.value (Shape.readAt payload)
      (Scene.schema.readWithin payload (depth + 1) ["Shape"]) := by
  intro position
  have hkinds (source : Source) :
      ReadsAs (fun is => .array (is.map ofInt32)) (arrayAt source.payload (intAt source.payload))
        (source.array (.enumeration Scene.kind)) :=
    array_map source (value_enumeration source Scene.kind)
  rw [readWithin_eq_bind struct?_shape]
  simp only [Scene.shape, Scene.field, Scene.fieldWith, Schema.readBase, Source.allInPlace,
    Source.fields, inPlace_plain, inPlace_enumeration, inPlace_slot, inPlace_dynamic, field_plain,
    field_slot, field_dynamic, value_enumeration, value_bool, value_string, hkinds,
    FieldType.isIndirect, Shape.readAt, Option.bind_eq_bind, Option.pure_def, Option.bind_assoc,
    Option.bind_map, Option.map_bind, Option.bind_some, Function.comp_apply, reduceCtorEq,
    decide_false, decide_true, eq_self]
  rfl

/-- The part of a path in place, as reading by the schema gives it. -/
def Path.Slots.stored (slots : Path.Slots) : List (Field × Stored) :=
  Scene.path.fields.zip
    [.slots [slots.pts], .slots [slots.style],
      .values [ofInt32 slots.ids.1, ofInt32 slots.ids.2], .slots [slots.tags],
      .slots [slots.corners.1, slots.corners.2], .slots [slots.names.1, slots.names.2],
      .slots [slots.styles]]

/-- What a path holds in place is read slot by slot. -/
theorem allInPlace_path (source : Source) (position : Nat) :
    source.allInPlace Scene.path.fields position =
      (Path.slotsAt source.payload position).map fun r => (r.1.stored, r.2) := by
  have hids := pairAt_map (value_int source)
  simp only [Scene.path, Scene.field, Scene.fieldWith, Source.allInPlace, inPlace_struct,
    inPlace_dynamic, inPlace_pair, inPlace_slots, inPlace_structs, hids, FieldType.isIndirect,
    Path.slotsAt, Option.bind_eq_bind, Option.pure_def, Option.bind_assoc, Option.bind_map,
    Option.map_bind, Option.bind_some, Function.comp_apply, reduceCtorEq, decide_false,
    decide_true]
  rfl

/-- The data of a path is read where its slots lead, given readers for points and styles. -/
theorem fields_path (source : Source) {shape : Shape}
    (hpoint : ReadsAs Point.value (Point.readAt source.payload)
      (source.value (.struct ["Point"])))
    (hstyle : ReadsAs Style.value (Style.readAt source.payload)
      (source.value (.struct ["Path", "Style"])))
    (slots : Path.Slots) (last : Nat) :
    ((source.fields slots.stored last).bind fun members =>
      some (Value.record ((Text.ofString "Shape", shape.value) :: members.1), members.2)) =
        (Path.dataAt source.payload shape slots).map fun r => (r.1.value, r.2) := by
  have hpts := array_map source (element_behind source rfl hpoint)
  have hstyles := array_map source (element_behind source rfl hstyle)
  have htags := array_map source (element_behind source rfl (value_string source))
  have hcorners := bothAt_map hpoint
  have hnames := bothAt_map (value_string source)
  simp only [Path.Slots.stored, Scene.path, Scene.field, Scene.fieldWith, List.zip_cons_cons,
    List.zip_nil_right, Source.fields, field_slot, field_dynamic, field_pair, field_slots, hpts,
    hstyle, htags, hcorners, hnames, hstyles, Path.dataAt, Path.value, Option.bind_eq_bind,
    Option.pure_def, Option.bind_assoc, Option.bind_map, Option.map_bind, Option.bind_some,
    Option.map_some, Function.comp_apply, List.map_map]
  rfl

/-- The reader of the schema reads paths as `Path.readAt` does. -/
theorem readWithin_path (depth : Nat) :
    ReadsAs Path.value (Path.readAt payload)
      (Scene.schema.readWithin payload (depth + 2) ["Path"]) := by
  intro position
  have hshape : Scene.schema.readWithin payload (depth + 1) ["Shape"] position = _ :=
    readWithin_shape depth position
  rw [readWithin_eq_bind struct?_path, show Scene.path.base = some [Text.ofString "Shape"] from rfl,
    Schema.readBase]
  simp only [hshape, Path.readAt]
  cases Shape.readAt payload position with
  | none => rfl
  | some shape =>
      simp only [Option.map_some, Option.bind_some, Option.bind_eq_bind, allInPlace_path]
      cases Path.slotsAt payload shape.2 with
      | none => rfl
      | some slots =>
          exact fields_path ⟨payload, Scene.schema.readWithin payload (depth + 1)⟩
            (readWithin_point depth) (readWithin_style depth) slots.1 slots.2

/-- At sufficient depth, reading by the schema reads the drawing. -/
theorem readWithin_kind (k : Kind) (depth : Nat) :
    ReadsAs value (k.readAt payload)
      (Scene.schema.readWithin payload (depth + 2) k.name) := by
  intro position
  cases k with
  | point =>
      rw [Kind.readAt, Option.map_map]
      exact readWithin_point (depth + 1) position
  | shape =>
      rw [Kind.readAt, Option.map_map]
      exact readWithin_shape (depth + 1) position
  | style =>
      rw [Kind.readAt, Option.map_map]
      exact readWithin_style (depth + 1) position
  | path =>
      rw [Kind.readAt, Option.map_map]
      exact readWithin_path depth position

/-- What is read as one kind of drawing is of that kind. -/
theorem kind_of_readAt {k : Kind} {position : Nat} {r : Located Drawing}
    (h : k.readAt payload position = some r) : r.1.kind = k := by
  cases k <;> (obtain ⟨_, _, rfl⟩ := Option.map_eq_some_iff.mp h; rfl)

/-- Reading by the schema gives the value of the drawing that is read. -/
theorem read_kind (k : Kind) (payload : Text) :
    Scene.schema.read k.name payload = (k.read payload).map value := by
  obtain ⟨depth, hdepth⟩ :
      ∃ depth, (payload.length + 1) * Scene.schema.walk.length = depth + 2 := by
    rw [Scene.walk_schema]
    exact ⟨payload.length * 4 + 2, Nat.succ_mul _ _⟩
  rw [Schema.read, hdepth, readWithin_kind, Kind.read, Option.map_map, Option.map_map]
  rfl

/-- Where reading by the schema gives the value of a drawing of the kind, that drawing is read. -/
theorem read_of_value {d : Drawing} (h : Scene.schema.read d.kind.name payload = some d.value) :
    d.kind.read payload = some d := by
  rw [read_kind] at h
  obtain ⟨e, he, hvalue⟩ := Option.map_eq_some_iff.mp h
  obtain ⟨r, hr, rfl⟩ := Option.map_eq_some_iff.mp he
  rw [he, eq_of_value (kind_of_readAt hr) hvalue]

end Agree

end Schematic.Drawing
