import Mathlib.Data.List.ReduceOption
import Schematic.Scene
import Schematic.Proofs.Accepted
import Schematic.Proofs.LittleEndian

/-!
# Drawings

The values of the schema of drawings as types of their own: points, shapes, styles and paths with a
component for each field, where numbers of single precision are bit patterns and a path may lack
some of its points and styles. Each of them is a value of its struct, and different ones are
different values.
-/

namespace Schematic

namespace Scene

/-- The structs of the schema, a nested one behind the one around it. -/
theorem walk_schema : schema.walk = [point, shape, path, style] :=
  rfl

/-- Whether a type leads to a struct of the given names, if to any. -/
def leadsTo (names : List Qualified) : FieldType → Bool
  | .struct q => names.contains q
  | .described _ _ => false
  | _ => true

/-- Every type and base in the schema is one of its structs or is built in. -/
theorem resolved_schema : schema.Resolved := by
  have htypes : ∀ st ∈ schema.walk, ∀ f ∈ st.fields, leadsTo schema.names f.type = true := by
    decide +kernel
  constructor
  · decide +kernel
  · intro st hst f hf q hq
    have hleads := htypes st hst f hf
    rw [hq] at hleads
    exact List.contains_iff_mem.mp hleads
  · intro st hst f hf kind builtin hdescribed
    have hleads := htypes st hst f hf
    rw [hdescribed] at hleads
    exact absurd hleads (by simp [leadsTo])
  · have hbases : ∀ st ∈ schema.walk, ∀ q ∈ st.base, q ∈ schema.names := by
      decide +kernel
    exact hbases
  · decide +kernel

/-- The schema of drawings passes its checks. -/
theorem accepted_schema : schema.Accepted := by
  refine ⟨resolved_schema, (Schema.acyclic_iff resolved_schema).mp ⟨?_, ?_⟩, by decide +kernel⟩
  · rw [walk_schema]
    simp only [List.forall_mem_cons, List.not_mem_nil, false_imp_iff, implies_true, and_true]
    exact ⟨rfl, rfl, rfl, rfl⟩
  · rw [walk_schema]
    simp only [List.forall_mem_cons, List.not_mem_nil, false_imp_iff, implies_true, and_true]
    exact ⟨rfl, rfl, rfl, rfl⟩

end Scene

namespace Drawing

/-- A point in the plane; its coordinates are bit patterns. -/
@[ext] structure Point where
  x : UInt32
  y : UInt32
  deriving Repr, DecidableEq

/-- What all shapes have. Any integer can stand for a kind. -/
@[ext] structure Shape where
  kind : Int32
  name : Text
  visible : Bool
  kinds : List Int32
  deriving Repr, DecidableEq

/-- How a path is drawn. -/
@[ext] structure Style where
  width : Int32
  color : Text
  deriving Repr, DecidableEq

/-- A shape along points. -/
@[ext] structure Path where
  shape : Shape
  pts : List (Option Point)
  style : Style
  ids : Int32 × Int32
  tags : List Text
  corners : Point × Point
  names : Text × Text
  styles : List (Option Style)
  deriving Repr, DecidableEq

end Drawing

/-- The kinds of drawings. -/
inductive Drawing.Kind where
  | point
  | shape
  | style
  | path
  deriving Repr, DecidableEq

/-- A drawing of one of the four kinds. -/
inductive Drawing where
  | point (p : Drawing.Point)
  | shape (s : Drawing.Shape)
  | style (s : Drawing.Style)
  | path (p : Drawing.Path)
  deriving Repr, DecidableEq

namespace Drawing

/-! ## Drawings as values -/

def ofInt32 (i : Int32) : Value :=
  .int i.toInt

/-- A reference that may be missing. -/
def ofOption {α : Type} (value : α → Value) (a? : Option α) : Value :=
  a?.elim .absent value

def Point.value (p : Point) : Value :=
  .record [("X", .float p.x.toNat), ("Y", .float p.y.toNat)]

def Shape.value (s : Shape) : Value :=
  .record
    [("Kind", ofInt32 s.kind), ("Name", .string s.name), ("Visible", .bool s.visible),
      ("Kinds", .array (s.kinds.map ofInt32))]

def Style.value (s : Style) : Value :=
  .record [("Width", ofInt32 s.width), ("Color", .string s.color)]

def Path.value (p : Path) : Value :=
  .record
    [("Shape", p.shape.value), ("Pts", .array (p.pts.map (ofOption Point.value))),
      ("Style", p.style.value), ("Ids", .array [ofInt32 p.ids.1, ofInt32 p.ids.2]),
      ("Tags", .array (p.tags.map .string)),
      ("Corners", .array [p.corners.1.value, p.corners.2.value]),
      ("Names", .array [.string p.names.1, .string p.names.2]),
      ("Styles", .array (p.styles.map (ofOption Style.value)))]

/-- The value that a drawing is. -/
def value : Drawing → Value
  | point p => p.value
  | shape s => s.value
  | style s => s.value
  | path p => p.value

def kind : Drawing → Kind
  | point _ => .point
  | shape _ => .shape
  | style _ => .style
  | path _ => .path

/-- The struct whose values are the drawings of a kind. -/
def Kind.struct : Kind → Struct
  | point => Scene.point
  | shape => Scene.shape
  | style => Scene.style
  | path => Scene.path

/-- The struct's name. -/
def Kind.name (k : Kind) : Qualified :=
  k.struct.qualified

/-! ## Limits -/

/-- Whether all arrays whose lengths are chosen at run time are short enough for their lengths to be
written. -/
def Fits : Drawing → Prop
  | point _ => True
  | shape s => s.kinds.length < 2 ^ 31
  | style _ => True
  | path p =>
    p.shape.kinds.length < 2 ^ 31 ∧ p.pts.length < 2 ^ 31 ∧ p.tags.length < 2 ^ 31 ∧
      p.styles.length < 2 ^ 31

/-- The texts in a drawing. -/
def texts : Drawing → List Text
  | point _ => []
  | shape s => [s.name]
  | style s => [s.color]
  | path p =>
    [p.shape.name, p.style.color, p.names.1, p.names.2] ++ p.tags ++
      p.styles.reduceOption.map Style.color

/-- Whether no text in a drawing holds a zero. -/
def NulFree (d : Drawing) : Prop :=
  ∀ t ∈ d.texts, 0 ∉ t

/-! ## Missing parts -/

def Point.zero : Point :=
  ⟨0, 0⟩

def Style.zero : Style :=
  ⟨0, []⟩

/-- The path with every missing point and style replaced by the zero one. -/
def Path.filled (p : Path) : Path :=
  { p with
    pts := p.pts.map fun q => some (q.getD Point.zero)
    styles := p.styles.map fun s => some (s.getD Style.zero) }

/-- The drawing with nothing missing. -/
def filled : Drawing → Drawing
  | path p => path p.filled
  | d => d

section Values

open Schema

theorem struct?_point : Scene.schema.struct? ["Point"] = some Scene.point :=
  rfl

theorem struct?_shape : Scene.schema.struct? ["Shape"] = some Scene.shape :=
  rfl

theorem struct?_style : Scene.schema.struct? ["Path", "Style"] = some Scene.style :=
  rfl

theorem struct?_path : Scene.schema.struct? ["Path"] = some Scene.path :=
  rfl

theorem members_point :
    Scene.point.members =
      [⟨"X", .basic .float, .scalar⟩, ⟨"Y", .basic .float, .scalar⟩] :=
  rfl

theorem members_shape :
    Scene.shape.members =
      [⟨"Kind", .enumeration Scene.kind, .scalar⟩, ⟨"Name", .basic .string, .scalar⟩,
        ⟨"Visible", .basic .bool, .scalar⟩, ⟨"Kinds", .enumeration Scene.kind, .dynamic⟩] :=
  rfl

theorem members_style :
    Scene.style.members =
      [⟨"Width", .basic .int, .scalar⟩, ⟨"Color", .basic .string, .scalar⟩] :=
  rfl

theorem members_path :
    Scene.path.members =
      [⟨"Shape", .struct ["Shape"], .scalar⟩, ⟨"Pts", .struct ["Point"], .dynamic⟩,
        ⟨"Style", .struct ["Path", "Style"], .scalar⟩, ⟨"Ids", .basic .int, .fixed 2⟩,
        ⟨"Tags", .basic .string, .dynamic⟩, ⟨"Corners", .struct ["Point"], .fixed 2⟩,
        ⟨"Names", .basic .string, .fixed 2⟩,
        ⟨"Styles", .struct ["Path", "Style"], .dynamic⟩] :=
  rfl

/-- Every integer of 32 bits is a value of the types that are written as such. -/
theorem admits_ofInt32 {s : Schema} {type : FieldType} (integer : type.isInteger = true)
    (i : Int32) : s.admits (ofInt32 i) type .scalar = true := by
  have hfits : Text.fitsWord 32 i.toInt = true := Text.fitsWord_iff.mpr ⟨i.le_toInt, i.toInt_lt⟩
  rw [ofInt32, admits, integer, hfits]
  rfl

/-- Every bit pattern is a number of single precision. -/
theorem admits_float {s : Schema} (bits : UInt32) :
    s.admits (.float bits.toNat) (.basic .float) .scalar = true := by
  rw [admits, decide_eq_true bits.toNat_lt]
  rfl

/-- A record is a value of a struct if it has the members, each with a value of its type. -/
theorem admits_record {s : Schema} {q : Qualified} {st : Struct} {members : List (Text × Value)}
    (hst : s.struct? q = some st)
    (h : List.Forall₂ (fun m p => p.1 = m.name ∧ s.admits p.2 m.type m.shape = true) st.members
      members) : s.admits (.record members) (.struct q) .scalar = true := by
  simp only [admits, hst]
  exact admitsMembers_eq_true_iff.mpr h

/-- An array of any length that can be written. -/
theorem admits_dynamic {s : Schema} {α : Type} {item : α → Value} {type : FieldType} {as : List α}
    (fits : as.length < 2 ^ 31)
    (h : ∀ a, s.admits (item a) type .scalar = true ∨
      (item a).isAbsent = true ∧ type.isStruct = true) :
    s.admits (.array (as.map item)) type .dynamic = true := by
  rw [admits, List.length_map, decide_eq_true fits, Bool.true_and, admitsItems_eq_true_iff]
  intro v hv
  obtain ⟨a, _, rfl⟩ := List.mem_map.mp hv
  exact (h a).imp id fun h => ⟨rfl, h⟩

/-- An array of two is one of fixed length. -/
theorem admits_pair {s : Schema} {v w : Value} {type : FieldType}
    (hv : s.admits v type .scalar = true) (hw : s.admits w type .scalar = true) :
    s.admits (.array [v, w]) type (.fixed 2) = true := by
  rw [admits, admitsItems, admitsItems, admitsItems, hv, hw]
  rfl

/-- A reference leads to a value or is missing, and only one to a struct can be missing. -/
theorem admits_ofOption {s : Schema} {α : Type} {value : α → Value} {q : Qualified}
    (h : ∀ a, s.admits (value a) (.struct q) .scalar = true) (a? : Option α) :
    s.admits (ofOption value a?) (.struct q) .scalar = true ∨
      (ofOption value a?).isAbsent = true ∧ (FieldType.struct q).isStruct = true := by
  cases a? with
  | none => exact Or.inr ⟨rfl, rfl⟩
  | some a => exact Or.inl (h a)

theorem admits_point (p : Point) :
    Scene.schema.admits p.value (.struct ["Point"]) .scalar = true := by
  apply admits_record struct?_point
  rw [members_point]
  exact .cons ⟨rfl, admits_float p.x⟩ (.cons ⟨rfl, admits_float p.y⟩ .nil)

/-- A shape can be written if the number of its kinds can. -/
theorem admits_shape {s : Shape} (fits : s.kinds.length < 2 ^ 31) :
    Scene.schema.admits s.value (.struct ["Shape"]) .scalar = true := by
  apply admits_record struct?_shape
  rw [members_shape]
  refine .cons ⟨rfl, admits_ofInt32 rfl s.kind⟩ (.cons ⟨rfl, rfl⟩ (.cons ⟨rfl, rfl⟩
    (.cons ⟨rfl, admits_dynamic fits fun i => ?_⟩ .nil)))
  exact Or.inl (admits_ofInt32 rfl i)

theorem admits_style (s : Style) :
    Scene.schema.admits s.value (.struct ["Path", "Style"]) .scalar = true := by
  apply admits_record struct?_style
  rw [members_style]
  exact .cons ⟨rfl, admits_ofInt32 rfl s.width⟩ (.cons ⟨rfl, rfl⟩ .nil)

/-- A path can be written if the lengths of its arrays can. -/
theorem admits_path {p : Path} (fits : (path p).Fits) :
    Scene.schema.admits p.value (.struct ["Path"]) .scalar = true := by
  obtain ⟨hkinds, hpts, htags, hstyles⟩ := fits
  apply admits_record struct?_path
  rw [members_path]
  refine .cons ⟨rfl, admits_shape hkinds⟩ (.cons ⟨rfl, ?pts⟩ (.cons ⟨rfl, admits_style p.style⟩
    (.cons ⟨rfl, ?ids⟩ (.cons ⟨rfl, ?tags⟩ (.cons ⟨rfl, ?corners⟩ (.cons ⟨rfl, ?names⟩
      (.cons ⟨rfl, ?styles⟩ .nil)))))))
  case pts => exact admits_dynamic hpts (admits_ofOption admits_point)
  case ids => exact admits_pair (admits_ofInt32 rfl _) (admits_ofInt32 rfl _)
  case tags => exact admits_dynamic htags fun t => Or.inl rfl
  case corners => exact admits_pair (admits_point _) (admits_point _)
  case names => exact admits_pair rfl rfl
  case styles => exact admits_dynamic hstyles (admits_ofOption admits_style)

/-- A drawing that fits is a value of its struct. -/
theorem admits_value {d : Drawing} (fits : d.Fits) :
    Scene.schema.admits d.value (.struct d.kind.name) .scalar = true := by
  cases d with
  | point p => exact admits_point p
  | shape s => exact admits_shape fits
  | style s => exact admits_style s
  | path p => exact admits_path fits

/-! ## Filling in -/

theorem filled_ofInt32 (s : Schema) (type : FieldType) (i : Int32) :
    s.filled (ofInt32 i) type = ofInt32 i :=
  rfl

/-- Arrays are filled in item by item. -/
theorem filled_array (s : Schema) {α : Type} {item item' : α → Value} {type : FieldType}
    (h : ∀ a, s.filled (item a) type = item' a) (as : List α) :
    s.filled (.array (as.map item)) type = .array (as.map item') := by
  rw [Schema.filled, filledItems_eq_map, List.map_map]
  exact congrArg Value.array (List.map_congr_left fun a _ => h a)

/-- Records are filled in member by member. -/
theorem filled_record {s : Schema} {q : Qualified} {st : Struct} {members : List (Text × Value)}
    (hst : s.struct? q = some st) :
    s.filled (.record members) (.struct q) = .record (s.filledMembers members st.members) := by
  simp only [Schema.filled, hst]

/-- An array of two stays as it is if its items do. -/
theorem filled_pair {s : Schema} {v w : Value} {type : FieldType} (hv : s.filled v type = v)
    (hw : s.filled w type = w) : s.filled (.array [v, w]) type = .array [v, w] := by
  rw [Schema.filled, filledItems, filledItems, filledItems, hv, hw]

/-- A missing part is filled in with the zero one. -/
theorem filled_ofOption {s : Schema} {α : Type} {value : α → Value} {q : Qualified} {zero : α}
    (hvalue : ∀ a, s.filled (value a) (.struct q) = value a) (hzero : s.zero q = value zero)
    (a? : Option α) :
    s.filled (ofOption value a?) (.struct q) = ofOption value (some (a?.getD zero)) := by
  cases a? with
  | none => exact hzero
  | some a => exact hvalue a

theorem zero_point : Scene.schema.zero ["Point"] = Point.zero.value :=
  rfl

theorem zero_style : Scene.schema.zero ["Path", "Style"] = Style.zero.value :=
  rfl

/-- Nothing is missing in a point. -/
theorem filled_point (p : Point) : Scene.schema.filled p.value (.struct ["Point"]) = p.value := by
  rw [Point.value, filled_record struct?_point, members_point]
  rfl

/-- Nothing is missing in a shape. -/
theorem filled_shape (s : Shape) : Scene.schema.filled s.value (.struct ["Shape"]) = s.value := by
  have hkinds := filled_array Scene.schema
    (filled_ofInt32 Scene.schema (.enumeration Scene.kind)) s.kinds
  rw [Shape.value, filled_record struct?_shape, members_shape]
  simp only [filledMembers, hkinds]
  rfl

theorem filled_style (s : Style) :
    Scene.schema.filled s.value (.struct ["Path", "Style"]) = s.value := by
  rw [Style.value, filled_record struct?_style, members_style]
  rfl

/-- In a path, points and styles can be missing and nothing else. -/
theorem filled_path (p : Path) :
    Scene.schema.filled p.value (.struct ["Path"]) = p.filled.value := by
  have hpts := filled_array Scene.schema (filled_ofOption filled_point zero_point) p.pts
  have hstyles := filled_array Scene.schema (filled_ofOption filled_style zero_style) p.styles
  have htags : Scene.schema.filled (.array (p.tags.map .string)) (.basic .string) =
      .array (p.tags.map .string) :=
    filled_array Scene.schema (fun _ => rfl) p.tags
  have hcorners := filled_pair (filled_point p.corners.1) (filled_point p.corners.2)
  rw [Path.value, filled_record struct?_path, members_path]
  simp only [filledMembers, hpts, htags, hcorners, hstyles, filled_shape, filled_style]
  rw [Path.filled, Path.value, List.map_map, List.map_map]
  rfl

/-- Filling in a value is filling in the drawing. -/
theorem filled_value (d : Drawing) :
    Scene.schema.filled d.value (.struct d.kind.name) = d.filled.value := by
  cases d with
  | point p => exact filled_point p
  | shape s => exact filled_shape s
  | style s => exact filled_style s
  | path p => exact filled_path p

/-! ## Texts -/

theorem isNulFree_string {t : Text} (h : 0 ∉ t) : (Value.string t).isNulFree = true := by
  simp [Value.isNulFree, h]

/-- An array holds no zero in a text if no item of it does. -/
theorem isNulFree_array {α : Type} {item : α → Value} {as : List α}
    (h : ∀ a ∈ as, (item a).isNulFree = true) : (Value.array (as.map item)).isNulFree = true := by
  rw [Value.isNulFree, Value.itemsNulFree_iff]
  intro v hv
  obtain ⟨a, ha, rfl⟩ := List.mem_map.mp hv
  exact h a ha

theorem isNulFree_pair {v w : Value} (hv : v.isNulFree = true) (hw : w.isNulFree = true) :
    (Value.array [v, w]).isNulFree = true := by
  rw [Value.isNulFree, Value.itemsNulFree_iff]
  simp [hv, hw]

theorem isNulFree_shape {s : Shape} (h : 0 ∉ s.name) : s.value.isNulFree = true := by
  have hkinds : (Value.array (s.kinds.map ofInt32)).isNulFree = true :=
    isNulFree_array fun _ _ => rfl
  rw [Shape.value, Value.isNulFree, Value.membersNulFree_iff]
  simp only [List.forall_mem_cons, List.not_mem_nil, false_imp_iff, implies_true, and_true]
  exact ⟨rfl, isNulFree_string h, rfl, hkinds⟩

theorem isNulFree_style {s : Style} (h : 0 ∉ s.color) : s.value.isNulFree = true := by
  rw [Style.value, Value.isNulFree, Value.membersNulFree_iff]
  simp only [List.forall_mem_cons, List.not_mem_nil, false_imp_iff, implies_true, and_true]
  exact ⟨rfl, isNulFree_string h⟩

/-- The texts in a path are those of its shape and styles, its names and its tags. -/
theorem isNulFree_path {p : Path} (h : (path p).NulFree) : p.value.isNulFree = true := by
  simp only [NulFree, texts, List.forall_mem_append, List.forall_mem_cons, List.not_mem_nil,
    false_imp_iff, implies_true, and_true] at h
  obtain ⟨⟨⟨hname, hcolor, hfirst, hsecond⟩, htags⟩, hstyles⟩ := h
  rw [Path.value, Value.isNulFree, Value.membersNulFree_iff]
  simp only [List.forall_mem_cons, List.not_mem_nil, false_imp_iff, implies_true, and_true]
  refine ⟨isNulFree_shape hname, isNulFree_array ?pts, isNulFree_style hcolor, rfl,
    isNulFree_array fun t ht => isNulFree_string (htags t ht), rfl,
    isNulFree_pair (isNulFree_string hfirst) (isNulFree_string hsecond), isNulFree_array ?styles⟩
  case pts =>
    intro q _
    cases q with
    | none => rfl
    | some q => rfl
  case styles =>
    intro s hs
    cases s with
    | none => rfl
    | some s =>
        exact isNulFree_style (hstyles _ (List.mem_map_of_mem (List.reduceOption_mem_iff.mpr hs)))

/-- A drawing without zeros in its texts is a value without them. -/
theorem isNulFree_value {d : Drawing} (h : d.NulFree) : d.value.isNulFree = true := by
  cases d with
  | point p => rfl
  | shape s => exact isNulFree_shape (h s.name List.mem_cons_self)
  | style s => exact isNulFree_style (h s.color List.mem_cons_self)
  | path p => exact isNulFree_path h

/-! ## Different drawings are different values -/

theorem ofInt32_injective : Function.Injective ofInt32 := by
  intro i j h
  exact Int32.toInt_inj.mp (Value.int.inj h)

/-- A missing part is none of the parts that are there. -/
theorem ofOption_injective {α : Type} {value : α → Value} (h : Function.Injective value)
    (present : ∀ a, (value a).isAbsent = false) : Function.Injective (ofOption value) := by
  intro a b hab
  cases a with
  | none =>
      cases b with
      | none => rfl
      | some b =>
          have habsent := present b
          rw [← show Value.absent = value b from hab] at habsent
          exact absurd habsent (by simp [Value.isAbsent])
  | some a =>
      cases b with
      | none =>
          have habsent := present a
          rw [show value a = Value.absent from hab] at habsent
          exact absurd habsent (by simp [Value.isAbsent])
      | some b => exact congrArg some (h hab)

/-- The coordinates of a point can be told from its value. -/
theorem Point.value_injective : Function.Injective Point.value := by
  intro p q h
  simp only [Point.value, Value.record.injEq, List.cons.injEq, Prod.mk.injEq, true_and,
    Value.float.injEq, and_true, UInt32.toNat_inj] at h
  exact Point.ext h.1 h.2

theorem Shape.value_injective : Function.Injective Shape.value := by
  intro s t h
  simp only [Shape.value, Value.record.injEq, List.cons.injEq, Prod.mk.injEq, true_and,
    Value.string.injEq, Value.bool.injEq, Value.array.injEq, and_true,
    ofInt32_injective.eq_iff, ofInt32_injective.list_map.eq_iff] at h
  obtain ⟨hkind, hname, hvisible, hkinds⟩ := h
  exact Shape.ext hkind hname hvisible hkinds

theorem Style.value_injective : Function.Injective Style.value := by
  intro s t h
  simp only [Style.value, Value.record.injEq, List.cons.injEq, Prod.mk.injEq, true_and,
    Value.string.injEq, and_true, ofInt32_injective.eq_iff] at h
  exact Style.ext h.1 h.2

/-- All components of a path can be told from its value, missing parts included. -/
theorem Path.value_injective : Function.Injective Path.value := by
  have hpoint : Function.Injective (ofOption Point.value) :=
    ofOption_injective Point.value_injective fun _ => rfl
  have hstyle : Function.Injective (ofOption Style.value) :=
    ofOption_injective Style.value_injective fun _ => rfl
  have hstring : Function.Injective Value.string := fun _ _ => Value.string.inj
  intro p q h
  simp only [Path.value, Value.record.injEq, List.cons.injEq, Prod.mk.injEq, true_and,
    Value.array.injEq, and_true, Value.string.injEq, ofInt32_injective.eq_iff,
    Shape.value_injective.eq_iff, Style.value_injective.eq_iff, Point.value_injective.eq_iff,
    hpoint.list_map.eq_iff, hstyle.list_map.eq_iff, hstring.list_map.eq_iff] at h
  obtain ⟨hshape, hpts, hstyle, hids, htags, hcorners, hnames, hstyles⟩ := h
  exact Path.ext hshape hpts hstyle (Prod.ext hids.1 hids.2) htags
    (Prod.ext hcorners.1 hcorners.2) (Prod.ext hnames.1 hnames.2) hstyles

/-- Within a kind, a value is that of one drawing. -/
theorem eq_of_value {d d' : Drawing} (hkind : d.kind = d'.kind) (h : d.value = d'.value) :
    d = d' := by
  cases d with
  | point p =>
      cases d' with
      | point q => exact congrArg point (Point.value_injective h)
      | _ => exact absurd hkind Kind.noConfusion
  | shape s =>
      cases d' with
      | shape t => exact congrArg shape (Shape.value_injective h)
      | _ => exact absurd hkind Kind.noConfusion
  | style s =>
      cases d' with
      | style t => exact congrArg style (Style.value_injective h)
      | _ => exact absurd hkind Kind.noConfusion
  | path p =>
      cases d' with
      | path q => exact congrArg path (Path.value_injective h)
      | _ => exact absurd hkind Kind.noConfusion

end Values

end Drawing

end Schematic
