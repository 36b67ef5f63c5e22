import Mathlib.Data.List.Nodup
import Schematic.Schema.Reader

/-!
# The grammar of schemas

A derivation is a tree. `texts` gives the texts of the tokens that a tree stands for and `IsSpelled`
says which words may stand at its leaves; together they are the grammar. What a type name denotes
depends on what is declared in front of it: a struct counts from its header on, an enumeration from
its end on.

## Implementation notes

Trees hold no lines, and what is built from them has zero for every line.
-/

namespace Schematic

namespace Grammar

/-- A label as it is written. -/
structure LabelEntry where
  name : Text
  value? : Option Text
  comma : Bool
  deriving Repr, DecidableEq

/-- A field as it is written behind its type. The brackets may be empty. -/
structure Declarator where
  name : Text
  brackets? : Option (Option Text)
  default? : Option Text
  deriving Repr, DecidableEq

/-- What stands in the body of a struct. -/
inductive Member where
  | struct (name : Text) (parent? : Option Text) (members : List Member)
  | enumeration (name : Text) (entries : List LabelEntry)
  | fields (type : Text) (optional : Bool) (first : Declarator) (rest : List Declarator)
  deriving Repr

/-- A struct between the declarations of a file. -/
structure TopStruct where
  name : Text
  parent? : Option Text
  members : List Member
  deriving Repr

/-- A declaration of a file. -/
inductive Item where
  | struct (d : TopStruct)
  | directive (side : Side) (name : Text)
  deriving Repr

/-- A file, with what stands behind a closing brace that ends it early. -/
structure File where
  items : List Item
  unread? : Option (List Text)
  deriving Repr

/-! ## Spelling -/

/-- An identifier that generated code does not reserve. -/
def IsTypeName (t : Text) : Prop :=
  Text.isIdentifier t = true ∧ Text.isKeyword t = false

instance (t : Text) : Decidable (IsTypeName t) :=
  inferInstanceAs (Decidable (_ ∧ _))

namespace LabelEntry

def valueTexts (e : LabelEntry) : List Text :=
  e.value?.elim [] fun value => ["=", value]

def commaTexts (e : LabelEntry) : List Text :=
  if e.comma then [","] else []

def texts (e : LabelEntry) : List Text :=
  e.name :: (e.valueTexts ++ e.commaTexts)

def IsSpelled (e : LabelEntry) : Prop :=
  Text.isIdentifier e.name = true ∧ ∀ value ∈ e.value?, (Text.int32? value).isSome = true

instance (e : LabelEntry) : Decidable e.IsSpelled :=
  inferInstanceAs (Decidable (_ ∧ _))

end LabelEntry

namespace Declarator

def bracketTexts (d : Declarator) : List Text :=
  d.brackets?.elim [] fun count => List.flatten [["["], count.toList, ["]"]]

def defaultTexts (d : Declarator) : List Text :=
  d.default?.elim [] fun value => ["=", value]

def texts (d : Declarator) : List Text :=
  d.name :: (d.bracketTexts ++ d.defaultTexts)

/-- The texts of declarators behind another one. -/
def moreTexts (rest : List Declarator) : List Text :=
  rest.flatMap fun d => "," :: d.texts

def IsSpelled (d : Declarator) : Prop :=
  Text.isIdentifier d.name = true ∧
    ∀ count ∈ d.brackets?.join, ∃ i ∈ Text.int64? count, -1 ≤ i

instance (d : Declarator) : Decidable d.IsSpelled :=
  inferInstanceAs (Decidable (_ ∧ _))

end Declarator

/-- What stands between the name of a struct and its body. -/
def parentTexts (parent? : Option Text) : List Text :=
  parent?.elim [] fun parent => [":", parent]

namespace Member

mutual

/-- The texts of the tokens of a member. -/
def texts : Member → List Text
  | struct name parent? members =>
    List.flatten [["struct", name], parentTexts parent?, ["\x7b"], textsAll members, ["\x7d", ";"]]
  | enumeration name entries =>
    List.flatten [["enum", name, "\x7b"], entries.flatMap LabelEntry.texts, ["\x7d", ";"]]
  | fields type optional first rest =>
    List.flatten [[type], if optional then ["?"] else [], first.texts, Declarator.moreTexts rest,
      [";"]]

def textsAll : List Member → List Text
  | [] => []
  | m :: ms => texts m ++ textsAll ms

end

open Text (ofString)

theorem struct_texts_append (name : Text) (parent? : Option Text) (members : List Member)
    (ts : List Text) :
    (struct name parent? members).texts ++ ts =
      ofString "struct" :: name :: (parentTexts parent? ++
        ofString "\x7b" :: (textsAll members ++ ofString "\x7d" :: ofString ";" :: ts)) := by
  simp [texts]

theorem enumeration_texts_append (name : Text) (entries : List LabelEntry) (ts : List Text) :
    (enumeration name entries).texts ++ ts =
      ofString "enum" :: name :: ofString "\x7b" ::
        (entries.flatMap LabelEntry.texts ++ ofString "\x7d" :: ofString ";" :: ts) := by
  simp [texts]

theorem fields_texts_append (type : Text) (optional : Bool) (first : Declarator)
    (rest : List Declarator) (ts : List Text) :
    (fields type optional first rest).texts ++ ts =
      type :: ((if optional then [ofString "?"] else []) ++
        (first.texts ++ (Declarator.moreTexts rest ++ ofString ";" :: ts))) := by
  simp [texts]

mutual

/-- Whether the words of a member may stand where they do. -/
def IsSpelled : Member → Prop
  | struct name parent? members =>
    IsTypeName name ∧ (∀ parent ∈ parent?, IsTypeName parent) ∧ IsSpelledAll members
  | enumeration name entries => IsTypeName name ∧ ∀ e ∈ entries, e.IsSpelled
  | fields type _ first rest =>
    type ≠ "\x7d" ∧ type ≠ "struct" ∧ type ≠ "enum" ∧ first.IsSpelled ∧ ∀ d ∈ rest, d.IsSpelled

def IsSpelledAll : List Member → Prop
  | [] => True
  | m :: ms => IsSpelled m ∧ IsSpelledAll ms

end

mutual

def decidableIsSpelled : (m : Member) → Decidable m.IsSpelled
  | struct name parent? members =>
    have := decidableIsSpelledAll members
    inferInstanceAs (Decidable (IsTypeName name ∧ (∀ parent ∈ parent?, IsTypeName parent) ∧ _))
  | enumeration name entries =>
    inferInstanceAs (Decidable (IsTypeName name ∧ ∀ e ∈ entries, e.IsSpelled))
  | fields type _ first rest =>
    inferInstanceAs (Decidable (type ≠ _ ∧ type ≠ _ ∧ type ≠ _ ∧ first.IsSpelled ∧
      ∀ d ∈ rest, d.IsSpelled))

def decidableIsSpelledAll : (ms : List Member) → Decidable (IsSpelledAll ms)
  | [] => .isTrue trivial
  | m :: ms =>
    have := decidableIsSpelled m
    have := decidableIsSpelledAll ms
    inferInstanceAs (Decidable (_ ∧ _))

end

instance (m : Member) : Decidable m.IsSpelled :=
  decidableIsSpelled m

end Member

namespace TopStruct

/-- The declaration as it would stand in a body. -/
def member (d : TopStruct) : Member :=
  .struct d.name d.parent? d.members

end TopStruct

/-- The word that starts a namespace. -/
def keyword : Side → Text
  | .binary => "binary_namespace"
  | .friendly => "friendly_namespace"

namespace Item

def texts : Item → List Text
  | struct d => d.member.texts
  | directive side name => [keyword side, "=", name, ";"]

def IsSpelled : Item → Prop
  | struct d => d.member.IsSpelled
  | directive _ name => IsTypeName name

instance : (item : Item) → Decidable item.IsSpelled
  | struct d => inferInstanceAs (Decidable d.member.IsSpelled)
  | directive _ name => inferInstanceAs (Decidable (IsTypeName name))

end Item

namespace File

def texts (file : File) : List Text :=
  List.flatten [file.items.flatMap Item.texts,
    file.unread?.elim [] fun unread => "\x7d" :: ";" :: unread]

def IsSpelled (file : File) : Prop :=
  ∀ item ∈ file.items, item.IsSpelled

/-- The file is a derivation of the texts. -/
def Derives (file : File) (texts : List Text) : Prop :=
  file.IsSpelled ∧ file.texts = texts

instance (file : File) : Decidable file.IsSpelled :=
  inferInstanceAs (Decidable (∀ item ∈ file.items, item.IsSpelled))

instance (file : File) (texts : List Text) : Decidable (file.Derives texts) :=
  inferInstanceAs (Decidable (_ ∧ _))

end File

/-! ## What is declared -/

/-- The structs and enumerations that are declared in some part of a file. -/
@[ext] structure Known where
  structs : List Qualified
  enums : List Enumeration

namespace Known

instance : EmptyCollection Known :=
  ⟨⟨[], []⟩⟩

instance : Append Known :=
  ⟨fun k more => ⟨k.structs ++ more.structs, k.enums ++ more.enums⟩⟩

instance : Singleton Qualified Known :=
  ⟨fun q => ⟨[q], []⟩⟩

variable (k more last : Known)

@[simp] theorem structs_append : (k ++ more).structs = k.structs ++ more.structs := rfl

@[simp] theorem enums_append : (k ++ more).enums = k.enums ++ more.enums := rfl

@[simp] theorem structs_empty : (∅ : Known).structs = [] := rfl

@[simp] theorem enums_empty : (∅ : Known).enums = [] := rfl

@[simp] theorem structs_singleton (q : Qualified) : ({q} : Known).structs = [q] := rfl

@[simp] theorem enums_singleton (q : Qualified) : ({q} : Known).enums = [] := rfl

@[simp] theorem append_empty : k ++ ∅ = k := by
  ext1 <;> simp

@[simp] theorem empty_append : ∅ ++ k = k := by
  ext1 <;> simp

theorem append_assoc : k ++ more ++ last = k ++ (more ++ last) := by
  ext1 <;> simp

/-- No two declarations have one name, be they structs with their full names or enumerations, and
no enumeration has two labels of one name. -/
structure Distinct (k : Known) : Prop where
  names : (k.structs.map Qualified.text ++ k.enums.map Enumeration.name).Nodup
  labels : ∀ e ∈ k.enums, (e.labels.map Label.name).Nodup

theorem distinct_empty : (∅ : Known).Distinct :=
  ⟨List.nodup_nil, fun _ h => absurd h List.not_mem_nil⟩

/-- What is declared once in all is declared once in the first part. -/
theorem Distinct.of_append {k more : Known} (h : (k ++ more).Distinct) : k.Distinct := by
  refine ⟨h.names.sublist ?_, fun e he => h.labels e (List.mem_append_left _ he)⟩
  simp only [structs_append, enums_append, List.map_append]
  exact (List.sublist_append_left _ _).append (List.sublist_append_left _ _)

/-- What is declared is not declared in front of it. -/
theorem Distinct.not_mem_left {k more : Known} (h : (k ++ more).Distinct) {q : Qualified}
    (hq : q ∈ more.structs) : q ∉ k.structs := by
  have hstructs := h.names.of_append_left
  rw [structs_append, List.map_append] at hstructs
  exact fun hmem => (List.nodup_append.mp hstructs).2.2 _ (List.mem_map_of_mem hmem) _
    (List.mem_map_of_mem hq) rfl

/-- A struct of the name is declared directly in `outer`, a struct around or at the scope. -/
def Encloses (k : Known) (scope : Qualified) (name : Text) (outer : Qualified) : Prop :=
  outer ≠ [] ∧ outer <+: scope ∧ outer ++ [name] ∈ k.structs

/-- What a type name denotes: a struct of the innermost scope that has one of the name, else an
enumeration, else a struct of the file, else a built-in type. -/
inductive Denotes (k : Known) (scope : Qualified) (name : Text) : FieldType → Prop where
  | nested {outer : Qualified} (here : k.Encloses scope name outer)
      (innermost : ∀ inner, k.Encloses scope name inner → inner.length ≤ outer.length) :
      Denotes k scope name (.struct (outer ++ [name]))
  | enumeration {e : Enumeration} (away : ∀ outer, ¬k.Encloses scope name outer)
      (mem : e ∈ k.enums) (named : e.name = name) : Denotes k scope name (.enumeration e)
  | top (away : ∀ outer, ¬k.Encloses scope name outer) (unnamed : ∀ e ∈ k.enums, e.name ≠ name)
      (mem : [name] ∈ k.structs) : Denotes k scope name (.struct [name])
  | basic {b : Basic} (away : ∀ outer, ¬k.Encloses scope name outer)
      (unnamed : ∀ e ∈ k.enums, e.name ≠ name) (absent : [name] ∉ k.structs)
      (named : b.name = name) : Denotes k scope name (.basic b)

end Known

/-- The value of a label, where a label without one would have the value `next`. -/
def LabelEntry.valueFrom (next : Int) (e : LabelEntry) : Int :=
  e.value?.elim next fun value => (Text.int32? value).getD 0

/-- The labels of an enumeration; one without a value is one above the label in front of it. -/
def labelsFrom (next : Int) : List LabelEntry → List Label
  | [] => []
  | e :: rest => ⟨e.name, e.valueFrom next⟩ :: labelsFrom (e.valueFrom next + 1) rest

/-- The enumeration that is declared in a scope. -/
def enumerationOf (scope : Qualified) (name : Text) (entries : List LabelEntry) : Enumeration :=
  ⟨name, some scope, 0, labelsFrom 0 entries⟩

namespace Member

mutual

/-- What a member declares. -/
def declares (scope : Qualified) : Member → Known
  | struct name _ members => {scope ++ [name]} ++ declaresAll (scope ++ [name]) members
  | enumeration name entries => ⟨[], [enumerationOf scope name entries]⟩
  | fields _ _ _ _ => ∅

def declaresAll (scope : Qualified) : List Member → Known
  | [] => ∅
  | m :: ms => declares scope m ++ declaresAll scope ms

end

mutual

/-- Whether every type name of a member denotes something at the point where it is used, if `k` is
declared in front of the member. -/
def Resolves (k : Known) (scope : Qualified) : Member → Prop
  | struct name _ members => ResolvesAll (k ++ {scope ++ [name]}) (scope ++ [name]) members
  | enumeration _ _ => True
  | fields type _ _ _ => ∃ denoted, k.Denotes scope type denoted

def ResolvesAll (k : Known) (scope : Qualified) : List Member → Prop
  | [] => True
  | m :: ms => Resolves k scope m ∧ ResolvesAll (k ++ declares scope m) scope ms

end

end Member

namespace Item

def declares : Item → Known
  | struct d => d.member.declares []
  | directive _ _ => ∅

def Resolves (k : Known) : Item → Prop
  | struct d => d.member.Resolves k []
  | directive _ _ => True

def declaresAll : List Item → Known
  | [] => ∅
  | item :: items => item.declares ++ declaresAll items

def ResolvesAll (k : Known) : List Item → Prop
  | [] => True
  | item :: items => item.Resolves k ∧ ResolvesAll (k ++ item.declares) items

end Item

namespace File

/-- All that a file declares. -/
def declares (file : File) : Known :=
  Item.declaresAll file.items

/-- Whether every type name of a file denotes something where it is used. -/
def Resolves (file : File) : Prop :=
  Item.ResolvesAll ∅ file.items

end File

/-! ## What is built -/

namespace Declarator

def shape (d : Declarator) : Shape :=
  match d.brackets? with
  | none => .scalar
  | some none => .dynamic
  | some (some count) => Shape.ofInt ((Text.int64? count).getD 0)

/-- The field of a declarator, given what it shares with those beside it. -/
def field (g : FieldGroup) (d : Declarator) : Field :=
  ⟨d.name, g.typeName, g.type, d.shape, g.optional, d.default?, 0⟩

end Declarator

/-- A struct with nothing in its body. -/
def emptyStruct (scope : Qualified) (name : Text) (parent? : Option Text) : Struct :=
  ⟨name, scope, parent?, none, 0, [], [], []⟩

namespace Member

mutual

/-- `Builds k owner m built`: with `k` declared in front of it, the member `m` turns what is
there of its struct from `owner` into `built`. -/
def Builds (k : Known) (owner : Struct) : Member → Struct → Prop
  | struct name parent? members, built =>
    ∃ inner, BuildsAll (k ++ {owner.qualified ++ [name]}) (emptyStruct owner.qualified name parent?)
        members inner ∧
      built = { owner with children := owner.children ++ [inner] }
  | enumeration name entries, built =>
    built = { owner with enums := owner.enums ++ [enumerationOf owner.qualified name entries] }
  | fields type optional first rest, built =>
    ∃ denoted, k.Denotes owner.qualified type denoted ∧
      built = { owner with
        fields := owner.fields ++ (first :: rest).map (Declarator.field ⟨type, denoted, optional⟩) }

def BuildsAll (k : Known) (owner : Struct) : List Member → Struct → Prop
  | [], built => built = owner
  | m :: ms, built =>
    ∃ mid, Builds k owner m mid ∧ BuildsAll (k ++ declares owner.qualified m) mid ms built

end

end Member

namespace TopStruct

/-- The struct that a declaration builds with `k` declared in front of it. -/
def Builds (k : Known) (d : TopStruct) (built : Struct) : Prop :=
  Member.BuildsAll (k ++ {[d.name]}) (emptyStruct [] d.name d.parent?) d.members built

end TopStruct

/-- The schema with the name of one namespace changed. -/
def setNamespace (s : Schema) (name : Text) : Side → Schema
  | .binary => { s with binaryNamespace := some name }
  | .friendly => { s with friendlyNamespace := some name }

namespace Item

def Builds (k : Known) (s : Schema) : Item → Schema → Prop
  | struct d, built => ∃ st, d.Builds k st ∧ built = { s with structs := s.structs ++ [st] }
  | directive side name, built => built = setNamespace s name side

def BuildsAll (k : Known) (s : Schema) : List Item → Schema → Prop
  | [], built => built = s
  | item :: items, built =>
    ∃ mid, item.Builds k s mid ∧ BuildsAll (k ++ item.declares) mid items built

end Item

namespace File

/-- The schema that a file describes, all lines zero. -/
def Builds (file : File) (built : Schema) : Prop :=
  Item.BuildsAll ∅ ⟨none, none, []⟩ file.items built

end File

/-! ## Resolving is building -/

namespace Member

/-- A member changes what is in a struct and not what it is called. -/
theorem qualified_of_builds {k : Known} {owner built : Struct} :
    ∀ {m : Member}, m.Builds k owner built → built.qualified = owner.qualified
  | .struct _ _ _, ⟨_, _, h⟩ => h ▸ rfl
  | .enumeration _ _, h => h ▸ rfl
  | .fields _ _ _ _, ⟨_, _, h⟩ => h ▸ rfl

mutual

/-- The types of a member resolve exactly where something is built from it. -/
theorem resolves_iff_builds (k : Known) (owner : Struct) :
    ∀ m : Member, m.Resolves k owner.qualified ↔ ∃ built, m.Builds k owner built
  | .struct name parent? members => by
      have hinner := resolvesAll_iff_builds (k ++ {owner.qualified ++ [name]})
        (emptyStruct owner.qualified name parent?) members
      simp only [Builds]
      constructor
      · intro h
        obtain ⟨inner, hinner⟩ := hinner.mp h
        exact ⟨_, inner, hinner, rfl⟩
      · rintro ⟨_, inner, h, _⟩
        exact hinner.mpr ⟨inner, h⟩
  | .enumeration name entries => by simp [Resolves, Builds]
  | .fields type optional first rest => by
      simp only [Resolves, Builds]
      constructor
      · rintro ⟨denoted, h⟩
        exact ⟨_, denoted, h, rfl⟩
      · rintro ⟨_, denoted, h, _⟩
        exact ⟨denoted, h⟩

theorem resolvesAll_iff_builds (k : Known) (owner : Struct) :
    ∀ ms : List Member, ResolvesAll k owner.qualified ms ↔ ∃ built, BuildsAll k owner ms built
  | [] => by simp [ResolvesAll, BuildsAll]
  | m :: ms => by
      simp only [ResolvesAll, BuildsAll]
      constructor
      · rintro ⟨hm, hms⟩
        obtain ⟨mid, hmid⟩ := (resolves_iff_builds k owner m).mp hm
        rw [← qualified_of_builds hmid] at hms
        obtain ⟨built, hbuilt⟩ := (resolvesAll_iff_builds _ mid ms).mp hms
        exact ⟨built, mid, hmid, qualified_of_builds hmid ▸ hbuilt⟩
      · rintro ⟨built, mid, hmid, hbuilt⟩
        refine ⟨(resolves_iff_builds k owner m).mpr ⟨mid, hmid⟩, ?_⟩
        rw [← qualified_of_builds hmid] at hbuilt ⊢
        exact (resolvesAll_iff_builds _ mid ms).mpr ⟨built, hbuilt⟩

end

end Member

theorem TopStruct.resolves_iff_builds (k : Known) (d : TopStruct) :
    d.member.Resolves k [] ↔ ∃ built, d.Builds k built :=
  Member.resolvesAll_iff_builds _ (emptyStruct [] d.name d.parent?) d.members

/-- The types in a list of items resolve exactly where a schema is built from them. -/
theorem Item.resolvesAll_iff_builds (k : Known) (s : Schema) (items : List Item) :
    Item.ResolvesAll k items ↔ ∃ built, Item.BuildsAll k s items built := by
  induction items generalizing k s with
  | nil => simp [ResolvesAll, BuildsAll]
  | cons item items ih =>
      simp only [ResolvesAll, BuildsAll]
      have hitem : item.Resolves k ↔ ∃ mid, item.Builds k s mid := by
        cases item with
        | directive side name => simp [Resolves, Builds]
        | struct d =>
            simp only [Resolves, Builds, TopStruct.resolves_iff_builds]
            constructor
            · rintro ⟨st, h⟩
              exact ⟨_, st, h, rfl⟩
            · rintro ⟨_, st, h, _⟩
              exact ⟨st, h⟩
      constructor
      · rintro ⟨h, hitems⟩
        obtain ⟨mid, hmid⟩ := hitem.mp h
        obtain ⟨built, hbuilt⟩ := (ih _ mid).mp hitems
        exact ⟨built, mid, hmid, hbuilt⟩
      · rintro ⟨built, mid, hmid, hbuilt⟩
        exact ⟨hitem.mpr ⟨mid, hmid⟩, (ih _ mid).mpr ⟨built, hbuilt⟩⟩

/-- Every type name of a file denotes something exactly if the file describes a schema. -/
theorem File.resolves_iff_builds {file : File} : file.Resolves ↔ ∃ built, file.Builds built :=
  Item.resolvesAll_iff_builds _ _ _

end Grammar

end Schematic
