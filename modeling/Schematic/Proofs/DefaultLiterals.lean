import Schematic.Method.Run
import Schematic.Proofs.Accepted
import Schematic.Proofs.Denotation

/-!
# Defaults as they are written in code

A default is read as a literal of the schema language and written into the code as it stands, where
it is read again by other rules. Main statement: what is written denotes the value that was read and
no other, but for whole numbers behind a zero, negative zeros, numbers with exponents of more digits
than are kept, texts between single quotation marks or with bytes that code may not hold, truth
values that are declared names, and labels whose constants are no names or have no value in 32 bits.
-/

namespace Schematic

namespace Field

variable {f : Field}

theorem defaultValue_eq_none_iff : f.defaultValue = .ok none ↔ f.default? = none := by
  unfold defaultValue
  cases f.default? with
  | none => simp
  | some token =>
      cases f.isDynamic with
      | true => simp
      | false => cases hvalue : f.type.defaultValue f.typeName token <;> simp [Except.map, hvalue]

/-- Only what is neither a struct nor a dynamic array has a default. -/
theorem plain_of_defaultValue {d : DefaultValue} (h : f.defaultValue = .ok (some d)) :
    f.type.isStruct = false ∧ f.isDynamic = false := by
  unfold defaultValue at h
  cases hdefault : f.default? with
  | none => simp [hdefault] at h
  | some token =>
      cases hdynamic : f.isDynamic with
      | true => simp [hdefault, hdynamic] at h
      | false =>
          cases htype : f.type with
          | struct q =>
              simp [hdefault, hdynamic, htype, FieldType.defaultValue, Except.map] at h
          | _ => exact ⟨rfl, rfl⟩

theorem exists_defaultValue (h : f.checkDefault = .ok ()) : ∃ d?, f.defaultValue = .ok d? := by
  unfold checkDefault at h
  cases hvalue : f.defaultValue with
  | ok d? => exact ⟨d?, rfl⟩
  | error fault => simp [hvalue] at h

end Field

namespace Code

open Literal

/-- What is written for a default is read as the default was: not in another base, with its sign
and its whole exponent, between marks that code has, and under a name of its own. -/
def Faithful (declared : List Text) (token : Text) : DefaultValue → Prop
  | .bool _ => token ∉ declared
  | .int i => ¬(ZeroLed token ∧ 8 ≤ i.natAbs)
  | .float n =>
      ¬(ZeroLed token ∧ 8 ≤ n.mantissa) ∧ ¬(n.negative = true ∧ n.magnitude = 0) ∧
        (n.scaled (lostExponent token)).fitsSingle = true ∧
        (n.scaled (lostExponent token)).singleBits = n.singleBits
  | .string _ => (token.head? = some 0x22 ∨ token.head? = some 0x60) ∧ isAdmissible token = true
  | .label e name =>
      isName (e.constant name) = true ∧
        ∀ l ∈ e.labels, l.name = name → Text.fitsWord 32 l.value = true

theorem literal_cases {b : Basic} {token : Text} {value : DefaultValue}
    (h : b.literal token = .ok value) :
    (∃ x, b = .bool ∧ token = boolText x ∧ value = .bool x) ∨
      (∃ i, b = .int ∧ Text.int32? token = some i ∧ value = .int i) ∨
      (∃ n, b = .float ∧ single? token = some n ∧ value = .float n) ∨
      ∃ t, b = .string ∧ unquote? token = some t ∧ value = .string t := by
  cases b with
  | bool =>
      rw [Basic.literal] at h
      split at h
      · exact .inl ⟨true, rfl, ‹_›, (Except.ok.inj h).symm⟩
      · split at h
        · exact .inl ⟨false, rfl, ‹_›, (Except.ok.inj h).symm⟩
        · exact absurd h (by simp)
  | int =>
      rw [Basic.literal] at h
      split at h
      · exact .inr (.inl ⟨_, rfl, ‹_›, (Except.ok.inj h).symm⟩)
      · exact absurd h (by simp)
  | float =>
      rw [Basic.literal] at h
      split at h
      · exact .inr (.inr (.inl ⟨_, rfl, ‹_›, (Except.ok.inj h).symm⟩))
      · exact absurd h (by simp)
  | string =>
      rw [Basic.literal] at h
      split at h
      · exact .inr (.inr (.inr ⟨_, rfl, ‹_›, (Except.ok.inj h).symm⟩))
      · exact absurd h (by simp)

section Literals

variable {declarations : List Declaration} {b : Basic} {token : Text} {value : DefaultValue}

theorem denotes_literal_iff (h : b.literal token = .ok value) :
    (∀ w, Denotes declarations (ownedValue (.basic b)) (defaultPiece token value).text w ↔
        w = value.value) ↔
      Faithful (declarations.flatMap Declaration.declared) token value := by
  rcases literal_cases h with
    ⟨x, rfl, rfl, rfl⟩ | ⟨i, rfl, hi, rfl⟩ | ⟨n, rfl, hn, rfl⟩ | ⟨t, rfl, ht, rfl⟩
  · exact denotes_boolText_iff x
  · exact denotes_int32_iff hi
  · exact denotes_single_iff hn
  · exact denotes_quoted_iff ht

/-- What is written for a literal denotes the value that is assigned for it. -/
theorem denotes_literal (h : b.literal token = .ok value) {w : Value} :
    Denotes declarations (ownedValue (.basic b)) (defaultPiece token value).text w ↔
      denoted? (declarations.flatMap Declaration.declared) token value = some w := by
  rcases literal_cases h with
    ⟨x, rfl, rfl, rfl⟩ | ⟨i, rfl, hi, rfl⟩ | ⟨n, rfl, hn, rfl⟩ | ⟨t, rfl, ht, rfl⟩
  · refine (denotes_boolText x).trans ?_
    simp only [denoted?, List.contains_iff_mem]
    split
    · simp [*]
    · simp [*, eq_comm]
  · exact denotes_int32 hi
  · exact denotes_single (number?_of_single? hn)
  · refine (denotes_quoted ht).trans ?_
    simp only [denoted?, Bool.and_eq_true, Bool.or_eq_true, decide_eq_true_eq]
    split
    · simp [*, eq_comm]
    · simp [*]

end Literals

/-- The constant of a label denotes the value that is assigned for it. -/
theorem denotes_constant {declarations : List Declaration}
    (hnodup : (declarations.flatMap Declaration.declared).Nodup) {e : Enumeration}
    (he : enumeration e ⊆ declarations) {name : Text} (hlabel : e.hasLabel name = true)
    (hfree : e.constant name ∉ usedVariables) (declared : List Text) {w : Value} :
    Denotes declarations (.named e.identifier) (e.constant name) w ↔
      denoted? declared name (.label e name) = some w := by
  obtain ⟨l, hfind, hl, hname⟩ := exists_label hlabel
  rw [denotes_label hnodup he hl hname hfree, denoted?, hfind]
  split
  · by_cases hfits : Text.fitsWord 32 l.value = true
    · simp [*, Option.filter, eq_comm]
    · simp [*, Option.filter]
  · simp [*]

/-- Only which names are declared matters. -/
theorem denoted?_congr {declared declared' : List Text} (h : ∀ t, t ∈ declared ↔ t ∈ declared')
    (token : Text) (value : DefaultValue) :
    denoted? declared token value = denoted? declared' token value := by
  cases value with
  | bool b => simp only [denoted?, List.contains_iff_mem, h]
  | _ => rfl

end Code

namespace Schema

section Parsed

variable {source : Text} {s : Schema} {st : Struct} {f : Field}

/-- The enumerations that fields refer to are declared. -/
theorem mem_enums_of_field (parsed : parse source = .ok s) (hst : st ∈ s.walk) (hf : f ∈ st.fields)
    {e : Enumeration} (htype : f.type = .enumeration e) : e ∈ s.enums := by
  obtain ⟨tokens, s₀, -, hread, hlink, -⟩ := parse_eq_ok_iff.mp parsed
  obtain ⟨r, hfold, -⟩ := bind_eq_ok.mp hread
  obtain ⟨hregistered, -⟩ := registered_of_link hfold hread hlink
  exact (perm_enums_of_link hfold hread hlink).subset ((hregistered st hst).fields f hf e htype)

theorem enumeration_subset_owned {e : Enumeration} (he : e ∈ s.enums) :
    Code.enumeration e ⊆ s.walk.flatMap Code.ownedStruct := by
  obtain ⟨st, hst, he⟩ := List.mem_flatMap.mp he
  intro d hd
  refine List.mem_flatMap.mpr ⟨st, hst, List.mem_append_left _ ?_⟩
  exact List.mem_flatMap.mpr ⟨e, he, hd⟩

theorem enumeration_subset_declarations {e : Enumeration} (he : e ∈ s.enums)
    (o : Artifact.Options) (writer : Text) :
    Code.enumeration e ⊆ Artifact.declarations s o writer .owned :=
  fun _ hd => List.mem_append_left _ (enumeration_subset_owned he hd)

theorem not_mem_usedVariables_of_label (parsed : parse source = .ok s) {e : Enumeration}
    (he : e ∈ s.enums) {name : Text} (hlabel : e.hasLabel name = true) :
    e.constant name ∉ Code.usedVariables := by
  obtain ⟨l, hl, hname⟩ := List.any_eq_true.mp hlabel
  obtain rfl : l.name = name := by simpa using hname
  intro hmem
  apply Code.not_word_of_major (exists_major_constant parsed he hl)
  exact List.mem_append_right _ hmem

/-- The default of a field of a schema that can be parsed has a value. -/
theorem exists_default_of_parse (parsed : parse source = .ok s) (hst : st ∈ s.walk)
    (hf : f ∈ st.fields) {token : Text} (hdefault : f.default? = some token) :
    ∃ value, f.defaultValue = .ok (some value) ∧
      f.type.defaultValue f.typeName token = .ok value := by
  obtain ⟨_, _, -, -, -, hcheck⟩ := parse_eq_ok_iff.mp parsed
  obtain ⟨d?, hd⟩ :=
    Field.exists_defaultValue ((check_eq_ok_iff.mp hcheck).2.2.2.1 st hst f hf)
  rw [Field.defaultValue, hdefault] at hd ⊢
  dsimp only at hd ⊢
  split at hd
  · exact absurd hd (by simp)
  · rename_i hstill
    cases hvalue : f.type.defaultValue f.typeName token with
    | error fault => simp [hvalue, Except.map] at hd
    | ok value => exact ⟨value, if_neg hstill, rfl⟩

end Parsed

/-- In a package that declares the enumerations of a schema, what is written for a default denotes
the value that is assigned for it, and this is the value that was read just if it is faithful. -/
theorem denotes_default {source : Text} {s : Schema} (parsed : parse source = .ok s)
    {declarations : List Code.Declaration}
    (hnodup : (declarations.flatMap Code.Declaration.declared).Nodup)
    (henums : ∀ e ∈ s.enums, Code.enumeration e ⊆ declarations) {st : Struct} (hst : st ∈ s.walk)
    {f : Field} (hf : f ∈ st.fields) {token : Text} {value : DefaultValue}
    (hvalue : f.type.defaultValue f.typeName token = .ok value) :
    (∀ w, Code.Denotes declarations (Code.ownedValue f.type)
        (Code.defaultPiece token value).text w ↔
        Code.denoted? (declarations.flatMap Code.Declaration.declared) token value = some w) ∧
      ((∀ w, Code.Denotes declarations (Code.ownedValue f.type)
          (Code.defaultPiece token value).text w ↔ w = value.value) ↔
        Code.Faithful (declarations.flatMap Code.Declaration.declared) token value) := by
  cases htype : f.type with
  | basic b =>
      rw [htype] at hvalue
      exact ⟨fun _ => Code.denotes_literal hvalue, Code.denotes_literal_iff hvalue⟩
  | enumeration e =>
      rw [htype, FieldType.defaultValue] at hvalue
      split at hvalue
      · rename_i hlabel
        obtain rfl := Except.ok.inj hvalue
        have he := mem_enums_of_field parsed hst hf htype
        have hfree := not_mem_usedVariables_of_label parsed he hlabel
        exact ⟨fun _ => Code.denotes_constant hnodup (henums e he) hlabel hfree _,
          Code.denotes_label_iff hnodup (henums e he) hlabel hfree⟩
      · exact absurd hvalue (by simp)
  | struct q =>
      rw [htype] at hvalue
      exact absurd hvalue (by simp [FieldType.defaultValue])
  | described category builtin =>
      exact absurd htype ((accepted_of_parse parsed).resolved.declared st hst f hf _ _)

end Schema

end Schematic
