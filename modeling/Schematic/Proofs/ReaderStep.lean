import Schematic.Proofs.Transitions

/-!
# Steps of the reader

Whatever token comes, the reader does one of five things: it goes on at another position, opens a
struct, closes one, or adds an enumeration or a field to the innermost open struct. So the structs
read so far are exactly those declared, no two of them have one name, and every type that a field
refers to is among them.
-/

namespace Schematic

namespace Position

/-- The types that were looked up for the clause being read. -/
def types : Position → List FieldType
  | fieldMark g => [g.type]
  | fieldName g => [g.type]
  | fieldShape g f => [g.type, f.type]
  | fieldCount g f => [g.type, f.type]
  | fieldBracket g f => [g.type, f.type]
  | fieldSign g f => [g.type, f.type]
  | fieldDefault g f => [g.type, f.type]
  | fieldEnd g f => [g.type, f.type]
  | _ => []

/-- Whether the position is between or in the declarations of the file that open no struct. -/
def isOutside : Position → Bool
  | file => true
  | namespaceSign _ => true
  | namespaceName _ => true
  | namespaceEnd _ _ => true
  | fileEnd => true
  | finished => true
  | _ => false

/-- No type is lost where a clause is left out. -/
theorem Skips.types_eq {t : Token} {p q : Position} (h : p.Skips t q) : q.types = p.types := by
  induction h with
  | refl _ => rfl
  | value _ _ _ ih | comma _ _ ih | mark _ _ ih | brackets _ _ ih | default _ _ ih => exact ih

theorem Skips.isOutside_eq {t : Token} {p q : Position} (h : p.Skips t q) :
    q.isOutside = p.isOutside := by
  induction h with
  | refl _ => rfl
  | value _ _ _ ih | comma _ _ ih | mark _ _ ih | brackets _ _ ih | default _ _ ih => exact ih

/-- A sign brings no new type. -/
theorem Leads.types_subset {p q : Position} {sign : Text} (h : p.Leads sign q) :
    q.types ⊆ p.types := by
  cases h <;> simp [types]

/-- No sign leads out of a struct. -/
theorem Leads.isOutside {p q : Position} {sign : Text} (h : p.Leads sign q)
    (outside : q.isOutside = true) : p.isOutside = true := by
  cases h <;> first | rfl | exact absurd outside (by simp [Position.isOutside])

end Position

namespace Reader

/-- A type that is known at this point. -/
def Knows (r : Reader) (type : FieldType) : Prop :=
  type ∈ r.position.types ∨ ∃ name, r.resolve? name = some type

/-- What one token can change. -/
inductive Change (r : Reader) : Reader → Prop where
  | goto {position : Position} {binary friendly : Option Text}
      (known : ∀ type ∈ position.types, r.Knows type)
      (outside : position.isOutside = true → r.position.isOutside = true) :
      Change r { r with
        position
        binaryNamespace := binary
        friendlyNamespace := friendly }
  | openStruct {name : Text} {line : Nat} {parent : Option Text} {position : Position}
      (fresh : r.isDeclared (Qualified.text (r.scope ++ [name])) = false)
      (types : position.types = []) (inside : position.isOutside = false) :
      Change r { r with
        position
        stack := ⟨name, r.scope, parent, none, line, [], [], []⟩ :: r.stack
        declared := r.declared ++ [r.scope ++ [name]] }
  | closeStruct : Change r r.closeStruct
  | addEnum (e : Enumeration) :
      Change r (({ r with enums := r.enums ++ [e] }.modifyTop fun s =>
        { s with enums := s.enums ++ [e] }).goto .body)
  | addField {f : Field} {position : Position} (known : r.Knows f.type)
      (types : ∀ type ∈ position.types, r.Knows type) (inside : position.isOutside = false) :
      Change r ((r.addField f).goto position)

section Step

variable {r r' : Reader} {t : Token}

theorem openStruct_eq_ok {name : Text} {line : Nat} {parent : Option Text}
    (h : r.openStruct name line parent = .ok r') :
    r.isDeclared (Qualified.text (r.scope ++ [name])) = false ∧
      r' = { r with
        position := .structOpen
        stack := ⟨name, r.scope, parent, none, line, [], [], []⟩ :: r.stack
        declared := r.declared ++ [r.scope ++ [name]] } := by
  simp only [openStruct] at h
  split at h
  · exact absurd h (by simp)
  · rename_i hfresh
    exact ⟨Bool.eq_false_iff.mpr hfresh, (Except.ok.inj h).symm⟩

theorem closeEnum_eq_ok {e : Enumeration} (h : (r.goto .body).closeEnum e = .ok r') :
    r' = ({ r with enums := r.enums ++ [e] }.modifyTop fun s =>
      { s with enums := s.enums ++ [e] }).goto .body := by
  unfold closeEnum at h
  split at h
  · exact absurd h (by simp)
  · obtain rfl := Except.ok.inj h
    have hgoto := modifyTop_goto { r with enums := r.enums ++ [e] } .body fun s =>
      { s with enums := s.enums ++ [e] }
    simp only [goto] at hgoto ⊢
    rw [hgoto]

/-- Going on inside a struct. -/
theorem change_goto_inside {position : Position} (known : ∀ type ∈ position.types, r.Knows type)
    (inside : position.isOutside = false) : Change r (r.goto position) :=
  Change.goto known (by simp [inside])

/-- Between the name and the end of a field its types are at hand. -/
theorem knows_of_types {g : FieldGroup} {f : Field}
    (types : r.position.types = [g.type, f.type]) : r.Knows g.type ∧ r.Knows f.type :=
  ⟨Or.inl (by simp [types]), Or.inl (by simp [types])⟩

/-- Every token that is accepted changes the reader in one of the five ways. -/
theorem change_of_step (h : r.step t = .ok r') : Change r r' := by
  cases takes_of_step h with
  | sign here leads =>
      refine Change.goto (fun type htype => .inl ?_) fun outside => ?_
      · rw [← here.types_eq]
        exact leads.types_subset htype
      · rw [← here.isOutside_eq]
        exact leads.isOutside outside
  | finished here => exact Change.goto (fun type htype => .inl htype) id
  | namespaceName here name =>
      exact Change.goto (by simp [Position.types]) fun _ => by rw [here]; rfl
  | binary here sign => exact Change.goto (by simp [Position.types]) fun _ => by rw [here]; rfl
  | friendly here sign => exact Change.goto (by simp [Position.types]) fun _ => by rw [here]; rfl
  | structName here name => exact change_goto_inside (by simp [Position.types]) rfl
  | root here opened sign =>
      obtain ⟨fresh, rfl⟩ := openStruct_eq_ok opened
      exact Change.openStruct fresh rfl rfl
  | heir here parent opened =>
      obtain ⟨fresh, rfl⟩ := openStruct_eq_ok opened
      exact Change.openStruct fresh rfl rfl
  | @type type here brace struct enum resolved =>
      have known : r.Knows type := .inr ⟨t.text, resolved⟩
      exact change_goto_inside (by simpa [Position.types] using known) rfl
  | closeStruct here sign => exact Change.closeStruct
  | enumName here name => exact change_goto_inside (by simp [Position.types]) rfl
  | label here brace name => exact change_goto_inside (by simp [Position.types]) rfl
  | value here number added => exact change_goto_inside (by simp [Position.types]) rfl
  | closeEnum here sign closed =>
      obtain rfl := closeEnum_eq_ok closed
      exact Change.addEnum _
  | @field g here name =>
      have known : r.Knows g.type := .inl (by rw [← here.types_eq]; simp [Position.types])
      exact change_goto_inside (by simpa [Position.types] using known) rfl
  | @count g f shape here bracket count =>
      obtain ⟨group, field⟩ := knows_of_types (g := g) (f := f) (by rw [here]; rfl)
      exact change_goto_inside (by simpa [Position.types] using And.intro group field) rfl
  | @default g f here =>
      obtain ⟨group, field⟩ := knows_of_types (g := g) (f := f) (by rw [here]; rfl)
      exact change_goto_inside (by simpa [Position.types] using And.intro group field) rfl
  | @next g f here sign =>
      obtain ⟨group, field⟩ := knows_of_types (g := g) (f := f) here.types_eq.symm
      exact Change.addField field (by simpa [Position.types] using group) rfl
  | @last g f here sign =>
      obtain ⟨group, field⟩ := knows_of_types (g := g) (f := f) here.types_eq.symm
      exact Change.addField field (by simp [Position.types]) rfl

end Step

end Reader

/-! ## The structs read so far -/

namespace Struct

theorem walk_eq (s : Struct) : s.walk = s :: walkAll s.children := by
  cases s
  rfl

theorem walkAll_append (first second : List Struct) :
    walkAll (first ++ second) = walkAll first ++ walkAll second := by
  induction first with
  | nil => rfl
  | cons s first ih => simp only [List.cons_append, walkAll, ih, List.append_assoc]

theorem walkAll_eq_flatMap (ss : List Struct) : walkAll ss = ss.flatMap walk := by
  induction ss with
  | nil => rfl
  | cons st rest ih => rw [walkAll, ih, List.flatMap_cons]

theorem walkAll_singleton (s : Struct) : walkAll [s] = s :: walkAll s.children := by
  simp only [walkAll, List.append_nil, walk_eq]

/-- What of a struct the rest of a schema can refer to. -/
def interface (s : Struct) : Qualified × List Field :=
  (s.qualified, s.fields)

end Struct

namespace Reader

/-- All structs read so far, finished or open, in the order of their headers. -/
def seen (r : Reader) : List Struct :=
  Struct.walkAll (r.structs ++ r.stack.reverse)

/-- Whether a type refers to something declared so far. -/
def Declares (r : Reader) : FieldType → Prop
  | .struct q => q ∈ r.declared
  | .described _ _ => False
  | _ => True

/-- What holds between any two tokens. -/
structure Sound (r : Reader) : Prop where
  declared : r.seen.map Struct.qualified = r.declared
  distinct : (r.declared.map Qualified.text).Nodup
  fields : ∀ s ∈ r.seen, ∀ f ∈ s.fields, r.Declares f.type
  position : ∀ type ∈ r.position.types, r.Declares type
  outside : r.position.isOutside = true → r.stack = []

theorem declares_of_resolve {r : Reader} {name : Text} {type : FieldType}
    (h : r.resolve? name = some type) : r.Declares type := by
  simp only [resolve?, Option.or_eq_some_iff] at h
  rcases h with ((h | ⟨_, h⟩) | ⟨_, h⟩) | ⟨_, h⟩
  · obtain ⟨outer, _, h⟩ := List.exists_of_findSome?_eq_some h
    split at h
    · rename_i hmem
      obtain rfl := Option.some.inj h
      exact List.contains_iff_mem.mp hmem
    · exact absurd h (by simp)
  · obtain ⟨e, _, rfl⟩ := Option.map_eq_some_iff.mp h
    trivial
  · split at h
    · rename_i hmem
      obtain rfl := Option.some.inj h
      exact List.contains_iff_mem.mp hmem
    · exact absurd h (by simp)
  · obtain ⟨b, _, rfl⟩ := Option.map_eq_some_iff.mp h
    trivial

theorem seen_cons {r : Reader} {top : Struct} {stack : List Struct} (h : r.stack = top :: stack) :
    r.seen = Struct.walkAll (r.structs ++ stack.reverse) ++ top :: Struct.walkAll top.children := by
  rw [seen, h, List.reverse_cons, ← List.append_assoc, Struct.walkAll_append,
    Struct.walkAll_singleton]

/-- Closing a struct changes nothing that can be referred to. -/
theorem interface_closeStruct (r : Reader) :
    r.closeStruct.seen.map Struct.interface = r.seen.map Struct.interface := by
  rcases hstack : r.stack with _ | ⟨s, _ | ⟨outer, stack⟩⟩
  · simp [closeStruct, hstack, seen, goto]
  · simp [closeStruct, hstack, seen]
  · have hclosed : r.closeStruct.stack =
        { outer with children := outer.children ++ [s] } :: stack := by
      simp [closeStruct, hstack]
    have hstructs : r.closeStruct.structs = r.structs := by
      simp [closeStruct, hstack]
    rw [seen_cons hclosed, seen_cons hstack, hstructs]
    simp only [List.reverse_cons, ← List.append_assoc, Struct.walkAll_append,
      Struct.walkAll_singleton, List.map_append, List.map_cons]
    simp [Struct.interface, Struct.qualified]

theorem interface_modifyTop (r : Reader) {change : Struct → Struct}
    (same : ∀ s, (change s).interface = s.interface)
    (children : ∀ s, (change s).children = s.children) :
    (r.modifyTop change).seen.map Struct.interface = r.seen.map Struct.interface := by
  cases hstack : r.stack with
  | nil => simp [modifyTop, hstack]
  | cons top stack =>
      have hchanged : (r.modifyTop change).stack = change top :: stack := by
        simp [modifyTop, hstack]
      have hstructs : (r.modifyTop change).structs = r.structs := by
        simp [modifyTop, hstack]
      rw [seen_cons hchanged, seen_cons hstack, hstructs]
      simp [same, children]

namespace Sound

variable {r r' : Reader}

theorem declares_of_knows (hr : r.Sound) {type : FieldType} (h : r.Knows type) :
    r.Declares type := by
  rcases h with h | ⟨name, h⟩
  · exact hr.position type h
  · exact declares_of_resolve h

/-- Nothing is lost when more is declared. -/
theorem declares_mono {type : FieldType} (more : r.declared ⊆ r'.declared)
    (h : r.Declares type) : r'.Declares type := by
  cases type with
  | basic b => trivial
  | enumeration e => trivial
  | struct q => exact more h
  | described kind builtin => exact h

/-- A change that leaves everything that can be referred to as it is. -/
theorem of_interface (hr : r.Sound)
    (seen : r'.seen.map Struct.interface = r.seen.map Struct.interface)
    (declared : r'.declared = r.declared)
    (position : ∀ type ∈ r'.position.types, r.Declares type)
    (outside : r'.position.isOutside = true → r'.stack = []) : r'.Sound := by
  have hnames : r'.seen.map Struct.qualified = r.seen.map Struct.qualified := by
    simpa [Struct.interface, Function.comp_def] using congrArg (List.map Prod.fst) seen
  have hmore : r.declared ⊆ r'.declared := fun q hq => declared ▸ hq
  refine ⟨by rw [hnames, declared, hr.declared], declared ▸ hr.distinct, ?_,
    fun type htype => declares_mono hmore (position type htype), outside⟩
  intro s hs f hf
  have hmem : s.interface ∈ r.seen.map Struct.interface := seen ▸ List.mem_map_of_mem hs
  obtain ⟨s₀, hs₀, heq⟩ := List.mem_map.mp hmem
  have hfields : s₀.fields = s.fields := congrArg Prod.snd heq
  exact declares_mono hmore (hr.fields s₀ hs₀ f (hfields ▸ hf))

/-- A struct that opens is the last one seen, under a name that was free. -/
theorem openStruct (hr : r.Sound) {name : Text} {line : Nat} {parent : Option Text}
    {position : Position} (fresh : r.isDeclared (Qualified.text (r.scope ++ [name])) = false)
    (types : position.types = []) (inside : position.isOutside = false) :
    Sound { r with
      position
      stack := ⟨name, r.scope, parent, none, line, [], [], []⟩ :: r.stack
      declared := r.declared ++ [r.scope ++ [name]] } := by
  have hseen := seen_cons (r := { r with
    position
    stack := ⟨name, r.scope, parent, none, line, [], [], []⟩ :: r.stack
    declared := r.declared ++ [r.scope ++ [name]] }) rfl
  have hmore : r.declared ⊆ r.declared ++ [r.scope ++ [name]] :=
    List.subset_append_left _ _
  refine ⟨?_, ?_, ?_, by simp [types], by simp [inside]⟩
  · rw [hseen, List.map_append]
    exact congrArg (· ++ [r.scope ++ [name]]) hr.declared
  · simp only [isDeclared, Bool.or_eq_false_iff, List.any_eq_false] at fresh
    rw [List.map_append, List.nodup_append]
    refine ⟨hr.distinct, by simp, ?_⟩
    intro a ha b hb heq
    obtain ⟨q, hq, rfl⟩ := List.mem_map.mp ha
    rw [List.map_singleton, List.mem_singleton] at hb
    exact fresh.1 q hq (by simpa using heq.trans hb)
  · intro s hs f hf
    rw [hseen] at hs
    rcases List.mem_append.mp hs with hs | hs
    · exact declares_mono hmore (hr.fields s hs f hf)
    · rcases List.mem_cons.mp hs with rfl | hs
      · exact absurd hf (by simp)
      · exact absurd hs (by simp [Struct.walkAll])

/-- A field of a known type goes to the struct that opened last. -/
theorem addField (hr : r.Sound) {f : Field} {position : Position} (known : r.Knows f.type)
    (types : ∀ type ∈ position.types, r.Knows type) (inside : position.isOutside = false) :
    Sound ((r.addField f).goto position) := by
  have hknown : ∀ type ∈ position.types, r.Declares type :=
    fun type htype => hr.declares_of_knows (types type htype)
  cases hstack : r.stack with
  | nil =>
      have hsame : r.addField f = r := by simp [Reader.addField, modifyTop, hstack]
      rw [hsame]
      exact hr.of_interface rfl rfl hknown fun _ => hstack
  | cons top stack =>
      have hadded : ((r.addField f).goto position) =
          { r with
            position
            stack := { top with fields := top.fields ++ [f] } :: stack } := by
        simp [Reader.addField, modifyTop, hstack, goto]
      have hold := seen_cons hstack
      have hnew := seen_cons (r := { r with
        position
        stack := { top with fields := top.fields ++ [f] } :: stack }) rfl
      rw [hadded]
      refine ⟨?_, hr.distinct, ?_, hknown, by simp [inside]⟩
      · refine Eq.trans ?_ hr.declared
        rw [hold, hnew]
        simp [Struct.qualified]
      · intro s hs f' hf'
        rw [hnew] at hs
        rcases List.mem_append.mp hs with hs | hs
        · exact hr.fields s (by rw [hold]; exact List.mem_append_left _ hs) f' hf'
        · rcases List.mem_cons.mp hs with rfl | hs
          · rcases List.mem_append.mp hf' with hf' | hf'
            · exact hr.fields top (by rw [hold]; simp) f' hf'
            · rw [List.mem_singleton.mp hf']
              exact hr.declares_of_knows known
          · exact hr.fields s (by rw [hold]; simp [hs]) f' hf'

/-- One token keeps the reader sound. -/
theorem change (hr : r.Sound) (h : Change r r') : r'.Sound := by
  cases h with
  | goto known outside =>
      refine hr.of_interface rfl rfl ?_ fun h => hr.outside (outside h)
      exact fun type htype => hr.declares_of_knows (known type htype)
  | openStruct fresh types inside => exact hr.openStruct fresh types inside
  | closeStruct =>
      have hdeclared : r.closeStruct.declared = r.declared := by
        rcases hstack : r.stack with _ | ⟨s, _ | ⟨outer, stack⟩⟩ <;>
          simp [closeStruct, hstack, goto]
      have hposition : r.closeStruct.position.types = [] ∧
          (r.closeStruct.position.isOutside = true → r.closeStruct.stack = []) := by
        rcases hstack : r.stack with _ | ⟨s, _ | ⟨outer, stack⟩⟩ <;>
          simp [closeStruct, hstack, goto, Position.types, Position.isOutside]
      exact hr.of_interface (interface_closeStruct r) hdeclared (by simp [hposition.1])
        hposition.2
  | addEnum e =>
      refine hr.of_interface ?_ ?_ (by simp [goto, Position.types])
        (by simp [goto, Position.isOutside])
      · exact interface_modifyTop { r with enums := r.enums ++ [e] } (fun _ => rfl) fun _ => rfl
      · cases r.stack <;> simp [modifyTop, goto]
  | addField known types inside => exact hr.addField known types inside

/-- Reading any number of tokens keeps the reader sound. -/
theorem foldlM_step (hr : r.Sound) {tokens : List Token} (h : tokens.foldlM step r = .ok r') :
    r'.Sound := by
  induction tokens generalizing r with
  | nil =>
      obtain rfl := Except.ok.inj h
      exact hr
  | cons t tokens ih =>
      rw [List.foldlM_cons] at h
      obtain ⟨r₁, h₁, h⟩ := bind_eq_ok.mp h
      exact ih (hr.change (change_of_step h₁)) h

end Sound

theorem sound_initial : Sound {} := by
  constructor <;> simp [seen, Struct.walkAll, Position.types]

/-- Reading can end between the declarations of a file only. -/
theorem finish_eq_ok {r : Reader} {line : Nat} {s : Schema} (h : r.finish line = .ok s) :
    (r.position = .file ∨ r.position = .finished) ∧
      s = ⟨r.binaryNamespace, r.friendlyNamespace, r.structs⟩ := by
  unfold finish at h
  split at h
  · rename_i hp
    exact ⟨.inl hp, (Except.ok.inj h).symm⟩
  · rename_i hp
    exact ⟨.inr hp, (Except.ok.inj h).symm⟩
  · obtain ⟨_, _, h⟩ := bind_eq_ok.mp h
    exact absurd h (by simp)
  · obtain ⟨_, _, h⟩ := bind_eq_ok.mp h
    exact absurd h (by simp)
  · exact absurd h (by simp)

/-- When reading can end, the reader is sound and no struct is open. -/
theorem sound_of_finish {tokens : List Token} {r : Reader} {line : Nat} {s : Schema}
    (hfold : tokens.foldlM step {} = .ok r) (hfinish : r.finish line = .ok s) :
    r.Sound ∧ r.stack = [] ∧ s.structs = r.structs := by
  have hr := sound_initial.foldlM_step hfold
  obtain ⟨hposition, rfl⟩ := finish_eq_ok hfinish
  have houtside : r.position.isOutside = true := by
    rcases hposition with hp | hp <;> rw [hp] <;> rfl
  exact ⟨hr, hr.outside houtside, rfl⟩

/-- When reading can end, the structs read so far are those of the schema. -/
theorem seen_of_finish {tokens : List Token} {r : Reader} {line : Nat} {s : Schema}
    (hfold : tokens.foldlM step {} = .ok r) (hfinish : r.finish line = .ok s) :
    r.seen = s.walk := by
  obtain ⟨_, hstack, hstructs⟩ := sound_of_finish hfold hfinish
  rw [seen, hstack, Schema.walk, hstructs, List.reverse_nil, List.append_nil]

/-- A schema is read as the structs of a sound reader with no struct open. -/
theorem exists_sound_of_read {tokens : List Token} {s : Schema} (h : read tokens = .ok s) :
    ∃ r : Reader, r.Sound ∧ r.seen = s.walk := by
  obtain ⟨r, hfold, hfinish⟩ := bind_eq_ok.mp h
  exact ⟨r, (sound_of_finish hfold hfinish).1, seen_of_finish hfold hfinish⟩

end Reader

end Schematic
