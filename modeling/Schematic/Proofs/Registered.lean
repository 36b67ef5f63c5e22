import Schematic.Proofs.ReaderStep

/-!
# What is registered while structs are open

A struct that is being read is nowhere in the finished part of a schema, but its name is declared,
and so are the enumerations in it and those that its fields have for types. The stack of open
structs is a path: each of them stands in the one opened before it. What holds of the finished and
the open structs together is kept by every token.
-/

namespace Schematic

namespace Struct

/-- The enumerations that a struct holds or refers to are among the known ones, and the structs in
it have its name for their scope. -/
structure Registered (known : List Enumeration) (st : Struct) : Prop where
  enums : st.enums ⊆ known
  fields : ∀ f ∈ st.fields, ∀ e, f.type = .enumeration e → e ∈ known
  children : ∀ child ∈ st.children, child.scope = st.qualified

theorem Registered.mono {known more : List Enumeration} {st : Struct} (h : st.Registered known)
    (hmore : known ⊆ more) : st.Registered more := by
  constructor
  · exact fun e he => hmore (h.enums he)
  · exact fun f hf e he => hmore (h.fields f hf e he)
  · exact h.children

/-- Each struct of a stack stands in the one behind it, and the last one in the file. -/
def Nested : List Struct → Prop
  | [] => True
  | [st] => st.scope = []
  | st :: outer :: stack => st.scope = outer.qualified ∧ Nested (outer :: stack)

theorem Nested.tail {st : Struct} {stack : List Struct} (h : Nested (st :: stack)) :
    Nested stack := by
  cases stack with
  | nil => trivial
  | cons outer stack => exact h.2

/-- Only the scope of the innermost struct counts. -/
theorem Nested.replace {st st' : Struct} {stack : List Struct} (h : Nested (st :: stack))
    (same : st'.scope = st.scope) : Nested (st' :: stack) := by
  cases stack with
  | nil => exact same.trans h
  | cons outer stack => exact ⟨same.trans h.1, h.2⟩

end Struct

namespace Reader

variable {r r' : Reader}

/-- What every change keeps is kept by a run. -/
theorem foldlM_change {motive : Reader → Prop}
    (step : ∀ {r r' : Reader}, motive r → Change r r' → motive r') {tokens : List Token}
    (start : motive r) (h : tokens.foldlM Reader.step r = .ok r') : motive r' := by
  induction tokens generalizing r with
  | nil =>
      obtain rfl := Except.ok.inj h
      exact start
  | cons t tokens ih =>
      rw [List.foldlM_cons] at h
      obtain ⟨r₁, h₁, h⟩ := bind_eq_ok.mp h
      exact ih (step start (change_of_step h₁)) h

/-- A change of the innermost open struct leaves all other structs alone. -/
theorem forall_seen_modifyTop {before after : Struct → Prop} {change : Struct → Struct}
    (h : ∀ st ∈ r.seen, before st) (keep : ∀ st, before st → after st)
    (top : ∀ st, before st → after (change st))
    (children : ∀ st, (change st).children = st.children) :
    ∀ st ∈ (r.modifyTop change).seen, after st := by
  cases hstack : r.stack with
  | nil =>
      rw [modifyTop, hstack]
      exact fun st hst => keep st (h st hst)
  | cons first stack =>
      have hchanged : (r.modifyTop change).stack = change first :: stack := by
        rw [modifyTop, hstack]
      have hstructs : (r.modifyTop change).structs = r.structs := by
        rw [modifyTop, hstack]
      rw [seen_cons hstack, List.forall_mem_append, List.forall_mem_cons] at h
      rw [seen_cons hchanged, hstructs, children, List.forall_mem_append, List.forall_mem_cons]
      refine ⟨fun st hst => keep st (h.1 st hst), top first h.2.1, ?_⟩
      exact fun st hst => keep st (h.2.2 st hst)

/-- Closing a struct changes no other one but that around it. -/
theorem forall_seen_closeStruct {motive : Struct → Prop} (h : ∀ st ∈ r.seen, motive st)
    (around : ∀ inner outer stack, r.stack = inner :: outer :: stack → motive outer →
      motive { outer with children := outer.children ++ [inner] }) :
    ∀ st ∈ r.closeStruct.seen, motive st := by
  rcases hstack : r.stack with _ | ⟨inner, _ | ⟨outer, stack⟩⟩
  · rw [closeStruct, hstack]
    exact h
  · have hseen : r.closeStruct.seen = r.seen := by
      simp [closeStruct, seen, hstack]
    rw [hseen]
    exact h
  · have hclosed : r.closeStruct.stack =
        { outer with children := outer.children ++ [inner] } :: stack := by
      rw [closeStruct, hstack]
    have hstructs : r.closeStruct.structs = r.structs := by
      rw [closeStruct, hstack]
    rw [seen_cons hstack, List.reverse_cons, ← List.append_assoc, Struct.walkAll_append,
      Struct.walkAll_singleton, List.append_assoc, List.cons_append, List.forall_mem_append,
      List.forall_mem_cons] at h
    have hchildren : Struct.walkAll (outer.children ++ [inner]) =
        Struct.walkAll outer.children ++ inner :: Struct.walkAll inner.children := by
      rw [Struct.walkAll_append, Struct.walkAll_singleton]
    rw [seen_cons hclosed, hstructs, hchildren, List.forall_mem_append, List.forall_mem_cons]
    exact ⟨h.1, around inner outer stack hstack h.2.1, h.2.2⟩

/-- What holds of the enumerations and scopes between any two tokens. -/
structure Registers (r : Reader) : Prop where
  seen : ∀ st ∈ r.seen, st.Registered r.enums
  types : ∀ e, FieldType.enumeration e ∈ r.position.types → e ∈ r.enums
  nested : Struct.Nested r.stack
  top : ∀ st ∈ r.structs, st.scope = []

theorem mem_enums_of_resolve {name : Text} {e : Enumeration}
    (h : r.resolve? name = some (.enumeration e)) : e ∈ r.enums := by
  simp only [resolve?, Option.or_eq_some_iff] at h
  rcases h with ((h | ⟨_, h⟩) | ⟨_, h⟩) | ⟨_, h⟩
  · obtain ⟨outer, _, h⟩ := List.exists_of_findSome?_eq_some h
    split at h <;> exact absurd h (by simp)
  · obtain ⟨found, hfound, h⟩ := Option.map_eq_some_iff.mp h
    obtain rfl := FieldType.enumeration.inj h
    exact List.mem_of_find?_eq_some hfound
  · split at h <;> exact absurd h (by simp)
  · obtain ⟨b, _, h⟩ := Option.map_eq_some_iff.mp h
    exact absurd h (by simp)

namespace Registers

theorem mem_of_knows (hr : r.Registers) {e : Enumeration} (h : r.Knows (.enumeration e)) :
    e ∈ r.enums := by
  rcases h with h | ⟨name, h⟩
  · exact hr.types e h
  · exact mem_enums_of_resolve h

/-- A struct that opens stands in the one opened before it and has nothing in it. -/
theorem openStruct (hr : r.Registers) {name : Text} {line : Nat} {parent : Option Text}
    {position : Position} (types : position.types = []) :
    Registers { r with
      position
      stack := ⟨name, r.scope, parent, none, line, [], [], []⟩ :: r.stack
      declared := r.declared ++ [r.scope ++ [name]] } := by
  have hseen := seen_cons (r := { r with
    position
    stack := ⟨name, r.scope, parent, none, line, [], [], []⟩ :: r.stack
    declared := r.declared ++ [r.scope ++ [name]] }) rfl
  constructor
  · intro st hst
    rw [hseen, Struct.walkAll, List.mem_append, List.mem_singleton] at hst
    rcases hst with hst | rfl
    · exact hr.seen st hst
    · exact ⟨by simp, by simp, by simp⟩
  · intro e he
    rw [types] at he
    exact absurd he List.not_mem_nil
  · have hnested := hr.nested
    simp only [scope]
    cases hstack : r.stack with
    | nil => rfl
    | cons outer stack =>
        rw [hstack] at hnested
        exact ⟨rfl, hnested⟩
  · exact hr.top

/-- A struct that closes goes into the one it stands in, or into the file. -/
theorem closeStruct (hr : r.Registers) : r.closeStruct.Registers := by
  have hnested := hr.nested
  have henums : r.closeStruct.enums = r.enums := by
    rcases hstack : r.stack with _ | ⟨inner, _ | ⟨outer, stack⟩⟩ <;>
      simp [Reader.closeStruct, hstack, goto]
  constructor
  · rw [henums]
    apply forall_seen_closeStruct hr.seen
    intro inner outer stack hstack houter
    rw [hstack] at hnested
    refine ⟨houter.enums, houter.fields, ?_⟩
    rw [List.forall_mem_append, List.forall_mem_singleton]
    exact ⟨houter.children, hnested.1⟩
  · rcases hstack : r.stack with _ | ⟨inner, _ | ⟨outer, stack⟩⟩ <;>
      simp [Reader.closeStruct, hstack, goto, Position.types]
  · rw [Reader.closeStruct]
    rcases hstack : r.stack with _ | ⟨inner, _ | ⟨outer, stack⟩⟩
    · exact hnested
    · trivial
    · rw [hstack] at hnested
      exact hnested.tail.replace rfl
  · rw [Reader.closeStruct]
    rcases hstack : r.stack with _ | ⟨inner, _ | ⟨outer, stack⟩⟩
    · exact hr.top
    · rw [hstack] at hnested
      rw [List.forall_mem_append, List.forall_mem_singleton]
      exact ⟨hr.top, hnested⟩
    · exact hr.top

/-- What goes into the innermost open struct leaves the path of open structs as it is. -/
theorem modifyTop (hr : r.Registers) {change : Struct → Struct} {position : Position}
    {known : List Enumeration} (more : r.enums ⊆ known)
    (top : ∀ st, st.Registered r.enums → (change st).Registered known)
    (children : ∀ st, (change st).children = st.children)
    (same : ∀ st, (change st).scope = st.scope)
    (types : ∀ e, FieldType.enumeration e ∈ position.types → e ∈ known) :
    Registers (({ r with enums := known }.modifyTop change).goto position) := by
  have hseen := forall_seen_modifyTop (r := { r with enums := known }) hr.seen
    (fun st hst => hst.mono more) top children
  have hnested := hr.nested
  rw [Reader.modifyTop] at hseen ⊢
  cases hstack : r.stack with
  | nil =>
      rw [hstack] at hseen
      exact ⟨hseen, types, trivial, hr.top⟩
  | cons first stack =>
      rw [hstack] at hseen hnested
      exact ⟨hseen, types, hnested.replace (same first), hr.top⟩

/-- An enumeration is registered when it goes into the innermost open struct. -/
theorem addEnum (hr : r.Registers) (e : Enumeration) :
    Registers (({ r with enums := r.enums ++ [e] }.modifyTop fun s =>
      { s with enums := s.enums ++ [e] }).goto .body) := by
  have hmore : r.enums ⊆ r.enums ++ [e] := List.subset_append_left _ _
  apply hr.modifyTop hmore
  · intro st hst
    have hall := hst.mono hmore
    refine ⟨?_, hall.fields, hall.children⟩
    exact List.append_subset.mpr ⟨hall.enums, List.subset_append_right _ _⟩
  · exact fun _ => rfl
  · exact fun _ => rfl
  · simp [Position.types]

theorem addField (hr : r.Registers) {f : Field} {position : Position} (known : r.Knows f.type)
    (types : ∀ type ∈ position.types, r.Knows type) :
    Registers ((r.addField f).goto position) := by
  refine hr.modifyTop (List.Subset.refl _) ?_ (fun _ => rfl) (fun _ => rfl)
    fun e he => hr.mem_of_knows (types _ he)
  intro st hst
  refine ⟨hst.enums, ?_, hst.children⟩
  rw [List.forall_mem_append, List.forall_mem_singleton]
  exact ⟨hst.fields, fun e he => hr.mem_of_knows (he ▸ known)⟩

/-- One token keeps everything registered. -/
theorem change (hr : r.Registers) (h : Change r r') : r'.Registers := by
  cases h with
  | goto known outside =>
      exact ⟨hr.seen, fun e he => hr.mem_of_knows (known _ he), hr.nested, hr.top⟩
  | openStruct fresh types inside => exact hr.openStruct types
  | closeStruct => exact hr.closeStruct
  | addEnum e => exact hr.addEnum e
  | addField known types inside => exact hr.addField known types

end Registers

theorem registers_initial : Registers {} := by
  constructor <;> simp [seen, Struct.walkAll, Position.types, Struct.Nested]

end Reader

end Schematic
