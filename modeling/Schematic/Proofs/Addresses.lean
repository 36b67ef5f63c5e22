import Schematic.Method.Memory
import Schematic.Proofs.Defaulting

/-!
# Changes in memory

A change at an address is seen at that address, inside what is there and around it, and nowhere
else. Changes at one address come to one change.
-/

namespace Schematic

/-! ## Changes in values -/

namespace Value

variable {f g : Value → Option Value} {v x y : Value} {name : Text}
  {members members' : List (Text × Value)}

/-- A member is updated only where it is and where the update is defined on what it holds. -/
theorem exists_of_updateMember (h : updateMember f name members = some members') :
    ∃ x y, members.lookup name = some x ∧ f x = some y := by
  induction members generalizing members' with
  | nil => exact absurd h (by simp [updateMember])
  | cons p members ih =>
      obtain ⟨n, u⟩ := p
      rw [updateMember] at h
      split at h
      · rename_i hname
        obtain ⟨y, hy, -⟩ := Option.map_eq_some_iff.mp h
        exact ⟨u, y, by simp [hname], hy⟩
      · rename_i hname
        obtain ⟨rest, hrest, -⟩ := Option.map_eq_some_iff.mp h
        rw [List.lookup_cons, beq_false_of_ne (Ne.symm hname)]
        exact ih hrest

/-- A member has one place, and every update puts its result there. -/
theorem exists_put_member (hx : members.lookup name = some x) :
    ∃ put : Value → List (Text × Value), put x = members ∧
      ∀ f y, updateMember f name (put y) = (f y).map put := by
  induction members with
  | nil => exact absurd hx (by simp)
  | cons p members ih =>
      obtain ⟨n, u⟩ := p
      by_cases hname : n = name
      · obtain rfl : u = x := by simpa [hname] using hx
        exact ⟨fun y => (n, y) :: members, rfl, fun f y => by simp [updateMember, hname]⟩
      · rw [List.lookup_cons, beq_false_of_ne (Ne.symm hname)] at hx
        obtain ⟨put, rfl, hput⟩ := ih hx
        refine ⟨fun y => (n, u) :: put y, rfl, fun f y => ?_⟩
        rw [updateMember, if_neg hname, hput, Option.map_map]
        rfl

/-- Updating an item reads it, updates it and puts it back at its index. -/
theorem updateItem_eq (f : Value → Option Value) (index : Nat) (items : List Value) :
    updateItem f index items = (items[index]?.bind f).map (items.set index) := by
  induction items generalizing index with
  | nil => simp [updateItem]
  | cons v items ih =>
      cases index with
      | zero => cases h : f v <;> simp [updateItem, h]
      | succ index =>
          rw [updateItem, ih, List.getElem?_cons_succ, Option.map_map]
          rfl

theorem exists_put_item {index : Nat} {items : List Value} (hx : items[index]? = some x) :
    ∃ put : Value → List Value, put x = items ∧
      ∀ f y, updateItem f index (put y) = (f y).map put := by
  obtain ⟨hindex, rfl⟩ := List.getElem?_eq_some_iff.mp hx
  refine ⟨items.set index, List.set_getElem_self hindex, fun f y => ?_⟩
  have hset : (items.set index y).set index = items.set index := by
    funext z
    exact List.set_set y
  rw [updateItem_eq, List.getElem?_set_self hindex, Option.bind_some, hset]

theorem exists_of_find?_member {path : List Step}
    (h : v.find? (.member name :: path) = some x) :
    ∃ members u, v = .record members ∧ members.lookup name = some u ∧ u.find? path = some x := by
  obtain ⟨members, hmembers, h⟩ := Option.bind_eq_some_iff.mp h
  obtain ⟨u, hu, hx⟩ := Option.bind_eq_some_iff.mp h
  cases v with
  | record _ => exact ⟨members, u, congrArg _ (Option.some.inj hmembers), hu, hx⟩
  | _ => exact absurd hmembers (by simp [members?])

theorem exists_of_find?_item {index : Nat} {path : List Step}
    (h : v.find? (.item index :: path) = some x) :
    ∃ items u, v = .array items ∧ items[index]? = some u ∧ u.find? path = some x := by
  obtain ⟨items, hitems, h⟩ := Option.bind_eq_some_iff.mp h
  obtain ⟨u, hu, hx⟩ := Option.bind_eq_some_iff.mp h
  cases v with
  | array _ => exact ⟨items, u, congrArg _ (Option.some.inj hitems), hu, hx⟩
  | _ => exact absurd hitems (by simp [items?])

/-- A path followed by a path finds, behind the first, what the second finds there. -/
theorem find?_append (v : Value) (path path' : List Step) :
    v.find? (path ++ path') = (v.find? path).bind fun w => w.find? path' := by
  induction path generalizing v with
  | nil => rfl
  | cons step path ih => cases step <;> simp [find?, ih, Option.bind_assoc]

/-- Changing at the end of two paths is changing, at the end of the first, along the second. -/
theorem change?_append (path path' : List Step) :
    change? f (path ++ path') = change? (change? f path') path := by
  induction path with
  | nil => rfl
  | cons step path ih =>
      funext v
      cases step <;> simp only [List.cons_append, change?, ih]

/-- A change has something to change. -/
theorem exists_of_change? {path : List Step} {w : Value} (h : v.change? f path = some w) :
    ∃ x y, v.find? path = some x ∧ f x = some y := by
  induction path generalizing v w with
  | nil => exact ⟨v, w, rfl, h⟩
  | cons step path ih =>
      cases step with
      | member name =>
          obtain ⟨members, hmembers, h⟩ := Option.bind_eq_some_iff.mp h
          obtain ⟨members', hupdate, -⟩ := Option.bind_eq_some_iff.mp h
          obtain ⟨u, u', hu, hchange⟩ := exists_of_updateMember hupdate
          obtain ⟨x, y, hx, hy⟩ := ih hchange
          exact ⟨x, y, by simp [find?, hmembers, hu, hx], hy⟩
      | item index =>
          obtain ⟨items, hitems, h⟩ := Option.bind_eq_some_iff.mp h
          obtain ⟨items', hupdate, -⟩ := Option.bind_eq_some_iff.mp h
          rw [updateItem_eq] at hupdate
          obtain ⟨u', hchange, -⟩ := Option.map_eq_some_iff.mp hupdate
          obtain ⟨u, hu, hchange⟩ := Option.bind_eq_some_iff.mp hchange
          obtain ⟨x, y, hx, hy⟩ := ih hchange
          exact ⟨x, y, by simp [find?, hitems, hu, hx], hy⟩

/-- The end of a path is one place, and every change puts its result there. -/
theorem exists_put {path : List Step} (hx : v.find? path = some x) :
    ∃ put : Value → Value, put x = v ∧ ∀ f y, (put y).change? f path = (f y).map put := by
  induction path generalizing v with
  | nil =>
      obtain rfl := Option.some.inj hx
      exact ⟨id, rfl, fun f y => by simp [change?]⟩
  | cons step path ih =>
      cases step with
      | member name =>
          obtain ⟨members, u, rfl, hu, hx⟩ := exists_of_find?_member hx
          obtain ⟨inner, rfl, hinner⟩ := ih hx
          obtain ⟨outer, rfl, houter⟩ := exists_put_member hu
          refine ⟨fun y => .record (outer (inner y)), rfl, fun f y => ?_⟩
          cases hy : f y <;> simp [change?, members?, houter, hinner, hy]
      | item index =>
          obtain ⟨items, u, rfl, hu, hx⟩ := exists_of_find?_item hx
          obtain ⟨inner, rfl, hinner⟩ := ih hx
          obtain ⟨outer, rfl, houter⟩ := exists_put_item hu
          refine ⟨fun y => .array (outer (inner y)), rfl, fun f y => ?_⟩
          cases hy : f y <;> simp [change?, items?, houter, hinner, hy]

theorem change?_congr {path : List Step} (hx : v.find? path = some x) (h : f x = g x) :
    v.change? f path = v.change? g path := by
  obtain ⟨put, rfl, hput⟩ := exists_put hx
  rw [hput, hput, h]

theorem change?_self {path : List Step} (hx : v.find? path = some x) (h : f x = some x) :
    v.change? f path = some v := by
  obtain ⟨put, rfl, hput⟩ := exists_put hx
  rw [hput, h, Option.map_some]

/-- Two changes in one place, one after the other, are one change there. -/
theorem change?_bind (path : List Step) (v : Value) :
    v.change? (fun u => (f u).bind g) path = (v.change? f path).bind (change? g path) := by
  cases hx : v.find? path with
  | none =>
      have hnone (f : Value → Option Value) : v.change? f path = none := by
        rw [Option.eq_none_iff_forall_ne_some]
        intro w h
        obtain ⟨x, y, hfound, -⟩ := exists_of_change? h
        exact absurd (hx.symm.trans hfound) (by simp)
      rw [hnone, hnone, Option.bind_none]
  | some x =>
      obtain ⟨put, rfl, hput⟩ := exists_put hx
      rw [hput, hput, Option.bind_map, Option.map_bind]
      simp only [Function.comp_def, hput]

/-- A change is seen at the end of its path, and not where neither path leads along the other. -/
theorem exists_change? {path : List Step} (hx : v.find? path = some x) (hy : f x = some y) :
    ∃ w, v.change? f path = some w ∧ w.find? path = some y ∧
      ∀ other, ¬path <+: other → ¬other <+: path → w.find? other = v.find? other := by
  induction path generalizing v with
  | nil =>
      obtain rfl := Option.some.inj hx
      exact ⟨y, hy, rfl, fun other h _ => absurd List.nil_prefix h⟩
  | cons step path ih =>
      -- A path that is apart from this one starts with another step, or goes on apart.
      cases step with
      | member name =>
          obtain ⟨members, u, rfl, hu, hx⟩ := exists_of_find?_member hx
          obtain ⟨u', hu', hhere, hothers⟩ := ih hx
          obtain ⟨members', hupdate, hchanged⟩ := exists_updateMember hu hu'
          refine ⟨.record members', by simp [change?, members?, hupdate], ?_, ?_⟩
          · rw [find?_member hchanged.here, hhere]
          · intro other hnot hnot'
            cases other with
            | nil => exact absurd List.nil_prefix hnot'
            | cons step other =>
                cases step with
                | item index => rfl
                | member name' =>
                    by_cases hname : name' = name
                    · subst hname
                      rw [find?_member hchanged.here, find?_member hu]
                      rw [List.cons_prefix_cons, and_iff_right rfl] at hnot hnot'
                      exact hothers other hnot hnot'
                    · simp [find?, members?, hchanged.elsewhere name' hname]
      | item index =>
          obtain ⟨items, u, rfl, hu, hx⟩ := exists_of_find?_item hx
          obtain ⟨u', hu', hhere, hothers⟩ := ih hx
          have hindex := (List.getElem?_eq_some_iff.mp hu).1
          have hitem : (items.set index u')[index]? = some u' := by simp [hindex]
          refine ⟨.array (items.set index u'), ?_, ?_, ?_⟩
          · simp [change?, items?, updateItem_eq, hu, hu']
          · rw [find?_item hitem, hhere]
          · intro other hnot hnot'
            cases other with
            | nil => exact absurd List.nil_prefix hnot'
            | cons step other =>
                cases step with
                | member name => rfl
                | item index' =>
                    by_cases hsame : index' = index
                    · subst hsame
                      rw [find?_item hitem, find?_item hu]
                      rw [List.cons_prefix_cons, and_iff_right rfl] at hnot hnot'
                      exact hothers other hnot hnot'
                    · simp [find?, items?, List.getElem?_set_ne (Ne.symm hsame)]

end Value

/-! ## Changes at addresses -/

/-- Addresses of which neither is inside the other. -/
def Address.Apart (a b : Address) : Prop :=
  a.object = b.object → ¬a.path <+: b.path ∧ ¬b.path <+: a.path

namespace Memory

variable {f g : Value → Option Value} {m m' m'' : Memory} {a b : Address} {v w x y : Value}

/-- Inside of what is at an address a path finds what it finds in that value. -/
theorem find?_into (m : Memory) (a : Address) (path : List Value.Step) :
    m.find? (a.into path) = (m.find? a).bind fun v => v.find? path := by
  simp only [find?, Address.into, Value.find?_append, Option.bind_eq_bind, Option.bind_assoc]

theorem change?_into (a : Address) (path : List Value.Step) :
    change? f (a.into path) = change? (Value.change? f path) a := by
  funext m
  simp only [change?, Address.into, Value.change?_append]

theorem change?_bind (m : Memory) (a : Address) :
    m.change? (fun u => (f u).bind g) a = (m.change? f a).bind (change? g a) := by
  cases hobject : m.objects[a.object]? with
  | none => simp [change?, hobject]
  | some o =>
      obtain ⟨hindex, rfl⟩ := List.getElem?_eq_some_iff.mp hobject
      cases ho : m.objects[a.object].change? f a.path <;>
        simp [change?, Value.change?_bind, ho, hindex]

/-- Another value is put in the place of the one at an address. -/
structure Swapped (m : Memory) (a : Address) (v : Value) (m' : Memory) (w : Value) : Prop where
  before : m.find? a = some v
  change : m.change? (fun _ => some w) a = some m'

theorem change?_eq_put (hv : m.find? a = some v) (hw : f v = some w) :
    m.change? f a = m.change? (fun _ => some w) a := by
  obtain ⟨o, ho, hv⟩ := Option.bind_eq_some_iff.mp hv
  simp only [change?, ho, Option.bind_eq_bind, Option.bind_some,
    Value.change?_congr (g := fun _ => some w) hv hw]

/-- A change at an address is a swap of the value found there for its image. -/
theorem exists_swapped (hv : m.find? a = some v) (hw : f v = some w) :
    ∃ m', m.change? f a = some m' ∧ m.Swapped a v m' w := by
  rw [change?_eq_put hv hw]
  obtain ⟨o, ho, hfound⟩ := Option.bind_eq_some_iff.mp hv
  obtain ⟨o', ho', -⟩ := Value.exists_change? (f := fun _ => some w) hfound rfl
  have hchange : m.change? (fun _ => some w) a =
      some { m with objects := m.objects.set a.object o' } := by
    simp [change?, ho, ho']
  exact ⟨_, hchange, hv, hchange⟩

/-- What is seen of a value that was put into memory. -/
theorem Swapped.spec (h : m.Swapped a v m' w) :
    m'.addresses = m.addresses ∧ m'.find? a = some w ∧
      ∀ b, a.Apart b → m'.find? b = m.find? b := by
  obtain ⟨o, ho, hv⟩ := Option.bind_eq_some_iff.mp h.before
  obtain ⟨o', ho', hhere, hothers⟩ := Value.exists_change? (f := fun _ => some w) hv rfl
  have hindex := (List.getElem?_eq_some_iff.mp ho).1
  have hchange := h.change
  simp only [change?, ho, ho', Option.bind_eq_bind, Option.bind_some] at hchange
  obtain rfl := Option.some.inj hchange
  refine ⟨rfl, by simp [find?, hindex, hhere], fun b hapart => ?_⟩
  by_cases hsame : a.object = b.object
  · obtain ⟨hnot, hnot'⟩ := hapart hsame
    rw [find?, find?, ← hsame, ho]
    simp [hindex, hothers b.path hnot hnot']
  · simp [find?, List.getElem?_set_ne hsame]

theorem Swapped.refl (h : m.find? a = some v) : m.Swapped a v m v := by
  obtain ⟨o, ho, hv⟩ := Option.bind_eq_some_iff.mp h
  obtain ⟨hindex, rfl⟩ := List.getElem?_eq_some_iff.mp ho
  exact ⟨h, by simp [change?, hindex, Value.change?_self hv]⟩

/-- Swaps at one address compose: what stands between them is forgotten. -/
theorem Swapped.trans (h : m.Swapped a v m' w) (h' : m'.Swapped a w m'' x) :
    m.Swapped a v m'' x := by
  refine ⟨h.before, ?_⟩
  have hbind := change?_bind (f := fun _ => some w) (g := fun _ => some x) m a
  rw [h.change] at hbind
  exact hbind.trans h'.change

/-- A value that is put inside another one makes another one of that. -/
theorem Swapped.outer {path : List Value.Step} (h : m.Swapped (a.into path) x m' y)
    (hv : m.find? a = some v) (hw : v.change? (fun _ => some y) path = some w) :
    m.Swapped a v m' w := by
  refine ⟨hv, ?_⟩
  rw [← change?_eq_put hv hw, ← change?_into]
  exact h.change

/-- Swapping a value for itself leaves the memory as it is. -/
theorem Swapped.eq_of_same (h : m.Swapped a v m' v) : m' = m :=
  Option.some.inj (h.change.symm.trans (Swapped.refl h.before).change)

end Memory

end Schematic
