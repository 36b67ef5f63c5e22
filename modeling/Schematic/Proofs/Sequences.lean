import Mathlib.Data.List.Forall2
import Mathlib.Data.List.Nodup

/-!
# Sequences

Computations that can fail, one after the other, and lists of items with keys. A computation that
goes through a list succeeds just if it succeeds on every item, and fails where the first item does;
in a list in which no two items have one key, a key leads to one item.
-/

namespace Schematic

/-! ## Computations that can fail -/

section Bind

variable {ε α β : Type} {x : Except ε α} {f : α → Except ε β}

theorem bind_eq_ok {b : β} : x >>= f = .ok b ↔ ∃ a, x = .ok a ∧ f a = .ok b := by
  cases x with
  | error e => simp [bind, Except.bind]
  | ok a => simp [bind, Except.bind]

theorem bind_eq_error {e : ε} :
    x >>= f = .error e ↔ x = .error e ∨ ∃ a, x = .ok a ∧ f a = .error e := by
  cases x with
  | error e' => simp [bind, Except.bind]
  | ok a => simp [bind, Except.bind]

theorem seq_eq_ok {x : Except ε Unit} {y : Except ε α} {a : α} :
    (x >>= fun _ => y) = .ok a ↔ x = .ok () ∧ y = .ok a := by
  rw [bind_eq_ok]
  exact ⟨fun ⟨(), h⟩ => h, fun h => ⟨(), h⟩⟩

theorem mapError_eq_ok {ε' : Type} {f : ε → ε'} {a : α} : x.mapError f = .ok a ↔ x = .ok a := by
  cases x <;> simp [Except.mapError]

/-- A result of which something was computed. -/
theorem exists_ok_of_map {g : α → β} {b : β} (h : x.toOption.map g = some b) :
    ∃ a, x = .ok a ∧ g a = b := by
  cases x with
  | error e => exact absurd h (by simp [Except.toOption])
  | ok a => exact ⟨a, rfl, Option.some.inj h⟩

end Bind

/-! ## Computations along a list -/

section Along

variable {ε α β : Type} {l : List α}

theorem forM_eq_ok {f : α → Except ε Unit} : l.forM f = .ok () ↔ ∀ a ∈ l, f a = .ok () := by
  induction l with
  | nil => simp [pure, Except.pure]
  | cons a l ih =>
      change (f a >>= fun _ => l.forM f) = .ok () ↔ _
      rw [seq_eq_ok, List.forall_mem_cons, ih]

/-- A check that goes through a list fails at the first item that does not pass. -/
theorem forM_eq_error_iff {f : α → Except ε Unit} {e : ε} :
    l.forM f = .error e ↔
      ∃ before a after, l = before ++ a :: after ∧ (∀ b ∈ before, f b = .ok ()) ∧
        f a = .error e := by
  constructor
  · intro h
    induction l with
    | nil => exact absurd h (by simp [pure, Except.pure])
    | cons a l ih =>
        rcases bind_eq_error.mp h with h | ⟨_, ha, h⟩
        · exact ⟨[], a, l, rfl, by simp, h⟩
        · obtain ⟨before, a', after, rfl, hbefore, he⟩ := ih h
          exact ⟨a :: before, a', after, rfl, List.forall_mem_cons.mpr ⟨ha, hbefore⟩, he⟩
  · rintro ⟨before, a, after, rfl, hbefore, he⟩
    induction before with
    | nil => exact bind_eq_error.mpr (.inl he)
    | cons b before ih =>
        rw [List.forall_mem_cons] at hbefore
        exact bind_eq_error.mpr (.inr ⟨(), hbefore.1, ih hbefore.2⟩)

theorem exists_of_forM_error {f : α → Except ε Unit} {e : ε} (h : l.forM f = .error e) :
    ∃ a ∈ l, f a = .error e := by
  obtain ⟨before, a, after, rfl, -, he⟩ := forM_eq_error_iff.mp h
  exact ⟨a, by simp, he⟩

variable {f : α → Except ε β} {ys : List β}

/-- A list is computed item by item. -/
theorem mapM_eq_ok_iff : l.mapM f = .ok ys ↔ List.Forall₂ (fun x y => f x = .ok y) l ys := by
  induction l generalizing ys with
  | nil =>
      rw [List.mapM_nil, List.forall₂_nil_left_iff]
      exact ⟨fun h => (Except.ok.inj h).symm, fun h => congrArg Except.ok h.symm⟩
  | cons x l ih =>
      rw [List.mapM_cons, List.forall₂_cons_left_iff, bind_eq_ok]
      constructor
      · rintro ⟨y, hy, h⟩
        obtain ⟨rest, hrest, h⟩ := bind_eq_ok.mp h
        exact ⟨y, rest, hy, ih.mp hrest, (Except.ok.inj h).symm⟩
      · rintro ⟨y, rest, hy, hrest, rfl⟩
        exact ⟨y, hy, bind_eq_ok.mpr ⟨rest, ih.mpr hrest, rfl⟩⟩

theorem exists_of_mapM_error {e : ε} (h : l.mapM f = .error e) : ∃ x ∈ l, f x = .error e := by
  induction l with
  | nil => exact absurd h (by simp [pure, Except.pure])
  | cons x l ih =>
      rw [List.mapM_cons] at h
      rcases bind_eq_error.mp h with h | ⟨y, -, h⟩
      · exact ⟨x, List.mem_cons_self, h⟩
      rcases bind_eq_error.mp h with h | ⟨ys, -, h⟩
      · obtain ⟨x', hx', h⟩ := ih h
        exact ⟨x', List.mem_cons_of_mem x hx', h⟩
      · exact absurd h (by simp [pure, Except.pure])

theorem exists_mapM (h : ∀ x ∈ l, ∃ y, f x = .ok y) : ∃ ys, l.mapM f = .ok ys := by
  induction l with
  | nil => exact ⟨[], rfl⟩
  | cons x l ih =>
      obtain ⟨⟨first, hfirst⟩, hrest⟩ := List.forall_mem_cons.mp h
      obtain ⟨rest, hrest⟩ := ih hrest
      exact ⟨first :: rest, by rw [List.mapM_cons, hfirst, hrest]; rfl⟩

theorem mapM_congr {g : α → Except ε β} (h : ∀ x ∈ l, f x = g x) : l.mapM f = l.mapM g := by
  induction l with
  | nil => rfl
  | cons x l ih =>
      obtain ⟨hx, hl⟩ := List.forall_mem_cons.mp h
      rw [List.mapM_cons, List.mapM_cons, hx, ih hl]

/-- What succeeds with one step in place of another succeeds alike, if each step does. -/
theorem foldlM_mono {step step' : β → α → Option β}
    (h : ∀ a ∈ l, ∀ b b', step b a = some b' → step' b a = some b') {b b' : β}
    (hrun : l.foldlM step b = some b') : l.foldlM step' b = some b' := by
  induction l generalizing b with
  | nil => exact hrun
  | cons a l ih =>
      rw [List.foldlM_cons] at hrun ⊢
      obtain ⟨mid, hfirst, hrest⟩ := Option.bind_eq_some_iff.mp hrun
      obtain ⟨ha, hl⟩ := List.forall_mem_cons.mp h
      exact Option.bind_eq_some_iff.mpr ⟨mid, ha b mid hfirst, ih hl hrest⟩

end Along

/-! ## Lists side by side -/

section Beside

variable {α β γ : Type}

theorem exists_of_forall₂_right {related : α → β → Prop} {as : List α} {bs : List β}
    (h : List.Forall₂ related as bs) {b : β} (hb : b ∈ bs) : ∃ a ∈ as, related a b := by
  induction h with
  | nil => exact absurd hb List.not_mem_nil
  | cons hfirst _ ih =>
      rcases List.mem_cons.mp hb with rfl | hb
      · exact ⟨_, List.mem_cons_self, hfirst⟩
      · obtain ⟨a, ha, hrelated⟩ := ih hb
        exact ⟨a, List.mem_cons_of_mem _ ha, hrelated⟩

/-- What is told by one view of the items of a list is told by the views of all. -/
theorem map_eq_of_map_eq {f : α → β} {g : α → γ} {xs ys : List α} (h : xs.map f = ys.map f)
    (told : ∀ x ∈ xs, ∀ y, f x = f y → g x = g y) : xs.map g = ys.map g := by
  induction xs generalizing ys with
  | nil =>
      rw [List.map_nil, eq_comm, List.map_eq_nil_iff] at h
      rw [h]
  | cons x xs ih =>
      obtain ⟨y, ys, rfl, hxy, h⟩ := List.map_eq_cons_iff.mp h.symm
      rw [List.forall_mem_cons] at told
      rw [List.map_cons, List.map_cons, ih h.symm told.2, told.1 y hxy.symm]

/-- Items with a mark in front of what does not start with the mark. -/
theorem eq_of_marked {mark : α → Prop} {xs ys rest rest' : List α}
    (hxs : ∀ x ∈ xs, mark x) (hys : ∀ y ∈ ys, mark y) (hrest : ∀ x ∈ rest.head?, ¬mark x)
    (hrest' : ∀ x ∈ rest'.head?, ¬mark x) (h : xs ++ rest = ys ++ rest') :
    xs = ys ∧ rest = rest' := by
  induction xs generalizing ys with
  | nil =>
      cases ys with
      | nil => exact ⟨rfl, h⟩
      | cons y ys =>
          rw [List.nil_append] at h
          exact absurd (hys y List.mem_cons_self) (hrest y (by simp [h]))
  | cons x xs ih =>
      rw [List.forall_mem_cons] at hxs
      cases ys with
      | nil =>
          rw [List.nil_append] at h
          exact absurd hxs.1 (hrest' x (by simp [← h]))
      | cons y ys =>
          rw [List.forall_mem_cons] at hys
          simp only [List.cons_append, List.cons.injEq] at h
          obtain ⟨hxs', hrest⟩ := ih hxs.2 hys.2 h.2
          exact ⟨by rw [h.1, hxs'], hrest⟩

end Beside

/-! ## Items with keys -/

section Keys

variable {α β κ : Type}

/-- Of items with different keys only the one with a given key counts. -/
theorem flatMap_ite_key [DecidableEq κ] {key : α → κ} {l : List α} (hnodup : (l.map key).Nodup)
    {a : α} (ha : a ∈ l) (f : α → List β) :
    (l.flatMap fun x => if key x = key a then f x else []) = f a := by
  induction l with
  | nil => exact absurd ha List.not_mem_nil
  | cons x l ih =>
      rw [List.map_cons, List.nodup_cons] at hnodup
      rw [List.flatMap_cons]
      rcases List.mem_cons.mp ha with rfl | ha
      · have hrest : (l.flatMap fun x => if key x = key a then f x else []) = [] := by
          rw [List.flatMap_eq_nil_iff]
          intro y hy
          have hne : key y ≠ key a := by
            intro heq
            exact hnodup.1 (heq ▸ List.mem_map_of_mem hy)
          exact if_neg hne
        rw [if_pos rfl, hrest, List.append_nil]
      · have hne : key x ≠ key a := fun heq => hnodup.1 (heq ▸ List.mem_map_of_mem ha)
        rw [if_neg hne, List.nil_append, ih hnodup.2 ha]

variable [BEq κ] [LawfulBEq κ] {l : List (κ × β)}

/-- In a list of pairs with different keys every pair is found by its key. -/
theorem lookup_of_mem {p : κ × β} (nodup : (l.map Prod.fst).Nodup) (h : p ∈ l) :
    l.lookup p.1 = some p.2 := by
  obtain ⟨before, after, rfl⟩ := List.append_of_mem h
  refine List.lookup_eq_some_iff.mpr ⟨before, after, rfl, fun other hother => ?_⟩
  rw [List.map_append, List.map_cons, List.nodup_middle, List.nodup_cons] at nodup
  have hne : p.1 ≠ other.1 := by
    intro heq
    exact nodup.1 (List.mem_append_left _ (List.mem_map.mpr ⟨other, hother, heq.symm⟩))
  simpa using hne

theorem exists_lookup_of_mem {key : κ} (h : key ∈ l.map Prod.fst) :
    ∃ value, l.lookup key = some value := by
  cases hlookup : l.lookup key with
  | some value => exact ⟨value, rfl⟩
  | none =>
      obtain ⟨p, hp, rfl⟩ := List.mem_map.mp h
      exact absurd (List.lookup_eq_none_iff.mp hlookup p hp) (by simp)

/-- Lists of pairs with the same keys, none of them twice, are equal if each key leads to the same
in both. -/
theorem eq_of_lookup_eq {l' : List (κ × β)} (hkeys : l.map Prod.fst = l'.map Prod.fst)
    (hnodup : (l.map Prod.fst).Nodup) (h : ∀ key ∈ l.map Prod.fst, l.lookup key = l'.lookup key) :
    l = l' := by
  apply List.ext_getElem (by simpa using congrArg List.length hkeys)
  intro i hi hi'
  have hkey : l[i].1 = l'[i].1 := by
    have hith := congrArg (·[i]?) hkeys
    simpa [hi, hi'] using hith
  have hvalue : some l[i].2 = some l'[i].2 := by
    calc some l[i].2
        = l.lookup l[i].1 := (lookup_of_mem hnodup (List.getElem_mem hi)).symm
      _ = l'.lookup l[i].1 := h _ (List.mem_map_of_mem (List.getElem_mem hi))
      _ = l'.lookup l'[i].1 := by rw [hkey]
      _ = some l'[i].2 := lookup_of_mem (hkeys ▸ hnodup) (List.getElem_mem hi')
  exact Prod.ext hkey (Option.some.inj hvalue)

end Keys

end Schematic
