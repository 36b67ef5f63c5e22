import Mathlib.Data.Finset.Card
import Mathlib.Data.Finset.Dedup
import Mathlib.Logic.Relation
import Schematic.Proofs.Linked

/-!
# Structs by value

A struct holds its base and the structs of its fields by value, those of dynamic arrays excepted.
The search for a struct inside itself passes over what it has visited and only ever compares with
the struct it started from; that is enough, because what it has visited in the end is closed under
holding. So the checks refuse a schema exactly if some struct holds itself.
-/

namespace Schematic.Schema

open Relation

/-- A struct holds another one by value, under the name of its parent or of a field. -/
inductive Holds (s : Schema) : Qualified → Text → Qualified → Prop where
  | base {st : Struct} {q : Qualified} {parent : Text} (declared : st ∈ s.walk)
      (base : st.base = some q) (named : st.parent = some parent) :
      Holds s st.qualified parent q
  | field {st : Struct} {f : Field} {q : Qualified} (declared : st ∈ s.walk)
      (field : f ∈ st.fields) (type : f.type = .struct q) (still : f.isDynamic = false) :
      Holds s st.qualified f.name q

/-- A struct holds another one by value. -/
def ByValue (s : Schema) (holder held : Qualified) : Prop :=
  ∃ name, s.Holds holder name held

/-- No struct holds itself, whether directly or through others. -/
def Acyclic (s : Schema) : Prop :=
  ∀ q, ¬TransGen s.ByValue q q

section Parts

variable {s : Schema}

theorem ByValue.holder_mem {holder held : Qualified} (h : s.ByValue holder held) :
    ∃ st ∈ s.walk, st.qualified = holder := by
  obtain ⟨name, h⟩ := h
  cases h with
  | base declared _ _ => exact ⟨_, declared, rfl⟩
  | field declared _ _ _ => exact ⟨_, declared, rfl⟩

theorem ByValue.held_mem (hs : s.Resolved) {holder held : Qualified}
    (h : s.ByValue holder held) : held ∈ s.names := by
  obtain ⟨name, h⟩ := h
  cases h with
  | base declared base _ => exact hs.base _ declared _ base
  | field declared field type _ => exact hs.field _ declared _ field _ type

theorem Resolved.byValue_base (hs : s.Resolved) {st : Struct} (hst : st ∈ s.walk) {q : Qualified}
    (hbase : st.base = some q) : s.ByValue st.qualified q := by
  obtain ⟨parent, hparent⟩ := Option.isSome_iff_exists.mp (hs.parent st hst (by simp [hbase]))
  exact ⟨parent, Holds.base hst hbase hparent⟩

/-- The parts of a struct are what it holds. -/
theorem holds_of_mem_parts (hs : s.Resolved) {st : Struct} (hst : st ∈ s.walk) {part : Part}
    (h : part ∈ parts st) : s.Holds st.qualified part.name part.target := by
  rcases List.mem_append.mp h with h | h
  · obtain ⟨q, hq, rfl⟩ : ∃ q, st.base = some q ∧ ⟨q, st.parent.getD [], st.line⟩ = part := by
      simpa using h
    obtain ⟨parent, hparent⟩ := Option.isSome_iff_exists.mp (hs.parent st hst (by simp [hq]))
    rw [hparent]
    exact Holds.base hst hq hparent
  · obtain ⟨f, hf, hpart⟩ := List.mem_filterMap.mp h
    unfold partOf? at hpart
    split at hpart
    · rename_i q htype
      split at hpart
      · exact absurd hpart (by simp)
      · rename_i hstill
        obtain rfl := Option.some.inj hpart
        exact Holds.field hst hf htype (Bool.eq_false_iff.mpr hstill)
    · exact absurd hpart (by simp)

theorem exists_part_of_holds (hs : s.Resolved) {st : Struct} (hst : st ∈ s.walk) {name : Text}
    {q : Qualified} (h : s.Holds st.qualified name q) :
    ∃ part ∈ parts st, part.target = q := by
  generalize hholder : st.qualified = holder at h
  cases h with
  | @base st' q parent declared base named =>
      obtain rfl := List.inj_on_of_nodup_map hs.distinct hst declared hholder
      exact ⟨⟨q, st.parent.getD [], st.line⟩, by simp [parts, base], rfl⟩
  | @field st' f q declared field type still =>
      obtain rfl := List.inj_on_of_nodup_map hs.distinct hst declared hholder
      refine ⟨⟨q, f.name, f.line⟩, List.mem_append_right _ ?_, rfl⟩
      exact List.mem_filterMap.mpr ⟨f, field, by simp [partOf?, type, still]⟩

end Parts

/-! ## What the search finds -/

section Search

variable {s : Schema} {root : Qualified}

/-- The search among parts fails at a part that is the root, or inside the struct of a part. -/
theorem searchParts_error {search : List Qualified → Struct → Except SchemaError (List Qualified)}
    {visited : List Qualified} {ps : List Part} {e : SchemaError}
    (h : searchParts s root search visited ps = .error e) :
    ∃ part ∈ ps,
      (part.target = root ∧ e = .containsItself root.text part.name part.line) ∨
        ∃ st visited, s.struct? part.target = some st ∧ search visited st = .error e := by
  induction ps generalizing visited with
  | nil => exact absurd h (by simp [searchParts])
  | cons part ps ih =>
      have hrest : ∀ {visited}, searchParts s root search visited ps = .error e →
          ∃ part' ∈ part :: ps,
            (part'.target = root ∧ e = .containsItself root.text part'.name part'.line) ∨
              ∃ st visited, s.struct? part'.target = some st ∧ search visited st = .error e := by
        intro visited h
        obtain ⟨part', hmem, hfound⟩ := ih h
        exact ⟨part', List.mem_cons_of_mem _ hmem, hfound⟩
      rw [searchParts] at h
      split at h
      · rename_i htarget
        exact ⟨part, by simp, Or.inl ⟨htarget, (Except.error.inj h).symm⟩⟩
      · cases hfind : s.struct? part.target with
        | none =>
            rw [hfind] at h
            exact hrest h
        | some st =>
            rw [hfind] at h
            cases hsearch : search visited st with
            | error e' =>
                simp only [hsearch, bind, Except.bind] at h
                obtain rfl := Except.error.inj h
                exact ⟨part, by simp, Or.inr ⟨st, visited, hfind, hsearch⟩⟩
            | ok visited' =>
                simp only [hsearch, bind, Except.bind] at h
                exact hrest h

/-- When the search fails, something that the struct holds is held by itself under the name that
is reported. -/
theorem searchStruct_error (hs : s.Resolved) {depth : Nat} {visited : List Qualified}
    {st : Struct} {e : SchemaError} (hst : st ∈ s.walk)
    (h : searchStruct s root depth visited st = .error e) :
    ∃ holder name line, e = .containsItself root.text name line ∧
      ReflTransGen s.ByValue st.qualified holder ∧ s.Holds holder name root := by
  induction depth generalizing visited st with
  | zero => exact absurd h (by simp [searchStruct])
  | succ depth ih =>
      rw [searchStruct] at h
      split at h
      · exact absurd h (by simp)
      · obtain ⟨part, hpart, ⟨htarget, rfl⟩ | ⟨st', visited', hfind, hsearch⟩⟩ :=
          searchParts_error h
        · refine ⟨st.qualified, part.name, part.line, rfl, ReflTransGen.refl, ?_⟩
          exact htarget ▸ holds_of_mem_parts hs hst hpart
        · obtain ⟨hst', hname⟩ := mem_walk_of_struct? hfind
          obtain ⟨holder, name, line, he, hpath, hholds⟩ := ih hst' hsearch
          have hedge : s.ByValue st.qualified st'.qualified :=
            ⟨part.name, hname ▸ holds_of_mem_parts hs hst hpart⟩
          exact ⟨holder, name, line, he, hpath.head hedge, hholds⟩

/-- What a search adds to the structs visited: everything held by a struct that was added is
visited too, and none of it is the root. -/
structure Visits (s : Schema) (root : Qualified) (visited visited' : List Qualified) : Prop where
  subset : visited ⊆ visited'
  nodup : visited'.Nodup
  known : visited' ⊆ s.names
  closed : ∀ x ∈ visited', x ∈ visited ∨ ∀ y, s.ByValue x y → y ≠ root ∧ y ∈ visited'

namespace Visits

variable {visited visited' visited'' : List Qualified}

theorem refl (nodup : visited.Nodup) (known : visited ⊆ s.names) :
    Visits s root visited visited :=
  ⟨List.Subset.refl _, nodup, known, fun _ hx => Or.inl hx⟩

theorem trans (h : Visits s root visited visited') (h' : Visits s root visited' visited'') :
    Visits s root visited visited'' := by
  refine ⟨List.Subset.trans h.subset h'.subset, h'.nodup, h'.known, ?_⟩
  intro x hx
  rcases h'.closed x hx with hx | hx
  · rcases h.closed x hx with hx | hx
    · exact Or.inl hx
    · exact Or.inr fun y hy => ⟨(hx y hy).1, h'.subset (hx y hy).2⟩
  · exact Or.inr hx

theorem length_le (h : Visits s root visited visited') (nodup : visited.Nodup) :
    visited.length ≤ visited'.length :=
  (List.subperm_of_subset nodup h.subset).length_le

end Visits

/-- A search that succeeds from the structs of `visited` on, given that `depth` levels are enough
for those not visited. -/
def Succeeds (s : Schema) (root : Qualified) (depth : Nat)
    (search : List Qualified → Struct → Except SchemaError (List Qualified)) : Prop :=
  ∀ {visited visited' : List Qualified} {st : Struct}, st ∈ s.walk → visited.Nodup →
    visited ⊆ s.names → s.names.length < depth + visited.length →
      search visited st = .ok visited' →
        Visits s root visited visited' ∧ st.qualified ∈ visited'

theorem searchParts_ok {depth : Nat}
    {search : List Qualified → Struct → Except SchemaError (List Qualified)}
    (hsearch : Succeeds s root depth search) {visited visited' : List Qualified} {ps : List Part}
    (hps : ∀ part ∈ ps, ∃ st, s.struct? part.target = some st) (nodup : visited.Nodup)
    (known : visited ⊆ s.names) (hdepth : s.names.length < depth + visited.length)
    (h : searchParts s root search visited ps = .ok visited') :
    Visits s root visited visited' ∧ ∀ part ∈ ps, part.target ≠ root ∧ part.target ∈ visited' := by
  induction ps generalizing visited with
  | nil =>
      obtain rfl := Except.ok.inj h
      exact ⟨Visits.refl nodup known, by simp⟩
  | cons part ps ih =>
      rw [searchParts] at h
      split at h
      · exact absurd h (by simp)
      · rename_i hroot
        obtain ⟨st, hfind⟩ := hps part (by simp)
        obtain ⟨hst, hname⟩ := mem_walk_of_struct? hfind
        rw [hfind] at h
        obtain ⟨visited₁, hfirst, h⟩ := bind_eq_ok.mp h
        obtain ⟨hvisits, hmem⟩ := hsearch hst nodup known hdepth hfirst
        have hlen := hvisits.length_le nodup
        obtain ⟨hrest, hparts⟩ := ih (fun p hp => hps p (by simp [hp])) hvisits.nodup
          hvisits.known (by omega) h
        refine ⟨hvisits.trans hrest, ?_⟩
        intro p hp
        rcases List.mem_cons.mp hp with rfl | hp
        · exact ⟨hroot, hrest.subset (hname ▸ hmem)⟩
        · exact hparts p hp

/-- A search that finds nothing has visited everything that the struct holds. The visited structs
are different ones of the schema, so the depth does not run out. -/
theorem searchStruct_ok (hs : s.Resolved) (depth : Nat) :
    Succeeds s root depth (searchStruct s root depth) := by
  induction depth with
  | zero =>
      intro visited visited' st _ nodup known hdepth _
      have hle := (List.subperm_of_subset nodup known).length_le
      omega
  | succ depth ih =>
      intro visited visited' st hst nodup known hdepth h
      rw [searchStruct] at h
      split at h
      · rename_i hmem
        obtain rfl := Except.ok.inj h
        exact ⟨Visits.refl nodup known, List.contains_iff_mem.mp hmem⟩
      · rename_i hmem
        have hnew : st.qualified ∉ visited := fun hm => hmem (List.contains_iff_mem.mpr hm)
        have htargets : ∀ part ∈ parts st, ∃ st', s.struct? part.target = some st' := by
          intro part hpart
          have hheld := ByValue.held_mem hs ⟨part.name, holds_of_mem_parts hs hst hpart⟩
          obtain ⟨st', _, _, hfind⟩ := hs.exists_struct hheld
          exact ⟨st', hfind⟩
        have hknown : st.qualified :: visited ⊆ s.names :=
          List.cons_subset.mpr ⟨List.mem_map_of_mem hst, known⟩
        obtain ⟨hvisits, hparts⟩ := searchParts_ok ih htargets (List.nodup_cons.mpr ⟨hnew, nodup⟩)
          hknown (by simp only [List.length_cons]; omega) h
        refine ⟨⟨?_, hvisits.nodup, hvisits.known, ?_⟩, hvisits.subset (by simp)⟩
        · exact fun x hx => hvisits.subset (List.mem_cons_of_mem _ hx)
        · intro x hx
          rcases hvisits.closed x hx with hx | hx
          · rcases List.mem_cons.mp hx with rfl | hx
            · refine Or.inr fun y hy => ?_
              obtain ⟨name, hy⟩ := hy
              obtain ⟨part, hpart, rfl⟩ := exists_part_of_holds hs hst hy
              exact hparts part hpart
            · exact Or.inl hx
          · exact Or.inr hx

end Search

theorem checkContainment_eq_ok (s : Schema) (st : Struct) :
    s.checkContainment st = .ok () ↔
      ∃ visited, searchStruct s st.qualified (s.walk.length + 1) [] st = .ok visited := by
  unfold checkContainment
  cases searchStruct s st.qualified (s.walk.length + 1) [] st with
  | error e => simp [bind, Except.bind]
  | ok visited => simp [bind, Except.bind, pure, Except.pure]

/-- A struct that passes does not hold itself. -/
theorem not_holds_itself {s : Schema} (hs : s.Resolved) {st : Struct} (hst : st ∈ s.walk)
    (h : s.checkContainment st = .ok ()) : ¬TransGen s.ByValue st.qualified st.qualified := by
  obtain ⟨visited, hsearch⟩ := (checkContainment_eq_ok s st).mp h
  have hdepth : s.names.length < s.walk.length + 1 + ([] : List Qualified).length := by
    simp [names]
  obtain ⟨hvisits, hroot⟩ := searchStruct_ok hs _ hst List.nodup_nil (by simp) hdepth hsearch
  have hclosed : ∀ {x y}, x ∈ visited → s.ByValue x y → y ≠ st.qualified ∧ y ∈ visited := by
    intro x y hx hy
    rcases hvisits.closed x hx with hx | hx
    · exact absurd hx (by simp)
    · exact hx y hy
  have hreach : ∀ {y}, TransGen s.ByValue st.qualified y → y ≠ st.qualified ∧ y ∈ visited := by
    intro y hy
    induction hy with
    | single hedge => exact hclosed hroot hedge
    | tail _ hedge ih => exact hclosed ih.2 hedge
  exact fun hcycle => (hreach hcycle).1 rfl

/-! ## Ranks -/

/-- A schema whose structs are ranked by what they hold, with fewer ranks than structs. -/
structure Ranked (s : Schema) (rank : Qualified → Nat) : Prop where
  resolved : s.Resolved
  held : ∀ holder held, s.ByValue holder held → rank held < rank holder
  bound : ∀ q ∈ s.names, rank q < s.walk.length

/-- If no struct holds itself, the structs can be ranked by how many they reach. -/
theorem Acyclic.exists_ranked {s : Schema} (hs : s.Resolved) (acyclic : s.Acyclic) :
    ∃ rank : Qualified → Nat, s.Ranked rank := by
  classical
  let reached (q : Qualified) : Finset Qualified :=
    s.names.toFinset.filter fun x => TransGen s.ByValue q x
  refine ⟨fun q => (reached q).card, hs, ?_, ?_⟩
  · intro holder held hedge
    apply Finset.card_lt_card
    refine Finset.ssubset_iff_subset_ne.mpr ⟨?_, fun heq => ?_⟩
    · intro x hx
      obtain ⟨hx, hpath⟩ := Finset.mem_filter.mp hx
      exact Finset.mem_filter.mpr ⟨hx, TransGen.head hedge hpath⟩
    · have hmem : held ∈ reached holder :=
        Finset.mem_filter.mpr
          ⟨List.mem_toFinset.mpr (ByValue.held_mem hs hedge), TransGen.single hedge⟩
      rw [← heq] at hmem
      exact acyclic held (Finset.mem_filter.mp hmem).2
  · intro q hq
    have hsub : reached q ⊆ s.names.toFinset.erase q := by
      intro x hx
      obtain ⟨hx, hpath⟩ := Finset.mem_filter.mp hx
      refine Finset.mem_erase.mpr ⟨?_, hx⟩
      rintro rfl
      exact acyclic x hpath
    calc
      (reached q).card ≤ (s.names.toFinset.erase q).card := Finset.card_le_card hsub
      _ < s.names.toFinset.card := Finset.card_erase_lt_of_mem (List.mem_toFinset.mpr hq)
      _ ≤ s.names.length := List.toFinset_card_le _
      _ = s.walk.length := List.length_map _

/-- Where structs are ranked, going from base to base ends. -/
theorem Ranked.basesEnd {s : Schema} {rank : Qualified → Nat} (hs : s.Ranked rank) {steps : Nat}
    {q : Qualified} (hq : q ∈ s.names) (hsteps : rank q < steps) :
    s.basesEnd steps (some q) = true := by
  induction steps generalizing q with
  | zero => omega
  | succ steps ih =>
      obtain ⟨st, hst, rfl, hfind⟩ := hs.resolved.exists_struct hq
      rw [Schema.basesEnd, hfind, Option.bind_some]
      cases hbase : st.base with
      | none => cases steps <;> rfl
      | some b =>
          have hlt := hs.held st.qualified b (hs.resolved.byValue_base hst hbase)
          exact ih (hs.resolved.base st hst b hbase) (by omega)

theorem checkInheritance_of_acyclic {s : Schema} (hs : s.Resolved) (acyclic : s.Acyclic)
    {st : Struct} (hst : st ∈ s.walk) : s.checkInheritance st = .ok () := by
  obtain ⟨rank, hranked⟩ := acyclic.exists_ranked hs
  have hend : s.basesEnd s.walk.length st.base = true := by
    cases hbase : st.base with
    | none => cases s.walk.length <;> rfl
    | some b =>
        have hb := hs.base st hst b hbase
        exact hranked.basesEnd hb (hranked.bound b hb)
  simp [checkInheritance, hend]

theorem checkContainment_of_acyclic {s : Schema} (hs : s.Resolved) (acyclic : s.Acyclic)
    {st : Struct} (hst : st ∈ s.walk) : s.checkContainment st = .ok () := by
  rw [checkContainment_eq_ok]
  cases hsearch : searchStruct s st.qualified (s.walk.length + 1) [] st with
  | ok visited => exact ⟨visited, rfl⟩
  | error e =>
      obtain ⟨holder, name, line, _, hpath, hholds⟩ := searchStruct_error hs hst hsearch
      exact absurd (TransGen.tail' hpath ⟨name, hholds⟩) (acyclic st.qualified)

/-- The checks on inheritance and containment pass exactly if no struct holds itself. -/
theorem acyclic_iff {s : Schema} (hs : s.Resolved) :
    ((∀ st ∈ s.walk, s.checkInheritance st = .ok ()) ∧
      ∀ st ∈ s.walk, s.checkContainment st = .ok ()) ↔ s.Acyclic := by
  constructor
  · rintro ⟨_, hcontainment⟩ q hcycle
    obtain ⟨x, hedge, _⟩ := TransGen.head'_iff.mp hcycle
    obtain ⟨st, hst, rfl⟩ := ByValue.holder_mem hedge
    exact not_holds_itself hs hst (hcontainment st hst) hcycle
  · intro acyclic
    exact ⟨fun st hst => checkInheritance_of_acyclic hs acyclic hst,
      fun st hst => checkContainment_of_acyclic hs acyclic hst⟩

/-! ## Accepted and refused sources -/

/-- A schema passes its checks if each of them passes on all structs. -/
theorem check_eq_ok_iff {s : Schema} :
    s.check = .ok () ↔
      (∀ st ∈ s.walk, s.checkInheritance st = .ok ()) ∧
      (∀ st ∈ s.walk, s.checkContainment st = .ok ()) ∧
      (∀ st ∈ s.walk, checkMembers st = .ok ()) ∧
      (∀ st ∈ s.walk, ∀ f ∈ st.fields, f.checkDefault = .ok ()) ∧
      checkDistinct [] (s.walk.flatMap structNames) = .ok () := by
  simp only [check, seq_eq_ok, forM_eq_ok]

theorem checkFieldNames_error {scope : Text} {taken : List Text} {fields : List Field}
    {e : SchemaError} (h : checkFieldNames scope taken fields = .error e) :
    ∃ name line, e = .duplicateMember scope name line := by
  induction fields generalizing taken with
  | nil => exact absurd h (by simp [checkFieldNames])
  | cons f fields ih =>
      rw [checkFieldNames] at h
      split at h
      · exact ih h
      · exact ⟨f.name, f.line, (Except.error.inj h).symm⟩

theorem checkDistinct_error {taken : List Text} {names : List Declared} {e : SchemaError}
    (h : checkDistinct taken names = .error e) : ∃ name line, e = .duplicateType name line := by
  induction names generalizing taken with
  | nil => exact absurd h (by simp [checkDistinct])
  | cons d names ih =>
      rw [checkDistinct] at h
      split at h
      · exact ⟨d.name, d.line, (Except.error.inj h).symm⟩
      · exact ih h

theorem checkDefault_error {f : Field} {e : SchemaError} (h : f.checkDefault = .error e) :
    ∃ value field line fault, e = .invalidDefault value field line fault := by
  unfold Field.checkDefault at h
  split at h
  · exact absurd h (by simp)
  · exact ⟨_, _, _, _, (Except.error.inj h).symm⟩

/-- Only the search of a struct inside itself reports that one contains itself. -/
theorem exists_search_of_check {s : Schema} {struct field : Text} {line : Nat}
    (h : s.check = .error (.containsItself struct field line)) :
    ∃ st ∈ s.walk,
      searchStruct s st.qualified (s.walk.length + 1) [] st =
        .error (.containsItself struct field line) := by
  rcases bind_eq_error.mp h with h | ⟨_, _, h⟩
  · obtain ⟨st, _, h⟩ := exists_of_forM_error h
    unfold checkInheritance at h
    split at h <;> exact absurd h (by simp)
  rcases bind_eq_error.mp h with h | ⟨_, _, h⟩
  · obtain ⟨st, hst, h⟩ := exists_of_forM_error h
    rcases bind_eq_error.mp h with h | ⟨_, _, h⟩
    · exact ⟨st, hst, h⟩
    · exact absurd h (by simp [pure, Except.pure])
  rcases bind_eq_error.mp h with h | ⟨_, _, h⟩
  · obtain ⟨st, _, h⟩ := exists_of_forM_error h
    obtain ⟨_, _, he⟩ := checkFieldNames_error h
    exact absurd he (by simp)
  rcases bind_eq_error.mp h with h | ⟨_, _, h⟩
  · obtain ⟨st, _, h⟩ := exists_of_forM_error h
    obtain ⟨f, _, h⟩ := exists_of_forM_error h
    obtain ⟨_, _, _, _, he⟩ := checkDefault_error h
    exact absurd he (by simp)
  · obtain ⟨_, _, he⟩ := checkDistinct_error h
    exact absurd he (by simp)

/-- For a source that can be read and linked, the checks on inheritance and containment pass
exactly if no struct holds itself by value; and if a struct is reported to contain itself, it leads
back to itself, at last under the name that is reported. -/
theorem by_value_checks {source : Text} {tokens : List Token} {s₀ s : Schema}
    (hlex : Token.lex source = .ok tokens) (hread : Reader.read tokens = .ok s₀)
    (hlink : s₀.link = .ok s) :
    (((∀ st ∈ s.walk, s.checkInheritance st = .ok ()) ∧
        ∀ st ∈ s.walk, s.checkContainment st = .ok ()) ↔ ∀ q, ¬TransGen s.ByValue q q) ∧
      ∀ struct field line, parse source = .error (.containsItself struct field line) →
        ∃ root holder : Qualified, root.text = struct ∧
          ReflTransGen s.ByValue root holder ∧ s.Holds holder field root := by
  have hs := resolved_of_link hread hlink
  refine ⟨acyclic_iff hs, ?_⟩
  intro struct field line h
  have hcheck : s.check = .error (.containsItself struct field line) := by
    simp only [parse, hlex, Except.mapError, bind, Except.bind, hread, hlink] at h
    cases hc : s.check with
    | ok u => simp [hc, pure, Except.pure] at h
    | error e => simpa [hc] using h
  obtain ⟨st, hst, hsearch⟩ := exists_search_of_check hcheck
  obtain ⟨holder, name, line', he, hpath, hholds⟩ := searchStruct_error hs hst hsearch
  obtain ⟨rfl, rfl, rfl⟩ := SchemaError.containsItself.inj he
  exact ⟨st.qualified, holder, rfl, hpath, hholds⟩

/-- A struct that holds one declared in it, which holds the outer one. -/
def nestedSource : Text :=
  "struct A \x7b struct B \x7b A a; \x7d; B b; \x7d;"

theorem by_value_checks_nested :
    ∃ tokens s₀ s, Token.lex nestedSource = .ok tokens ∧ Reader.read tokens = .ok s₀ ∧
      s₀.link = .ok s ∧ parse nestedSource = .error (.containsItself "A" "a" 1) ∧
        ∃ root holder : Qualified, root.text = "A" ∧
          ReflTransGen s.ByValue root holder ∧ s.Holds holder "a" root := by
  have hparse : parse nestedSource = .error (.containsItself "A" "a" 1) := rfl
  refine ⟨_, _, _, rfl, rfl, rfl, hparse, ?_⟩
  exact (by_value_checks rfl rfl rfl).2 _ _ _ hparse

end Schematic.Schema
