import Mathlib.Data.List.Chain
import Schematic.Proofs.RefusedTokens

/-!
# Bases without end

A struct may have a base, which may have a base in turn. Where this never ends, some structs are
passed once and then a ring of structs comes again and again. Those on the ring build on
themselves; those that only lead to it do not. Main statement: a schema is refused for a cycle just
if some bases never end. The error names the first struct with such bases, and that one builds on
itself just if nothing leads to the ring.
-/

namespace Schematic.Schema

open Relation

/-- A struct builds on another one. -/
def BuildsOn (s : Schema) (heir base : Qualified) : Prop :=
  (s.struct? heir).bind Struct.base = some base

instance (s : Schema) (heir base : Qualified) : Decidable (s.BuildsOn heir base) :=
  inferInstanceAs (Decidable (_ = _))

/-- The struct is or builds on one that builds on itself. -/
def Endless (s : Schema) (q : Qualified) : Prop :=
  ∃ p, ReflTransGen s.BuildsOn q p ∧ TransGen s.BuildsOn p p

/-- Going from base to base, from `q` on, passes the structs of `lead` once and those of `ring`
again and again. -/
structure Lasso (s : Schema) (q : Qualified) (lead ring : List Qualified) : Prop where
  start : (lead ++ ring).head? = some q
  distinct : (lead ++ ring).Nodup
  chain : (lead ++ ring ++ ring.head?.toList).IsChain s.BuildsOn
  closed : ring ≠ []

namespace Lasso

variable {s : Schema} {q p : Qualified} {lead ring : List Qualified}

/-- What stands later on the way is built on. -/
theorem pairwise (h : s.Lasso q lead ring) :
    (lead ++ ring ++ ring.head?.toList).Pairwise (TransGen s.BuildsOn) :=
  List.isChain_iff_pairwise.mp (h.chain.imp fun _ _ => TransGen.single)

theorem transGen_of_mem_ring (h : s.Lasso q lead ring) (hp : p ∈ ring) :
    TransGen s.BuildsOn p p := by
  obtain ⟨first, rest, rfl⟩ := List.exists_cons_of_ne_nil h.closed
  have hring : (first :: (rest ++ [first])).Pairwise (TransGen s.BuildsOn) := by
    have hall := h.pairwise
    rw [List.append_assoc] at hall
    exact (List.pairwise_append.mp hall).2.1
  rw [List.pairwise_cons] at hring
  rcases List.mem_cons.mp hp with rfl | hp
  · exact hring.1 p (by simp)
  · exact TransGen.trans ((List.pairwise_append.mp hring.2).2.2 p hp first (by simp))
      (hring.1 p (by simp [hp]))

/-- Behind a struct of the lead the way never comes back to it. -/
theorem not_transGen_of_mem_lead (h : s.Lasso q lead ring) (hp : p ∈ lead) :
    ¬TransGen s.BuildsOn p p := by
  obtain ⟨front, back, rfl⟩ := List.append_of_mem hp
  obtain ⟨first, rest, rfl⟩ := List.exists_cons_of_ne_nil h.closed
  have hall : (front ++ p :: back ++ first :: rest) = front ++ p :: (back ++ first :: rest) := by
    simp
  have hchain := h.chain
  have hdistinct := h.distinct
  rw [hall] at hchain hdistinct
  -- The next struct behind one that was passed is known from the chain, and there is no other.
  have hnext : ∀ x ∈ p :: (back ++ first :: rest), ∀ y, s.BuildsOn x y →
      y ∈ back ++ first :: rest := by
    intro x hx y hxy
    obtain ⟨before, after, hsplit⟩ := List.append_of_mem hx
    obtain ⟨y', after', hafter⟩ : ∃ y' after', after ++ [first] = y' :: after' :=
      List.exists_cons_of_ne_nil (by simp)
    have hxy' : s.BuildsOn x y' := by
      have hplace : front ++ (before ++ x :: after) ++ [first] =
          front ++ before ++ x :: y' :: after' := by
        simp [hafter]
      rw [hsplit, List.head?_cons, Option.toList_some, hplace] at hchain
      exact (List.isChain_append_cons_cons.mp hchain).2.1
    obtain rfl : y = y' := Option.some.inj (hxy.symm.trans hxy')
    have hmem : y ∈ after ++ [first] := hafter ▸ List.mem_cons_self
    rcases List.mem_append.mp hmem with hmem | hmem
    · cases before with
      | nil =>
          rw [List.nil_append, List.cons.injEq] at hsplit
          exact hsplit.2 ▸ hmem
      | cons b before =>
          rw [List.cons_append, List.cons.injEq] at hsplit
          rw [hsplit.2]
          simp [hmem]
    · rw [List.mem_singleton.mp hmem]
      simp
  have hreach : ∀ {y}, TransGen s.BuildsOn p y → y ∈ back ++ first :: rest := by
    intro y hy
    induction hy with
    | single hxy => exact hnext p List.mem_cons_self _ hxy
    | tail _ hxy ih => exact hnext _ (List.mem_cons_of_mem _ ih) _ hxy
  have hnew : p ∉ back ++ first :: rest :=
    (List.nodup_cons.mp (List.nodup_append.mp hdistinct).2.1).1
  exact fun hcycle => hnew (hreach hcycle)

theorem endless (h : s.Lasso q lead ring) : s.Endless q := by
  obtain ⟨first, rest, rfl⟩ := List.exists_cons_of_ne_nil h.closed
  refine ⟨first, ?_, h.transGen_of_mem_ring List.mem_cons_self⟩
  have hstart := h.start
  cases lead with
  | nil =>
      obtain rfl := Option.some.inj hstart
      exact ReflTransGen.refl
  | cons q' lead =>
      obtain rfl := Option.some.inj hstart
      exact ((List.pairwise_cons.mp h.pairwise).1 first (by simp)).to_reflTransGen

/-- The struct at the start builds on itself just if nothing leads to the ring. -/
theorem transGen_start_iff (h : s.Lasso q lead ring) :
    TransGen s.BuildsOn q q ↔ lead = [] := by
  have hstart := h.start
  cases lead with
  | nil =>
      obtain ⟨first, rest, rfl⟩ := List.exists_cons_of_ne_nil h.closed
      obtain rfl := Option.some.inj hstart
      simpa using h.transGen_of_mem_ring List.mem_cons_self
  | cons q' lead =>
      obtain rfl := Option.some.inj hstart
      simpa using h.not_transGen_of_mem_lead List.mem_cons_self

end Lasso

section Check

variable {s : Schema}

/-- A way that is too long for the structs of the schema comes to one of them again. The induction
is on the steps that are left; `path` holds the structs passed so far. -/
theorem exists_lasso (hs : s.Resolved) {steps : Nat} (path : List Qualified) {q last : Qualified}
    (start : (path ++ [last]).head? = some q) (distinct : (path ++ [last]).Nodup)
    (known : path ++ [last] ⊆ s.names) (chain : (path ++ [last]).IsChain s.BuildsOn)
    (hsteps : s.names.length ≤ steps + path.length)
    (h : s.basesEnd steps (some last) = false) : ∃ lead ring, s.Lasso q lead ring := by
  induction steps generalizing path last with
  | zero =>
      have hle := (List.subperm_of_subset distinct known).length_le
      rw [List.length_append, List.length_singleton] at hle
      omega
  | succ steps ih =>
      rw [basesEnd] at h
      cases hbase : (s.struct? last).bind Struct.base with
      | none =>
          rw [hbase, basesEnd] at h
          exact absurd h (by simp)
      | some b =>
          rw [hbase] at h
          have hlonger : (path ++ [last] ++ [b]).IsChain s.BuildsOn := by
            refine List.isChain_append.mpr ⟨chain, List.isChain_singleton b, ?_⟩
            intro x hx y hy
            rw [List.getLast?_concat, Option.mem_some_iff] at hx
            rw [List.head?_singleton, Option.mem_some_iff] at hy
            subst hx hy
            exact hbase
          by_cases hmem : b ∈ path ++ [last]
          · obtain ⟨lead, rest, hsplit⟩ := List.append_of_mem hmem
            rw [hsplit] at start distinct hlonger
            exact ⟨lead, b :: rest, start, distinct, hlonger, by simp⟩
          · obtain ⟨st, hfind, hb⟩ := Option.bind_eq_some_iff.mp hbase
            have hmember := hs.base st (mem_walk_of_struct? hfind).1 b hb
            refine ih (path ++ [last]) ?_ ?_ ?_ hlonger ?_ h
            · rw [List.head?_append, start]
              rfl
            · rw [List.nodup_append]
              refine ⟨distinct, List.nodup_singleton b, ?_⟩
              rintro x hx y hy rfl
              exact hmem (List.mem_singleton.mp hy ▸ hx)
            · exact List.append_subset.mpr ⟨known, by simpa using hmember⟩
            · rw [List.length_append, List.length_singleton]
              omega

/-- Behind a struct whose bases never end comes another one. -/
theorem Endless.exists_base {q : Qualified} (h : s.Endless q) :
    ∃ b, s.BuildsOn q b ∧ s.Endless b := by
  obtain ⟨p, hlead, hring⟩ := h
  rcases hlead.cases_head with rfl | ⟨b, hbase, hrest⟩
  · obtain ⟨b, hbase, hrest⟩ := TransGen.head'_iff.mp hring
    exact ⟨b, hbase, q, hrest, hring⟩
  · exact ⟨b, hbase, p, hrest, hring⟩

theorem Endless.basesEnd {q : Qualified} (h : s.Endless q) (steps : Nat) :
    s.basesEnd steps (some q) = false := by
  induction steps generalizing q with
  | zero => rfl
  | succ steps ih =>
      obtain ⟨b, hbase, hb⟩ := h.exists_base
      rw [Schema.basesEnd, hbase]
      exact ih hb

variable (hs : s.Resolved) {st : Struct} (hst : st ∈ s.walk)

include hs hst

theorem basesEnd_base (steps : Nat) :
    s.basesEnd steps st.base = s.basesEnd (steps + 1) (some st.qualified) := by
  rw [basesEnd, hs.struct?_eq hst]
  rfl

theorem exists_lasso_of_basesEnd (hend : s.basesEnd s.walk.length st.base = false) :
    ∃ lead ring, s.Lasso st.qualified lead ring := by
  rw [basesEnd_base hs hst] at hend
  refine exists_lasso hs [] rfl (List.nodup_singleton _) ?_ (List.isChain_singleton _) ?_ hend
  · have hname : st.qualified ∈ s.names := List.mem_map_of_mem hst
    simpa using hname
  · simp [names]

theorem checkInheritance_of_endless (h : s.Endless st.qualified) :
    s.checkInheritance st = .error (.inheritanceCycle st.fullName st.line) := by
  rw [checkInheritance, basesEnd_base hs hst, h.basesEnd]
  rfl

theorem checkInheritance_eq_ok_iff : s.checkInheritance st = .ok () ↔ ¬s.Endless st.qualified := by
  constructor
  · intro h hendless
    rw [checkInheritance_of_endless hs hst hendless] at h
    exact absurd h (by simp)
  · intro hends
    cases h : s.checkInheritance st with
    | ok _ => rfl
    | error e =>
        obtain ⟨lead, ring, hlasso⟩ :=
          exists_lasso_of_basesEnd hs hst (checkInheritance_eq_error h).1
        exact absurd hlasso.endless hends

end Check

/-- A source is refused for a cycle of bases just if its structs can be read and linked and the
bases of one of them never end. The first such struct is named with its line. It builds on itself
just if no structs lead from it to the ring of those that do. -/
theorem inheritanceCycle_names_first_endless (source struct : Text) (line : Nat) :
    parse source = .error (.inheritanceCycle struct line) ↔
      ∃ s before st after, linked source = .ok s ∧ s.walk = before ++ st :: after ∧
        st.fullName = struct ∧ st.line = line ∧
        (∀ earlier ∈ before, ¬s.Endless earlier.qualified) ∧
        ∃ lead ring, s.Lasso st.qualified lead ring ∧
          (∀ q ∈ lead, ¬TransGen s.BuildsOn q q) ∧ (∀ q ∈ ring, TransGen s.BuildsOn q q) ∧
          (TransGen s.BuildsOn st.qualified st.qualified ↔ lead = []) := by
  constructor
  · intro h
    rcases parse_eq_error_iff.mp h with ⟨c, _, he⟩ | ⟨_, _, hread⟩ | ⟨_, _, _, _, hlink⟩ |
      ⟨s, hlinked, hcheck⟩
    · exact absurd he (by simp)
    · rcases Reader.kind_of_read hread with he | ⟨_, _, he⟩ | ⟨_, _, _, he⟩ <;>
        exact absurd he (by simp [SchemaError.isStop, SchemaError.offender?])
    · obtain ⟨_, _, _, he⟩ := link_eq_error hlink
      exact absurd he (by simp)
    · have hs := resolved_of_linked hlinked
      cases refusal_of_check hs hcheck with
      | @inheritance before after st hwalk hbefore hend =>
          have hst : st ∈ s.walk := by simp [hwalk]
          obtain ⟨lead, ring, hlasso⟩ := exists_lasso_of_basesEnd hs hst hend
          refine ⟨s, before, st, after, hlinked, hwalk, rfl, rfl, ?_, lead, ring, hlasso,
            fun q => hlasso.not_transGen_of_mem_lead, fun q => hlasso.transGen_of_mem_ring,
            hlasso.transGen_start_iff⟩
          intro earlier hearlier
          have hmem : earlier ∈ s.walk := by simp [hwalk, hearlier]
          exact (checkInheritance_eq_ok_iff hs hmem).mp (hbefore earlier hearlier)
  · rintro ⟨s, before, st, after, hlinked, hwalk, rfl, rfl, hbefore, lead, ring, hlasso, -⟩
    have hs := resolved_of_linked hlinked
    have hst : st ∈ s.walk := by simp [hwalk]
    refine parse_eq_error_iff.mpr (.inr (.inr (.inr ⟨s, hlinked, ?_⟩)))
    refine bind_eq_error.mpr (.inl (forM_eq_error_iff.mpr ⟨before, st, after, hwalk, ?_, ?_⟩))
    · intro earlier hearlier
      have hmem : earlier ∈ s.walk := by simp [hwalk, hearlier]
      exact (checkInheritance_eq_ok_iff hs hmem).mpr (hbefore earlier hearlier)
    · exact checkInheritance_of_endless hs hst hlasso.endless

/-- A struct that builds on itself, behind one that builds on it. -/
def ledSource : Text :=
  "struct A : B \x7b\x7d;\nstruct B : B \x7b\x7d;"

/-- The struct that is named need not build on itself: here only its base does. -/
theorem inheritanceCycle_names_first_endless_led :
    parse ledSource = .error (.inheritanceCycle "A" 1) ∧
      ∃ s, linked ledSource = .ok s ∧
        ¬TransGen s.BuildsOn [Text.ofString "A"] [Text.ofString "A"] ∧
        TransGen s.BuildsOn [Text.ofString "B"] [Text.ofString "B"] := by
  refine ⟨rfl, ?_⟩
  have hbases : (linked ledSource).toOption.map (fun s =>
      [[Text.ofString "A"], [Text.ofString "B"]].map fun q =>
        (s.struct? q).bind Struct.base) =
      some [some [Text.ofString "B"], some [Text.ofString "B"]] := by
    decide +kernel
  obtain ⟨s, hs, hbases⟩ := exists_ok_of_map hbases
  simp only [List.map_cons, List.map_nil, List.cons.injEq, and_true] at hbases
  have hlasso : s.Lasso [Text.ofString "A"] [[Text.ofString "A"]] [[Text.ofString "B"]] :=
    ⟨rfl, by decide, .cons_cons hbases.1 (.cons_cons hbases.2 (.singleton _)), by simp⟩
  exact ⟨s, hs, hlasso.not_transGen_of_mem_lead List.mem_cons_self,
    hlasso.transGen_of_mem_ring List.mem_cons_self⟩

end Schematic.Schema
