import Schematic.Proofs.Bases
import Schematic.Proofs.LineByLine

/-!
# Declarations put behind others

Whatever is read behind the end of a file adds structs under names of its own: a struct declared
later is in no struct declared before. So it can neither take a base from an earlier struct nor give
it another one. Main statement: the structs of a source stay, with all that is in them, when
declarations are put behind it.
-/

namespace Schematic

namespace Reader

variable {r₀ r r' : Reader}

/-- What a token does to the names: it leaves them, opens a struct in the current scope, or closes
the innermost one. -/
inductive Outline (r r' : Reader) : Prop where
  | keep (structs : r'.structs = r.structs) (declared : r'.declared = r.declared)
      (stack : r'.stack.map Struct.qualified = r.stack.map Struct.qualified)
  | enter (name : Text) (fresh : r.scope ++ [name] ∉ r.declared) (structs : r'.structs = r.structs)
      (declared : r'.declared = r.declared ++ [r.scope ++ [name]])
      (stack : r'.stack.map Struct.qualified =
        (r.scope ++ [name]) :: r.stack.map Struct.qualified)
  | leave (structs : r.structs <+: r'.structs) (declared : r'.declared = r.declared)
      (stack : r'.stack.map Struct.qualified ⊆ r.stack.map Struct.qualified)

theorem structs_modifyTop (r : Reader) (change : Struct → Struct) :
    (r.modifyTop change).structs = r.structs := by
  unfold modifyTop
  split <;> rfl

theorem declared_modifyTop (r : Reader) (change : Struct → Struct) :
    (r.modifyTop change).declared = r.declared := by
  unfold modifyTop
  split <;> rfl

theorem qualified_modifyTop (r : Reader) {change : Struct → Struct}
    (same : ∀ s, (change s).qualified = s.qualified) :
    (r.modifyTop change).stack.map Struct.qualified = r.stack.map Struct.qualified := by
  unfold modifyTop
  split
  · rfl
  · rename_i hstack
    simp [hstack, same]

theorem Change.outline (h : Change r r') : Outline r r' := by
  cases h with
  | goto known outside => exact .keep rfl rfl rfl
  | openStruct fresh types inside =>
      refine .enter _ (fun hmem => ?_) rfl rfl rfl
      simp only [isDeclared, Bool.or_eq_false_iff, List.any_eq_false] at fresh
      exact fresh.1 _ hmem (by simp)
  | closeStruct =>
      rcases hstack : r.stack with _ | ⟨s, _ | ⟨outer, stack⟩⟩
      · have hclose : r.closeStruct = r.goto .file := by simp [Reader.closeStruct, hstack]
        rw [hclose]
        exact .keep rfl rfl rfl
      · have hclose : r.closeStruct =
            { r with position := .file, stack := [], structs := r.structs ++ [s] } := by
          simp [Reader.closeStruct, hstack]
        rw [hclose]
        exact .leave (List.prefix_append _ _) rfl (by simp)
      · have hclose : r.closeStruct =
            { r with
              position := .body
              stack := { outer with children := outer.children ++ [s] } :: stack } := by
          simp [Reader.closeStruct, hstack]
        rw [hclose]
        refine .leave List.prefix_rfl rfl ?_
        rw [hstack]
        exact List.subset_cons_self _ _
  | addEnum e =>
      exact .keep (structs_modifyTop _ _) (declared_modifyTop _ _)
        (qualified_modifyTop _ fun _ => rfl)
  | addField known types inside =>
      exact .keep (structs_modifyTop _ _) (declared_modifyTop _ _)
        (qualified_modifyTop _ fun _ => rfl)

/-- The scope is empty or the name of an open struct. -/
theorem scope_cases (r : Reader) :
    r.scope = [] ∨ r.scope ≠ [] ∧ r.scope ∈ r.stack.map Struct.qualified := by
  unfold scope
  split
  · exact .inl rfl
  · rename_i hstack
    exact .inr ⟨by simp [Struct.qualified], by simp [hstack]⟩

/-- Every declared struct stands in a declared struct of the file. -/
structure Rooted (r : Reader) : Prop where
  stack : r.stack.map Struct.qualified ⊆ r.declared
  declared : ∀ q ∈ r.declared, q.take 1 ∈ r.declared

theorem Rooted.outline (hr : r.Rooted) (h : Outline r r') : r'.Rooted := by
  cases h with
  | keep structs declared stack =>
      exact ⟨stack ▸ declared ▸ hr.stack, declared ▸ hr.declared⟩
  | enter name fresh structs declared stack =>
      have hmore : r.declared ⊆ r'.declared := declared ▸ List.subset_append_left _ _
      have hlast : r.scope ++ [name] ∈ r'.declared := by simp [declared]
      refine ⟨?_, fun q hq => ?_⟩
      · rw [stack]
        exact List.cons_subset.mpr ⟨hlast, List.Subset.trans hr.stack hmore⟩
      · rw [declared, List.mem_append, List.mem_singleton] at hq
        rcases hq with hq | rfl
        · exact hmore (hr.declared q hq)
        · rcases r.scope_cases with hscope | ⟨hne, hscope⟩
          · rw [hscope] at hlast ⊢
            exact hlast
          · rw [Qualified.take_one_eq hne (List.prefix_append _ _)]
            exact hmore (hr.declared _ (hr.stack hscope))
  | leave structs declared stack =>
      exact ⟨declared ▸ List.Subset.trans stack hr.stack, declared ▸ hr.declared⟩

/-- `r` comes from `r₀` by reading on: the finished structs stay, and what is declared since stands
in structs that are declared since. -/
structure Extends (r₀ r : Reader) : Prop where
  structs : r₀.structs <+: r.structs
  declared : ∃ more, r.declared = r₀.declared ++ more ∧ ∀ q ∈ more, q.take 1 ∉ r₀.declared
  stack : ∀ q ∈ r.stack.map Struct.qualified, q.take 1 ∉ r₀.declared

theorem Extends.outline (hr : r₀.Extends r) (h : Outline r r') : r₀.Extends r' := by
  obtain ⟨more, hmore, hnew⟩ := hr.declared
  cases h with
  | keep structs declared stack =>
      exact ⟨structs ▸ hr.structs, declared ▸ hr.declared, stack ▸ hr.stack⟩
  | enter name fresh structs declared stack =>
      -- A struct of the file has a new name, and any other one stands in one that is open.
      have hlast : (r.scope ++ [name]).take 1 ∉ r₀.declared := by
        rcases r.scope_cases with hscope | ⟨hne, hscope⟩
        · intro hmem
          rw [hscope] at hmem fresh
          exact fresh (hmore ▸ List.mem_append_left _ hmem)
        · rw [Qualified.take_one_eq hne (List.prefix_append _ _)]
          exact hr.stack _ hscope
      refine ⟨structs ▸ hr.structs, ⟨more ++ [r.scope ++ [name]], ?_, ?_⟩, ?_⟩
      · rw [declared, hmore, List.append_assoc]
      · rw [List.forall_mem_append, List.forall_mem_singleton]
        exact ⟨hnew, hlast⟩
      · rw [stack, List.forall_mem_cons]
        exact ⟨hlast, hr.stack⟩
  | leave structs declared stack =>
      exact ⟨hr.structs.trans structs, declared ▸ hr.declared, fun q hq => hr.stack q (stack hq)⟩

/-- What every step keeps is kept by a run. -/
theorem foldlM_outline {motive : Reader → Prop}
    (step : ∀ {r r' : Reader}, motive r → Outline r r' → motive r') {tokens : List Token}
    (start : motive r) (h : tokens.foldlM Reader.step r = .ok r') : motive r' := by
  induction tokens generalizing r with
  | nil =>
      obtain rfl := Except.ok.inj h
      exact start
  | cons t tokens ih =>
      rw [List.foldlM_cons] at h
      obtain ⟨r₁, h₁, h⟩ := bind_eq_ok.mp h
      exact ih (step start (change_of_step h₁).outline) h

theorem rooted_initial : Rooted {} :=
  ⟨by simp, by simp⟩

theorem names_of_finish {tokens : List Token} {line : Nat} {s : Schema}
    (hfold : tokens.foldlM step {} = .ok r) (hfinish : r.finish line = .ok s) :
    s.names = r.declared := by
  rw [← (sound_of_finish hfold hfinish).1.declared, seen_of_finish hfold hfinish, Schema.names]

/-- Reading on behind a file that could be read extends it. -/
theorem extends_of_read {before behind : List Token} {s t : Schema} (hs : read before = .ok s)
    (ht : read (before ++ behind) = .ok t) :
    s.structs <+: t.structs ∧ (∀ q ∈ s.names, q.take 1 ∈ s.names) ∧
      ∃ more, t.names = s.names ++ more ∧ ∀ q ∈ more, q.take 1 ∉ s.names := by
  obtain ⟨r, hfold, hfinish⟩ := bind_eq_ok.mp hs
  obtain ⟨r', hfold', hfinish'⟩ := bind_eq_ok.mp ht
  have hmore := hfold'
  rw [List.foldlM_append, hfold] at hmore
  obtain ⟨_, hstack, hstructs⟩ := sound_of_finish hfold hfinish
  have hstructs' := (sound_of_finish hfold' hfinish').2.2
  have hrooted : r.Rooted := foldlM_outline Rooted.outline rooted_initial hfold
  have hextends : r.Extends r' :=
    foldlM_outline Extends.outline
      ⟨List.prefix_rfl, ⟨[], by simp, by simp⟩, by simp [hstack]⟩ hmore
  rw [hstructs, hstructs', names_of_finish hfold hfinish, names_of_finish hfold' hfinish']
  exact ⟨hextends.structs, hrooted.declared, hextends.declared⟩

end Reader

namespace Schema

/-- A struct keeps its base when names are added that stand in other structs of the file. -/
theorem isBase_append {names more : List Qualified} {st : Struct} {base : Option Qualified}
    (rooted : st.qualified.take 1 ∈ names) (apart : ∀ q ∈ more, q.take 1 ∉ names)
    (h : st.IsBase names base) : st.IsBase (names ++ more) base := by
  unfold Struct.IsBase at h ⊢
  cases hparent : st.parent with
  | none => rwa [hparent] at h
  | some parent =>
      rw [hparent, Option.map_some] at h
      obtain ⟨q, rfl, hq⟩ := Option.map_eq_some_iff.mp h
      rw [Option.map_some, Option.map_some]
      refine congrArg some (Struct.parent?_append (fun outer hne hbegins hmem => ?_) hq.symm).symm
      have hscope : outer <+: st.qualified := hbegins.trans (List.prefix_append _ _)
      have houter := apart _ hmem
      rw [Qualified.take_one_eq hne (List.prefix_append _ _),
        ← Qualified.take_one_eq hne hscope] at houter
      exact houter rooted

/-- The structs of a source stay as they are when declarations are put behind it on lines of their
own. They come first, and each of them is found under its name as it was. -/
theorem structs_prefix_of_append {p q : Text} {s t : Schema} (hp : parse p = .ok s)
    (hpq : parse (p ++ 0x0A :: q) = .ok t) :
    s.structs <+: t.structs ∧ ∀ st ∈ s.walk, t.struct? st.qualified = some st := by
  obtain ⟨before, s₀, hlex, hread, hlink, _⟩ := parse_eq_ok_iff.mp hp
  obtain ⟨tokens, t₀, hlex', hread', hlink', _⟩ := parse_eq_ok_iff.mp hpq
  obtain ⟨behind, rfl⟩ := Token.exists_of_lex_append hlex hlex'
  obtain ⟨⟨later, hstructs⟩, hrooted, more, hnames, hmore⟩ := Reader.extends_of_read hread hread'
  have hlinked := linkAll_of_link hlink'
  rw [← hstructs] at hlinked
  obtain ⟨structs, hfirst, hbegins⟩ := Struct.linkAll_append_left hlinked
  have hsame : Struct.linkAll t₀.names s₀.structs = .ok s.structs := by
    refine Struct.linkAll_of_isBase (fun st hst base hbase => ?_) (linkAll_of_link hlink)
    rw [hnames]
    exact isBase_append (hrooted _ (List.mem_map_of_mem hst)) hmore hbase
  obtain rfl : s.structs = structs := Except.ok.inj (hsame.symm.trans hfirst)
  refine ⟨hbegins, fun st hst => (resolved_of_link hread' hlink').struct?_eq ?_⟩
  obtain ⟨rest, hrest⟩ := hbegins
  rw [walk, ← hrest, Struct.walkAll_append]
  exact List.mem_append_left _ hst

/-- A struct whose base is declared beside it. -/
def shelteredSource : Text :=
  "struct A \x7b struct B \x7b int x; \x7d; struct D : B \x7b B b; \x7d; \x7d;"

/-- A struct of the same name as that base, and one that builds on it. -/
def shadowSource : Text :=
  "struct B \x7b A a; \x7d; struct E : B \x7b \x7d;"

theorem structs_prefix_of_append_shadow :
    ∃ s t, parse shelteredSource = .ok s ∧
      parse (shelteredSource ++ 0x0A :: shadowSource) = .ok t ∧
      (s.struct? ["A", "D"]).bind Struct.base = some (["A", "B"] : Qualified) ∧
      (t.struct? ["E"]).bind Struct.base = some (["B"] : Qualified) ∧
      s.structs <+: t.structs ∧ ∀ st ∈ s.walk, t.struct? st.qualified = some st := by
  have hp : (parse shelteredSource).toOption.map
      (fun s => (s.struct? ["A", "D"]).bind Struct.base) =
        some (some (["A", "B"] : Qualified)) := by
    decide +kernel
  have hpq : (parse (shelteredSource ++ 0x0A :: shadowSource)).toOption.map
      (fun t => (t.struct? ["E"]).bind Struct.base) = some (some (["B"] : Qualified)) := by
    decide +kernel
  obtain ⟨s, hs, hbase⟩ := exists_ok_of_map hp
  obtain ⟨t, ht, hbase'⟩ := exists_ok_of_map hpq
  exact ⟨s, t, hs, ht, hbase, hbase', structs_prefix_of_append hs ht⟩

end Schema

end Schematic
