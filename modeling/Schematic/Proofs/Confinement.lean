import Schematic.Proofs.Delivery

/-!
# Where artifacts go

Cleaning a path keeps what leads to it, so a path joined to a directory starts with the cleaned
directory. The name of a schema file only ever gives the start of a file's name, and a namespace is
a name of its own. Main statement: the artifacts of a schema go to three different files, each of
them two names below the cleaned directory.
-/

namespace Schematic

namespace Path

/-! ## Inside a directory -/

/-- What a path inside a directory starts with. The current directory adds nothing to it, and the
root needs no other slash. -/
def lead (dir : Text) : Text :=
  if clean dir = "." then [] else if clean dir = [slash] then [slash] else clean dir ++ [slash]

theorem ne_here_of_mem_elements {p e : Text} (h : e ∈ elements p) : e ≠ "." := by
  have hkept := (List.mem_filter.mp h).2
  simp only [Bool.and_eq_true, decide_eq_true_eq] at hkept
  exact hkept.2

/-- A clean path has the clean elements. -/
theorem elements_clean (p : Text) : elements (clean p) = cleanElements p := by
  by_cases hnone : cleanElements p = []
  · rw [clean, hnone]
    cases isAbsolute p <;> rfl
  · have hname {e : Text} (he : e ∈ cleanElements p) : slash ∉ e ∧ e ≠ [] ∧ e ≠ "." :=
      have he := mem_cleanElements he
      ⟨(mem_elements he).1, (mem_elements he).2, ne_here_of_mem_elements he⟩
    have hpieces : elements (Text.join [slash] (cleanElements p)) = cleanElements p := by
      rw [elements, Text.splitOn_join hnone fun e he => (hname he).1, List.filter_eq_self]
      intro e he
      simp [(hname he).2.1, (hname he).2.2]
    rw [clean_eq hnone, root]
    cases isAbsolute p with
    | true => exact (elements_append [] _).trans hpieces
    | false => exact hpieces

/-- Names behind a directory stand behind the cleaned directory. -/
theorem root_append_join (dir : Text) {names : List Text} (hnames : names ≠ []) :
    root dir ++ Text.join [slash] (cleanElements dir ++ names) =
      lead dir ++ Text.join [slash] names := by
  by_cases hnone : cleanElements dir = []
  · -- Nothing is left of the directory but the root or the current directory.
    rw [lead, clean, root, hnone]
    cases isAbsolute dir <;> rfl
  · have hhere : clean dir ≠ "." := by
      intro h
      exact hnone (by rw [← elements_clean, h]; rfl)
    have hroot : clean dir ≠ [slash] := by
      intro h
      exact hnone (by rw [← elements_clean, h]; rfl)
    rw [lead, if_neg hhere, if_neg hroot, clean_eq hnone, Text.join_append _ hnone hnames]
    simp

theorem Spells.join_eq_lead {p : Text} {names : List Text} (h : Spells p names) (dir : Text) :
    join [dir, p] = lead dir ++ Text.join [slash] names := by
  rw [h.join_eq, root_append_join dir h.nonempty]

/-- Different names give different paths. -/
theorem Spells.names_eq {p p' : Text} {names names' : List Text} (h : Spells p names)
    (h' : Spells p' names') {dir : Text} (heq : join [dir, p] = join [dir, p']) :
    names = names' := by
  have hsplit := congrArg (Text.splitOn slash) heq
  rw [h.splitOn_join, h'.splitOn_join] at hsplit
  exact List.append_cancel_left hsplit

end Path

namespace Artifact

open Schematic.Path

/-! ## Three artifacts -/

theorem Kind.eq_of_append_ending {kind kind' : Kind} {stem stem' : Text}
    (h : stem ++ kind.ending = stem' ++ kind'.ending) : kind = kind' := by
  -- The last five bytes tell the endings apart.
  have hlast (k : Kind) (stem : Text) :
      (stem ++ k.ending).reverse.take 5 = k.ending.reverse.take 5 := by
    rw [List.reverse_append, List.take_append_of_le_length]
    cases k <;> decide
  have htail : kind.ending.reverse.take 5 = kind'.ending.reverse.take 5 := by
    rw [← hlast kind stem, ← hlast kind' stem', h]
  revert htail
  cases kind <;> cases kind' <;> decide

theorem kinds_of_artifacts {s : Schema} {options : Options} {artifacts : List Artifact}
    (h : s.artifacts options = .ok artifacts) :
    artifacts.map Artifact.kind = [.layout, .owned, .serializer] ∧
      ∀ a ∈ artifacts, generate s options a.kind = .ok a := by
  have heach := mapM_eq_ok_iff.mp (Schema.artifacts_eq_ok_iff.mp h).2
  constructor
  · rw [← List.forall₂_eq_eq_eq, List.forall₂_map_left_iff]
    exact heach.flip.imp fun _ _ hgenerate => (kind_of_generate hgenerate).1
  · intro a ha
    obtain ⟨kind, -, hgenerate⟩ := exists_of_forall₂_right heach ha
    rwa [(kind_of_generate hgenerate).1]

theorem nodup_of_kinds {artifacts : List Artifact} {f : Artifact → Text}
    (hkinds : (artifacts.map Artifact.kind).Nodup)
    (hf : ∀ a ∈ artifacts, ∀ a' ∈ artifacts, f a = f a' → a.kind = a'.kind) :
    (artifacts.map f).Nodup := by
  rw [List.Nodup, List.pairwise_map] at hkinds ⊢
  exact hkinds.imp_of_mem fun ha ha' hkind hpath => hkind (hf _ ha _ ha' hpath)

end Artifact

namespace Project

open Schematic.Path

theorem checkPaths_of_nodup {taken : List Text} {outputs : List Output}
    (hnodup : (outputs.map Output.path).Nodup) (hfresh : ∀ o ∈ outputs, o.path ∉ taken) :
    checkPaths taken outputs = .ok () := by
  induction outputs generalizing taken with
  | nil => rfl
  | cons o outputs ih =>
      obtain ⟨hfirst, hnodup⟩ := List.nodup_cons.mp hnodup
      rw [checkPaths, if_neg (by simpa using hfresh o List.mem_cons_self)]
      refine ih hnodup fun o' ho' hmem => ?_
      rcases List.mem_cons.mp hmem with hpath | hmem
      · exact hfirst (hpath ▸ List.mem_map_of_mem ho')
      · exact hfresh o' (List.mem_cons_of_mem o ho') hmem

theorem place_of_nodup {dir : Text} {artifacts : List Artifact}
    (h : (artifacts.map fun a => Path.join [dir, a.path]).Nodup) :
    place dir artifacts =
      .ok (artifacts.map fun a => ⟨Path.join [dir, a.path], a.source⟩) := by
  rw [place, checkPaths_of_nodup _ fun _ _ => List.not_mem_nil]
  · rfl
  · rwa [List.map_map]

/-- The artifacts of a schema are placed in three different files, each of them two names below the
cleaned directory: in a package of the schema, in a file that says what it holds. -/
theorem place_below_directory {source : Text} {s : Schema} (hs : Schema.parse source = .ok s)
    (options : Artifact.Options) {artifacts : List Artifact}
    (h : s.artifacts options = .ok artifacts) (dir : Text) :
    artifacts.map Artifact.kind = [.layout, .owned, .serializer] ∧
      (artifacts.map fun a => Path.join [dir, a.path]).Nodup ∧
      place dir artifacts =
        .ok (artifacts.map fun a => ⟨Path.join [dir, a.path], a.source⟩) ∧
      ∀ a ∈ artifacts, Artifact.packageOf s a.kind = .ok a.package ∧
        ∃ stem, IsName a.package ∧ IsName (stem ++ a.kind.ending) ∧
          Path.join [dir, a.path] =
            lead dir ++ (a.package ++ slash :: (stem ++ a.kind.ending)) := by
  obtain ⟨hkinds, hgenerate⟩ := Artifact.kinds_of_artifacts h
  have hspells (a : Artifact) (ha : a ∈ artifacts) :
      ∃ stem, Spells a.path [a.package, stem ++ a.kind.ending] :=
    Artifact.spells_path hs (hgenerate a ha)
  have hnodup : (artifacts.map fun a => Path.join [dir, a.path]).Nodup := by
    refine Artifact.nodup_of_kinds (by rw [hkinds]; decide) ?_
    intro a ha a' ha' hpath
    obtain ⟨stem, hstem⟩ := hspells a ha
    obtain ⟨stem', hstem'⟩ := hspells a' ha'
    have hfile : stem ++ a.kind.ending = stem' ++ a'.kind.ending := by
      simpa using (List.cons.inj (hstem.names_eq hstem' hpath)).2
    exact Artifact.Kind.eq_of_append_ending hfile
  refine ⟨hkinds, hnodup, place_of_nodup hnodup, fun a ha => ?_⟩
  obtain ⟨stem, hstem⟩ := hspells a ha
  have hfile : Text.join [slash] [a.package, stem ++ a.kind.ending] =
      a.package ++ slash :: (stem ++ a.kind.ending) := by simp [Text.join]
  refine ⟨(Artifact.kind_of_generate (hgenerate a ha)).2, stem,
    hstem.isName _ List.mem_cons_self, hstem.isName _ (by simp), ?_⟩
  rw [hstem.join_eq_lead, hfile]

/-- A schema with a struct and both packages. -/
def dotSource : Text :=
  "binary_namespace = layout; friendly_namespace = owned; struct Dot \x7b int x; \x7d;"

/-- A schema file called by two dots, and a directory that leads up. -/
theorem place_below_directory_dots :
    ∃ s artifacts, Schema.parse dotSource = .ok s ∧ s.artifacts ⟨"..", []⟩ = .ok artifacts ∧
      (artifacts.map fun a => Path.join ["out/../..//", a.path]) =
        (["../layout/..binary.go", "../owned/..friendly.go", "../owned/..serialize.go"] :
          List Text) ∧
      lead "out/../..//" = "../" ∧
      ∀ a ∈ artifacts, Artifact.packageOf s a.kind = .ok a.package ∧
        ∃ stem, IsName a.package ∧ IsName (stem ++ a.kind.ending) ∧
          Path.join ["out/../..//", a.path] =
            lead "out/../..//" ++ (a.package ++ slash :: (stem ++ a.kind.ending)) := by
  have hpaths : (Schema.parse dotSource).toOption.map (fun s =>
      (s.artifacts ⟨"..", []⟩).toOption.map fun artifacts =>
        artifacts.map fun a => Path.join ["out/../..//", a.path]) =
      some (some (["../layout/..binary.go", "../owned/..friendly.go",
        "../owned/..serialize.go"] : List Text)) := by
    decide +kernel
  obtain ⟨s, hs, hpaths⟩ := exists_ok_of_map hpaths
  obtain ⟨artifacts, h, hpaths⟩ := exists_ok_of_map hpaths
  obtain ⟨-, -, -, hbelow⟩ := place_below_directory hs ⟨"..", []⟩ h "out/../..//"
  exact ⟨s, artifacts, hs, h, hpaths, by decide +kernel, hbelow⟩

end Project

end Schematic
