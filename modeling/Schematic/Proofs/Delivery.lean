import Schematic.Project
import Schematic.Proofs.ArtifactPaths
import Schematic.Proofs.FileWriting
import Schematic.Proofs.Generation

/-!
# All outputs or none

A command on a project plans its outputs before it writes the first one, so whatever is wrong with
a configuration or a schema leaves the file tree as it was. The outputs are two names below one
directory each, so different paths lead to different places whatever the way to the directory is. No
output overwrites another one, and no other file changes.
-/

namespace Schematic

namespace FileTree

open Schematic.Path (IsName Spells)

variable {t : FileTree} {l m : Location} {p p' : Text} {names names' : List Text}

theorem walk_names (hnames : ∀ name ∈ names, IsName name) (h : t.walk l names = .ok m) :
    m = l ++ names := by
  induction names generalizing l with
  | nil =>
      rw [List.append_nil]
      exact (Except.ok.inj h).symm
  | cons name names ih =>
      obtain ⟨-, l', hname, hrest⟩ := walk_cons_eq_ok.mp h
      have hisName := hnames name List.mem_cons_self
      have hm := ih (fun other hother => hnames other (List.mem_cons_of_mem _ hother)) hrest
      cases hname with
      | here hhere => exact absurd hhere (by simp [hisName.nonempty, hisName.notHere])
      | back hback => exact absurd hback hisName.notBack
      | into _ _ _ => simpa using hm

/-- A path joined to a directory leads to the directory, and from there on by its names. -/
theorem locate_join (t : FileTree) (h : Spells p names) (dir : Text) :
    t.locate (Path.join [dir, p]) =
      t.walk (t.start dir)
          ((if Path.isAbsolute dir then [[]] else []) ++ Path.cleanElements dir) >>=
        fun d => t.walk d names := by
  have hstart : t.start (Path.join [dir, p]) = t.start dir := by
    rw [start, start, h.isAbsolute_join]
  rw [locate, if_neg (by simpa using h.join_ne_nil dir), hstart, h.splitOn_join, walk_append]

/-- Different paths of names, joined to one directory, never lead to the same place. -/
theorem join_eq_of_locate {dir : Text} (h : Spells p names) (h' : Spells p' names')
    (hl : t.locate (Path.join [dir, p]) = .ok l) (hl' : t.locate (Path.join [dir, p']) = .ok l) :
    Path.join [dir, p] = Path.join [dir, p'] := by
  rw [locate_join t h] at hl
  rw [locate_join t h'] at hl'
  obtain ⟨d, hd, hl⟩ := bind_eq_ok.mp hl
  obtain ⟨d', hd', hl'⟩ := bind_eq_ok.mp hl'
  obtain rfl := Except.ok.inj (hd.symm.trans hd')
  have hnames : d ++ names = d ++ names' := by
    rw [← walk_names h.isName hl, ← walk_names h'.isName hl']
  rw [h.join_eq, h'.join_eq, List.append_cancel_left hnames]

end FileTree

/-- Whether an error arose while outputs were written. -/
def ProjectError.isWriting : ProjectError → Bool
  | makeDirectory _ => true
  | writeOutput _ _ => true
  | _ => false

namespace Project

open FileTree (Extends)

variable {t t' : FileTree}

/-! ## Compiling -/

/-- The directory for the artifacts of a project, and the artifacts. -/
def compiled (t : FileTree) (s : Settings) : Except ProjectError (Text × List Artifact) := do
  let path ← configPath t s
  let c ← readConfig t path
  let root := Path.directory path
  let files ← schemaFiles t root c.schemas
  let artifacts ← files.mapM (compileSchema t c.writerPackage)
  return (Path.join [root, c.outputDir], artifacts.flatten)

theorem plan_eq (t : FileTree) (s : Settings) :
    plan t s = compiled t s >>= fun c => place c.1 c.2 := by
  simp [plan, compiled]

/-- The directory for the artifacts of a single schema, and the artifacts. -/
def compiledSchema (t : FileTree) (path outDir writerPackage : Text) :
    Except ProjectError (Text × List Artifact) := do
  return (outDir, ← compileSchema t writerPackage path)

theorem planSchema_eq (t : FileTree) (path outDir writerPackage : Text) :
    planSchema t path outDir writerPackage =
      compiledSchema t path outDir writerPackage >>= fun c => place c.1 c.2 := by
  simp [planSchema, compiledSchema]

/-- What is compiled came from a schema that was accepted. -/
theorem spells_of_compileSchema {writerPackage path : Text} {artifacts : List Artifact}
    (h : compileSchema t writerPackage path = .ok artifacts) {a : Artifact} (ha : a ∈ artifacts) :
    ∃ names, Path.Spells a.path names := by
  obtain ⟨s, hread, h⟩ := bind_eq_ok.mp h
  obtain ⟨source, -, hparse⟩ := bind_eq_ok.mp hread
  obtain ⟨-, h⟩ := Schema.artifacts_eq_ok_iff.mp (mapError_eq_ok.mp h)
  obtain ⟨kind, -, hgenerate⟩ := exists_of_forall₂_right (mapM_eq_ok_iff.mp h) ha
  obtain ⟨stem, hspells⟩ := Artifact.spells_path (mapError_eq_ok.mp hparse) hgenerate
  exact ⟨_, hspells⟩

theorem spells_of_compiled {s : Settings} {dir : Text} {artifacts : List Artifact}
    (h : compiled t s = .ok (dir, artifacts)) {a : Artifact} (ha : a ∈ artifacts) :
    ∃ names, Path.Spells a.path names := by
  obtain ⟨path, -, h⟩ := bind_eq_ok.mp h
  obtain ⟨c, -, h⟩ := bind_eq_ok.mp h
  obtain ⟨files, -, h⟩ := bind_eq_ok.mp h
  obtain ⟨lists, hlists, h⟩ := bind_eq_ok.mp h
  obtain ⟨-, rfl⟩ := Prod.mk.inj (Except.ok.inj h)
  obtain ⟨list, hlist, ha⟩ := List.mem_flatten.mp ha
  obtain ⟨file, -, hfile⟩ := exists_of_forall₂_right (mapM_eq_ok_iff.mp hlists) hlist
  exact spells_of_compileSchema hfile ha

/-! ## Placing -/

theorem checkPaths_eq_ok {taken : List Text} {outputs : List Output}
    (h : checkPaths taken outputs = .ok ()) :
    (outputs.map Output.path).Nodup ∧ ∀ o ∈ outputs, o.path ∉ taken := by
  induction outputs generalizing taken with
  | nil => simp
  | cons o outputs ih =>
      rw [checkPaths] at h
      split at h
      · exact absurd h (by simp)
      · rename_i hfresh
        obtain ⟨hnodup, hrest⟩ := ih h
        have ho : o.path ∉ taken := by simpa using hfresh
        refine ⟨List.nodup_cons.mpr ⟨?_, hnodup⟩, ?_⟩
        · intro hmem
          obtain ⟨o', ho', hpath⟩ := List.mem_map.mp hmem
          exact hrest o' ho' (hpath ▸ List.mem_cons_self)
        · intro o' ho'
          rcases List.mem_cons.mp ho' with rfl | ho'
          · exact ho
          · exact fun hmem => hrest o' ho' (List.mem_cons_of_mem _ hmem)

theorem place_eq_ok {dir : Text} {artifacts : List Artifact} {outputs : List Output}
    (h : place dir artifacts = .ok outputs) :
    outputs = artifacts.map (fun a => ⟨Path.join [dir, a.path], a.source⟩) ∧
      (outputs.map Output.path).Nodup := by
  obtain ⟨_, hpaths, h⟩ := bind_eq_ok.mp h
  obtain rfl := Except.ok.inj h
  exact ⟨rfl, (checkPaths_eq_ok hpaths).1⟩

/-! ## Writing -/

/-- Outputs whose paths lead to different places in every tree. -/
def Apart (o o' : Output) : Prop :=
  ∀ (t : FileTree) (l : Location), t.locate o.path = .ok l → t.locate o'.path ≠ .ok l

/-- Files that are in both trees or in none, but for those at some paths. -/
def KeepsBut (paths : List Text) (t t' : FileTree) : Prop :=
  ∀ l content, (∀ p ∈ paths, t'.locate p ≠ .ok l) →
    (t'.entry? l = some (.file content) ↔ t.entry? l = some (.file content))

theorem write_error {outputs : List Output} {e : ProjectError}
    (h : write t outputs = (t', .error e)) : e.isWriting = true := by
  induction outputs generalizing t with
  | nil => exact absurd h (by simp [write])
  | cons o outputs ih =>
      rw [write] at h
      split at h
      · obtain ⟨-, he⟩ := Prod.mk.inj h
        exact Except.error.inj he ▸ rfl
      · split at h
        · obtain ⟨-, he⟩ := Prod.mk.inj h
          exact Except.error.inj he ▸ rfl
        · exact ih h

/-- Writing outputs that are apart puts each content at its path and keeps all other files. -/
theorem write_outputs {outputs : List Output} (hpaths : ∀ o ∈ outputs, o.path ≠ [])
    (hapart : outputs.Pairwise Apart) (h : write t outputs = (t', .ok ())) :
    Extends t t' ∧ (∀ o ∈ outputs, t'.read o.path = .ok o.content) ∧
      KeepsBut (outputs.map Output.path) t t' := by
  induction outputs generalizing t with
  | nil =>
      obtain ⟨rfl, -⟩ := Prod.mk.inj h
      exact ⟨.refl t, by simp, fun _ _ _ => Iff.rfl⟩
  | cons o outputs ih =>
      rw [write] at h
      split at h
      · exact absurd h (by simp)
      rename_i made hmade
      split at h
      · exact absurd h (by simp)
      rename_i written hwritten
      have hwidens := FileTree.widens_makeDirectories hmade
      obtain ⟨l, hfree, rfl, hlocate⟩ :=
        FileTree.write_eq_ok (hpaths o List.mem_cons_self) hwritten
      obtain ⟨hothers, hapart⟩ := List.pairwise_cons.mp hapart
      obtain ⟨hextends, hread, hkeeps⟩ :=
        ih (fun o' ho' => hpaths o' (List.mem_cons_of_mem o ho')) hapart h
      have hroot : l ≠ [] := by
        rintro rfl
        exact absurd hfree (by simp [FileTree.isDirectory_root])
      have hthere : t'.locate o.path = .ok l := hextends.locate hlocate
      -- The outputs behind this one go elsewhere, so its file is still there at the end.
      have hfile : t'.entry? l = some (.file o.content) := by
        refine (hkeeps l o.content ?_).mpr ?_
        · intro p hp
          obtain ⟨o', ho', rfl⟩ := List.mem_map.mp hp
          exact hothers o' ho' t' l hthere
        · rw [FileTree.entry?_put made _ hroot, if_pos rfl]
      refine ⟨(hwidens.toExtends.trans (FileTree.extends_put hfree)).trans hextends, ?_, ?_⟩
      · intro o' ho'
        rcases List.mem_cons.mp ho' with rfl | ho'
        · simp only [FileTree.read, hthere, hfile]
        · exact hread o' ho'
      · intro m content hm
        rw [List.map_cons, List.forall_mem_cons] at hm
        have hml : m ≠ l := by
          rintro rfl
          exact hm.1 hthere
        rw [hkeeps m content hm.2, ← hwidens.file_iff]
        by_cases hmroot : m = []
        · simp [hmroot, FileTree.entry?]
        · rw [FileTree.entry?_put made _ hmroot, if_neg hml]

/-! ## Delivering -/

/-- What a command may do to a tree. What cannot be compiled and placed, and every other error that
is not one in writing, leaves it as it was. Success puts each artifact at its path, all of them
different, and keeps every other file. -/
structure Delivers (t : FileTree) (compiled : Except ProjectError (Text × List Artifact))
    (outcome : FileTree × Except ProjectError (List Text)) : Prop where
  refused : ∀ e, (compiled >>= fun c => place c.1 c.2) = .error e → outcome = (t, .error e)
  untouched : ∀ e, outcome.2 = .error e → e.isWriting = false → outcome.1 = t
  delivered : ∀ paths, outcome.2 = .ok paths →
    ∃ dir artifacts, compiled = .ok (dir, artifacts) ∧
      paths = artifacts.map (fun a => Path.join [dir, a.path]) ∧ paths.Nodup ∧
      (∀ a ∈ artifacts, outcome.1.read (Path.join [dir, a.path]) = .ok a.source) ∧
      KeepsBut paths t outcome.1

/-- Different paths of artifacts in one directory are apart. -/
theorem pairwise_apart {dir : Text} {artifacts : List Artifact}
    (hspells : ∀ a ∈ artifacts, ∃ names, Path.Spells a.path names)
    (hnodup : (artifacts.map fun a => Path.join [dir, a.path]).Nodup) :
    (artifacts.map fun a => Output.mk (Path.join [dir, a.path]) a.source).Pairwise Apart := by
  rw [List.pairwise_map]
  refine (List.pairwise_map.mp hnodup).imp_of_mem ?_
  intro a a' ha ha' hne t l hl hl'
  obtain ⟨names, hnames⟩ := hspells a ha
  obtain ⟨names', hnames'⟩ := hspells a' ha'
  exact hne (FileTree.join_eq_of_locate hnames hnames' hl hl')

theorem delivers_write {dir : Text} {artifacts : List Artifact}
    (hspells : ∀ a ∈ artifacts, ∃ names, Path.Spells a.path names)
    (hnodup : (artifacts.map fun a => Path.join [dir, a.path]).Nodup)
    (h : write t (artifacts.map fun a => ⟨Path.join [dir, a.path], a.source⟩) = (t', .ok ())) :
    (∀ a ∈ artifacts, t'.read (Path.join [dir, a.path]) = .ok a.source) ∧
      KeepsBut (artifacts.map fun a => Path.join [dir, a.path]) t t' := by
  have hpaths : ∀ o ∈ artifacts.map (fun a => Output.mk (Path.join [dir, a.path]) a.source),
      o.path ≠ [] := by
    intro o ho
    obtain ⟨a, ha, rfl⟩ := List.mem_map.mp ho
    obtain ⟨names, hnames⟩ := hspells a ha
    exact hnames.join_ne_nil dir
  obtain ⟨-, hread, hkeeps⟩ := write_outputs hpaths (pairwise_apart hspells hnodup) h
  refine ⟨fun a ha => hread _ (List.mem_map_of_mem ha), ?_⟩
  rwa [List.map_map] at hkeeps

theorem delivers_carryOut {compiled : Except ProjectError (Text × List Artifact)}
    (hspells : ∀ {dir artifacts}, compiled = .ok (dir, artifacts) →
      ∀ a ∈ artifacts, ∃ names, Path.Spells a.path names) :
    Delivers t compiled (carryOut t (compiled >>= fun c => place c.1 c.2)) := by
  cases hplan : compiled >>= fun c => place c.1 c.2 with
  | error e =>
      refine ⟨fun e' he' => ?_, fun _ _ _ => rfl, fun paths h => absurd h (by simp [carryOut])⟩
      rw [Except.error.inj (hplan.symm.trans he')]
      rfl
  | ok outputs =>
      obtain ⟨⟨dir, artifacts⟩, hcompiled, hplace⟩ := bind_eq_ok.mp hplan
      obtain ⟨rfl, hnodup⟩ := place_eq_ok hplace
      rw [List.map_map] at hnodup
      cases hwrite : write t (artifacts.map fun a => ⟨Path.join [dir, a.path], a.source⟩) with
      | mk t' result =>
          simp only [carryOut, hwrite]
          cases result with
          | error e =>
              refine ⟨fun e' he' => absurd (hplan.symm.trans he') (by simp), ?_,
                fun paths h => absurd h (by simp [Except.map])⟩
              intro e' he' hwriting
              obtain rfl := Except.error.inj he'
              rw [write_error hwrite] at hwriting
              exact absurd hwriting (by simp)
          | ok _ =>
              refine ⟨fun e he => absurd (hplan.symm.trans he) (by simp),
                fun e he => absurd he (by simp [Except.map]), fun paths hpaths => ?_⟩
              obtain ⟨hread, hkeeps⟩ := delivers_write (hspells hcompiled) hnodup hwrite
              have hpaths : paths = artifacts.map fun a => Path.join [dir, a.path] := by
                rw [← Except.ok.inj hpaths, List.map_map]
                rfl
              rw [hpaths]
              exact ⟨dir, artifacts, hcompiled, rfl, hnodup, hread, hkeeps⟩

/-- Compiling a project or a single schema writes all of its artifacts, or fails in writing them, or
leaves every file as it was. -/
theorem run_and_compile_deliver (t : FileTree) :
    (∀ settings, Delivers t (compiled t settings) (run t settings)) ∧
      ∀ path outDir writerPackage,
        Delivers t (compiledSchema t path outDir writerPackage)
          (compile t path outDir writerPackage) := by
  constructor
  · intro settings
    rw [run, plan_eq]
    exact delivers_carryOut fun h a ha => spells_of_compiled h ha
  · intro path outDir writerPackage
    rw [compile, planSchema_eq]
    apply delivers_carryOut
    intro dir artifacts h a ha
    obtain ⟨list, hlist, h⟩ := bind_eq_ok.mp h
    obtain ⟨-, rfl⟩ := Prod.mk.inj (Except.ok.inj h)
    exact spells_of_compileSchema hlist ha

/-- A tree with a schema, an output from an earlier run and no configuration. -/
def workTree : FileTree where
  entries :=
    [(["dot.idl"], .file "binary_namespace = layout; friendly_namespace = owned;"),
      (["out"], .directory), (["out", "layout"], .directory),
      (["out", "layout", "dot.binary.go"], .file "old")]

theorem run_and_compile_deliver_work :
    (run workTree ⟨[], []⟩).1 = workTree ∧
      ∃ dir artifacts,
        compiledSchema workTree "dot.idl" "out" [] = .ok (dir, artifacts) ∧
        (compile workTree "dot.idl" "out" []).2 =
          .ok (artifacts.map fun a => Path.join [dir, a.path]) ∧
        artifacts.length = 3 ∧
        (∀ a ∈ artifacts, (compile workTree "dot.idl" "out" []).1.read
          (Path.join [dir, a.path]) = .ok a.source) ∧
        KeepsBut (artifacts.map fun a => Path.join [dir, a.path]) workTree
          (compile workTree "dot.idl" "out" []).1 := by
  have hrun : ∃ e, (run workTree ⟨[], []⟩).2 = .error e ∧ e.isWriting = false :=
    ⟨.noConfig [], rfl, rfl⟩
  have hcompile : (compile workTree "dot.idl" "out" []).2.toOption.map List.length = some 3 := by
    decide +kernel
  obtain ⟨e, he, hwriting⟩ := hrun
  refine ⟨((run_and_compile_deliver workTree).1 ⟨[], []⟩).untouched e he hwriting, ?_⟩
  cases hresult : (compile workTree "dot.idl" "out" []).2 with
  | error e =>
      rw [hresult] at hcompile
      exact absurd hcompile (by simp [Except.toOption])
  | ok paths =>
      rw [hresult] at hcompile
      obtain ⟨dir, artifacts, hcompiled, rfl, -, hread, hkeeps⟩ :=
        ((run_and_compile_deliver workTree).2 "dot.idl" "out" []).delivered paths hresult
      refine ⟨dir, artifacts, hcompiled, rfl, ?_, hread, hkeeps⟩
      simpa [Except.toOption] using hcompile

end Project

end Schematic
