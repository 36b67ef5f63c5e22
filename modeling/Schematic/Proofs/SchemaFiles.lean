import Schematic.Proofs.AgreeingTrees
import Schematic.Proofs.Delivery

/-!
# Schema files

The patterns of a configuration are expanded one after the other, and what they find is sorted into
a set. Main statement: if every pattern finds something, the schema files are the strictly
increasing list of all that is found. So the order of the patterns and their repetition change
neither the files nor what a run makes of them.
-/

namespace Schematic

namespace Glob

/-- A pattern is well formed, and a path matches it. -/
def Finds (t : FileTree) (pattern path : Text) : Prop :=
  ∃ found, paths t pattern = some found ∧ path ∈ found

end Glob

/-- Configurations with the same patterns, in whatever order and however often, that agree in all
else that a run asks for. -/
structure Config.Rearranges (c c' : Config) : Prop where
  schemas : ∀ pattern, pattern ∈ c'.schemas ↔ pattern ∈ c.schemas
  outputDir : c'.outputDir = c.outputDir
  writerPackage : c'.writerPackage = c.writerPackage

namespace Project

open Glob (Finds)
open FileTree (Alike AgreesBut)

variable {t t' : FileTree} {root : Text} {c c' : Config}

/-! ## Finding files -/

/-- A pattern that is accepted finds a file, and its matches are all the files that it finds. -/
theorem schemaMatches_eq_ok {pattern : Text} {found : List Text}
    (h : schemaMatches t root pattern = .ok found) :
    (∃ path, Finds t (Path.join [root, pattern]) path) ∧
      ∀ path, path ∈ found ↔ Finds t (Path.join [root, pattern]) path := by
  unfold schemaMatches at h
  split at h
  · exact absurd h (by simp)
  · exact absurd h (by simp)
  · rename_i paths hnone hpaths
    obtain rfl := Except.ok.inj h
    have hfinds (path : Text) : path ∈ paths ↔ Finds t (Path.join [root, pattern]) path := by
      simp [Finds, hpaths]
    obtain ⟨path, hpath⟩ := List.exists_mem_of_ne_nil paths hnone
    exact ⟨⟨path, (hfinds path).mp hpath⟩, hfinds⟩

theorem exists_schemaMatches {pattern path : Text}
    (h : Finds t (Path.join [root, pattern]) path) :
    ∃ found, schemaMatches t root pattern = .ok found := by
  obtain ⟨found, hfound, hpath⟩ := h
  cases found with
  | nil => exact absurd hpath List.not_mem_nil
  | cons first rest => exact ⟨first :: rest, by rw [schemaMatches, hfound]⟩

theorem mapM_schemaMatches_eq_ok {patterns : List Text} {found : List (List Text)}
    (h : patterns.mapM (schemaMatches t root) = .ok found) :
    (∀ pattern ∈ patterns, ∃ path, Finds t (Path.join [root, pattern]) path) ∧
      ∀ path, path ∈ found.flatten ↔
        ∃ pattern ∈ patterns, Finds t (Path.join [root, pattern]) path := by
  induction patterns generalizing found with
  | nil =>
      obtain rfl := Except.ok.inj h
      simp
  | cons pattern patterns ih =>
      rw [List.mapM_cons] at h
      obtain ⟨first, hfirst, h⟩ := bind_eq_ok.mp h
      obtain ⟨rest, hrest, h⟩ := bind_eq_ok.mp h
      obtain rfl := Except.ok.inj h
      obtain ⟨hmet, hmem⟩ := schemaMatches_eq_ok hfirst
      obtain ⟨hmets, hmems⟩ := ih hrest
      refine ⟨List.forall_mem_cons.mpr ⟨hmet, hmets⟩, fun path => ?_⟩
      rw [List.flatten_cons, List.mem_append, hmem, hmems, List.exists_mem_cons_iff]

theorem exists_mapM_schemaMatches {patterns : List Text}
    (h : ∀ pattern ∈ patterns, ∃ path, Finds t (Path.join [root, pattern]) path) :
    ∃ found, patterns.mapM (schemaMatches t root) = .ok found := by
  apply exists_mapM
  intro pattern hpattern
  obtain ⟨path, hpath⟩ := h pattern hpattern
  exact exists_schemaMatches hpath

/-- There are schema files just if every pattern finds something, and then they are the strictly
increasing list of what the patterns find. -/
theorem schemaFiles_eq_ok_iff {patterns files : List Text} :
    schemaFiles t root patterns = .ok files ↔
      (∀ pattern ∈ patterns, ∃ path, Finds t (Path.join [root, pattern]) path) ∧
        Text.Increasing files ∧
        ∀ path, path ∈ files ↔
          ∃ pattern ∈ patterns, Finds t (Path.join [root, pattern]) path := by
  constructor
  · intro h
    obtain ⟨found, hfound, h⟩ := bind_eq_ok.mp h
    obtain ⟨hmet, hmem⟩ := mapM_schemaMatches_eq_ok hfound
    obtain ⟨hincreasing, hfiles⟩ := Text.sortedSet_eq_iff.mp (Except.ok.inj h)
    exact ⟨hmet, hincreasing, fun path => (hfiles path).trans (hmem path)⟩
  · rintro ⟨hmet, hincreasing, hfiles⟩
    obtain ⟨found, hfound⟩ := exists_mapM_schemaMatches hmet
    obtain ⟨-, hmem⟩ := mapM_schemaMatches_eq_ok hfound
    have hsorted : Text.sortedSet found.flatten = files :=
      Text.sortedSet_eq_iff.mpr ⟨hincreasing, fun path => (hfiles path).trans (hmem path).symm⟩
    rw [schemaFiles, hfound, ← hsorted]
    rfl

/-- A rearranged list of patterns finds the same schema files. -/
theorem schemaFiles_of_rearranges (h : c.Rearranges c') {files : List Text}
    (hfiles : schemaFiles t root c.schemas = .ok files) :
    schemaFiles t root c'.schemas = .ok files := by
  simp only [schemaFiles_eq_ok_iff, h.schemas] at hfiles ⊢
  exact hfiles

/-! ## Runs -/

/-- The directory and the configuration that a run goes by. -/
def configured (t : FileTree) (settings : Settings) : Except ProjectError (Text × Config) := do
  let path ← configPath t settings
  let c ← readConfig t path
  return (Path.directory path, c)

/-- The directory for the artifacts of a configuration, and the artifacts. -/
def compiledFrom (t : FileTree) (root : Text) (c : Config) :
    Except ProjectError (Text × List Artifact) := do
  let files ← schemaFiles t root c.schemas
  let artifacts ← files.mapM (compileSchema t c.writerPackage)
  return (Path.join [root, c.outputDir], artifacts.flatten)

theorem compiled_eq (t : FileTree) (settings : Settings) :
    compiled t settings = configured t settings >>= fun x => compiledFrom t x.1 x.2 := by
  simp [compiled, configured, compiledFrom]

/-- What a run does once it has its configuration. -/
def runFrom (t : FileTree) (root : Text) (c : Config) :
    FileTree × Except ProjectError (List Text) :=
  carryOut t (compiledFrom t root c >>= fun x => place x.1 x.2)

/-- Once the configuration is read, a run depends on nothing else of the settings. -/
theorem run_of_configured {settings : Settings} (h : configured t settings = .ok (root, c)) :
    run t settings = runFrom t root c := by
  rw [run, plan_eq, compiled_eq, h]
  rfl

theorem compiledFrom_of_rearranges (h : c.Rearranges c') {files : List Text}
    (hfiles : schemaFiles t root c.schemas = .ok files)
    (hfiles' : schemaFiles t' root c'.schemas = .ok files)
    (hread : ∀ file ∈ files, readSchema t' file = readSchema t file) :
    compiledFrom t' root c' = compiledFrom t root c := by
  have hcompile : files.mapM (compileSchema t' c.writerPackage) =
      files.mapM (compileSchema t c.writerPackage) :=
    mapM_congr fun file hfile => by rw [compileSchema, compileSchema, hread file hfile]
  simp only [compiledFrom, hfiles, hfiles', h.outputDir, h.writerPackage]
  change files.mapM (compileSchema t' c.writerPackage) >>= _ = _
  rw [hcompile]
  rfl

/-! ## Runs in agreeing trees -/

/-- Trees with files and directories in the same places have the same schema files. -/
theorem schemaFiles_of_alike (h : Alike t t') (root : Text) (patterns : List Text) :
    schemaFiles t' root patterns = schemaFiles t root patterns := by
  have hmatches : schemaMatches t' root = schemaMatches t root := by
    funext pattern
    rw [schemaMatches, schemaMatches, Glob.paths_of_alike h]
  rw [schemaFiles, schemaFiles, hmatches]

/-- A schema reads the same in both trees, unless it is the file in which they differ. -/
theorem readSchema_of_agreesBut {l : Location} (h : AgreesBut l t t') {file : Text}
    (hfile : t.locate file = .ok l → readSchema t' file = readSchema t file) :
    readSchema t' file = readSchema t file := by
  by_cases hl : t.locate file = .ok l
  · exact hfile hl
  · rw [readSchema, readSchema, h.read hl]

theorem write_of_agreesBut {l : Location} (h : AgreesBut l t t') (outputs : List Output) :
    AgreesBut l (write t outputs).1 (write t' outputs).1 ∧
      (write t' outputs).2 = (write t outputs).2 := by
  induction outputs generalizing t t' with
  | nil => exact ⟨h, rfl⟩
  | cons o outputs ih =>
      simp only [write]
      -- Each of the two operations fails in both trees or in none, so both runs end here or go on.
      have hmade := h.makeDirectories (Path.directory o.path)
      generalize t.makeDirectories (Path.directory o.path) = x at hmade
      generalize t'.makeDirectories (Path.directory o.path) = x' at hmade
      cases hmade with
      | error e => exact ⟨h, rfl⟩
      | @ok made made' hmade =>
          have hwritten := hmade.write o.path o.content
          dsimp only
          generalize made.write o.path o.content = y at hwritten
          generalize made'.write o.path o.content = y' at hwritten
          cases hwritten with
          | error e => exact ⟨hmade, rfl⟩
          | ok hwritten => exact ih hwritten

theorem carryOut_of_agreesBut {l : Location} (h : AgreesBut l t t')
    (plan : Except ProjectError (List Output)) :
    AgreesBut l (carryOut t plan).1 (carryOut t' plan).1 ∧
      (carryOut t' plan).2 = (carryOut t plan).2 := by
  cases plan with
  | error e => exact ⟨h, rfl⟩
  | ok outputs =>
      obtain ⟨htree, hresult⟩ := write_of_agreesBut h outputs
      refine ⟨htree, ?_⟩
      simp only [carryOut, hresult]

/-- The same run in two trees: the same artifacts for the same directory, the same paths or the same
error, and trees that agree as before. -/
structure RunsAlike (l : Location) (settings : Settings) (t t' : FileTree) : Prop where
  artifacts : compiled t' settings = compiled t settings
  result : (run t' settings).2 = (run t settings).2
  tree : AgreesBut l (run t settings).1 (run t' settings).1

theorem runsAlike_of_compiledFrom {l : Location} (h : AgreesBut l t t') {settings : Settings}
    (hc : configured t settings = .ok (root, c)) (hc' : configured t' settings = .ok (root, c'))
    (hcompiled : compiledFrom t' root c' = compiledFrom t root c) :
    RunsAlike l settings t t' := by
  obtain ⟨htree, hresult⟩ :=
    carryOut_of_agreesBut h (compiledFrom t root c >>= fun x => place x.1 x.2)
  refine ⟨?_, ?_, ?_⟩
  · rw [compiled_eq, compiled_eq, hc, hc']
    exact hcompiled
  · rw [run_of_configured hc, run_of_configured hc', runFrom, hcompiled]
    exact hresult
  · rw [run_of_configured hc, run_of_configured hc', runFrom, runFrom, hcompiled]
    exact htree

/-- If every pattern finds something, the schema files are the strictly increasing list of all that
is found. Other configurations with the same patterns have the same files, the same artifacts and
the same run, be it that a run is given another configuration or that it reads one from a tree that
agrees in all other files. The configuration may be one of the schemas itself; then both of its
texts have to be read as the same schema. -/
theorem schemaFiles_sorted_union (t : FileTree) (root : Text) (c : Config)
    (hfound : ∀ pattern ∈ c.schemas, ∃ path, Finds t (Path.join [root, pattern]) path) :
    ∃ files, schemaFiles t root c.schemas = .ok files ∧
      Text.Increasing files ∧ files.Nodup ∧
      (∀ path, path ∈ files ↔
        ∃ pattern ∈ c.schemas, Finds t (Path.join [root, pattern]) path) ∧
      ∀ c', c.Rearranges c' →
        schemaFiles t root c'.schemas = .ok files ∧
        compiledFrom t root c' = compiledFrom t root c ∧
        (∀ settings, configured t settings = .ok (root, c) →
          run t settings = runFrom t root c') ∧
        ∀ l settings t', AgreesBut l t t' →
          configured t settings = .ok (root, c) → configured t' settings = .ok (root, c') →
          (∀ file ∈ files, t.locate file = .ok l → readSchema t' file = readSchema t file) →
          RunsAlike l settings t t' := by
  obtain ⟨found, hmatches⟩ := exists_mapM_schemaMatches hfound
  have hfiles : schemaFiles t root c.schemas = .ok (Text.sortedSet found.flatten) := by
    rw [schemaFiles, hmatches]
    rfl
  obtain ⟨-, hincreasing, hmem⟩ := schemaFiles_eq_ok_iff.mp hfiles
  refine ⟨_, hfiles, hincreasing, hincreasing.nodup, hmem, fun c' hc' => ?_⟩
  have hfiles' := schemaFiles_of_rearranges hc' hfiles
  have hcompiled : compiledFrom t root c' = compiledFrom t root c :=
    compiledFrom_of_rearranges hc' hfiles hfiles' fun _ _ => rfl
  refine ⟨hfiles', hcompiled, fun settings hconfig => ?_, ?_⟩
  · rw [run_of_configured hconfig, runFrom, runFrom, hcompiled]
  · intro l settings t' htrees hconfig hconfig' hself
    refine runsAlike_of_compiledFrom htrees hconfig hconfig' ?_
    refine compiledFrom_of_rearranges hc' hfiles ?_ fun file hfile => ?_
    · rw [schemaFiles_of_alike htrees.toAlike, hfiles']
    · exact readSchema_of_agreesBut htrees (hself file hfile)

/-- A configuration whose patterns overlap. -/
def overlapText : Text :=
  "version: 1\nschemas:\n- path: \"*/*.idl\"\n- path: b/*\n"

/-- The same with the patterns the other way round, one of them twice. -/
def overlapAgainText : Text :=
  "version: 1\nschemas:\n- path: b/*\n- path: \"*/*.idl\"\n- path: b/*\n"

/-- A project of two schemas, one of which both patterns find. -/
def overlapTree : FileTree where
  entries :=
    [(["idlc.yaml"], .file overlapText), (["b"], .directory), (["a"], .directory),
      (["b", "dash.idl"], .file "binary_namespace = layout; friendly_namespace = owned;"),
      (["a", "dot.idl"], .file "binary_namespace = layout; friendly_namespace = owned;")]

/-- The project with the other configuration. -/
def overlapAgainTree : FileTree :=
  overlapTree.put ["idlc.yaml"] (.file overlapAgainText)

def overlapConfig : Config where
  version := 1
  schemas := ["*/*.idl", "b/*"]
  outputDir := "."

def overlapAgainConfig : Config where
  version := 1
  schemas := ["b/*", "*/*.idl", "b/*"]
  outputDir := "."

theorem schemaFiles_sorted_union_overlap :
    configured overlapTree ⟨[], []⟩ = .ok (".", overlapConfig) ∧
      configured overlapAgainTree ⟨[], []⟩ = .ok (".", overlapAgainConfig) ∧
      (∀ pattern ∈ overlapConfig.schemas,
        ∃ path, Finds overlapTree (Path.join [".", pattern]) path) ∧
      schemaFiles overlapTree "." overlapConfig.schemas = .ok ["a/dot.idl", "b/dash.idl"] ∧
      schemaFiles overlapTree "." overlapAgainConfig.schemas = .ok ["a/dot.idl", "b/dash.idl"] ∧
      (run overlapTree ⟨[], []⟩).2 =
        .ok ["layout/dot.binary.go", "owned/dot.friendly.go", "owned/dot.serialize.go",
          "layout/dash.binary.go", "owned/dash.friendly.go", "owned/dash.serialize.go"] ∧
      RunsAlike ["idlc.yaml"] ⟨[], []⟩ overlapTree overlapAgainTree := by
  have hconfig : configured overlapTree ⟨[], []⟩ = .ok (".", overlapConfig) := by
    decide +kernel
  have hconfig' : configured overlapAgainTree ⟨[], []⟩ = .ok (".", overlapAgainConfig) := by
    decide +kernel
  have hfiles : schemaFiles overlapTree "." overlapConfig.schemas =
      .ok ["a/dot.idl", "b/dash.idl"] := by
    decide +kernel
  have hrearranges : overlapConfig.Rearranges overlapAgainConfig := by
    refine ⟨fun pattern => ?_, rfl, rfl⟩
    simp only [overlapConfig, overlapAgainConfig, List.mem_cons, List.not_mem_nil, or_false]
    grind
  have hfound := (schemaFiles_eq_ok_iff.mp hfiles).1
  obtain ⟨files, hunion, -, -, -, hsame⟩ :=
    schemaFiles_sorted_union overlapTree "." overlapConfig hfound
  obtain rfl := Except.ok.inj (hfiles.symm.trans hunion)
  obtain ⟨hfiles', -, -, hruns⟩ := hsame overlapAgainConfig hrearranges
  refine ⟨hconfig, hconfig', hfound, hfiles, hfiles', by decide +kernel, ?_⟩
  refine hruns _ _ _ (FileTree.agreesBut_put rfl _) hconfig hconfig' ?_
  have hschemas : ∀ file ∈ (["a/dot.idl", "b/dash.idl"] : List Text),
      overlapTree.locate file ≠ .ok ["idlc.yaml"] := by
    decide +kernel
  exact fun file hfile hlocate => absurd hlocate (hschemas file hfile)

end Project

end Schematic
