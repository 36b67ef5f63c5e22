import Schematic.Glob
import Schematic.Proofs.FileWriting
import Schematic.Proofs.SortedTexts

/-!
# Agreeing trees

Where paths lead, which patterns they match and what can be written there depends on what is where
in a tree, not on what the files hold. So two trees that differ in the content of one file answer
alike in all but the reading of that file, and keep doing so while the same is written into both.
-/

namespace Schematic

namespace FileTree

variable {t t' : FileTree} {l : Location}

/-! ## Trees of one shape -/

/-- Trees with files in the same places and directories in the same places. -/
structure Alike (t t' : FileTree) : Prop where
  workingDir : t'.workingDir = t.workingDir
  present : ∀ l, (t'.entry? l).isSome = (t.entry? l).isSome
  directory : ∀ l, t'.isDirectory l = t.isDirectory l

/-- The names in a directory are those under which there is something. -/
theorem mem_names {name : Text} :
    name ∈ t.names l ↔ (t.entry? (l ++ [name])).isSome = true := by
  rw [names, Text.mem_sortedSet, entry?, if_neg (by simp), List.lookup_isSome_iff]
  simp only [List.mem_filterMap, beq_iff_eq, Option.ite_none_right_eq_some, Bool.and_eq_true,
    decide_eq_true_eq]
  constructor
  · rintro ⟨x, hx, ⟨-, rfl⟩, hlast⟩
    exact ⟨x, hx, List.dropLast_append_getLast? name hlast⟩
  · rintro ⟨x, hx, hlocation⟩
    refine ⟨x, hx, ?_⟩
    rw [← hlocation]
    simp

namespace Alike

theorem start (h : Alike t t') (path : Text) : t'.start path = t.start path := by
  rw [FileTree.start, FileTree.start, h.workingDir]

/-- The same names lead to the same place, or stop at the same one. -/
theorem walk (h : Alike t t') (l : Location) (names : List Text) :
    t'.walk l names = t.walk l names := by
  induction names generalizing l with
  | nil => rfl
  | cons name names ih => simp only [FileTree.walk, h.directory, h.present, ih]

theorem locate (h : Alike t t') (path : Text) : t'.locate path = t.locate path := by
  rw [FileTree.locate, FileTree.locate, h.start, h.walk]

/-- What can be made anew in one tree can be made in the other. -/
theorem locateNew (h : Alike t t') (path : Text) : t'.locateNew path = t.locateNew path := by
  simp only [FileTree.locateNew, h.start, h.walk, h.directory]

/-- Both trees list the same names, in the same order. -/
theorem names (h : Alike t t') (l : Location) : t'.names l = t.names l := by
  refine (Text.increasing_sortedSet _).eq_of_mem_iff (Text.increasing_sortedSet _) fun name => ?_
  exact mem_names.trans (by rw [h.present, ← mem_names])

end Alike

end FileTree

namespace Glob

open FileTree (Alike)

variable {t t' : FileTree}

theorem within_of_alike (h : Alike t t') (cs : List Chunk) : within t' cs = within t cs := by
  funext dir
  simp only [within, h.locate, h.directory, h.names]

/-- A pattern matches the same paths: matching looks at names and directories only. -/
theorem expand_of_alike (h : Alike t t') (steps : Nat) (pattern : Text) :
    expand t' steps pattern = expand t steps pattern := by
  induction steps generalizing pattern with
  | zero => rfl
  | succ steps ih => simp only [expand, h.locate, within_of_alike h, ih]

theorem paths_of_alike (h : Alike t t') (pattern : Text) : paths t' pattern = paths t pattern :=
  expand_of_alike h _ pattern

end Glob

namespace FileTree

variable {t t' : FileTree} {l : Location} {path : Text}

/-! ## Trees that differ in one file -/

/-- Trees of one shape whose files hold the same, but for what is at one location. -/
structure AgreesBut (l : Location) (t t' : FileTree) : Prop extends Alike t t' where
  entry : ∀ m, m ≠ l → t'.entry? m = t.entry? m

/-- What an operation makes of trees that agree: trees that agree, or the same error. -/
inductive ResultsAgree (l : Location) :
    Except FileError FileTree → Except FileError FileTree → Prop where
  | ok {t t' : FileTree} (h : AgreesBut l t t') : ResultsAgree l (.ok t) (.ok t')
  | error (e : FileError) : ResultsAgree l (.error e) (.error e)

/-- A file that is there can be given any content. -/
theorem agreesBut_put {content : Text} (h : t.entry? l = some (.file content)) (other : Text) :
    AgreesBut l t (t.put l (.file other)) := by
  have hroot : l ≠ [] := by
    rintro rfl
    exact absurd h (by simp [ entry?])
  have hentry (m : Location) : entry? (t.put l (.file other)) m =
      if m = l then some (.file other) else t.entry? m := by
    by_cases hm : m = []
    · rw [hm, if_neg hroot.symm]
      rfl
    · exact entry?_put t _ hm
  refine ⟨⟨rfl, fun m => ?_, fun m => ?_⟩, fun m hm => by rw [hentry, if_neg hm]⟩
  · rw [hentry]
    split
    · rename_i hm
      rw [hm, h]
      rfl
    · rfl
  · rw [isDirectory, isDirectory, hentry]
    split
    · rename_i hm
      rw [hm, h]
      rfl
    · rfl

namespace AgreesBut

/-- Trees keep agreeing while the same is put into both. -/
theorem put (h : AgreesBut l t t') (m : Location) (e : Entry) :
    AgreesBut l (t.put m e) (t'.put m e) := by
  have hentry {k : Location} (hk : k ≠ []) (t : FileTree) := entry?_put (l := m) t e hk
  refine ⟨⟨h.workingDir, fun k => ?_, fun k => ?_⟩, fun k hkl => ?_⟩
  · by_cases hk : k = []
    · rw [hk]
      rfl
    · rw [hentry hk, hentry hk]
      split
      · rfl
      · exact h.present k
  · by_cases hk : k = []
    · rw [hk, isDirectory_root, isDirectory_root]
    · rw [isDirectory, isDirectory, hentry hk, hentry hk]
      split
      · rfl
      · exact h.directory k
  · by_cases hk : k = []
    · rw [hk]
      rfl
    · rw [hentry hk, hentry hk, h.entry k hkl]

/-- Only a path to the one file is read differently. -/
theorem read (h : AgreesBut l t t') (hpath : t.locate path ≠ .ok l) :
    t'.read path = t.read path := by
  rw [FileTree.read, FileTree.read, h.locate]
  cases hlocate : t.locate path with
  | error fault => rfl
  | ok m =>
      have hm : m ≠ l := by
        rintro rfl
        exact hpath hlocate
      simp only [h.entry m hm]

theorem write (h : AgreesBut l t t') (path content : Text) :
    ResultsAgree l (t.write path content) (t'.write path content) := by
  simp only [FileTree.write, h.locate, h.locateNew, h.directory]
  split
  · split
    · exact .error _
    · exact .ok (h.put _ _)
  · split
    · exact .ok (h.put _ _)
    · exact .error _
  · exact .error _

theorem makeDirectory (h : AgreesBut l t t') (path : Text) :
    ResultsAgree l (t.makeDirectory path) (t'.makeDirectory path) := by
  simp only [FileTree.makeDirectory, h.locate, h.locateNew, h.directory]
  split
  · split
    · exact .ok h
    · exact .error _
  · split
    · exact .ok (h.put _ _)
    · exact .error _

/-- Directories are made in both trees, one inside the other, up to the same fault if there is one.
-/
theorem makeDirectories (h : AgreesBut l t t') (path : Text) :
    ResultsAgree l (t.makeDirectories path) (t'.makeDirectories path) := by
  have hsteps (paths : List Text) {t t' : FileTree} (h : AgreesBut l t t') :
      ResultsAgree l (paths.foldlM FileTree.makeDirectory t)
        (paths.foldlM FileTree.makeDirectory t') := by
    induction paths generalizing t t' with
    | nil => exact .ok h
    | cons p paths ih =>
        rw [List.foldlM_cons, List.foldlM_cons]
        generalize hx : t.makeDirectory p = x
        generalize hx' : t'.makeDirectory p = x'
        have hp := h.makeDirectory p
        rw [hx, hx'] at hp
        cases hp with
        | ok hmade => exact ih hmade
        | error e => exact .error e
  exact hsteps _ h

end AgreesBut

end FileTree

end Schematic
