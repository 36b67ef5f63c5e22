import Mathlib.Data.List.Basic
import Schematic.FileTree
import Schematic.Proofs.Pieces
import Schematic.Proofs.Sequences

/-!
# Writing into a file tree

Making directories and writing files only ever adds to what can be gone through: a directory stays
one, and where something is, something stays. So a path that leads to a location keeps leading
there. Making directories touches no file, and writing a file touches no other.
-/

namespace Schematic.FileTree

variable {t t' : FileTree} {l m : Location} {path : Text}

/-! ## Entries -/

/-- A file put somewhere is found there, and every other entry as before. -/
theorem entry?_put (t : FileTree) (e : Entry) (h : m ≠ []) :
    entry? (t.put l e) m = if m = l then some e else t.entry? m := by
  have hfilter (hm : m ≠ l) (entries : List (Location × Entry)) :
      (entries.filter fun x => x.1 ≠ l).lookup m = entries.lookup m := by
    induction entries with
    | nil => rfl
    | cons entry entries ih =>
        obtain ⟨k, e⟩ := entry
        by_cases hk : k = l
        · have hmk : (m == k) = false := beq_eq_false_iff_ne.mpr (hk ▸ hm)
          rw [List.filter_cons_of_neg (by simpa using hk), ih, List.lookup_cons, hmk]
        · rw [List.filter_cons_of_pos (by simpa using hk), List.lookup_cons, List.lookup_cons, ih]
  rw [ entry?, entry?, if_neg h, if_neg h, put, List.lookup_cons]
  by_cases hm : m = l
  · rw [if_pos hm, beq_iff_eq.mpr hm]
  · rw [if_neg hm, beq_eq_false_iff_ne.mpr hm]
    exact hfilter hm t.entries

theorem isDirectory_root (t : FileTree) : t.isDirectory [] = true := by
  simp [isDirectory, entry?]

/-! ## Going through a tree -/

/-- Where one name leads from a location. -/
inductive Enters (t : FileTree) (l : Location) (name : Text) : Location → Prop where
  | here (h : (name.isEmpty || name = ".") = true) : Enters t l name l
  | back (h : name = "..") : Enters t l name l.dropLast
  | into (h : (name.isEmpty || name = ".") = false) (hback : name ≠ "..")
      (present : (t.entry? (l ++ [name])).isSome = true) : Enters t l name (l ++ [name])

theorem walk_cons_eq_ok {name : Text} {names : List Text} :
    t.walk l (name :: names) = .ok m ↔
      t.isDirectory l = true ∧ ∃ l', t.Enters l name l' ∧ t.walk l' names = .ok m := by
  constructor
  · intro h
    rw [walk] at h
    split at h
    · exact absurd h (by simp)
    rename_i hdirectory
    refine ⟨by simpa using hdirectory, ?_⟩
    split at h
    · exact ⟨l, .here ‹_›, h⟩
    rename_i hhere
    split at h
    · exact ⟨_, .back ‹_›, h⟩
    rename_i hback
    split at h
    · exact ⟨_, .into (Bool.not_eq_true _ ▸ hhere) hback ‹_›, h⟩
    · exact absurd h (by simp)
  · rintro ⟨hdirectory, l', hname, h⟩
    rw [walk, hdirectory]
    cases hname with
    | here hhere => rw [if_neg (by simp), if_pos hhere, h]
    | back hback =>
        rw [hback, if_neg (by simp), if_neg (by decide), if_pos rfl, h]
    | into hhere hback hpresent =>
        rw [if_neg (by simp), if_neg (by simp [hhere]), if_neg hback, if_pos hpresent, h]

/-- A walk along two lists of names goes on where the first one ends. -/
theorem walk_append (t : FileTree) (l : Location) (names more : List Text) :
    t.walk l (names ++ more) = t.walk l names >>= fun m => t.walk m more := by
  induction names generalizing l with
  | nil => rfl
  | cons name names ih =>
      simp only [List.cons_append, walk, ih]
      repeat' split
      all_goals rfl

/-- A tree in which one can go wherever one could go before. -/
structure Extends (t t' : FileTree) : Prop where
  workingDir : t'.workingDir = t.workingDir
  directory : ∀ l, t.isDirectory l = true → t'.isDirectory l = true
  present : ∀ l, (t.entry? l).isSome = true → (t'.entry? l).isSome = true

namespace Extends

theorem refl (t : FileTree) : Extends t t :=
  ⟨rfl, fun _ => id, fun _ => id⟩

theorem trans {t'' : FileTree} (h : Extends t t') (h' : Extends t' t'') : Extends t t'' where
  workingDir := h'.workingDir.trans h.workingDir
  directory l hl := h'.directory l (h.directory l hl)
  present l hl := h'.present l (h.present l hl)

theorem enters (h : Extends t t') {name : Text} (hname : t.Enters l name m) :
    t'.Enters l name m := by
  cases hname with
  | here hhere => exact .here hhere
  | back hback => exact .back hback
  | into hhere hback hpresent => exact .into hhere hback (h.present _ hpresent)

/-- A walk in a tree leads to the same place in every tree that extends it. -/
theorem walk (h : Extends t t') {names : List Text} (hwalk : t.walk l names = .ok m) :
    t'.walk l names = .ok m := by
  induction names generalizing l with
  | nil => exact hwalk
  | cons name names ih =>
      obtain ⟨hdirectory, l', hname, hrest⟩ := walk_cons_eq_ok.mp hwalk
      exact walk_cons_eq_ok.mpr ⟨h.directory l hdirectory, l', h.enters hname, ih hrest⟩

theorem start (h : Extends t t') (path : Text) : t'.start path = t.start path := by
  rw [FileTree.start, FileTree.start, h.workingDir]

/-- A path found in a tree is found at the same place in every tree that extends it. -/
theorem locate (h : Extends t t') (hlocate : t.locate path = .ok l) :
    t'.locate path = .ok l := by
  rw [FileTree.locate] at hlocate ⊢
  rw [h.start]
  split at hlocate
  · exact absurd hlocate (by simp)
  · rename_i hpath
    rw [if_neg hpath]
    exact h.walk hlocate

end Extends

/-- Something put where no directory is takes no way away. -/
theorem extends_put {e : Entry} (h : t.isDirectory l = false) : Extends t (t.put l e) := by
  refine ⟨rfl, fun m hm => ?_, fun m hm => ?_⟩
  · by_cases hroot : m = []
    · rw [hroot, isDirectory_root]
    · have hml : m ≠ l := by
        rintro rfl
        rw [hm] at h
        exact absurd h (by simp)
      rw [isDirectory, entry?_put t e hroot, if_neg hml]
      exact hm
  · by_cases hroot : m = []
    · simp [hroot, entry?]
    · rw [entry?_put t e hroot]
      split
      · rfl
      · exact hm

/-! ## New entries -/

/-- Where a path leads to nothing although its directory is there, there is nothing, and the path
leads there once there is something. -/
theorem locate_put_of_locateNew {fault : FileFault} (hpath : path ≠ [])
    (hlocate : t.locate path = .error fault) (hnew : t.locateNew path = .ok l) (e : Entry) :
    t.entry? l = none ∧ (t.put l e).locate path = .ok l := by
  obtain ⟨names, last, hnames⟩ : ∃ names last, Text.splitOn Path.slash path = names ++ [last] :=
    ⟨_, _, (List.dropLast_append_getLast (Text.splitOn_ne_nil Path.slash path)).symm⟩
  have hlocates (t : FileTree) :
      t.locate path = t.walk (t.start path) names >>= fun m => t.walk m [last] := by
    rw [locate, if_neg (by simpa using hpath), hnames, walk_append]
  rw [locateNew, hnames, List.dropLast_concat, List.getLastD_concat] at hnew
  obtain ⟨d, hwalk, hnew⟩ := bind_eq_ok.mp hnew
  split at hnew
  · rename_i hdirectory
    obtain rfl := Except.ok.inj hnew
    rw [hlocates, hwalk] at hlocate
    have hlast {m : Location} (hm : t.Enters d last m) : False := by
      have hok : t.walk d [last] = .ok m := walk_cons_eq_ok.mpr ⟨hdirectory, m, hm, rfl⟩
      exact absurd (hok.symm.trans hlocate) (by simp)
    have hhere : (last.isEmpty || last = ".") = false := by
      rw [← Bool.not_eq_true]
      exact fun h => hlast (.here h)
    have hback : last ≠ ".." := fun h => hlast (.back h)
    have habsent : t.entry? (d ++ [last]) = none := by
      rw [← Option.not_isSome_iff_eq_none]
      exact fun h => hlast (.into hhere hback h)
    refine ⟨habsent, ?_⟩
    have hextends : Extends t (t.put (d ++ [last]) e) :=
      extends_put (by simp [isDirectory, habsent])
    have hput : entry? (t.put (d ++ [last]) e) (d ++ [last]) = some e := by
      rw [entry?_put t e (by simp), if_pos rfl]
    rw [hlocates, hextends.start, hextends.walk hwalk]
    exact walk_cons_eq_ok.mpr
      ⟨hextends.directory d hdirectory, _, .into hhere hback (by rw [hput]; rfl), rfl⟩
  · exact absurd hnew (by simp [throw, throwThe, MonadExceptOf.throw])

/-- A file is written where its path leads, and no directory is there. -/
theorem write_eq_ok {content : Text} (hpath : path ≠ [])
    (h : t.write path content = .ok t') :
    ∃ l, t.isDirectory l = false ∧ t' = t.put l (.file content) ∧ t'.locate path = .ok l := by
  unfold write at h
  split at h
  · rename_i l hlocate
    split at h
    · exact absurd h (by simp)
    · rename_i hdirectory
      obtain rfl := Except.ok.inj h
      rw [Bool.not_eq_true] at hdirectory
      exact ⟨l, hdirectory, rfl, (extends_put hdirectory).locate hlocate⟩
  · rename_i hlocate
    split at h
    · rename_i l hnew
      obtain rfl := Except.ok.inj h
      obtain ⟨habsent, hthere⟩ := locate_put_of_locateNew hpath hlocate hnew (.file content)
      exact ⟨l, by simp [isDirectory, habsent], rfl, hthere⟩
    · exact absurd h (by simp)
  · exact absurd h (by simp)

/-! ## Making directories -/

/-- A tree that has more directories and the same files. -/
structure Widens (t t' : FileTree) : Prop extends Extends t t' where
  file_iff : ∀ l content,
    t'.entry? l = some (.file content) ↔ t.entry? l = some (.file content)

theorem widens_makeDirectory (hpath : path ≠ []) (h : t.makeDirectory path = .ok t') :
    Widens t t' := by
  unfold makeDirectory at h
  split at h
  · split at h
    · obtain rfl := Except.ok.inj h
      exact ⟨.refl t, fun _ _ => Iff.rfl⟩
    · exact absurd h (by simp)
  · rename_i fault hlocate
    split at h
    · rename_i l hnew
      obtain rfl := Except.ok.inj h
      obtain ⟨habsent, -⟩ := locate_put_of_locateNew hpath hlocate hnew .directory
      refine ⟨extends_put (by simp [isDirectory, habsent]), fun m content => ?_⟩
      by_cases hroot : m = []
      · simp [hroot, entry?]
      · rw [entry?_put t .directory hroot]
        split
        · rename_i hm
          simp [hm, habsent]
        · rfl
    · exact absurd h (by simp)

theorem ne_nil_of_mem_along {p : Text} (h : p ∈ along path) : p ≠ [] := by
  have hp := (List.mem_filter.mp h).2
  simpa using hp

/-- Making a directory with all above it only adds directories. -/
theorem widens_makeDirectories (h : t.makeDirectories path = .ok t') : Widens t t' := by
  have hsteps (paths : List Text) (hpaths : ∀ p ∈ paths, p ≠ []) (t : FileTree)
      (h : paths.foldlM makeDirectory t = .ok t') : Widens t t' := by
    induction paths generalizing t with
    | nil =>
        obtain rfl := Except.ok.inj h
        exact ⟨.refl t, fun _ _ => Iff.rfl⟩
    | cons p paths ih =>
        rw [List.foldlM_cons] at h
        obtain ⟨t₁, hp, h⟩ := bind_eq_ok.mp h
        have hfirst := widens_makeDirectory (hpaths p List.mem_cons_self) hp
        have hrest := ih (fun p' hp' => hpaths p' (List.mem_cons_of_mem p hp')) t₁ h
        exact ⟨hfirst.toExtends.trans hrest.toExtends,
          fun l content => (hrest.file_iff l content).trans (hfirst.file_iff l content)⟩
  exact hsteps _ (fun _ => ne_nil_of_mem_along) t h

end Schematic.FileTree
