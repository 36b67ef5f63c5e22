import Mathlib.Data.List.Basic
import Schematic.Path
import Schematic.Proofs.Pieces

/-!
# Clean paths

Cleaning looks at the elements of a path one after the other, so names put behind a path stand
behind its cleaned elements. Main statement: a path joined to a directory is the cleaned directory
followed by the names of the path, and taking it apart gives these names back.
-/

namespace Schematic.Path

/-- A name that leads one step down. -/
structure IsName (name : Text) : Prop where
  nonempty : name ≠ []
  noSlash : slash ∉ name
  notHere : name ≠ "."
  notBack : name ≠ ".."

/-! ## Elements -/

/-- The elements on both sides of a slash are the elements of the whole. -/
theorem elements_append (p q : Text) : elements (p ++ slash :: q) = elements p ++ elements q := by
  rw [elements, Text.splitOn_append, List.filter_append]
  rfl

theorem IsName.elements_eq {name : Text} (h : IsName name) : elements name = [name] := by
  rw [elements, Text.splitOn_of_not_mem h.noSlash]
  simp [h.nonempty, h.notHere]

/-- An element of a path has no slash in it and is not empty. -/
theorem mem_elements {p e : Text} (h : e ∈ elements p) : slash ∉ e ∧ e ≠ [] := by
  obtain ⟨hpiece, hkept⟩ := List.mem_filter.mp h
  refine ⟨Text.not_mem_of_mem_splitOn hpiece, ?_⟩
  rintro rfl
  exact absurd hkept (by simp)

/-! ## Cleaning -/

theorem mem_enter {rooted : Bool} {taken : List Text} {e x : Text} (h : x ∈ enter rooted taken e) :
    x = e ∨ x ∈ taken := by
  unfold enter at h
  repeat' split at h
  all_goals simp_all

theorem mem_foldl_enter {rooted : Bool} {es taken : List Text} {x : Text}
    (h : x ∈ es.foldl (enter rooted) taken) : x ∈ es ∨ x ∈ taken := by
  induction es generalizing taken with
  | nil => exact .inr h
  | cons e es ih =>
      rcases ih h with hes | htaken
      · exact .inl (List.mem_cons_of_mem e hes)
      · rcases mem_enter htaken with rfl | htaken
        · exact .inl List.mem_cons_self
        · exact .inr htaken

/-- Cleaning makes up no element. -/
theorem mem_cleanElements {p x : Text} (h : x ∈ cleanElements p) : x ∈ elements p := by
  rcases mem_foldl_enter (List.mem_reverse.mp h) with h | h
  · exact h
  · exact absurd h List.not_mem_nil

/-- Names other than ".." are entered one below the other. -/
theorem foldl_enter_names {rooted : Bool} {names taken : List Text}
    (h : ∀ name ∈ names, name ≠ "..") :
    names.foldl (enter rooted) taken = names.reverse ++ taken := by
  induction names generalizing taken with
  | nil => rfl
  | cons name names ih =>
      have hname : enter rooted taken name = name :: taken := if_neg (h name List.mem_cons_self)
      rw [List.foldl_cons, hname, ih fun other hother => h other (List.mem_cons_of_mem _ hother)]
      simp

/-- Names at the end of a path stay at the end of its cleaned form. -/
theorem cleanElements_eq_append {p q : Text} {names : List Text}
    (hstart : isAbsolute q = isAbsolute p) (helements : elements q = elements p ++ names)
    (hnames : ∀ name ∈ names, name ≠ "..") : cleanElements q = cleanElements p ++ names := by
  rw [cleanElements, hstart, helements, List.foldl_append, foldl_enter_names hnames,
    List.reverse_append, List.reverse_reverse]
  rfl

/-- What a path starts with when it starts at the root. -/
def root (p : Text) : Text :=
  if isAbsolute p then [slash] else []

theorem joined_ne_nil {names : List Text} (hne : names ≠ []) (h : ∀ name ∈ names, name ≠ []) :
    Text.join [slash] names ≠ [] := by
  cases names with
  | nil => exact absurd rfl hne
  | cons name names =>
      have hname := h name List.mem_cons_self
      cases names with
      | nil => exact hname
      | cons next names => simp [Text.join, hname]

/-- Unless nothing is left of it, a cleaned path is its root with its elements between slashes. -/
theorem clean_eq {p : Text} (h : cleanElements p ≠ []) :
    clean p = root p ++ Text.join [slash] (cleanElements p) := by
  have hjoined : Text.join [slash] (cleanElements p) ≠ [] :=
    joined_ne_nil h fun _ he => (mem_elements (mem_cleanElements he)).2
  rw [clean, root]
  split
  · rfl
  · simp [hjoined]

/-! ## Joining -/

theorem isAbsolute_append {p : Text} (h : p ≠ []) (q : Text) :
    isAbsolute (p ++ q) = isAbsolute p := by
  cases p with
  | nil => exact absurd rfl h
  | cons b p => rfl

theorem IsName.isAbsolute_eq {name : Text} (h : IsName name) : isAbsolute name = false := by
  obtain ⟨b, rest, rfl⟩ := List.exists_cons_of_ne_nil h.nonempty
  have hb : b ≠ slash := fun hb => h.noSlash (hb ▸ List.mem_cons_self)
  simpa [isAbsolute] using hb

theorem IsName.cleanElements_eq {name : Text} (h : IsName name) : cleanElements name = [name] :=
  cleanElements_eq_append (p := []) h.isAbsolute_eq h.elements_eq (by simpa using h.notBack)

/-- A path joined to a directory is the cleaned directory followed by the names of the path. -/
theorem join_eq {dir p : Text} {names : List Text} (hp : elements p = names) (hne : names ≠ [])
    (hnames : ∀ name ∈ names, name ≠ "..") (hrelative : dir = [] → isAbsolute p = false) :
    join [dir, p] = root dir ++ Text.join [slash] (cleanElements dir ++ names) := by
  have hnonempty : p ≠ [] := by
    rintro rfl
    exact hne hp.symm
  by_cases hdir : dir = []
  · have hclean : cleanElements p = cleanElements dir ++ names := by
      rw [hdir]
      refine cleanElements_eq_append (hrelative hdir) ?_ hnames
      rw [hp]
      rfl
    have hroot : root p = root dir := by
      rw [root, root, hrelative hdir, hdir]
      rfl
    have hjoin : join [dir, p] = clean p := by simp [join, hdir, hnonempty, Text.join]
    rw [hjoin, clean_eq (by simp [hclean, hne]), hroot, hclean]
  · have hstart : isAbsolute (dir ++ slash :: p) = isAbsolute dir := isAbsolute_append hdir _
    have hclean : cleanElements (dir ++ slash :: p) = cleanElements dir ++ names :=
      cleanElements_eq_append hstart (by rw [elements_append, hp]) hnames
    have hroot : root (dir ++ slash :: p) = root dir := by rw [root, root, hstart]
    have hjoin : join [dir, p] = clean (dir ++ slash :: p) := by
      simp [join, hdir, hnonempty, Text.join]
    rw [hjoin, clean_eq (by simp [hclean, hne]), hroot, hclean]

/-! ## Paths of names -/

/-- A path that leads down from wherever it starts. -/
structure Spells (p : Text) (names : List Text) : Prop where
  relative : isAbsolute p = false
  elements : elements p = names
  nonempty : names ≠ []
  isName : ∀ name ∈ names, IsName name

theorem isAbsolute_join {names : List Text} (h : ∀ name ∈ names, slash ∉ name ∧ name ≠ []) :
    isAbsolute (Text.join [slash] names) = false := by
  cases names with
  | nil => rfl
  | cons name names =>
      obtain ⟨hslash, hname⟩ := h name List.mem_cons_self
      obtain ⟨b, rest, rfl⟩ := List.exists_cons_of_ne_nil hname
      have hb : b ≠ slash := fun hb => hslash (hb ▸ List.mem_cons_self)
      cases names <;> simpa [Text.join, isAbsolute] using hb

theorem spells_append {package file : Text} (hpackage : IsName package) (hfile : IsName file) :
    Spells (package ++ slash :: file) [package, file] where
  relative := by rw [isAbsolute_append hpackage.nonempty, hpackage.isAbsolute_eq]
  elements := by rw [elements_append, hpackage.elements_eq, hfile.elements_eq]; rfl
  nonempty := List.cons_ne_nil _ _
  isName := by
    intro name hname
    rcases List.mem_cons.mp hname with rfl | hname
    · exact hpackage
    · exact List.mem_singleton.mp hname ▸ hfile

namespace Spells

variable {p : Text} {names : List Text}

theorem join_eq (h : Spells p names) (dir : Text) :
    join [dir, p] = root dir ++ Text.join [slash] (cleanElements dir ++ names) :=
  Path.join_eq h.elements h.nonempty (fun name hname => (h.isName name hname).notBack)
    fun _ => h.relative

theorem mem_append (h : Spells p names) {dir name : Text}
    (hname : name ∈ cleanElements dir ++ names) : slash ∉ name ∧ name ≠ [] := by
  rcases List.mem_append.mp hname with hname | hname
  · exact mem_elements (mem_cleanElements hname)
  · exact ⟨(h.isName name hname).noSlash, (h.isName name hname).nonempty⟩

/-- Joining below a directory keeps whether the path is absolute. -/
theorem isAbsolute_join (h : Spells p names) (dir : Text) :
    isAbsolute (join [dir, p]) = isAbsolute dir := by
  have hnames : isAbsolute (Text.join [slash] (cleanElements dir ++ names)) = false :=
    Path.isAbsolute_join fun _ => h.mem_append
  rw [h.join_eq, root]
  cases isAbsolute dir with
  | true => rfl
  | false => exact hnames

/-- Taking apart a path joined to a directory gives what leads to the directory, and the names. -/
theorem splitOn_join (h : Spells p names) (dir : Text) :
    Text.splitOn slash (join [dir, p]) =
      ((if isAbsolute dir then [[]] else []) ++ cleanElements dir) ++ names := by
  have hpieces : Text.splitOn slash (Text.join [slash] (cleanElements dir ++ names)) =
      cleanElements dir ++ names :=
    Text.splitOn_join (by simp [h.nonempty]) fun _ hname => (h.mem_append hname).1
  rw [h.join_eq, root, List.append_assoc]
  cases isAbsolute dir with
  | true => exact (Text.splitOn_append slash [] _).trans (congrArg ([[]] ++ ·) hpieces)
  | false => exact hpieces

theorem join_ne_nil (h : Spells p names) (dir : Text) : join [dir, p] ≠ [] := by
  have hnames : Text.join [slash] (cleanElements dir ++ names) ≠ [] :=
    joined_ne_nil (by simp [h.nonempty]) fun _ hname => (h.mem_append hname).2
  rw [h.join_eq]
  exact List.append_ne_nil_of_right_ne_nil _ hnames

end Spells

end Schematic.Path
