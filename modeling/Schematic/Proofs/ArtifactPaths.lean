import Mathlib.Data.List.TakeWhile
import Schematic.Artifact
import Schematic.Proofs.Acceptance
import Schematic.Proofs.CleanPaths
import Schematic.Proofs.FullNames
import Schematic.Proofs.Linked

/-!
# Paths of artifacts

The namespaces of a schema are identifiers, and whatever a schema is called the names of its files
end alike. So the path of an artifact is always two names, one inside the other.
-/

namespace Schematic

/-! ## Namespaces -/

namespace Schema

/-- A name that the schema gives to one of its packages. -/
def IsPackage (s : Schema) (name : Text) : Prop :=
  s.binaryNamespace = some name ∨ s.friendlyNamespace = some name

end Schema

namespace Grammar.Item

theorem isTypeName_of_buildsAll {items : List Item} (spelled : ∀ item ∈ items, item.IsSpelled)
    {k : Known} {s built : Schema} (h : BuildsAll k s items built)
    (hs : ∀ name, s.IsPackage name → IsTypeName name) (name : Text)
    (hname : built.IsPackage name) : IsTypeName name := by
  induction items generalizing k s with
  | nil =>
      obtain rfl : built = s := h
      exact hs name hname
  | cons item items ih =>
      obtain ⟨mid, hmid, h⟩ := h
      refine ih (fun item' hitem' => spelled item' (List.mem_cons_of_mem _ hitem')) h ?_
      intro other hother
      cases item with
      | struct d =>
          obtain ⟨st, -, rfl⟩ := hmid
          exact hs other hother
      | directive side word =>
          have hword : IsTypeName word := spelled _ List.mem_cons_self
          obtain rfl : mid = setNamespace s word side := hmid
          -- One of the two names is the one of the directive, the other one is as before.
          cases side with
          | binary =>
              rcases hother with hother | hother
              · exact Option.some.inj hother ▸ hword
              · exact hs other (.inr hother)
          | friendly =>
              rcases hother with hother | hother
              · exact hs other (.inl hother)
              · exact Option.some.inj hother ▸ hword

end Grammar.Item

namespace Schema

theorem isIdentifier_of_parse {source : Text} {s : Schema} (h : parse source = .ok s) {name : Text}
    (hname : s.IsPackage name) : Text.isIdentifier name = true := by
  obtain ⟨tokens, s₀, -, hread, hlink, -⟩ := parse_eq_ok_iff.mp h
  obtain ⟨structs, -, hs⟩ := bind_eq_ok.mp hlink
  obtain rfl := Except.ok.inj hs
  obtain ⟨file, derives⟩ := Reader.exists_derives_of_read hread
  obtain ⟨-, builds⟩ := Reader.builds_of_read hread derives
  refine (Grammar.Item.isTypeName_of_buildsAll derives.1 builds ?_ name hname).1
  rintro other (hother | hother) <;> exact absurd hother (by simp)

end Schema

namespace Path

/-- An identifier has no slash and no dot. -/
theorem isName_of_isIdentifier {name : Text} (h : Text.isIdentifier name = true) : IsName name where
  nonempty := by
    rintro rfl
    exact absurd h (by decide)
  noSlash := Text.not_mem_of_isIdentifier (by decide) rfl h
  notHere := by
    rintro rfl
    exact absurd h (by decide)
  notBack := by
    rintro rfl
    exact absurd h (by decide)

/-! ## Names of files -/

theorem slash_not_mem_afterLastSlash (p : Text) : slash ∉ afterLastSlash p := by
  intro h
  have hslash := List.mem_takeWhile_imp (List.mem_reverse.mp h)
  simp at hslash

theorem base_cases (p : Text) : base p = [slash] ∨ slash ∉ base p := by
  unfold base
  split
  · exact .inr (by decide)
  · dsimp only
    split
    · exact .inl rfl
    · exact .inr (slash_not_mem_afterLastSlash _)

end Path

namespace Artifact

open Schematic.Path

/-- What the name of a file ends with. -/
def Kind.ending (kind : Kind) : Text :=
  Text.concat [".", kind.name, ".go"]

theorem Kind.isName_append_ending (kind : Kind) {stem : Text} (h : slash ∉ stem) :
    IsName (stem ++ kind.ending) := by
  have hslash : slash ∉ kind.ending := by cases kind <;> decide
  have hlength : 2 < (stem ++ kind.ending).length := by
    have hending : 2 < kind.ending.length := by cases kind <;> decide
    rw [List.length_append]
    omega
  refine ⟨?_, ?_, ?_, ?_⟩
  · intro hnil
    rw [hnil] at hlength
    exact absurd hlength (by decide)
  · rw [List.mem_append, not_or]
    exact ⟨h, hslash⟩
  · intro hhere
    rw [hhere] at hlength
    exact absurd hlength (by decide)
  · intro hback
    rw [hback] at hlength
    exact absurd hlength (by decide)

/-- The name of a file says what it holds; a source that is nothing but slashes gives no more. -/
theorem Options.elements_fileName (o : Options) (kind : Kind) :
    ∃ stem, slash ∉ stem ∧ elements (o.fileName kind) = [stem ++ kind.ending] := by
  have hname : o.fileName kind = dropExtension (base o.sourceName) ++ kind.ending := rfl
  rcases base_cases o.sourceName with hbase | hbase
  · refine ⟨[], List.not_mem_nil, ?_⟩
    have hending := (kind.isName_append_ending List.not_mem_nil).elements_eq
    rw [hname, hbase]
    change elements ([] ++ slash :: kind.ending) = _
    rw [elements_append, ← List.nil_append kind.ending, hending]
    rfl
  · have hstem : slash ∉ dropExtension (base o.sourceName) :=
      fun h => hbase (List.mem_of_mem_take h)
    exact ⟨_, hstem, by rw [hname, (kind.isName_append_ending hstem).elements_eq]⟩

/-! ## Places -/

theorem package_of_generate {s : Schema} {options : Options} {kind : Kind} {a : Artifact}
    (h : generate s options kind = .ok a) :
    s.IsPackage a.package ∧ a.fileName = options.complete.fileName kind := by
  obtain ⟨package, hpackage, h⟩ := bind_eq_ok.mp h
  obtain ⟨source, -, h⟩ := bind_eq_ok.mp h
  obtain rfl := Except.ok.inj h
  refine ⟨?_, rfl⟩
  unfold packageOf at hpackage
  split at hpackage
  · cases hnamespace : s.binaryNamespace with
    | none => simp [hnamespace] at hpackage
    | some name =>
        rw [hnamespace] at hpackage
        exact .inl (hnamespace.trans (congrArg some (Except.ok.inj hpackage)))
  · cases hnamespace : s.friendlyNamespace with
    | none => simp [hnamespace] at hpackage
    | some name =>
        rw [hnamespace] at hpackage
        exact .inr (hnamespace.trans (congrArg some (Except.ok.inj hpackage)))

theorem path_eq {a : Artifact} {file : Text} (hpackage : IsName a.package) (hfile : IsName file)
    (hname : elements a.fileName = [file]) : a.path = a.package ++ slash :: file := by
  have hroot : root a.package = [] := by rw [root, hpackage.isAbsolute_eq]; rfl
  have hback : ∀ name ∈ [file], name ≠ ".." := by simpa using hfile.notBack
  rw [path, join_eq hname (List.cons_ne_nil _ _) hback fun h => absurd h hpackage.nonempty, hroot,
    hpackage.cleanElements_eq]
  simp [Text.join]

/-- An artifact stands in the directory of its package, in a file that says what it holds. -/
theorem spells_path {source : Text} {s : Schema} (hs : Schema.parse source = .ok s)
    {options : Options} {kind : Kind} {a : Artifact} (h : generate s options kind = .ok a) :
    ∃ stem, Spells a.path [a.package, stem ++ kind.ending] := by
  obtain ⟨hpackage, hfile⟩ := package_of_generate h
  obtain ⟨stem, hstem, helements⟩ := options.complete.elements_fileName kind
  have hpackage := isName_of_isIdentifier (Schema.isIdentifier_of_parse hs hpackage)
  have hname := kind.isName_append_ending hstem
  refine ⟨stem, ?_⟩
  rw [path_eq hpackage hname (by rw [hfile, helements])]
  exact spells_append hpackage hname

end Artifact

end Schematic
