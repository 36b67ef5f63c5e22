import Mathlib.Data.List.Flatten
import Mathlib.Data.List.Perm.Basic
import Schematic.Artifact
import Schematic.Proofs.ByValue

/-!
# Names that are declared once

Structs are nested and generated code is not, so names that differ in a schema may meet in its
package. The check on a schema goes through the names of the structs, their constructors, the
enumerations and their constants. Main statement: these are the names that the owning types declare,
so the check refuses exactly the schemas that would declare one twice; and the layout declares no
more.
-/

namespace Schematic

namespace Artifact

/-- The names that an artifact adds to its package, in the order of its declarations. -/
def declaredNames (s : Schema) (o : Options) (writer : Text) (kind : Kind) : List Text :=
  (declarations s o writer kind).flatMap Code.Declaration.declared

theorem declared_of_sourceFile {s : Schema} {options : Options} {kind : Kind} {file : Code.Source}
    (h : sourceFile s options kind = .ok file) :
    ∃ writer, file.declared = declaredNames s options.complete writer kind := by
  obtain ⟨package, _, h⟩ := bind_eq_ok.mp h
  obtain rfl := Except.ok.inj h
  exact ⟨_, rfl⟩

end Artifact

namespace Code

theorem declared_enumeration (e : Enumeration) :
    (enumeration e).flatMap Declaration.declared =
      (Schema.enumNames e).map Schema.Declared.identifier := by
  simp [enumeration, Declaration.declared, Schema.enumNames, Function.comp_def]

theorem declared_enumerations (enums : List Enumeration) :
    (enums.flatMap enumeration).flatMap Declaration.declared =
      (enums.flatMap Schema.enumNames).map Schema.Declared.identifier := by
  simp only [List.flatMap_assoc, List.map_flatMap, declared_enumeration]

theorem declared_ownedStruct (st : Struct) :
    (ownedStruct st).flatMap Declaration.declared =
      (st.enums.flatMap Schema.enumNames).map Schema.Declared.identifier ++
        [st.identifier, st.qualified.constructor] := by
  rw [ownedStruct, List.flatMap_append, declared_enumerations]
  rfl

theorem declared_layoutStruct (st : Struct) :
    (layoutStruct st).flatMap Declaration.declared =
      (st.enums.flatMap Schema.enumNames).map Schema.Declared.identifier ++ [st.identifier] := by
  rw [layoutStruct, List.flatMap_append, declared_enumerations]
  rfl

end Code

namespace Schema

/-- The check passes if all names differ, also from those taken before. -/
theorem checkDistinct_eq_ok_iff {taken : List Text} {names : List Declared} :
    checkDistinct taken names = .ok () ↔
      (names.map Declared.identifier).Nodup ∧ ∀ d ∈ names, d.identifier ∉ taken := by
  induction names generalizing taken with
  | nil => simp [checkDistinct]
  | cons d names ih =>
      rw [checkDistinct, List.map_cons, List.nodup_cons, List.forall_mem_cons]
      split
      · rename_i htaken
        exact ⟨fun h => absurd h (by simp), fun h => absurd (by simpa using htaken) h.2.1⟩
      · rename_i hfree
        rw [ih]
        have hcons : (∀ e ∈ names, e.identifier ∉ d.identifier :: taken) ↔
            d.identifier ∉ names.map Declared.identifier ∧ ∀ e ∈ names, e.identifier ∉ taken := by
          simp only [List.mem_cons, not_or, List.mem_map, not_exists, not_and, ← forall_and]
        have hd : d.identifier ∉ taken := by simpa using hfree
        rw [hcons]
        tauto

variable (s : Schema) (o : Artifact.Options) (writer : Text)

/-- The names that are checked are those that the owning types declare. -/
theorem perm_declaredNames :
    (Artifact.declaredNames s o writer .owned).Perm
      ((s.walk.flatMap structNames).map Declared.identifier) := by
  rw [Artifact.declaredNames, Artifact.declarations, List.flatMap_append, List.flatMap_assoc,
    List.map_flatMap]
  refine (List.Perm.of_eq (List.append_nil _)).trans (List.Perm.flatMap_left _ fun st _ => ?_)
  rw [Code.declared_ownedStruct, structNames, List.map_append]
  exact List.perm_append_comm

/-- The layout declares no name that the owning types do not. -/
theorem declaredNames_sublist :
    (Artifact.declaredNames s o writer .layout).Sublist
      (Artifact.declaredNames s o writer .owned) := by
  rw [Artifact.declaredNames, Artifact.declaredNames, Artifact.declarations, Artifact.declarations,
    List.flatMap_append, List.flatMap_assoc, List.flatMap_assoc]
  refine (List.Sublist.flatMap_right _ fun st _ => ?_).trans (List.sublist_append_left _ _)
  rw [Code.declared_layoutStruct, Code.declared_ownedStruct]
  exact (List.Sublist.refl _).append (by simp)

theorem checkDistinct_iff_nodup :
    checkDistinct [] (s.walk.flatMap structNames) = .ok () ↔
      (Artifact.declaredNames s o writer .owned).Nodup := by
  rw [checkDistinct_eq_ok_iff, (perm_declaredNames s o writer).nodup_iff]
  simp

theorem checkDistinct_of_parse {source : Text} {s : Schema} (h : parse source = .ok s) :
    checkDistinct [] (s.walk.flatMap structNames) = .ok () := by
  obtain ⟨_, _, _, _, _, hcheck⟩ := parse_eq_ok_iff.mp h
  exact (check_eq_ok_iff.mp hcheck).2.2.2.2

theorem declaredNames_serializer : Artifact.declaredNames s o writer .serializer = [] := by
  simp [Artifact.declaredNames, Artifact.declarations, Code.Declaration.declared,
    Code.serializerMethod, List.flatMap_map]

/-- The artifacts of a schema that can be parsed declare no name twice. Conversely, the check on
names fails only for a schema whose owning types would declare some name twice. -/
theorem declared_once :
    (∀ source s, parse source = .ok s → ∀ kind,
      (∀ o writer, (Artifact.declaredNames s o writer kind).Nodup) ∧
        ∀ options file, Artifact.sourceFile s options kind = .ok file → file.declared.Nodup) ∧
    ∀ s e, checkDistinct [] (s.walk.flatMap structNames) = .error e →
      (∃ name line, e = .duplicateType name line) ∧
        ∀ o writer, ¬(Artifact.declaredNames s o writer .owned).Nodup := by
  constructor
  · intro source s parsed kind
    have hnodup (o : Artifact.Options) (writer : Text) :
        (Artifact.declaredNames s o writer kind).Nodup := by
      have howned := (checkDistinct_iff_nodup s o writer).mp (checkDistinct_of_parse parsed)
      cases kind with
      | owned => exact howned
      | layout => exact howned.sublist (declaredNames_sublist s o writer)
      | serializer => rw [declaredNames_serializer]; exact List.nodup_nil
    refine ⟨hnodup, fun options file hfile => ?_⟩
    obtain ⟨writer, hdeclared⟩ := Artifact.declared_of_sourceFile hfile
    exact hdeclared ▸ hnodup _ writer
  · intro s e h
    refine ⟨checkDistinct_error h, fun o writer hnodup => ?_⟩
    rw [(checkDistinct_iff_nodup s o writer).mpr hnodup] at h
    exact absurd h (by simp)

/-- A struct with an enumeration and a struct in it. -/
def apartSource : Text :=
  "friendly_namespace = f; struct A \x7b enum E \x7b x, y \x7d; struct B \x7b\x7d; \x7d;"

/-- A struct of the file that is named like a nested one in generated code. -/
def meetingSchema : Schema where
  binaryNamespace := none
  friendlyNamespace := none
  structs :=
    [{ name := "A", scope := [], parent := none, base := none, line := 1, enums := [], fields := []
       children :=
        [{ name := "B", scope := ["A"], parent := none, base := none, line := 2, enums := []
           fields := [], children := [] }] },
     { name := "AB", scope := [], parent := none, base := none, line := 3, enums := [], fields := []
       children := [] }]

theorem declared_once_nested :
    (∃ s file, parse apartSource = .ok s ∧
      Artifact.sourceFile s ⟨"", ""⟩ .owned = .ok file ∧
      file.declared = ["AE", "AEX", "AEY", "A", "NewA", "AB", "NewAB"] ∧
      file.declared.Nodup) ∧
    checkDistinct [] (meetingSchema.walk.flatMap structNames) = .error (.duplicateType "AB" 3) ∧
      ¬(Artifact.declaredNames meetingSchema ⟨"", ""⟩ "" .owned).Nodup := by
  have hparse : (parse apartSource).toOption.map (fun s =>
      (Artifact.sourceFile s ⟨"", ""⟩ .owned).toOption.map Code.Source.declared) =
        some (some (["AE", "AEX", "AEY", "A", "NewA", "AB", "NewAB"] : List Text)) := by
    decide +kernel
  have hmeeting : checkDistinct [] (meetingSchema.walk.flatMap structNames) =
      .error (.duplicateType "AB" 3) := rfl
  obtain ⟨s, hs, hsource⟩ := exists_ok_of_map hparse
  obtain ⟨file, hfile, hdeclared⟩ := exists_ok_of_map hsource
  exact ⟨⟨s, file, hs, hfile, hdeclared, (declared_once.1 _ s hs .owned).2 _ file hfile⟩,
    hmeeting, (declared_once.2 _ _ hmeeting).2 _ _⟩

end Schema

end Schematic
