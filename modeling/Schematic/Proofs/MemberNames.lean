import Schematic.Proofs.Accepted
import Schematic.Proofs.DeclaredNames

/-!
# Names of members

A generated type has its base for a member, its fields, the counts of its dynamic arrays where it
is laid out in memory, and its methods where it owns what it holds. The check on members holds the
names of the fields against all of these, but not the base against the methods. Main statement: the
members of a type in memory differ, and those of an owning type differ exactly if its base is not
named like a method.
-/

namespace Schematic

namespace Code

/-- The members that a declaration gives to a type: the base and the fields of a struct, or a
method. -/
def Declaration.membersOf (type : Text) : Declaration → List Text
  | struct id base fields => if id = type then base.toList ++ fields.map Prod.fst else []
  | method receiver id _ _ => if receiver = type then [id] else []
  | _ => []

variable (type : Text)

theorem membersOf_enumerations (enums : List Enumeration) :
    (enums.flatMap enumeration).flatMap (Declaration.membersOf type) = [] := by
  simp [List.flatMap_assoc, enumeration, Declaration.membersOf]

/-- What the layout of a struct names its fields: the count of a dynamic array stands in front of
it. -/
def layoutNames (f : Field) : List Text :=
  (Layout.ofField f).map Layout.Field.name

/-- The members of a layout are named after the fields, in their order. -/
theorem map_layoutField (st : Struct) :
    (st.layout.map layoutField).map Prod.fst = st.fields.flatMap layoutNames := by
  rw [Struct.layout, List.map_map, List.map_flatMap]
  rfl

/-- A field takes the names in memory that the check takes for it. -/
theorem perm_layoutNames (f : Field) : (layoutNames f).Perm (Schema.memberNames f) := by
  unfold layoutNames Layout.ofField Schema.memberNames Field.isDynamic
  cases f.shape with
  | scalar => exact List.Perm.refl _
  | dynamic => exact List.Perm.swap _ _ _
  | fixed count => exact List.Perm.refl _

theorem membersOf_layoutStruct (st : Struct) :
    (layoutStruct st).flatMap (Declaration.membersOf type) =
      if st.identifier = type then
        (st.base.map Qualified.identifier).toList ++ st.fields.flatMap layoutNames
      else [] := by
  rw [layoutStruct, List.flatMap_append, membersOf_enumerations, List.flatMap_singleton,
    Declaration.membersOf, map_layoutField, List.nil_append]

theorem membersOf_ownedStruct (st : Struct) :
    (ownedStruct st).flatMap (Declaration.membersOf type) =
      if st.identifier = type then
        (st.base.map Qualified.identifier).toList ++ st.fields.map Field.identifier ++
          [Text.ofString "SetDefaults"]
      else [] := by
  have hfields : (st.fields.map ownedField).map Prod.fst = st.fields.map Field.identifier := by
    rw [List.map_map]
    rfl
  rw [ownedStruct, List.flatMap_append, membersOf_enumerations, List.nil_append]
  simp only [List.flatMap_cons, List.flatMap_nil, Declaration.membersOf, hfields]
  split <;> simp

theorem membersOf_serializerMethod (writer : Text) (st : Struct) :
    (serializerMethod writer st).membersOf type =
      if st.identifier = type then [Text.ofString "Serialize"] else [] :=
  rfl

end Code

namespace Artifact

/-- The members that an artifact gives to a type, in the order of its declarations. -/
def membersOf (s : Schema) (o : Options) (writer : Text) (type : Text) (kind : Kind) : List Text :=
  (declarations s o writer kind).flatMap (Code.Declaration.membersOf type)

end Artifact

namespace Schema

/-- Different structs have different names in generated code. -/
theorem nodup_identifiers_of_parse {source : Text} {s : Schema} (h : parse source = .ok s) :
    (s.walk.map Struct.identifier).Nodup := by
  have hnames := (checkDistinct_eq_ok_iff.mp (checkDistinct_of_parse h)).1
  rw [List.map_flatMap] at hnames
  refine hnames.sublist ?_
  rw [← List.flatMap_pure_eq_map]
  exact List.Sublist.flatMap_right _ fun st _ => by simp [structNames]

section Members

variable {source : Text} {s : Schema} (parsed : parse source = .ok s) {st : Struct}
  (hst : st ∈ s.walk) (o : Artifact.Options) (writer : Text)

include parsed hst

/-- The layout of a struct has its base and a member for each part of its fields. -/
theorem membersOf_layout :
    Artifact.membersOf s o writer st.identifier .layout =
      (st.base.map Qualified.identifier).toList ++ st.fields.flatMap Code.layoutNames := by
  rw [Artifact.membersOf, Artifact.declarations, List.flatMap_assoc]
  simp only [Code.membersOf_layoutStruct]
  exact flatMap_ite_key (nodup_identifiers_of_parse parsed) hst _

/-- The owned form of a struct has its base, its fields and the method that sets defaults. -/
theorem membersOf_owned :
    Artifact.membersOf s o writer st.identifier .owned =
      (st.base.map Qualified.identifier).toList ++ st.fields.map Field.identifier ++
        [Text.ofString "SetDefaults"] := by
  rw [Artifact.membersOf, Artifact.declarations, List.flatMap_append, List.flatMap_assoc]
  simp only [Code.membersOf_ownedStruct]
  rw [flatMap_ite_key (nodup_identifiers_of_parse parsed) hst]
  simp [Code.Declaration.membersOf]

theorem membersOf_serializer :
    Artifact.membersOf s o writer st.identifier .serializer = [Text.ofString "Serialize"] := by
  rw [Artifact.membersOf, Artifact.declarations, List.flatMap_cons, List.flatMap_map]
  simp only [Code.membersOf_serializerMethod]
  rw [flatMap_ite_key (nodup_identifiers_of_parse parsed) hst]
  rfl

end Members

theorem nodup_base_append_iff {base : Option Text} {names : List Text} :
    (base.toList ++ names).Nodup ↔ names.Nodup ∧ ∀ b, base = some b → b ∉ names := by
  cases base with
  | none => simp
  | some b => simp [and_comm]

/-- In a schema that is accepted the members of a type in memory differ. Those of an owning type,
whose methods stand in two files, differ exactly if its base is not named like one of them. -/
theorem distinct_members_iff {source : Text} {s : Schema} (parsed : parse source = .ok s)
    {st : Struct} (hst : st ∈ s.walk) (o : Artifact.Options) (writer : Text) :
    (Artifact.membersOf s o writer st.identifier .layout).Nodup ∧
      ((Artifact.membersOf s o writer st.identifier .owned ++
          Artifact.membersOf s o writer st.identifier .serializer).Nodup ↔
        ∀ b, st.base = some b → b.identifier ∉ reservedMembers) := by
  obtain ⟨_, _, _, _, _, hcheck⟩ := parse_eq_ok_iff.mp parsed
  obtain ⟨hnodup, hfree⟩ :=
    checkMembers_eq_ok_iff.mp ((check_eq_ok_iff.mp hcheck).2.2.1 st hst)
  constructor
  · have hperm : (st.fields.flatMap Code.layoutNames).Perm (st.fields.flatMap memberNames) :=
      List.Perm.flatMap_left _ fun f _ => Code.perm_layoutNames f
    rw [membersOf_layout parsed hst, nodup_base_append_iff, hperm.nodup_iff]
    refine ⟨hnodup, fun b hb hmem => ?_⟩
    obtain ⟨q, hq, rfl⟩ := Option.map_eq_some_iff.mp hb
    exact (hfree _ (hperm.mem_iff.mp hmem)).1 q hq rfl
  · have hsublist := map_identifier_sublist st.fields
    have hfields : (st.fields.map Field.identifier ++ reservedMembers).Nodup := by
      rw [List.nodup_append]
      refine ⟨hnodup.sublist hsublist, by decide, fun name hname other hother heq => ?_⟩
      exact (hfree name (hsublist.subset hname)).2 (heq ▸ hother)
    have hperm : ((st.base.map Qualified.identifier).toList ++
        st.fields.map Field.identifier ++ [Text.ofString "SetDefaults"] ++
          [Text.ofString "Serialize"]).Perm
        ((st.base.map Qualified.identifier).toList ++
          (st.fields.map Field.identifier ++ reservedMembers)) := by
      rw [List.append_assoc, List.append_assoc]
      exact ((List.Perm.swap _ _ []).append_left _).append_left _
    rw [membersOf_owned parsed hst, membersOf_serializer parsed hst, hperm.nodup_iff,
      nodup_base_append_iff]
    constructor
    · rintro ⟨_, hbase⟩ b hb hreserved
      exact hbase _ (Option.map_eq_some_iff.mpr ⟨b, hb, rfl⟩) (List.mem_append_right _ hreserved)
    · intro hbase
      refine ⟨hfields, fun name hname hmem => ?_⟩
      obtain ⟨b, hb, rfl⟩ := Option.map_eq_some_iff.mp hname
      rcases List.mem_append.mp hmem with hmem | hmem
      · exact (hfree _ (hsublist.subset hmem)).1 b hb rfl
      · exact hbase b hb hmem

/-- An heir whose fields are named like its base's and like a count. -/
def arraysSource : Text :=
  "struct A \x7b int xs[]; \x7d; struct B : A \x7b A b; int xs[], ys[2], num_ys; \x7d;"

theorem distinct_members_iff_arrays :
    ∃ s st, parse arraysSource = .ok s ∧ st ∈ s.walk ∧
      (st.identifier, st.base) = (Text.ofString "B", some [Text.ofString "A"]) ∧
      (Artifact.membersOf s ⟨[], []⟩ [] st.identifier .layout).Nodup ∧
      (Artifact.membersOf s ⟨[], []⟩ [] st.identifier .owned ++
        Artifact.membersOf s ⟨[], []⟩ [] st.identifier .serializer).Nodup := by
  have hparse : (parse arraysSource).toOption.map
      (fun s => s.walk.map fun st => (st.identifier, st.base)) =
        some [(Text.ofString "A", none), (Text.ofString "B", some [Text.ofString "A"])] := by
    decide +kernel
  obtain ⟨s, hs, hwalk⟩ := exists_ok_of_map hparse
  obtain ⟨st, hst, heq⟩ := List.mem_map.mp
    (hwalk ▸ List.mem_cons_of_mem _ (List.mem_singleton_self
      (Text.ofString "B", some [Text.ofString "A"])))
  obtain ⟨hlayout, howned⟩ := distinct_members_iff hs hst ⟨[], []⟩ []
  refine ⟨s, st, hs, hst, heq, hlayout, howned.mpr fun b hb => ?_⟩
  obtain rfl := Option.some.inj (hb.symm.trans (Prod.mk.inj heq).2)
  decide

/-- A struct named like a method, and an heir of it. -/
def methodSource : Text :=
  "struct Serialize \x7b\x7d;\nstruct B : Serialize \x7b\x7d;"

theorem distinct_members_iff_method :
    ∃ s st, parse methodSource = .ok s ∧ st ∈ s.walk ∧
      Artifact.membersOf s ⟨[], []⟩ [] st.identifier .owned ++
          Artifact.membersOf s ⟨[], []⟩ [] st.identifier .serializer =
        [Text.ofString "Serialize", Text.ofString "SetDefaults", Text.ofString "Serialize"] ∧
      ¬(Artifact.membersOf s ⟨[], []⟩ [] st.identifier .owned ++
        Artifact.membersOf s ⟨[], []⟩ [] st.identifier .serializer).Nodup := by
  have hparse : (parse methodSource).toOption.map
      (fun s => s.walk.map fun st =>
        Artifact.membersOf s ⟨[], []⟩ [] st.identifier .owned ++
          Artifact.membersOf s ⟨[], []⟩ [] st.identifier .serializer) =
        some [[Text.ofString "SetDefaults", Text.ofString "Serialize"],
          [Text.ofString "Serialize", Text.ofString "SetDefaults", Text.ofString "Serialize"]] := by
    decide +kernel
  obtain ⟨s, hs, hwalk⟩ := exists_ok_of_map hparse
  obtain ⟨st, hst, heq⟩ := List.mem_map.mp
    (hwalk ▸ List.mem_cons_of_mem _ (List.mem_singleton_self
      [Text.ofString "Serialize", Text.ofString "SetDefaults", Text.ofString "Serialize"]))
  refine ⟨s, st, hs, hst, heq, ?_⟩
  rw [heq]
  decide

end Schema

end Schematic
