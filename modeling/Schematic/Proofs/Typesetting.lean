import Schematic.Proofs.Bases
import Schematic.Proofs.Generation
import Schematic.Proofs.Lines

/-!
# How a source is set does not matter

Blanks, comments and line breaks reach a schema only as the numbers of lines. The reader takes no
decision on a line, and neither do the checks and the generated code: what they come to for a schema
without lines is what they come to for the schema, its lines erased. So two sources with the same
words give the same schema up to lines, or the same error, and the same code as far as the code of a
schema is determined: of several failures any may come first.
-/

namespace Schematic

/-! ## Schemas without lines -/

namespace Struct

theorem fullName_eraseLines (st : Struct) : st.eraseLines.fullName = st.fullName := by
  rw [fullName, qualified_eraseLines, fullName]

theorem identifier_eraseLines (st : Struct) : st.eraseLines.identifier = st.identifier := by
  rw [identifier, qualified_eraseLines, identifier]

theorem base_eraseLines (st : Struct) : st.eraseLines.base = st.base := by
  rw [eraseLines_eq]

theorem fields_eraseLines (st : Struct) :
    st.eraseLines.fields = st.fields.map Field.eraseLines := by
  rw [eraseLines_eq]

theorem enums_eraseLines (st : Struct) :
    st.eraseLines.enums = st.enums.map Enumeration.eraseLine := by
  rw [eraseLines_eq]

end Struct

namespace Schema

variable (s : Schema)

theorem walk_eraseLines : s.eraseLines.walk = s.walk.map Struct.eraseLines := by
  rw [walk, eraseLines, ← Struct.eraseLinesAll_eq_map, Struct.walkAll_eraseLinesAll]
  rfl

theorem length_walk_eraseLines : s.eraseLines.walk.length = s.walk.length := by
  rw [walk_eraseLines, List.length_map]

/-- A struct is found without its lines where it is found with them. -/
theorem struct?_eraseLines (q : Qualified) :
    s.eraseLines.struct? q = (s.struct? q).map Struct.eraseLines := by
  rw [struct?, walk_eraseLines, List.find?_map]
  simp only [Function.comp_def, Struct.qualified_eraseLines]
  rfl

/-- Parents are found whatever the lines are. -/
theorem link_eraseLines : eraseResult eraseLines s.link = s.eraseLines.link := by
  have hnames : s.eraseLines.walk.map Struct.qualified = s.walk.map Struct.qualified := by
    rw [walk_eraseLines, List.map_map]
    simp only [Function.comp_def, Struct.qualified_eraseLines]
  have hstructs := Struct.linkAll_eraseLines (s.walk.map Struct.qualified) s.structs
  rw [Struct.eraseLinesAll_eq_map] at hstructs
  unfold link
  rw [hnames]
  refine eraseResult_bind hstructs fun structs => ?_
  rw [Struct.eraseLinesAll_eq_map]
  rfl

/-! ## Checks without lines -/

theorem basesEnd_eraseLines (steps : Nat) (base : Option Qualified) :
    s.eraseLines.basesEnd steps base = s.basesEnd steps base := by
  induction steps generalizing base with
  | zero => cases base <;> rfl
  | succ steps ih =>
      cases base with
      | none => rfl
      | some q =>
          have hbase :
              (s.eraseLines.struct? q).bind Struct.base = (s.struct? q).bind Struct.base := by
            rw [struct?_eraseLines, Option.bind_map]
            simp only [Function.comp_def, Struct.base_eraseLines]
          rw [basesEnd, basesEnd, hbase, ih]

theorem checkInheritance_eraseLines (st : Struct) :
    eraseResult id (s.checkInheritance st) = s.eraseLines.checkInheritance st.eraseLines := by
  simp only [checkInheritance, eraseResult_ite, basesEnd_eraseLines, length_walk_eraseLines,
    Struct.base_eraseLines, Struct.fullName_eraseLines]
  rw [Struct.eraseLines_eq]
  rfl

namespace Part

def eraseLine (part : Part) : Part :=
  { part with line := 0 }

end Part

theorem partOf?_eraseLines (f : Field) :
    partOf? f.eraseLines = (partOf? f).map Part.eraseLine := by
  have hdynamic : f.eraseLines.isDynamic = f.isDynamic := rfl
  unfold partOf?
  rw [hdynamic]
  cases htype : f.type with
  | struct q =>
      simp only [Field.eraseLines, htype, FieldType.eraseLine]
      split <;> rfl
  | _ => simp [Field.eraseLines, htype, FieldType.eraseLine]

theorem parts_eraseLines (st : Struct) : parts st.eraseLines = (parts st).map Part.eraseLine := by
  rw [Struct.eraseLines_eq]
  simp only [parts, List.map_append, List.filterMap_map, List.map_filterMap, Function.comp_def,
    partOf?_eraseLines]
  cases st.base <;> rfl

section Search

variable {s} {root : Qualified}
  {search search' : List Qualified → Struct → Except SchemaError (List Qualified)}

theorem searchParts_eraseLines
    (hsearch : ∀ visited st, eraseResult id (search visited st) = search' visited st.eraseLines)
    (visited : List Qualified) (ps : List Part) :
    eraseResult id (searchParts s root search visited ps) =
      searchParts s.eraseLines root search' visited (ps.map Part.eraseLine) := by
  induction ps generalizing visited with
  | nil => rfl
  | cons part ps ih =>
      have htarget : part.eraseLine.target = part.target := rfl
      rw [List.map_cons, searchParts, searchParts, eraseResult_ite, htarget, struct?_eraseLines]
      refine if_congr Iff.rfl rfl ?_
      cases s.struct? part.target with
      | none => exact ih visited
      | some st => exact eraseResult_bind (hsearch visited st) ih

end Search

/-- The search for a struct in itself goes the same way without lines. -/
theorem searchStruct_eraseLines (root : Qualified) (depth : Nat) (visited : List Qualified)
    (st : Struct) :
    eraseResult id (searchStruct s root depth visited st) =
      searchStruct s.eraseLines root depth visited st.eraseLines := by
  induction depth generalizing visited st with
  | zero => rfl
  | succ depth ih =>
      rw [searchStruct, searchStruct, eraseResult_ite, Struct.qualified_eraseLines,
        parts_eraseLines]
      exact if_congr Iff.rfl rfl (searchParts_eraseLines ih _ _)

/-- What the check of containment says differs in its line alone. -/
theorem checkContainment_eraseLines (st : Struct) :
    eraseResult id (s.checkContainment st) = s.eraseLines.checkContainment st.eraseLines := by
  unfold checkContainment
  rw [Struct.qualified_eraseLines, length_walk_eraseLines]
  exact eraseResult_bind (searchStruct_eraseLines s _ _ _ st) fun _ => rfl

theorem checkFieldNames_eraseLines (scope : Text) (taken : List Text) (fields : List Field) :
    eraseResult id (checkFieldNames scope taken fields) =
      checkFieldNames scope taken (fields.map Field.eraseLines) := by
  induction fields generalizing taken with
  | nil => rfl
  | cons f fields ih =>
      have hnames : memberNames f.eraseLines = memberNames f := rfl
      rw [List.map_cons, checkFieldNames, checkFieldNames, hnames]
      cases takeNames taken (memberNames f) with
      | none => rfl
      | some taken => exact ih taken

/-- What the check of the member names says differs in its line alone. -/
theorem checkMembers_eraseLines (st : Struct) :
    eraseResult id (checkMembers st) = checkMembers st.eraseLines := by
  simp only [checkMembers, Struct.base_eraseLines, Struct.fullName_eraseLines,
    Struct.fields_eraseLines]
  exact checkFieldNames_eraseLines _ _ _

end Schema

namespace DefaultValue

def eraseLine : DefaultValue → DefaultValue
  | label e name => label e.eraseLine name
  | value => value

end DefaultValue

theorem Basic.map_literal_eraseLine (b : Basic) (token : Text) :
    (b.literal token).map DefaultValue.eraseLine = b.literal token := by
  unfold literal
  cases b with
  | bool =>
      dsimp only
      split
      · rfl
      · split <;> rfl
  | int => dsimp only; split <;> rfl
  | float => dsimp only; split <;> rfl
  | string => dsimp only; split <;> rfl

theorem FieldType.defaultValue_eraseLine (type : FieldType) (typeName token : Text) :
    type.eraseLine.defaultValue typeName token =
      (type.defaultValue typeName token).map DefaultValue.eraseLine := by
  cases type with
  | basic b => exact (b.map_literal_eraseLine token).symm
  | enumeration e =>
      have hlabel : e.eraseLine.hasLabel token = e.hasLabel token := rfl
      simp only [eraseLine, defaultValue, hlabel]
      split <;> rfl
  | struct q => rfl
  | described kind builtin => rfl

namespace Field

/-- A default value has the lines of its field in its enumeration and nowhere else. -/
theorem defaultValue_eraseLines (f : Field) :
    f.eraseLines.defaultValue = f.defaultValue.map (Option.map DefaultValue.eraseLine) := by
  obtain ⟨name, typeName, type, shape, optional, default?, line⟩ := f
  cases default? with
  | none => rfl
  | some token =>
      have hvalue := type.defaultValue_eraseLine typeName token
      simp only [defaultValue, eraseLines, isDynamic] at hvalue ⊢
      by_cases hdynamic : shape = .dynamic
      · simp only [hdynamic, decide_true, if_true]
        rfl
      · simp only [hdynamic, decide_false, Bool.false_eq_true, if_false, hvalue]
        cases type.defaultValue typeName token <;> rfl

theorem checkDefault_eraseLines (f : Field) :
    eraseResult id f.checkDefault = f.eraseLines.checkDefault := by
  rw [checkDefault, checkDefault, defaultValue_eraseLines]
  cases f.defaultValue <;> rfl

end Field

namespace Schema

namespace Declared

def eraseLine (d : Declared) : Declared :=
  { d with line := 0 }

end Declared

theorem structNames_eraseLines (st : Struct) :
    structNames st.eraseLines = (structNames st).map Declared.eraseLine := by
  have henum (e : Enumeration) : enumNames e.eraseLine = (enumNames e).map Declared.eraseLine := by
    simp only [enumNames, List.map_cons, List.map_map]
    rfl
  rw [structNames, structNames, Struct.identifier_eraseLines, Struct.fullName_eraseLines,
    Struct.qualified_eraseLines, Struct.enums_eraseLines, List.flatMap_map, List.map_append,
    List.map_flatMap, Struct.eraseLines_eq]
  simp only [henum]
  rfl

/-- Which declared name comes twice does not depend on the lines. -/
theorem checkDistinct_eraseLines (taken : List Text) (names : List Declared) :
    eraseResult id (checkDistinct taken names) =
      checkDistinct taken (names.map Declared.eraseLine) := by
  induction names generalizing taken with
  | nil => rfl
  | cons d names ih =>
      rw [List.map_cons, checkDistinct, checkDistinct, eraseResult_ite, ih]
      rfl

/-- A check on each of several things does without the lines of any. -/
theorem forM_eraseLines {α β : Type} {erase : α → β} {check : α → Except SchemaError Unit}
    {check' : β → Except SchemaError Unit}
    (h : ∀ a, eraseResult id (check a) = check' (erase a)) (as : List α) :
    eraseResult id (as.forM check) = (as.map erase).forM check' := by
  induction as with
  | nil => rfl
  | cons a as ih => exact eraseResult_bind (h a) fun _ => ih

/-- All checks come to the same whatever the lines are. -/
theorem check_eraseLines (s : Schema) : eraseResult id s.check = s.eraseLines.check := by
  have hdefaults (st : Struct) :
      eraseResult id (st.fields.forM Field.checkDefault) =
        st.eraseLines.fields.forM Field.checkDefault := by
    rw [Struct.fields_eraseLines]
    exact forM_eraseLines Field.checkDefault_eraseLines st.fields
  unfold check
  rw [walk_eraseLines, List.flatMap_map]
  simp only [structNames_eraseLines]
  rw [← List.map_flatMap]
  refine eraseResult_bind (forM_eraseLines s.checkInheritance_eraseLines s.walk) fun _ => ?_
  refine eraseResult_bind (forM_eraseLines s.checkContainment_eraseLines s.walk) fun _ => ?_
  refine eraseResult_bind (forM_eraseLines checkMembers_eraseLines s.walk) fun _ => ?_
  refine eraseResult_bind (forM_eraseLines hdefaults s.walk) fun _ => ?_
  exact checkDistinct_eraseLines [] _

/-- What a source is parsed to, without lines, can be seen from the texts of its tokens. -/
theorem parse_eraseLines {source : Text} {tokens : List Token}
    (lexed : Token.lex source = .ok tokens) :
    eraseResult eraseLines (parse source) = do
      let s ← Reader.read (tokens.map Token.eraseLine)
      let s ← s.link
      s.check
      return s := by
  have htokens : (Token.lex source).mapError SchemaError.comment = .ok tokens := by
    rw [lexed]
    rfl
  unfold parse
  rw [htokens]
  change eraseResult eraseLines (Reader.read tokens >>= _) = _
  refine eraseResult_bind (Reader.read_eraseLines tokens) fun s => ?_
  refine eraseResult_bind s.link_eraseLines fun s => ?_
  exact eraseResult_bind s.check_eraseLines fun _ => rfl

end Schema

/-! ## Code without lines -/

namespace FieldType

variable (type : FieldType)

theorem isIndirect_eraseLine : type.eraseLine.isIndirect = type.isIndirect := by
  cases type <;> rfl

theorem write_eraseLine (p : Method.Place) : type.eraseLine.write p = type.write p := by
  cases type <;> rfl

end FieldType

namespace Field

variable (f : Field)

theorem inPlace_eraseLines : f.eraseLines.inPlace = f.inPlace := by
  simp only [inPlace, eraseLines, FieldType.isIndirect_eraseLine, FieldType.write_eraseLine]
  rfl

theorem element_eraseLines : f.eraseLines.element = f.element := by
  simp only [element, eraseLines, FieldType.isIndirect_eraseLine, FieldType.write_eraseLine]
  cases f.type <;> rfl

theorem deferred_eraseLines : f.eraseLines.deferred = f.deferred := by
  simp only [deferred, element_eraseLines]
  simp only [eraseLines, FieldType.write_eraseLine]
  rfl

theorem isDeferred_eraseLines : f.eraseLines.isDeferred = f.isDeferred := by
  simp only [isDeferred, eraseLines, FieldType.isIndirect_eraseLine]
  rfl

theorem ofField_eraseLines : Layout.ofField f.eraseLines = Layout.ofField f := by
  have hinPlace : Layout.inPlace f.type.eraseLine = Layout.inPlace f.type := by
    cases f.type <;> rfl
  have helement : Layout.element f.type.eraseLine = Layout.element f.type := by
    cases f.type <;> rfl
  simp only [Layout.ofField, eraseLines, hinPlace, helement]
  rfl

theorem ownedField_eraseLines : Code.ownedField f.eraseLines = Code.ownedField f := by
  obtain ⟨name, typeName, type, shape, optional, default?, line⟩ := f
  cases type <;> cases shape <;> rfl

/-- The code of a default names an enumeration and not where it stands. -/
theorem defaultStep_eraseLines (p : Method.Place) :
    (f.eraseLines.setOne? p).map Code.defaultStep = (f.setOne? p).map Code.defaultStep := by
  have hpiece (token : Text) (value : DefaultValue) :
      Code.defaultPiece token value.eraseLine = Code.defaultPiece token value := by
    cases value <;> rfl
  have hvalue := f.defaultValue_eraseLines
  unfold setOne?
  rw [hvalue]
  cases hdefault : f.defaultValue with
  | error e =>
      cases htype : f.type <;> simp only [eraseLines, htype, FieldType.eraseLine, Except.map]
  | ok value? =>
      cases value? with
      | none =>
          cases htype : f.type <;>
            simp only [eraseLines, htype, FieldType.eraseLine, Except.map, Option.map_none]
      | some value =>
          cases htype : f.type <;>
            simp only [eraseLines, htype, FieldType.eraseLine, Except.map, Option.map_some,
              Code.defaultStep, hpiece]

theorem defaultStatement_eraseLines :
    f.eraseLines.setDefault.flatMap Code.defaultStatement =
      f.setDefault.flatMap Code.defaultStatement := by
  have hstep (steps : Option Method.DefaultStep) :
      (steps.map Method.DefaultStatement.step).toList.flatMap Code.defaultStatement =
        (steps.map Code.defaultStep).toList := by
    cases steps <;> rfl
  have heach (steps : Option Method.DefaultStep) :
      (steps.map (Method.DefaultStatement.eachIndex f.identifier)).toList.flatMap
          Code.defaultStatement =
        (steps.map Code.defaultStep).toList.flatMap fun line =>
          Code.block ["for i := range o.", .name f.identifier] [line] := by
    cases steps with
    | none => rfl
    | some step => exact (List.append_nil _).trans (List.append_nil _).symm
  have hidentifier : f.eraseLines.identifier = f.identifier := rfl
  have hshape : f.eraseLines.shape = f.shape := rfl
  unfold setDefault
  rw [hidentifier, hshape]
  cases f.shape with
  | dynamic => rfl
  | scalar => rw [hstep, hstep, defaultStep_eraseLines]
  | fixed n => rw [heach, heach, defaultStep_eraseLines]

end Field

namespace Struct

variable (st : Struct)

/-- The serializer of a struct does not depend on the lines. -/
theorem serializer_eraseLines : st.eraseLines.serializer = st.serializer := by
  have hfilter : (st.fields.map Field.eraseLines).filter Field.isDeferred =
      (st.fields.filter Field.isDeferred).map Field.eraseLines := by
    rw [List.filter_map]
    simp only [Function.comp_def, Field.isDeferred_eraseLines]
  rw [serializer, serializer, base_eraseLines, fields_eraseLines, hfilter, List.flatMap_map,
    List.flatMap_map]
  simp only [Field.inPlace_eraseLines, Field.deferred_eraseLines]
  rfl

theorem layout_eraseLines : st.eraseLines.layout = st.layout := by
  rw [layout, layout, fields_eraseLines, List.flatMap_map]
  simp only [Field.ofField_eraseLines]

theorem enumerations_eraseLines :
    st.eraseLines.enums.flatMap Code.enumeration = st.enums.flatMap Code.enumeration := by
  rw [enums_eraseLines, List.flatMap_map]
  rfl

theorem layoutStruct_eraseLines : Code.layoutStruct st.eraseLines = Code.layoutStruct st := by
  rw [Code.layoutStruct, Code.layoutStruct, enumerations_eraseLines, identifier_eraseLines,
    base_eraseLines, layout_eraseLines]

theorem defaults_eraseLines :
    st.eraseLines.defaults.flatMap Code.defaultStatement =
      st.defaults.flatMap Code.defaultStatement := by
  rw [defaults, defaults, base_eraseLines, fields_eraseLines, List.flatMap_append,
    List.flatMap_append, List.flatMap_map, List.flatMap_assoc, List.flatMap_assoc]
  simp only [Field.defaultStatement_eraseLines]

theorem ownedStruct_eraseLines : Code.ownedStruct st.eraseLines = Code.ownedStruct st := by
  rw [Code.ownedStruct, Code.ownedStruct, enumerations_eraseLines, identifier_eraseLines,
    base_eraseLines, qualified_eraseLines, defaults_eraseLines, fields_eraseLines, List.map_map]
  simp only [Function.comp_def, Field.ownedField_eraseLines]

theorem serializerMethod_eraseLines (package : Text) :
    Code.serializerMethod package st.eraseLines = Code.serializerMethod package st := by
  rw [Code.serializerMethod, Code.serializerMethod, identifier_eraseLines, serializer_eraseLines]

end Struct

namespace Schema

variable (s : Schema)

/-- No declaration in an output depends on the lines. -/
theorem declarations_eraseLines (o : Artifact.Options) (writer : Text) (kind : Artifact.Kind) :
    Artifact.declarations s.eraseLines o writer kind = Artifact.declarations s o writer kind := by
  cases kind with
  | layout =>
      rw [Artifact.declarations, Artifact.declarations, walk_eraseLines, List.flatMap_map]
      simp only [Struct.layoutStruct_eraseLines]
  | owned =>
      rw [Artifact.declarations, Artifact.declarations, walk_eraseLines, List.flatMap_map,
        List.map_map]
      simp only [Function.comp_def, Struct.ownedStruct_eraseLines, Struct.identifier_eraseLines]
  | serializer =>
      rw [Artifact.declarations, Artifact.declarations, walk_eraseLines, List.map_map]
      simp only [Function.comp_def, Struct.serializerMethod_eraseLines]

/-- Generating comes to the same whatever the lines are. -/
theorem artifactsIn_eraseLines (order : List Artifact.Kind) (options : Artifact.Options) :
    s.eraseLines.artifactsIn order options = s.artifactsIn order options := by
  have hpackage : Artifact.packageOf s.eraseLines = Artifact.packageOf s := by
    funext kind
    cases kind <;> rfl
  have hempty : s.eraseLines.structs.isEmpty = s.structs.isEmpty := List.isEmpty_map
  have hgenerate : Artifact.generate s.eraseLines options = Artifact.generate s options := by
    funext kind
    simp only [Artifact.generate, Artifact.render, Artifact.sourceFile, hpackage, hempty,
      declarations_eraseLines]
  rw [artifactsIn, artifactsIn, checkNamespaces, checkNamespaces, hpackage, hgenerate]

/-- Two sources with the same words, whatever stands between them, both have no schema for the same
reason, or have schemas that differ in lines only. Generating from the two may come to the same:
always the same artifacts, always the same error, or, if some kinds cannot be rendered, the error of
any of these. -/
theorem parse_of_same_texts {p q : Text} {tokens tokens' : List Token}
    (hp : Token.lex p = .ok tokens) (hq : Token.lex q = .ok tokens')
    (same : tokens.map Token.text = tokens'.map Token.text) :
    (∃ e e', parse p = .error e ∧ parse q = .error e' ∧ e.eraseLine = e'.eraseLine) ∨
      ∃ s s', parse p = .ok s ∧ parse q = .ok s' ∧ s.eraseLines = s'.eraseLines ∧
        ∀ options,
          (∀ outcome, s.MayGive options outcome ↔ s'.MayGive options outcome) ∧
          ((∃ artifacts, ∀ outcome, s.MayGive options outcome ↔ outcome = .ok artifacts) ∨
            (∃ e, ∀ outcome, s.MayGive options outcome ↔ outcome = .error e) ∨
            (∃ kind, Artifact.generate s options kind = .error (.malformed kind)) ∧
              ∀ outcome, s.MayGive options outcome ↔
                ∃ kind, Artifact.generate s options kind = .error (.malformed kind) ∧
                  outcome = .error (.malformed kind)) := by
  have herased (ts : List Token) :
      ts.map Token.eraseLine = (ts.map Token.text).map (Token.mk 0) := by
    rw [List.map_map]
    rfl
  have hsame : eraseResult eraseLines (parse p) = eraseResult eraseLines (parse q) := by
    rw [parse_eraseLines hp, parse_eraseLines hq, herased, herased, same]
  cases hparse : parse p with
  | error e =>
      cases hparse' : parse q with
      | error e' =>
          rw [hparse, hparse'] at hsame
          exact .inl ⟨e, e', rfl, rfl, Except.error.inj hsame⟩
      | ok s' =>
          rw [hparse, hparse'] at hsame
          exact absurd hsame (by simp [eraseResult])
  | ok s =>
      cases hparse' : parse q with
      | error e' =>
          rw [hparse, hparse'] at hsame
          exact absurd hsame (by simp [eraseResult])
      | ok s' =>
          rw [hparse, hparse'] at hsame
          have hlines : s.eraseLines = s'.eraseLines := Except.ok.inj hsame
          have hgives (order : List Artifact.Kind) (options : Artifact.Options) :
              s.artifactsIn order options = s'.artifactsIn order options := by
            rw [← s.artifactsIn_eraseLines, hlines, s'.artifactsIn_eraseLines]
          refine .inr ⟨s, s', rfl, rfl, hlines, fun options => ⟨fun outcome => ?_, ?_⟩⟩
          · simp only [MayGive, hgives]
          · exact s.mayGive_cases options

/-- A struct with an enumeration of its own, on one line. -/
def closeSource : Text :=
  "struct Dot \x7b enum Hue \x7b red \x7d; Hue hue = red; \x7d;"

/-- The words of `closeSource` over five lines, with remarks. -/
def spreadSource : Text :=
  "struct Dot // a dot\n\x7benum Hue\x7b red\x7d\n;\n/* its\n*/Hue hue =\tred;\x7d ;"

def dotWords : List Text :=
  ["struct", "Dot", "\x7b", "enum", "Hue", "\x7b", "red", "\x7d", ";", "Hue", "hue", "=", "red",
    ";", "\x7d", ";"]

theorem parse_of_same_texts_dot :
    Token.lex closeSource = .ok (dotWords.map (Token.mk 1)) ∧
      Token.lex spreadSource =
        .ok (List.zipWith Token.mk [1, 1, 2, 2, 2, 2, 2, 2, 3, 5, 5, 5, 5, 5, 5, 5] dotWords) ∧
      ∃ s s', parse closeSource = .ok s ∧ parse spreadSource = .ok s' ∧
        s.eraseLines = s'.eraseLines ∧
        ∀ options outcome, s.MayGive options outcome ↔ s'.MayGive options outcome := by
  have hclose : Token.lex closeSource = .ok (dotWords.map (Token.mk 1)) := rfl
  have hspread : Token.lex spreadSource =
      .ok (List.zipWith Token.mk [1, 1, 2, 2, 2, 2, 2, 2, 3, 5, 5, 5, 5, 5, 5, 5] dotWords) := rfl
  have haccepted : (parse closeSource).isOk = true := rfl
  refine ⟨hclose, hspread, ?_⟩
  obtain ⟨e, e', he, -⟩ | ⟨s, s', hs, hs', hlines, hgives⟩ := parse_of_same_texts hclose hspread rfl
  · rw [he] at haccepted
    exact absurd haccepted Bool.false_ne_true
  · exact ⟨s, s', hs, hs', hlines, fun options => (hgives options).1⟩

/-- A struct inside another one that has a keyword for its full name. -/
def keywordSource : Text :=
  "binary_namespace = a; friendly_namespace = b; struct fu \x7b struct nc \x7b\x7d; \x7d;"

/-- The words of `keywordSource` over two lines. -/
def keywordSpreadSource : Text :=
  "binary_namespace = a; friendly_namespace = b;\nstruct fu \x7b struct nc \x7b\x7d; \x7d;"

def keywordWords : List Text :=
  ["binary_namespace", "=", "a", ";", "friendly_namespace", "=", "b", ";", "struct", "fu", "\x7b",
    "struct", "nc", "\x7b", "\x7d", ";", "\x7d", ";"]

/-- No artifact of such a schema can be rendered, and any of the failures may come first: the same
words may be refused for different reasons. -/
theorem parse_of_same_texts_keyword :
    Token.lex keywordSource = .ok (keywordWords.map (Token.mk 1)) ∧
      Token.lex keywordSpreadSource =
        .ok (List.zipWith Token.mk (List.replicate 8 1 ++ List.replicate 10 2) keywordWords) ∧
      ∃ s s', parse keywordSource = .ok s ∧ parse keywordSpreadSource = .ok s' ∧
        ¬∀ outcome outcome', s.MayGive ⟨[], []⟩ outcome → s'.MayGive ⟨[], []⟩ outcome' →
          outcome = outcome' := by
  have hlayout : (parse keywordSource).toOption.map (fun s =>
      (s.checkNamespaces, Artifact.generate s ⟨[], []⟩ .layout)) =
        some (.ok (), .error (.malformed .layout)) := by decide +kernel
  have howned : (parse keywordSpreadSource).toOption.map (fun s =>
      (s.checkNamespaces, Artifact.generate s ⟨[], []⟩ .owned)) =
        some (.ok (), .error (.malformed .owned)) := by decide +kernel
  obtain ⟨s, hs, hlayout⟩ := exists_ok_of_map hlayout
  obtain ⟨s', hs', howned⟩ := exists_ok_of_map howned
  obtain ⟨hnamespaces, hlayout⟩ := Prod.mk.inj hlayout
  obtain ⟨hnamespaces', howned⟩ := Prod.mk.inj howned
  refine ⟨rfl, rfl, s, s', hs, hs', fun h => ?_⟩
  have hfirst := mayGive_error_iff.mpr (.inr ⟨hnamespaces, .layout, hlayout⟩)
  have hsecond := mayGive_error_iff.mpr (.inr ⟨hnamespaces', .owned, howned⟩)
  exact absurd (h _ _ hfirst hsecond) (by simp)

end Schema

end Schematic
