import Schematic.Code.Source

/-!
# Artifacts

Three files are generated from a schema: the layout of its structs in one package, and the owning
types and their serializers in another.

## Implementation notes

The three files are generated at the same time. Of this the model keeps the order in which the three
come to an end: nothing that is shared is written, so no more than that can make a difference.
-/

namespace Schematic

/-- What an artifact holds. -/
inductive Artifact.Kind where
  | layout
  | owned
  | serializer
  deriving Repr, DecidableEq

/-- A generated file with its place. -/
structure Artifact where
  kind : Artifact.Kind
  package : Text
  fileName : Text
  source : Text
  deriving Repr, DecidableEq

/-- Why no artifact is generated. -/
inductive ArtifactError where
  | missingNamespace (directive : Text)
  | sameNamespace (namespaceName : Text)
  | malformed (kind : Artifact.Kind)
  deriving Repr, DecidableEq

namespace Artifact

/-- All kinds, in the order in which artifacts are listed. -/
def Kind.all : List Kind :=
  [layout, owned, serializer]

/-- The part of a file's name that says what it holds. -/
def Kind.name : Kind → Text
  | layout => "binary"
  | owned => "friendly"
  | serializer => "serialize"

/-- Where a schema comes from and which package its serializers write to. -/
structure Options where
  sourceName : Text
  writerPackage : Text
  deriving Repr, DecidableEq

namespace Options

/-- The options with what they leave out filled in. -/
def complete (o : Options) : Options where
  sourceName := if o.sourceName.isEmpty then "schema" else o.sourceName
  writerPackage :=
    if o.writerPackage.isEmpty then "github.com/koskimas/idlc/pkg/fixup" else o.writerPackage

/-- The name of a file. -/
def fileName (o : Options) (kind : Kind) : Text :=
  Text.concat [Path.dropExtension (Path.base o.sourceName), ".", kind.name, ".go"]

/-- The comment at the top of a file. -/
def header (o : Options) : Text :=
  Text.concat ["Code generated by idlc from ", Path.base o.sourceName, ". DO NOT EDIT."]

end Options

/-- The package of an artifact. -/
def packageOf (s : Schema) : Kind → Except ArtifactError Text
  | .layout => s.binaryNamespace.elim (.error (.missingNamespace "binary_namespace")) .ok
  | _ => s.friendlyNamespace.elim (.error (.missingNamespace "friendly_namespace")) .ok

/-- The declarations of an artifact; `writer` is the name of the writer's package. -/
def declarations (s : Schema) (o : Options) (writer : Text) : Kind → List Code.Declaration
  | .layout => s.walk.flatMap Code.layoutStruct
  | .owned =>
    s.walk.flatMap Code.ownedStruct ++ [.bindings writer (s.walk.map Struct.identifier)]
  | .serializer =>
    .remark (Text.concat ["Serialization for the types declared in ", o.fileName .owned, "."]) ::
      s.walk.map (Code.serializerMethod writer)

/-- The file of an artifact. The writer's package is imported where a struct needs it. -/
def sourceFile (s : Schema) (options : Options) (kind : Kind) :
    Except ArtifactError Code.Source := do
  let o := options.complete
  let package ← packageOf s kind
  let imported := Code.Import.ofPath o.writerPackage
  return {
    header := o.header
    package
    imported := if kind = .layout || s.structs.isEmpty then none else some imported
    declarations := declarations s o imported.name kind }

/-- The text of an artifact. -/
def render (s : Schema) (options : Options) (kind : Kind) : Except ArtifactError Text := do
  let file ← sourceFile s options kind
  match file.text? with
  | some t => return t
  | none => throw (.malformed kind)

/-- An artifact. -/
def generate (s : Schema) (options : Options) (kind : Kind) : Except ArtifactError Artifact := do
  let package ← packageOf s kind
  let source ← render s options kind
  return ⟨kind, package, options.complete.fileName kind, source⟩

/-- The place of an artifact in the output directory. -/
def path (a : Artifact) : Text :=
  Path.join [a.package, a.fileName]

end Artifact

namespace Schema

/-- Refuses a schema without the two different packages that its artifacts need. -/
def checkNamespaces (s : Schema) : Except ArtifactError Unit := do
  let layout ← Artifact.packageOf s .layout
  let owned ← Artifact.packageOf s .owned
  if layout = owned then throw (.sameNamespace layout)

/-- All artifacts of a schema, if the kinds come to an end in the given order. The first failure is
the one that is reported. -/
def artifactsIn (order : List Artifact.Kind) (s : Schema) (options : Artifact.Options) :
    Except ArtifactError (List Artifact) := do
  s.checkNamespaces
  let ended ← order.mapM (Artifact.generate s options)
  return Artifact.Kind.all.filterMap fun kind => ended.find? fun a => a.kind = kind

/-- All artifacts of a schema, if the kinds come to an end in the order in which they are listed.
Another order makes a difference only where more than one kind fails, and then to the failure that
is reported. -/
def artifacts : Schema → Artifact.Options → Except ArtifactError (List Artifact) :=
  artifactsIn Artifact.Kind.all

end Schema

/-- What is said when no artifact is generated. -/
def ArtifactError.message : ArtifactError → Text
  | missingNamespace directive =>
    Text.concat [Text.quoted directive, " must be set before generating code"]
  | sameNamespace namespaceName =>
    Text.concat ["\"binary_namespace\" and \"friendly_namespace\" are both ",
      Text.quoted namespaceName, ", they must be different packages"]
  | malformed kind => Text.concat ["failed to render ", kind.name, " code"]

end Schematic
