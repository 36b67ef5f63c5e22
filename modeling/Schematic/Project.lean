import Schematic.Artifact
import Schematic.Config
import Schematic.Glob
import Schematic.MessagePack
import Schematic.Schema.Check
import Schematic.Schema.Document
import Schematic.Schema.Dump
import Schematic.Yaml.Writer

/-!
# Projects

Compiles the schemas of a project in a file tree. All that can go wrong with schemas goes wrong
while the outputs are planned; only then are they written.
-/

namespace Schematic

/-- Why a command on a project failed. -/
inductive ProjectError where
  | findConfig (path : Text) (e : FileError)
  | noConfig (dir : Text)
  | readConfig (path : Text) (e : FileError)
  | loadConfig (path : Text) (e : FileError)
  | malformedConfig (path : Text)
  | invalidConfig (path : Text) (fault : ConfigFault)
  | badPattern (pattern : Text)
  | noMatch (pattern : Text)
  | readSchema (path : Text) (e : FileError)
  | tokenize (path : Text) (e : CommentError)
  | parse (path : Text) (e : SchemaError)
  | generate (path : Text) (e : ArtifactError)
  | sameOutput (path : Text)
  | makeDirectory (e : FileError)
  | writeOutput (path : Text) (e : FileError)
  | unknownFormat (format : Text)
  deriving Repr, DecidableEq

namespace Project

/-- The names of configuration files; the first one that is there is taken. -/
def configNames : List Text :=
  ["idlc.yaml", "idlc.yml", "idlc.toml"]

end Project

/-- The wording of an error. -/
def ProjectError.message : ProjectError → Text
  | findConfig path e =>
    Text.concat ["failed to stat config file ", Text.quoted path, ": ", e.message]
  | noConfig dir =>
    Text.concat ["no config file found in ", Text.quoted dir, " (looked for [",
      Text.join " " Project.configNames, "])"]
  | readConfig path e =>
    Text.concat ["failed to read config file ", Text.quoted path, ": ", e.message]
  | loadConfig path e =>
    Text.concat ["failed to unmarshal config file ", Text.quoted path, ": ", e.message]
  | malformedConfig path =>
    Text.concat ["failed to unmarshal config file ", Text.quoted path]
  | invalidConfig path fault =>
    Text.concat ["invalid config file ", Text.quoted path, ": ", fault.message]
  | badPattern pattern =>
    Text.concat ["failed to resolve schema files using glob ", Text.quoted pattern,
      ": syntax error in pattern"]
  | noMatch pattern => Text.concat ["no schema files match ", Text.quoted pattern]
  | readSchema path e =>
    Text.concat ["failed to read schema file ", Text.quoted path, ": ", e.message]
  | tokenize path e =>
    Text.concat ["failed to tokenize schema file ", Text.quoted path, ": ", e.message]
  | parse path e =>
    Text.concat ["failed to parse schema file ", Text.quoted path, ": ", e.message]
  | generate path e =>
    Text.concat ["failed to generate code for ", Text.quoted path, ": ", e.message]
  | sameOutput path => Text.concat ["more than one schema generates ", Text.quoted path]
  | makeDirectory e => e.message
  | writeOutput path e => Text.concat ["failed to write ", Text.quoted path, ": ", e.message]
  | unknownFormat format => Text.concat ["unknown format ", Text.quoted format]

/-- A file that a command writes. -/
structure Output where
  path : Text
  content : Text
  deriving Repr, DecidableEq

namespace Project

/-- Looks for the first of some names in a directory. -/
def findAmong (t : FileTree) (dir : Text) : List Text → Except ProjectError Text
  | [] => .error (.noConfig dir)
  | name :: names =>
    let path := Path.join [dir, name]
    match t.stat path with
    | .ok _ => .ok path
    | .error e =>
      if e.fault = .missing then findAmong t dir names else .error (.findConfig path e)

/-- The path of the configuration in a directory. -/
def findConfig (t : FileTree) (dir : Text) : Except ProjectError Text :=
  findAmong t dir configNames

/-- The form of a configuration file, by its extension. -/
def formatOf (path : Text) : Config.Format :=
  if Path.extension path = ".toml" then .toml else .yaml

/-- Reads a configuration and checks it. -/
def readConfig (t : FileTree) (path : Text) : Except ProjectError Config := do
  let format := formatOf path
  let content ← (t.read path).mapError
    (if format = .toml then ProjectError.loadConfig path else ProjectError.readConfig path)
  match Config.parse format content with
  | none => throw (.malformedConfig path)
  | some c =>
    match c.fault? with
    | some fault => throw (.invalidConfig path fault)
    | none => return c.withDefaults

/-- The files that match one pattern of a configuration in a directory. -/
def schemaMatches (t : FileTree) (root pattern : Text) : Except ProjectError (List Text) :=
  match Glob.paths t (Path.join [root, pattern]) with
  | none => .error (.badPattern pattern)
  | some [] => .error (.noMatch pattern)
  | some paths => .ok paths

/-- The schemas of a configuration in a directory, sorted, each of them once. -/
def schemaFiles (t : FileTree) (root : Text) (patterns : List Text) :
    Except ProjectError (List Text) := do
  let found ← patterns.mapM (schemaMatches t root)
  return Text.sortedSet found.flatten

/-- Reads a schema. -/
def readSchema (t : FileTree) (path : Text) : Except ProjectError Schema := do
  let source ← (t.read path).mapError (ProjectError.readSchema path)
  (Schema.parse source).mapError (ProjectError.parse path)

/-- The artifacts of a schema. -/
def compileSchema (t : FileTree) (writerPackage path : Text) :
    Except ProjectError (List Artifact) := do
  let s ← readSchema t path
  (s.artifacts ⟨path, writerPackage⟩).mapError (ProjectError.generate path)

/-- Checks that no two outputs have the same path. -/
def checkPaths : (taken : List Text) → List Output → Except ProjectError Unit
  | _, [] => .ok ()
  | taken, o :: os =>
    if taken.contains o.path then .error (.sameOutput o.path) else checkPaths (o.path :: taken) os

/-- The outputs of artifacts in a directory. -/
def place (dir : Text) (artifacts : List Artifact) : Except ProjectError (List Output) := do
  let outputs := artifacts.map fun a => Output.mk (Path.join [dir, a.path]) a.source
  checkPaths [] outputs
  return outputs

/-- How a project is run: in which directory, and with which configuration if it is not the one in
that directory. -/
structure Settings where
  dir : Text
  config : Text := []
  deriving Repr, DecidableEq

/-- The path of the configuration of a run. -/
def configPath (t : FileTree) (s : Settings) : Except ProjectError Text :=
  if s.config.isEmpty then findConfig t s.dir
  else if Path.isAbsolute s.config then .ok s.config
  else .ok (Path.join [s.dir, s.config])

/-- The outputs of a project. -/
def plan (t : FileTree) (s : Settings) : Except ProjectError (List Output) := do
  let path ← configPath t s
  let c ← readConfig t path
  let root := Path.directory path
  let files ← schemaFiles t root c.schemas
  let artifacts ← files.mapM (compileSchema t c.writerPackage)
  place (Path.join [root, c.outputDir]) artifacts.flatten

/-- The outputs of a single schema. -/
def planSchema (t : FileTree) (path outDir writerPackage : Text) :
    Except ProjectError (List Output) := do
  place outDir (← compileSchema t writerPackage path)

/-- Writes outputs one after the other. Those written before a failure stay. -/
def write (t : FileTree) : List Output → FileTree × Except ProjectError Unit
  | [] => (t, .ok ())
  | o :: os =>
    match t.makeDirectories (Path.directory o.path) with
    | .error e => (t, .error (.makeDirectory e))
    | .ok made =>
      match made.write o.path o.content with
      | .error e => (made, .error (.writeOutput o.path e))
      | .ok written => write written os

/-- Writes what was planned, and tells the paths. -/
def carryOut (t : FileTree) (plan : Except ProjectError (List Output)) :
    FileTree × Except ProjectError (List Text) :=
  match plan with
  | .error e => (t, .error e)
  | .ok outputs =>
    let (t, result) := write t outputs
    (t, result.map fun _ => outputs.map Output.path)

/-- Compiles a project. -/
def run (t : FileTree) (s : Settings) : FileTree × Except ProjectError (List Text) :=
  carryOut t (plan t s)

/-- Compiles a single schema. -/
def compile (t : FileTree) (path outDir writerPackage : Text) :
    FileTree × Except ProjectError (List Text) :=
  carryOut t (planSchema t path outDir writerPackage)

/-- Describes a schema in one of the formats. -/
def describe (s : Schema) (format : Text) : Except ProjectError Text :=
  if format = "text" then .ok s.dump
  else if format = "yaml" then .ok (Yaml.render s.document)
  else if format = "msgpack" then .ok (MessagePack.render s.document)
  else .error (.unknownFormat format)

/-- Describes the schema at a path. -/
def inspect (t : FileTree) (path format : Text) : Except ProjectError Text := do
  describe (← readSchema t path) format

/-- The tokens of the file at a path, one a line. -/
def tokenize (t : FileTree) (path : Text) : Except ProjectError Text := do
  let source ← (t.read path).mapError (ProjectError.readSchema path)
  let tokens ← (Token.lex source).mapError (ProjectError.tokenize path)
  return Token.listing tokens

end Project

end Schematic
