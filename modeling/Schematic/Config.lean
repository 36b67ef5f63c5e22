import Schematic.Text.Decimal
import Schematic.Toml.Table
import Schematic.Yaml.Record

/-!
# Project configuration

A configuration says which schemas a project has, where their code goes and which package it uses
for writing. It is written in YAML or in TOML.
-/

namespace Schematic

/-- The configuration of a project. -/
structure Config where
  version : Int := 0
  /-- Patterns of the paths of schemas, relative to the configuration. -/
  schemas : List Text := []
  outputDir : Text := []
  writerPackage : Text := []
  deriving Repr, DecidableEq

/-- Why a configuration is not valid. -/
inductive ConfigFault where
  | version (version : Int)
  | noSchemas
  | emptyPath (index : Nat)
  deriving Repr, DecidableEq

/-- The wording of a fault. -/
def ConfigFault.message : ConfigFault → Text
  | .version v => Text.concat ["unsupported version ", Text.ofInt v, ", expected 1"]
  | .noSchemas => "at least one schema path is required"
  | .emptyPath i => Text.concat ["schemas[", Text.ofNat i, "] has an empty path"]

namespace Config

/-- The forms in which a configuration can be written. -/
inductive Format where
  | yaml
  | toml
  deriving Repr, DecidableEq

/-- The one text of a record at a place in a YAML document. -/
def yamlText (tree : Yaml.Tree) (name : Text) (f : Yaml.Focus) : Option (Option Text) := do
  match ← f.members? tree [name] with
  | none => return none
  | some members =>
    match members.lookup name with
    | none => return some []
    | some f => return some ((← f.text? tree).getD [])

/-- Sets a member of the configuration from a YAML document. -/
def setYaml (tree : Yaml.Tree) (c : Config) (member : Text × Yaml.Focus) : Option Config := do
  let (name, f) := member
  if name = ("version" : Text) then return { c with version := (← f.int? tree).getD 0 }
  else if name = ("schemas" : Text) then
    let items := (← f.items? tree).getD []
    return { c with schemas := ← items.filterMapM (yamlText tree "path") }
  else if name = ("output" : Text) then
    return { c with outputDir := (← yamlText tree "dir" f).getD [] }
  else if name = ("writer" : Text) then
    return { c with writerPackage := (← yamlText tree "package" f).getD [] }
  else return c

/-- The names of the members of a configuration. -/
def memberNames : List Text :=
  ["version", "schemas", "output", "writer"]

/-- Reads a configuration in YAML. Members with other names do not count. -/
def ofYaml (t : Text) : Option Config := do
  let tree ← Yaml.Tree.ofText t
  match tree.root with
  | none => return {}
  | some root =>
    match ← Yaml.Focus.members? tree memberNames ⟨root, []⟩ with
    | none => return {}
    | some members => members.foldlM (setYaml tree) {}

/-- A name without regard to case. -/
def folded : Text → Text
  | [] => []
  | 0xC5 :: 0xBF :: t => 0x73 :: folded t
  | 0xE2 :: 0x84 :: 0xAA :: t => 0x6B :: folded t
  | b :: t => (if 0x41 ≤ b && b ≤ 0x5A then b + 0x20 else b) :: folded t

/-- The one text of a TOML table. -/
def tomlText (name : Text) (v : Toml.Value) : Option Text :=
  match v with
  | .table entries =>
    entries.foldlM
      (fun old (key, v) =>
        if folded key = name then
          match v with
          | .text t => some t
          | _ => none
        else some old)
      []
  | _ => none

/-- Sets a member of the configuration from a TOML table. -/
def setToml (c : Config) (entry : Text × Toml.Value) : Option Config := do
  let (key, v) := entry
  let name := folded key
  if name = ("version" : Text) then
    match v with
    | .integer i => return { c with version := i }
    | _ => none
  else if name = ("schemas" : Text) then
    match v with
    | .array items => return { c with schemas := ← items.mapM (tomlText "path") }
    | .tables all => return { c with schemas := ← all.mapM fun t => tomlText "path" (.table t) }
    | _ => none
  else if name = ("output" : Text) then return { c with outputDir := ← tomlText "dir" v }
  else if name = ("writer" : Text) then return { c with writerPackage := ← tomlText "package" v }
  else return c

/-- Reads a configuration in TOML. -/
def ofToml (t : Text) : Option Config := do
  (← Toml.Table.ofText t).foldlM setToml {}

/-- Reads a configuration. -/
def parse (format : Format) (t : Text) : Option Config :=
  match format with
  | .yaml => ofYaml t
  | .toml => ofToml t

/-- The version of configurations that is known. -/
def currentVersion : Int :=
  1

/-- The first fault of a configuration. -/
def fault? (c : Config) : Option ConfigFault :=
  if c.version ≠ currentVersion then some (.version c.version)
  else if c.schemas.isEmpty then some .noSchemas
  else (c.schemas.findIdx? List.isEmpty).map .emptyPath

/-- A configuration whose code goes to the directory of its file unless it names another one. -/
def withDefaults (c : Config) : Config :=
  { c with outputDir := if c.outputDir.isEmpty then "." else c.outputDir }

end Config

end Schematic
