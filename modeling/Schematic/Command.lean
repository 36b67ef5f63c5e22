import Schematic.Text

/-!
# Commands

The commands of the program and the flags that each of them takes.
-/

namespace Schematic

/-- The version of the program. -/
def version : Text :=
  "0.1.0-dev"

/-- The name of the program. -/
def program : Text :=
  "idlc"

/-- A flag of a command. -/
structure Flag where
  name : Text
  /-- The letter that can stand for the name. -/
  letter : Option UInt8 := none
  usage : Text
  /-- The text that the flag has at first; a flag without one is a truth value, false at first. -/
  initial : Option Text := none
  deriving Repr, DecidableEq

/-- Whether a flag is a truth value and needs no text behind it. -/
def Flag.isTruth (f : Flag) : Bool :=
  f.initial.isNone

/-- A command; the root is the program itself. -/
inductive Command where
  | root
  | compile
  | completion
  | generate
  | help
  | inspect
  | tokenize
  | version
  deriving Repr, DecidableEq

namespace Command

/-- The name of a command. -/
def name : Command → Text
  | root => program
  | compile => "compile"
  | completion => "completion"
  | generate => "generate"
  | help => "help"
  | inspect => "inspect"
  | tokenize => "tokenize"
  | version => "version"

/-- The commands of the program, sorted by name. -/
def all : List Command :=
  [compile, completion, generate, help, inspect, tokenize, version]

/-- The commands in the order in which they are suggested. -/
def suggestible : List Command :=
  [generate, compile, inspect, tokenize, version, help, completion]

/-- How a command is called, behind the name of the program. -/
def pattern : Command → Text
  | compile => "compile [flags] file.idl"
  | generate => "generate [flags]"
  | help => "help [command] [flags]"
  | inspect => "inspect [flags] file.idl"
  | tokenize => "tokenize file.idl [flags]"
  | version => "version [flags]"
  | root => []
  | completion => "completion"

/-- What a command does, in a few words. -/
def summary : Command → Text
  | root => "Schema compiler for relocatable binary layouts"
  | compile => "Compile a single schema file"
  | completion => "Generate the autocompletion script for the specified shell"
  | generate => "Compile every schema listed in the project config"
  | help => "Help about any command"
  | inspect => "Print the resolved model of a schema"
  | tokenize => "Print the tokens of a schema file with their line numbers"
  | version => "Print the idlc version"

/-- What a command does. -/
def description : Command → Text
  | root => Text.concat ["idlc compiles struct schemas into a layout package, a friendly package ",
      "and serialization code"]
  | completion => Text.concat ["Generate the autocompletion script for idlc for the specified ",
      "shell.\nSee each sub-command's help for details on how to use the generated script."]
  | generate => Text.concat ["Generate reads idlc.yaml (or idlc.toml) from the working directory ",
      "and compiles the schemas it lists. Nothing is written if any schema fails to compile."]
  | help => Text.concat ["Help provides help for any command in the application.\n",
      "Simply type idlc help [path to command] for full details."]
  | c => c.summary

/-- Whether a command does something of its own; the others only show their help. -/
def isRunnable : Command → Bool
  | root | completion => false
  | _ => true

/-- The names and summaries of the commands below a command. -/
def children : Command → List (Text × Text)
  | root => all.map fun c => (c.name, c.summary)
  | completion =>
    let shells : List Text := ["bash", "fish", "powershell", "zsh"]
    shells.map fun shell => (shell, Text.concat ["Generate the autocompletion script for ", shell])
  | _ => []

/-- A command with the name of the program before it. -/
def path : Command → Text
  | root => program
  | c => Text.concat [program, " ", c.name]

/-- The flags that all commands take. -/
def commonFlags : List Flag :=
  [⟨"color", none, "colorize output (auto|on|off)", some "auto"⟩,
   ⟨"verbose", some 0x76, "log every written file", none⟩]

/-- The flag that shows the help of a command. -/
def helpFlag (c : Command) : Flag :=
  ⟨"help", some 0x68, Text.concat ["help for ", c.name], none⟩

/-- The flags of a command alone, sorted by name. -/
def ownFlags : Command → List Flag
  | root => [helpFlag root, ⟨"version", none, "version for idlc", none⟩]
  | compile =>
    [helpFlag compile, ⟨"out", some 0x6F, "output directory", some "."⟩,
     ⟨"writer", none, "import path of the fixup writer package", some []⟩]
  | generate =>
    [⟨"config", some 0x63, "config file to use instead of idlc.yaml/idlc.toml", some []⟩,
     helpFlag generate]
  | inspect =>
    [⟨"format", none, "output format (text|yaml|msgpack)", some "text"⟩, helpFlag inspect]
  | c => [helpFlag c]

/-- All flags of a command. -/
def flags (c : Command) : List Flag :=
  c.ownFlags ++ commonFlags

/-- The command of a name. -/
def named? (name : Text) : Option Command :=
  all.find? fun c => c.name = name

end Command

end Schematic
