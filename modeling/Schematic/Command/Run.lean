import Schematic.Command.Arguments
import Schematic.Command.Help
import Schematic.Project

/-!
# Running the program

What the program writes and how it ends, given its arguments and a file tree.
-/

namespace Schematic

/-- How a run of the program ends. -/
structure Outcome where
  exitCode : Nat := 0
  out : Text := []
  err : Text := []
  /-- The files after the run. -/
  tree : FileTree
  deriving Repr, DecidableEq

/-- Why a run fails. -/
inductive CommandError where
  | arguments (e : ArgumentError)
  | project (e : ProjectError)
  deriving Repr, DecidableEq

/-- The wording of an error. -/
def CommandError.message : CommandError → Text
  | arguments e => e.message
  | project e => e.message

namespace Command

/-- A text in bold and in a colour, if colours are on. -/
def colored (on : Bool) (code t : Text) : Text :=
  if on then Text.concat ["\x1b[", code, ";1m", t, "\x1b[0;22m"] else t

/-- A run that fails. -/
def fail (tree : FileTree) (colors : Bool) (e : CommandError) : Outcome :=
  ⟨1, [], Text.concat [colored colors "31" "error:", " ", e.message, "\n"], tree⟩

/-- Whether colours are on. The output of the program never counts as a terminal. -/
def colorMode (mode : Text) : Except ArgumentError Bool :=
  if mode = "on" then .ok true
  else if mode = "off" || mode = "auto" then .ok false
  else .error (.unknownColor mode)

/-- The lines that tell which files were written. -/
def written (verbose : Bool) (paths : List Text) : Text :=
  if verbose then Text.concat (paths.map fun p => Text.concat [program, ": wrote ", p, "\n"]) else []

/-- The working directory as a path. -/
def workingPath (t : FileTree) : Text :=
  Text.concat ["/", Text.join "/" t.workingDir]

/-- The help of the command that the arguments of the help command name. -/
def helpOn (t : FileTree) (topics : List Text) : Outcome :=
  match find topics with
  | .ok (c, _) => { out := c.helpText, tree := t }
  | .error _ => { err := unknownTopic topics, tree := t }

/-- Carries out a command with arguments that are right in number. -/
def act (t : FileTree) (c : Command) (a : Arguments) (colors : Bool) : Outcome :=
  let flag := a.text c.flags
  let file := a.plain.headD []
  let present := fun (result : Except ProjectError Text) =>
    match result with
    | .ok out => { out, tree := t }
    | .error e => fail t colors (.project e)
  let report := fun (result : FileTree × Except ProjectError (List Text)) =>
    match result.2 with
    | .ok paths => { err := written (a.isSet "verbose") paths, tree := result.1 }
    | .error e => fail result.1 colors (.project e)
  match c with
  | compile => report (Project.compile t file (flag "out") (flag "writer"))
  | generate => report (Project.run t ⟨workingPath t, flag "config"⟩)
  | inspect => present (Project.inspect t file (flag "format"))
  | tokenize => present (Project.tokenize t file)
  | version =>
    { out := Text.concat [program, " ", colored colors "32" Schematic.version, "\n"], tree := t }
  | help => helpOn t a.plain
  | root | completion => { out := c.helpText, tree := t }

/-- Runs a command with its arguments. -/
def execute (t : FileTree) (c : Command) (arguments : List Text) : Outcome :=
  match Arguments.ofList c.flags arguments with
  | .error e => fail t false (.arguments e)
  | .ok a =>
    if a.isSet "help" then { out := c.helpText, tree := t }
    else if c = root && a.isSet "version" then
      { out := Text.concat [program, " version ", Schematic.version, "\n"], tree := t }
    else if !c.isRunnable then { out := c.helpText, tree := t }
    else match c.checkCount a.plain with
      | .error e => fail t false (.arguments e)
      | .ok _ =>
        match colorMode (a.text c.flags "color") with
        | .error e => fail t false (.arguments e)
        | .ok colors => act t c a colors

/-- Runs the program. -/
def run (t : FileTree) (arguments : List Text) : Outcome :=
  match find arguments with
  | .error e => fail t false (.arguments e)
  | .ok (c, rest) => execute t c rest

end Command

end Schematic
