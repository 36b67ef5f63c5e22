import Schematic.Command
import Schematic.Text.Escaped

/-!
# Help texts

The help of a command: what it does, how it is called, the commands below it and its flags.
-/

namespace Schematic

/-- A text filled up with blanks. -/
def Text.padded (width : Nat) (t : Text) : Text :=
  t ++ List.replicate (width - t.length) 0x20

namespace Flag

/-- How a flag is written. -/
def form (f : Flag) : Text :=
  let lead : Text :=
    match f.letter with
    | some letter => Text.concat ["  -", [letter], ", --"]
    | none => "      --"
  Text.concat [lead, f.name, if f.isTruth then [] else " string"]

/-- What is said of a flag, with the text that it has at first. -/
def note (f : Flag) : Text :=
  match f.initial with
  | none | some [] => f.usage
  | some t => Text.concat [f.usage, " (default ", t.escaped, ")"]

/-- Flags, one to a line, with their notes in a column. -/
def table (flags : List Flag) : Text :=
  let width := (flags.map fun f => f.form.length).foldl max 0
  Text.join "\n" (flags.map fun f => Text.concat [f.form.padded (width + 3), f.note])

end Flag

namespace Command

/-- The lines of the commands below a command. -/
def childLines (c : Command) : Text :=
  Text.concat (c.children.map fun (name, summary) =>
    Text.concat ["\n  ", name.padded 11, " ", summary])

/-- The parts of a usage text, given which flags belong to the command alone and which to all. -/
def usageWith (c : Command) (own common : List Flag) : Text :=
  Text.concat [
    "Usage:",
    if c.isRunnable then Text.concat ["\n  ", program, " ", c.pattern] else [],
    if c.children.isEmpty then []
    else Text.concat ["\n  ", c.path, " [command]\n\nAvailable Commands:", c.childLines],
    Text.concat ["\n\nFlags:\n", Flag.table own],
    if common.isEmpty then [] else Text.concat ["\n\nGlobal Flags:\n", Flag.table common],
    if c.children.isEmpty then []
    else Text.concat ["\n\nUse \"", c.path,
      " [command] --help\" for more information about a command."],
    "\n"]

/-- The flags of the program itself, sorted by name. -/
def rootFlags : List Flag :=
  root.flags.mergeSort fun f g => !Text.less g.name f.name

/-- How a command is used. -/
def usage : Command → Text
  | root => root.usageWith rootFlags []
  | c => c.usageWith c.ownFlags commonFlags

/-- The help of a command. -/
def helpText (c : Command) : Text :=
  Text.concat [c.description, "\n\n", c.usage]

/-- Whether a text can stand between backquotes. -/
def isBackquotable (t : Text) : Bool :=
  Text.isUtf8 t && (Text.runes t).all fun r =>
    r.code?.all fun code => (0x20 ≤ code || code = 9) && code ≠ 0x60 && code ≠ 0x7F && code ≠ 0xFEFF

/-- What is said when no command is found to show the help of. -/
def unknownTopic (topics : List Text) : Text :=
  let shown := topics.map fun t => if isBackquotable t then Text.concat ["`", t, "`"] else t.escaped
  Text.concat ["Unknown help topic [", Text.join " " shown, "]\n",
    root.usageWith commonFlags []]

end Command

end Schematic
