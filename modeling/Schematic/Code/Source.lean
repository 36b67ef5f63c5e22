import Schematic.Code.Declaration
import Schematic.Path
import Schematic.Text.Escaped

/-!
# Source files

A generated file: a comment that says where it comes from, the package, what is imported, and
declarations. A file with a piece that is not well formed has no text.
-/

namespace Schematic.Code

/-- The types of the target language and its values with a name. -/
def predeclaredTypes : List Text :=
  ["bool", "byte", "complex64", "complex128", "error", "float32", "float64", "int", "int8",
   "int16", "int32", "int64", "rune", "string", "uint", "uint8", "uint16", "uint32", "uint64",
   "uintptr", "true", "false", "iota", "nil"]

/-- The functions of the target language, and the usual name of an error. -/
def predeclaredFunctions : List Text :=
  ["append", "cap", "close", "clear", "min", "max", "complex", "copy", "delete", "imag", "len",
   "make", "new", "panic", "print", "println", "real", "recover", "err"]

/-- Whether a word cannot name an imported package. -/
def isReserved (t : Text) : Bool :=
  Text.isKeyword t || predeclaredTypes.contains t || predeclaredFunctions.contains t ||
    t = "_"

/-- An imported package: its path, and the name it has in the file if that is not the last element
of the path. -/
structure Import where
  path : Text
  alias? : Option Text
  deriving Repr, DecidableEq

namespace Import

/-- The import of a path. A name that is reserved gets a number. -/
def ofPath (path : Text) : Import :=
  let last := Path.base path
  if path = "C" || !isReserved last then ⟨path, none⟩
  else ⟨path, some (Text.concat [last, "1"])⟩

/-- The name of the package in the file. -/
def name (i : Import) : Text :=
  i.alias?.getD (Path.base i.path)

/-- The code of an import. -/
def line (i : Import) : Line :=
  ⟨0, pieces [["import "], (i.alias?.map fun a => [Piece.name a, " "]).getD [],
    [.mark (Text.escaped i.path)]]⟩

end Import

/-- A generated file. -/
structure Source where
  header : Text
  package : Text
  imported : Option Import
  declarations : List Declaration
  deriving Repr, DecidableEq

namespace Source

/-- The lines of a file. -/
def lines (s : Source) : List Line :=
  [⟨0, [.comment s.header]⟩, .blank, ⟨0, ["package ", .name s.package]⟩] ++
    (s.imported.map fun i => [Line.blank, i.line]).getD [] ++
    s.declarations.flatMap fun d => .blank :: d.lines

/-- Whether every piece of a file can stand in code. -/
def isWellFormed (s : Source) : Bool :=
  s.lines.all fun l => l.pieces.all Piece.isWellFormed

/-- The text of a file. -/
def text? (s : Source) : Option Text :=
  if s.isWellFormed then some (s.lines.flatMap Line.text) else none

/-- The names that a file adds to its package. -/
def declared (s : Source) : List Text :=
  s.declarations.flatMap Declaration.declared

end Source

end Schematic.Code
