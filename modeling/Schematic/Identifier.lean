import Schematic.Text.Letter

/-!
# Identifiers

Names of structs, enums, labels, fields and packages, and the words that generated code reserves.
-/

namespace Schematic

namespace Text

/-- A letter or, behind the first place, a digit or an underscore. -/
def Rune.continuesIdentifier (r : Rune) : Bool :=
  r.isLetter || r.is 0x5F || r.isDigit

/-- A letter followed by letters, digits and underscores. -/
def isIdentifier (t : Text) : Bool :=
  match runes t with
  | [] => false
  | r :: rs => r.isLetter && rs.all Rune.continuesIdentifier

/-- The keywords of generated code. -/
def keywords : List Text :=
  ["break", "case", "chan", "const", "continue", "default", "defer", "else", "fallthrough", "for",
   "func", "go", "goto", "if", "import", "interface", "map", "package", "range", "return", "select",
   "struct", "switch", "type", "var"]

/-- A keyword of generated code. -/
def isKeyword (t : Text) : Bool :=
  keywords.contains t

end Text

end Schematic
