import Schematic.Identifier
import Schematic.Text.Blank
import Schematic.Text.Decimal

/-!
# Pieces of code

Generated code is made of lines, and a line of pieces. Names and literals come from the schema, and
a comment may hold the name of a file, so each piece knows whether it is well formed.
-/

namespace Schematic.Code

/-- A piece of code. Marks are spelled by the generator itself. -/
inductive Piece where
  | mark (t : Text)
  | name (t : Text)
  | literal (t : Text)
  | comment (t : Text)
  deriving Repr, DecidableEq

instance : Coe String Piece :=
  ⟨fun s => .mark s⟩

/-- Whether code may hold a text: it is UTF-8 without zeros and byte order marks. -/
def isAdmissible (t : Text) : Bool :=
  Text.isUtf8 t && (Text.runes t).all fun r => !r.is 0 && !r.is 0xFEFF

/-- Whether a token, its sign aside, starts like a number. -/
def isNumeric : Text → Bool
  | b :: _ => Text.isDigitByte b || b = 0x2E
  | [] => false

/-- A token without its sign, and the sign. -/
def sign : Text → Text × Text
  | b :: t => if b = 0x2B || b = 0x2D then ([b], t) else ([], b :: t)
  | [] => ([], [])

/-- Whether a number is a whole number with a leading zero and a digit above seven. -/
def isBadOctal : Text → Bool
  | 0x30 :: t =>
    t.all (fun b => Text.isDigitByte b || b = 0x5F) && t.any fun b => b = 0x38 || b = 0x39
  | _ => false

/-- Whether a literal is well formed in code. -/
def isLiteral (t : Text) : Bool :=
  isAdmissible t && t ≠ "''" && !isBadOctal (sign t).2

/-- Replaces the last occurrence of a byte. -/
def replaceLast (old new : UInt8) (t : Text) : Text :=
  let tail := t.reverse.takeWhile fun b => b ≠ old
  if tail.length < t.length then
    t.take (t.length - tail.length - 1) ++ new :: tail.reverse
  else t

/-- A number with its prefix and the mark of its exponent in lower case. -/
def normalNumber : Text → Text
  | 0x30 :: 0x58 :: t => 0x30 :: 0x78 :: replaceLast 0x50 0x70 t
  | 0x30 :: 0x78 :: t => 0x30 :: 0x78 :: replaceLast 0x50 0x70 t
  | t => replaceLast 0x45 0x65 t

/-- A literal as it is written in code. -/
def normalLiteral (t : Text) : Text :=
  let (s, unsigned) := sign t
  if isNumeric unsigned then s ++ normalNumber unsigned else t

/-- A line of a comment that goes over several lines: nothing is left of a line without text. -/
def commentLine (t : Text) : Text :=
  if t.all fun b => b ≤ 0x20 then [] else Text.trimRight t

/-- A comment: behind two slashes, or between marks if it has several lines. Carriage returns are
dropped. -/
def comment (t : Text) : Text :=
  let t := t.filter fun b => b ≠ 0x0D
  match Text.splitOn 0x0A t with
  | [_] => Text.trimRight (Text.concat ["// ", t])
  | lines => Text.concat ["/*\n", Text.join "\n" (lines.map commentLine), "\n*/"]

/-- Whether a text is a name in code: letters, digits and underscores, no digit first, and no
keyword. -/
def isName (t : Text) : Bool :=
  match Text.runes t with
  | [] => false
  | r :: rs =>
    (r.isLetter || r.is 0x5F) && rs.all Text.Rune.continuesIdentifier && !Text.isKeyword t

namespace Piece

/-- The text of a piece. -/
def text : Piece → Text
  | mark t => t
  | name t => t
  | literal t => normalLiteral t
  | comment t => Code.comment t

/-- Whether a piece can stand in code. -/
def isWellFormed : Piece → Bool
  | mark _ => true
  | name t => isName t
  | literal t => isLiteral t
  | comment t => isAdmissible t

end Piece

/-- The text of several pieces. -/
def pieceText (pieces : List Piece) : Text :=
  pieces.flatMap Piece.text

/-- A line of code; one without pieces is blank. -/
structure Line where
  indent : Nat
  pieces : List Piece
  deriving Repr, DecidableEq

namespace Line

/-- The blank line. -/
def blank : Line :=
  ⟨0, []⟩

/-- The line one level further in. -/
def deeper (l : Line) : Line :=
  if l.pieces.isEmpty then l else { l with indent := l.indent + 1 }

/-- The text of a line with its end. -/
def text (l : Line) : Text :=
  Text.concat [List.replicate l.indent 0x09, pieceText l.pieces, "\n"]

end Line

/-- Pieces from several parts. -/
def pieces (parts : List (List Piece)) : List Piece :=
  parts.flatten

/-- Lines between braces behind a header. -/
def block (header : List Piece) (body : List Line) : List Line :=
  [⟨0, pieces [header, [" \x7b"]]⟩] ++ body.map Line.deeper ++ [⟨0, ["\x7d"]⟩]

/-- Rows whose second cells stand in one column. -/
def columns (rows : List (Piece × List Piece)) : List Line :=
  let width := rows.foldl (fun w row => max w (Text.runeCount row.1.text)) 0
  rows.map fun (cell, rest) =>
    let gap := width + 1 - Text.runeCount cell.text
    ⟨0, cell :: .mark (List.replicate gap 0x20) :: rest⟩

/-- Lines between brackets, or empty brackets. -/
def group (header : Piece) (rows : List Line) : List Line :=
  if rows.isEmpty then [⟨0, [header, " ()"]⟩]
  else [⟨0, [header, " ("]⟩] ++ rows.map Line.deeper ++ [⟨0, [")"]⟩]

end Schematic.Code
