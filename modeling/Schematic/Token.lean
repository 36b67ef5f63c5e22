import Schematic.Text.Blank
import Schematic.Text.Decimal

/-!
# Tokens

A source is read line by line. Comments are taken out first: a line comment hides the rest of its
line, block comments nest and may run over several lines. What is left of a line is divided into
tokens by blanks and by punctuation, and every token keeps the number of its line.
-/

namespace Schematic

/-- A word or punctuation mark of a source. -/
structure Token where
  line : Nat
  text : Text
  deriving Repr, DecidableEq

/-- A comment that does not close, or a closing mark without a comment. -/
inductive CommentError where
  | unterminated (line : Nat)
  | unmatchedEnd (line : Nat)
  deriving Repr, DecidableEq

namespace CommentError

/-- What is said of a misplaced comment. -/
def message : CommentError → Text
  | unterminated line =>
    Text.concat ["unterminated block comment opened on line ", Text.ofNat line]
  | unmatchedEnd line =>
    Text.concat ["\"*/\" without a matching \"/*\" on line ", Text.ofNat line]

end CommentError

namespace Token

/-- The line number and the text, separated by a colon. -/
def render (t : Token) : Text :=
  Text.concat [Text.ofNat t.line, ":", t.text]

/-- The marks that are tokens by themselves. -/
def punctuation : Text :=
  ";()[]\x7b\x7d,:?"

/-- The lines of a source, without line feeds and without a carriage return at the end. A line
feed at the end of the source starts no further line. -/
def lines (source : Text) : List Text :=
  let pieces := Text.splitOn 0x0A source
  let pieces := if pieces.getLast? = some [] then pieces.dropLast else pieces
  pieces.map fun line => if line.getLast? = some 0x0D then line.dropLast else line

/-- The code of a line outside comments, and the depth of block comments at its end, given the
depth at its start. A blank stands where a block comment closes. There is no result if a comment
is closed that is not open. -/
def stripComments : (depth : Nat) → Text → Option (Text × Nat)
  | depth, [] => some ([], depth)
  | depth, 0x2F :: 0x2A :: t => stripComments (depth + 1) t
  | depth + 1, 0x2A :: 0x2F :: t =>
    (stripComments depth t).map fun (code, last) => (0x20 :: code, last)
  | depth + 1, _ :: t => stripComments (depth + 1) t
  | 0, 0x2F :: 0x2F :: _ => some ([], 0)
  | 0, 0x2A :: 0x2F :: _ => none
  | 0, b :: t => (stripComments 0 t).map fun (code, last) => (b :: code, last)

/-- A rune that is a punctuation mark. -/
def isPunctuation (r : Text.Rune) : Bool :=
  match r.bytes with
  | [b] => punctuation.contains b
  | _ => false

/-- A word in front of the words that follow it, unless it is empty. -/
def consWord (word : Text) (words : List Text) : List Text :=
  if word.isEmpty then words else word :: words

/-- Adds a rune in front: to the word begun there, or as a boundary. -/
def consRune (r : Text.Rune) (begun : Text × List Text) : Text × List Text :=
  let (word, words) := begun
  if r.isBlank then ([], consWord word words)
  else if isPunctuation r then ([], r.bytes :: consWord word words)
  else (r.bytes ++ word, words)

/-- The words and punctuation marks of a line of code. -/
def splitLine (code : Text) : List Text :=
  let (word, words) := (Text.runes code).foldr consRune ([], [])
  consWord word words

/-- The line on which the comment still open was opened, after a line that ends at `depth`. -/
def openedAfter (opened : Option Nat) (line depth : Nat) : Option Nat :=
  if depth = 0 then none else some (opened.getD line)

/-- The tokens of the lines from number `line` on. -/
def lexLines (line depth : Nat) (opened : Option Nat) :
    List Text → Except CommentError (List Token)
  | [] =>
    match opened with
    | some first => .error (.unterminated first)
    | none => .ok []
  | source :: rest => do
    let (code, depth) ←
      match stripComments depth source with
      | some stripped => Except.ok stripped
      | none => Except.error (CommentError.unmatchedEnd line)
    let tokens := (splitLine code).map (Token.mk line)
    let later ← lexLines (line + 1) depth (openedAfter opened line depth) rest
    return tokens ++ later

/-- The tokens of a source. -/
def lex (source : Text) : Except CommentError (List Token) :=
  lexLines 1 0 none (lines source)

/-- All tokens, one to a line. -/
def listing (tokens : List Token) : Text :=
  Text.concat (tokens.map fun t => render t ++ [0x0A])

end Token

end Schematic
