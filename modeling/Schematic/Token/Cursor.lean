import Schematic.Token

/-!
# Cursors

A place in a list of tokens, with the line of the token read last.
-/

namespace Schematic

/-- The tokens still to be read and the line of the last one read. -/
structure Cursor where
  rest : List Token
  line : Nat
  deriving Repr, DecidableEq

/-- Why a token could not be read. -/
inductive CursorError where
  | endOfInput (line : Nat)
  | unexpected (expected found : Text) (line : Nat)
  deriving Repr, DecidableEq

namespace CursorError

/-- What is said of a token that could not be read. -/
def message : CursorError → Text
  | endOfInput line => Text.concat ["unexpected end of input after line ", Text.ofNat line]
  | unexpected expected found line =>
    Text.concat ["expected ", Text.quoted expected, ", got ", Text.quoted found, " on line ",
      Text.ofNat line]

end CursorError

namespace Cursor

/-- The start of a list of tokens. -/
def ofTokens (tokens : List Token) : Cursor :=
  ⟨tokens, 0⟩

/-- Whether every token was read. -/
def atEnd (c : Cursor) : Bool :=
  c.rest.isEmpty

/-- The next token's text; empty at the end. -/
def peek (c : Cursor) : Text :=
  match c.rest with
  | [] => []
  | t :: _ => t.text

/-- The next token's line; at the end, that of the last token. -/
def peekLine (c : Cursor) : Nat :=
  match c.rest with
  | [] => c.line
  | t :: _ => t.line

/-- Reads the next token. -/
def advance (c : Cursor) : Except CursorError (Text × Cursor) :=
  match c.rest with
  | [] => .error (.endOfInput c.line)
  | t :: rest => .ok (t.text, ⟨rest, t.line⟩)

/-- Reads the next token if it is the given one. -/
def consumeIf (text : Text) (c : Cursor) : Bool × Cursor :=
  match c.rest with
  | [] => (false, c)
  | t :: rest => if t.text = text then (true, ⟨rest, t.line⟩) else (false, c)

/-- Reads one token for each of the given texts. The first that differs is read too, and the
error names all that were expected. -/
def expectEach (all : Text) : List Text → Cursor → Option CursorError × Cursor
  | [], c => (none, c)
  | text :: texts, c =>
    match c.rest with
    | [] => (some (.endOfInput c.line), c)
    | t :: rest =>
      if t.text = text then expectEach all texts ⟨rest, t.line⟩
      else (some (.unexpected all t.text t.line), ⟨rest, t.line⟩)

/-- Reads the given tokens, in order. -/
def expect (texts : List Text) (c : Cursor) : Option CursorError × Cursor :=
  expectEach (Text.join [0x20] texts) texts c

end Cursor

end Schematic
