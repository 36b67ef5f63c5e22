import Schematic.Token

/-!
# Scanning in one pass

The tokens of a source, found in one pass over the whole text. The state is the current line, how
many block comments are open, whether a line comment runs, and the token begun.
-/

namespace Schematic.Token

/-- Why a scan stops. -/
inductive ScanFault where
  | unmatchedEnd (line : Nat)
  | unterminated
  deriving Repr, DecidableEq

/-- An error without the place where an open comment starts. -/
def ScanFault.ofError : CommentError → ScanFault
  | .unmatchedEnd line => .unmatchedEnd line
  | .unterminated _ => .unterminated

/-- A scan under way. -/
structure Scanner where
  line : Nat := 1
  depth : Nat := 0
  inLineComment : Bool := false
  /-- The token begun. -/
  word : Text := []
  deriving Repr, DecidableEq

namespace Scanner

/-- The token begun, if there is one. -/
def begun (s : Scanner) : List Token :=
  if s.word.isEmpty then [] else [⟨s.line, s.word⟩]

/-- Puts tokens in front of those that follow. -/
def before (tokens : List Token) (later : Except ScanFault (List Token)) :
    Except ScanFault (List Token) :=
  later.map (tokens ++ ·)

/-- Scans a text; its first `taken` bytes belong to a rune already read. -/
def scan : Scanner → (taken : Nat) → Text → Except ScanFault (List Token)
  | s, _, [] => if s.depth = 0 then .ok s.begun else .error .unterminated
  | s, taken + 1, _ :: t => scan s taken t
  | s, 0, 0x0A :: t =>
    before s.begun (scan { s with line := s.line + 1, inLineComment := false, word := [] } 0 t)
  | s, 0, b :: t =>
    if s.inLineComment then scan s 0 t
    else if b = 0x2F && t.head? = some 0x2A then
      before s.begun (scan { s with depth := s.depth + 1, word := [] } 1 t)
    else if 0 < s.depth then
      if b = 0x2A && t.head? = some 0x2F then scan { s with depth := s.depth - 1 } 1 t
      else scan s 0 t
    else if b = 0x2F && t.head? = some 0x2F then
      before s.begun (scan { s with inLineComment := true, word := [] } 1 t)
    else if b = 0x2A && t.head? = some 0x2F then .error (.unmatchedEnd s.line)
    else
      let r := Text.firstRune b t
      let rest := r.bytes.length - 1
      if r.isBlank then before s.begun (scan { s with word := [] } rest t)
      else if isPunctuation r then
        before (s.begun ++ [⟨s.line, r.bytes⟩]) (scan { s with word := [] } rest t)
      else scan { s with word := s.word ++ r.bytes } rest t

end Scanner

/-- The tokens of a source, found in one pass. -/
def scan (source : Text) : Except ScanFault (List Token) :=
  Scanner.scan {} 0 source

end Schematic.Token
