import Schematic.Yaml.Scalar

/-!
# Tokens of a YAML stream

Block structure shows as tokens of its own: where the indentation grows a collection starts, and
where it shrinks one ends.
-/

namespace Schematic.Yaml

/-- A token of a stream. -/
inductive Token where
  | streamEnd
  | version (major minor : Nat)
  | tagHandle (handle uri : List Char)
  | documentStart
  | documentEnd
  | blockSequence
  | blockMapping
  | blockEnd
  | flowSequence
  | flowSequenceEnd
  | flowMapping
  | flowMappingEnd
  | blockEntry
  | flowEntry
  | key
  | value
  | alias (name : List Char)
  | anchor (name : List Char)
  | tag (handle suffix : List Char)
  | scalar (text : List Char) (plain : Bool)
  deriving Repr, DecidableEq

/-- A place that turns out to be a key if a colon follows on its line. -/
structure PossibleKey where
  /-- The number of the token that starts the key. -/
  number : Nat
  /-- Whether there has to be a colon, since only a key can stand here. -/
  required : Bool
  mark : Mark
  deriving Repr, DecidableEq

/-- How many characters a key may have. -/
def keyLimit : Nat :=
  1024

/-- Whether a key that starts here can end at a place: it is on the same line and not too long. -/
def PossibleKey.isNear (k : PossibleKey) (m : Mark) : Bool :=
  m.line ≤ k.mark.line && m.index ≤ k.mark.index + keyLimit

/-- A stream being cut into tokens. -/
structure Scanner where
  mark : Mark := {}
  rest : List Char
  /-- How many flow collections are open. -/
  flow : Nat := 0
  /-- The column of the innermost block collection. -/
  indent : Int := -1
  /-- The columns of the block collections around it. -/
  indents : List Int := []
  /-- Whether a key may start here. -/
  keyAllowed : Bool := true
  /-- The possible key of each open flow collection, innermost first, and of the block around. -/
  keys : List (Option PossibleKey) := [none]
  /-- The tokens so far, the last one first. -/
  tokens : List Token := []
  deriving Repr, DecidableEq

namespace Scanner

/-- Adds a token. -/
def emit (s : Scanner) (t : Token) : Scanner :=
  { s with tokens := t :: s.tokens }

/-- Puts a token in front of the token of the given number. -/
def insert (s : Scanner) (number : Nat) (t : Token) : Scanner :=
  let later := s.tokens.length - number
  { s with tokens := s.tokens.take later ++ t :: s.tokens.drop later }

/-- Passes over characters of the current line. -/
def skip (s : Scanner) (n : Nat) : Scanner :=
  { s with
    mark := { s.mark with column := s.mark.column + n, index := s.mark.index + n }
    rest := s.rest.drop n }

/-- Goes where a reading stopped. -/
def resume (s : Scanner) (r : Reading) : Scanner :=
  { s with mark := r.mark, rest := r.rest }

/-- Ends the block collections that are further in than a column. -/
def closeTo (column : Int) : (indents : List Int) → Scanner → Scanner
  | [], s => s
  | outer :: indents, s =>
    if column < s.indent then
      closeTo column indents { s.emit .blockEnd with indent := outer, indents := indents }
    else s

/-- Ends the block collections that are further in than a column; flow collections have no
indentation. -/
def unroll (s : Scanner) (column : Int) : Scanner :=
  if s.flow = 0 then closeTo column s.indents s else s

/-- Starts a block collection if a column is further in than the current one. Its token goes in
front of the token of the given number, or to the end. -/
def roll (s : Scanner) (column : Nat) (number : Option Nat) (t : Token) : Scanner :=
  if s.flow = 0 && s.indent < column then
    let s := { s with indent := column, indents := s.indent :: s.indents }
    match number with
    | some n => s.insert n t
    | none => s.emit t
  else s

/-- The possible key of the innermost collection. -/
def possibleKey (s : Scanner) : Option PossibleKey :=
  s.keys.head?.join

/-- Replaces the possible key of the innermost collection. -/
def setKey (s : Scanner) (k : Option PossibleKey) : Scanner :=
  { s with keys := k :: s.keys.tail }

/-- Gives up the possible key, which is an error if it has to be one. -/
def dropKey (s : Scanner) : Option Scanner :=
  match s.possibleKey with
  | some k => if k.required then none else some (s.setKey none)
  | none => some s

/-- Remembers that a key may start here. -/
def saveKey (s : Scanner) : Option Scanner :=
  if s.keyAllowed then do
    let required := s.flow = 0 && s.indent = s.mark.column
    let s ← s.dropKey
    return s.setKey (some ⟨s.tokens.length, required, s.mark⟩)
  else some s

/-- The possible key if it still can be one. One that has to be a key and cannot be is an error. -/
def validKey (s : Scanner) : Option (Option PossibleKey) :=
  match s.possibleKey with
  | none => some none
  | some k =>
    if k.isNear s.mark then some (some k)
    else if k.required then none
    else some none

end Scanner

end Schematic.Yaml
