import Schematic.Yaml.Token

/-!
# Cutting a YAML stream into tokens

Each step passes over blanks and comments and reads one token. A key is only known when its colon
comes, so its tokens are put in front of it then.
-/

namespace Schematic.Yaml.Scanner

/-- Whether only blanks stand before a comment. -/
def commentFollows (cs : List Char) : Bool :=
  (cs.dropWhile isBlank).head? = some '#'

/-- Whether only blanks and line ends stand before a comment. -/
def commentFollowsLater (cs : List Char) : Bool :=
  (cs.dropWhile fun c => isBlank c || isBreak c).head? = some '#'

/-- Passes over blanks, comments and line ends. Tabs do not count as blanks where a key may start,
except between two comments. -/
def passBlanks (flow : Nat) :
    (keyAllowed inComment afterComment : Bool) → Mark → List Char → Bool × Mark × List Char
  | allowed, _, _, m, [] => (allowed, m, [])
  | allowed, _, after, m, '\r' :: '\n' :: t =>
    passBlanks flow (allowed || flow = 0) false after (m.newline 2) t
  | allowed, inside, after, m, c :: t =>
    if isBreak c then passBlanks flow (allowed || flow = 0) false after (m.newline 1) t
    else if inside then passBlanks flow allowed true after m.next t
    else if c = '#' then passBlanks flow allowed true true m.next t
    else if c = '\ufeff' && m.column = 0 then passBlanks flow allowed false after m.next t
    else if c = ' ' || (c = '\t' && (flow ≠ 0 || !allowed || (after && commentFollowsLater t))) then
      passBlanks flow allowed false after m.next t
    else (allowed, m, c :: t)

/-- Goes to the next token. -/
def toNext (s : Scanner) : Scanner :=
  let (allowed, mark, rest) := passBlanks s.flow s.keyAllowed false false s.mark s.rest
  { s with keyAllowed := allowed, mark, rest }

/-- Passes over a comment on the line of the last token. -/
def passLineComment (s : Scanner) : Scanner :=
  if commentFollows s.rest then s.skip (s.rest.takeWhile fun c => !isBreak c).length else s

/-- Letters, digits, underscores and hyphens. -/
def isWordCharacter (c : Char) : Bool :=
  c.isAlphanum || c = '_' || c = '-'

/-- The word that comes next. -/
def word (cs : List Char) : List Char :=
  cs.takeWhile isWordCharacter

/-- A tag's handle: an exclamation mark, and a word with another one behind it if both are there. -/
def handle (cs : List Char) : List Char :=
  match cs with
  | '!' :: t =>
    let name := word t
    if t[name.length]? = some '!' then '!' :: name ++ ['!'] else '!' :: name
  | _ => []

/-- The characters of a tag besides letters and digits. -/
def uriMarks : List Char :=
  [';', '/', '?', ':', '@', '&', '=', '+', '$', ',', '.', '!', '~', '*', '\'', '(', ')', '[', ']',
   '%']

/-- The rest of a tag. -/
def uri (cs : List Char) : List Char :=
  cs.takeWhile fun c => isWordCharacter c || uriMarks.contains c

/-- A tag's text with its escaped bytes put in; escapes have to spell characters. -/
def decodeUri (cs : List Char) : Option (List Char) := do
  let rec bytes : Nat → List Char → Option Text
    | _, [] => some []
    | taken + 1, _ :: t => bytes taken t
    | 0, c :: t =>
      if c = '%' then
        match t with
        | a :: b :: _ => do
          let byte := (← hexValue? a) * 16 + (← hexValue? b)
          return byte.toUInt8 :: (← bytes 2 t)
        | _ => none
      else do return Text.encode c.toNat ++ (← bytes 0 t)
  let codes ← utf8Codes (← bytes 0 cs)
  return codes.map Char.ofNat

/-- Reads an anchor's or an alias's name behind its mark. -/
def readName (s : Scanner) (make : List Char → Token) : Option Scanner := do
  let s ← s.saveKey
  let name := word s.rest.tail
  let after := s.rest.drop (name.length + 1)
  let ends := atBlank after ||
    after.head?.any fun c => ['?', ':', ',', ']', '\x7d', '%', '@', '`'].contains c
  if name.isEmpty || !ends then none
  else return { (s.skip (name.length + 1)).emit (make name) with keyAllowed := false }

/-- Reads a tag. -/
def readTag (s : Scanner) : Option Scanner := do
  let s ← s.saveKey
  let (t, length) ←
    match s.rest with
    | '!' :: '<' :: cs =>
      let suffix := uri cs
      if suffix.isEmpty || cs[suffix.length]? ≠ some '>' then none
      else do pure (Token.tag [] (← decodeUri suffix), suffix.length + 3)
    | cs =>
      let h := handle cs
      if 1 < h.length && h.getLast? = some '!' then
        let suffix := uri (cs.drop h.length)
        if suffix.isEmpty then none
        else do pure (Token.tag h (← decodeUri suffix), h.length + suffix.length)
      else
        let suffix := uri cs.tail
        if suffix.isEmpty then some (Token.tag [] ['!'], 1)
        else do pure (Token.tag ['!'] (← decodeUri suffix), suffix.length + 1)
  let s := (s.skip length).emit t
  if atBlank s.rest then return { s with keyAllowed := false } else none

/-- Reads a quoted scalar. -/
def readQuoted (s : Scanner) (single : Bool) : Option Scanner := do
  let s ← s.saveKey
  let r ← quoted single 0 s.mark.next {} s.rest.tail
  return { (s.resume r).emit (.scalar r.text false) with keyAllowed := false }

/-- Reads a plain scalar. Behind a line end a key may start. -/
def readPlain (s : Scanner) : Option Scanner := do
  let s ← s.saveKey
  let r ← plain (s.indent + 1) (s.flow ≠ 0) s.mark {} s.rest
  let s := { (s.resume r).emit (.scalar r.text true) with keyAllowed := r.broken }
  return if r.broken then s else s.passLineComment

/-- The digit of an indentation, which cannot be zero. -/
def indentDigit? (c : Char) : Option Nat :=
  if '1' ≤ c && c ≤ '9' then some (c.toNat - '0'.toNat) else none

/-- What a sign says of the line ends behind a block scalar. -/
def chomping? (c : Char) : Option Chomping :=
  if c = '+' then some .keep else if c = '-' then some .strip else none

/-- Reads the signs behind the mark of a block scalar: how line ends are kept and how far the text
is in, in any order. -/
def blockHeader (cs : List Char) : Chomping × Option Nat × Nat :=
  match cs with
  | a :: b :: _ =>
    match chomping? a, indentDigit? a with
    | some c, _ =>
      match indentDigit? b with
      | some d => (c, some d, 2)
      | none => (c, none, 1)
    | none, some d =>
      match chomping? b with
      | some c => (c, some d, 2)
      | none => (.clip, some d, 1)
    | none, none => (.clip, none, 0)
  | [a] =>
    match chomping? a, indentDigit? a with
    | some c, _ => (c, none, 1)
    | none, some d => (.clip, some d, 1)
    | none, none => (.clip, none, 0)
  | [] => (.clip, none, 0)

/-- Reads a block scalar. -/
def readBlock (s : Scanner) (literal : Bool) : Option Scanner := do
  let s ← s.dropKey
  let (chomping, increment, length) := blockHeader s.rest.tail
  let s := s.skip (length + 1)
  let s := s.skip (s.rest.takeWhile isBlank).length
  let s := s.passLineComment
  if !atBreak s.rest then none
  else
    let indent := increment.map fun i => (max s.indent 0).toNat + i
    let (mark, rest) :=
      match s.rest with
      | '\r' :: '\n' :: t => (s.mark.newline 2, t)
      | _ :: t => (s.mark.newline 1, t)
      | [] => (s.mark, [])
    let r ← block ⟨literal, chomping, s.indent⟩ indent 0 false mark {} rest
    return { (s.resume r).emit (.scalar r.text false) with keyAllowed := true }

/-- The version of a directive: two numbers with a point between them. -/
def readVersion (cs : List Char) : Option (Token × Nat) := do
  let blanks := (cs.takeWhile isBlank).length
  let cs := cs.drop blanks
  let major := cs.takeWhile Char.isDigit
  let minor := (cs.drop (major.length + 1)).takeWhile Char.isDigit
  if major.isEmpty || minor.isEmpty || 9 < major.length || 9 < minor.length ||
      cs[major.length]? ≠ some '.' then none
  else
    let value := fun (ds : List Char) => Text.digitsValue (ofCharacters ds)
    return (.version (value major) (value minor), blanks + major.length + 1 + minor.length)

/-- The handle and tag of a directive. -/
def readTagHandle (cs : List Char) : Option (Token × Nat) := do
  let blanks := (cs.takeWhile isBlank).length
  let cs := cs.drop blanks
  let h := handle cs
  if h.isEmpty || (h ≠ ['!'] && (h.length < 2 || h.getLast? ≠ some '!')) then none
  else
    let cs := cs.drop h.length
    let more := (cs.takeWhile isBlank).length
    let lead := uri (cs.drop more)
    if more = 0 || lead.isEmpty || !atBlank (cs.drop (more + lead.length)) then none
    else return (.tagHandle h (← decodeUri lead), blanks + h.length + more + lead.length)

/-- Reads a directive. -/
def readDirective (s : Scanner) : Option Scanner := do
  let s ← (s.unroll (-1)).dropKey
  let name := word s.rest.tail
  let after := s.rest.drop (name.length + 1)
  if !atBlank after then none
  else
    let (t, length) ←
      if name = ['Y', 'A', 'M', 'L'] then readVersion after
      else if name = ['T', 'A', 'G'] then readTagHandle after
      else none
    let s := (s.skip (name.length + 1 + length)).emit t
    let s := s.skip (s.rest.takeWhile isBlank).length
    let s := s.passLineComment
    if atBreak s.rest then return { s with keyAllowed := false } else none

/-- Reads the mark of a document's start or end. -/
def readDocumentMark (s : Scanner) (t : Token) : Option Scanner := do
  let s ← (s.unroll (-1)).dropKey
  return { (s.skip 3).emit t with keyAllowed := false }

/-- Reads the start of a flow collection. -/
def readFlowStart (s : Scanner) (t : Token) : Option Scanner := do
  let s ← s.saveKey
  return { (s.skip 1).emit t with
    flow := s.flow + 1, keys := none :: s.keys, keyAllowed := true }

/-- Reads the end of a flow collection. -/
def readFlowEnd (s : Scanner) (t : Token) : Option Scanner := do
  let s ← s.dropKey
  return { (s.skip 1).emit t with
    flow := s.flow - 1, keys := if s.flow = 0 then s.keys else s.keys.tail, keyAllowed := false }

/-- Reads a comma of a flow collection. -/
def readFlowEntry (s : Scanner) : Option Scanner := do
  let s ← s.dropKey
  return { (s.skip 1).emit .flowEntry with keyAllowed := true }

/-- Reads the hyphen of a block sequence. -/
def readBlockEntry (s : Scanner) : Option Scanner :=
  if s.flow = 0 && !s.keyAllowed then none
  else do
    let s ← (s.roll s.mark.column none .blockSequence).dropKey
    return { (s.skip 1).emit .blockEntry with keyAllowed := true }

/-- Reads the question mark of a key. -/
def readKey (s : Scanner) : Option Scanner :=
  if s.flow = 0 && !s.keyAllowed then none
  else do
    let s ← (s.roll s.mark.column none .blockMapping).dropKey
    return { (s.skip 1).emit .key with keyAllowed := s.flow = 0 }

/-- Reads a colon. If a key is possible, this makes it one. -/
def readValue (s : Scanner) : Option Scanner := do
  match ← s.validKey with
  | some k =>
    let s := (s.insert k.number .key).roll k.mark.column (some k.number) .blockMapping
    return { ((s.setKey none).skip 1).emit .value with keyAllowed := false }
  | none =>
    if s.flow = 0 && !s.keyAllowed then none
    else
      let s := s.roll s.mark.column none .blockMapping
      return { (s.skip 1).emit .value with keyAllowed := s.flow = 0 }

/-- Characters that no plain scalar starts with. -/
def indicators : List Char :=
  ['-', '?', ':', ',', '[', ']', '\x7b', '\x7d', '#', '&', '*', '!', '|', '>', '\'', '"', '%', '@',
   '`']

/-- Reads the token that starts with a character. -/
def readToken (s : Scanner) (c : Char) (t : List Char) : Option Scanner :=
  let inFlow := s.flow ≠ 0
  if c = '[' then s.readFlowStart .flowSequence
  else if c = '\x7b' then s.readFlowStart .flowMapping
  else if c = ']' then s.readFlowEnd .flowSequenceEnd
  else if c = '\x7d' then s.readFlowEnd .flowMappingEnd
  else if c = ',' then s.readFlowEntry
  else if c = '?' && (inFlow || atBlank t) then s.readKey
  else if c = ':' && (inFlow || atBlank t) then s.readValue
  else if c = '*' then s.readName .alias
  else if c = '&' then s.readName .anchor
  else if c = '!' then s.readTag
  else if c = '\'' then s.readQuoted true
  else if c = '"' then s.readQuoted false
  else none

/-- Whether a plain scalar starts with a character. -/
def startsPlain (s : Scanner) (c : Char) (t : List Char) : Bool :=
  (!indicators.contains c && !isBlank c && !isBreak c) || (c = '-' && !t.head?.any isBlank) ||
    (s.flow = 0 && (c = '?' || c = ':') && !atBlank t)

/-- Reads the end of the stream. -/
def readEnd (s : Scanner) : Option Scanner := do
  let s ← (s.unroll (-1)).dropKey
  return { s.emit .streamEnd with keyAllowed := false }

/-- Reads the next token; blanks were passed over. -/
def step (s : Scanner) : Option Scanner :=
  let s := s.unroll s.mark.column
  match s.rest with
  | [] => s.readEnd
  | c :: t =>
    if s.mark.column = 0 && c = '%' then s.readDirective
    else if s.mark.column = 0 && atDocumentMark s.rest then
      s.readDocumentMark (if c = '-' then .documentStart else .documentEnd)
    else if c = '-' && atBlank t then s.readBlockEntry
    else if s.flow = 0 && c = '|' then s.readBlock true
    else if s.flow = 0 && c = '>' then s.readBlock false
    else if s.startsPlain c t then s.readPlain
    else (s.readToken c t).map passLineComment

/-- The tokens of a stream as far as it could be read. -/
structure Tokens where
  list : List Token
  /-- Whether the whole stream could be read. -/
  complete : Bool
  /-- The tokens that still could have started a key when reading failed. -/
  pending : List Nat
  deriving Repr, DecidableEq

/-- The tokens read so far. Possible keys that are too far back by now no longer count, except those
that have to be keys. -/
def stop (s : Scanner) (complete : Bool) : Tokens :=
  let pending := s.keys.filterMap fun k => do
    let k ← k
    if k.required || k.isNear s.mark then some k.number else none
  ⟨s.tokens.reverse, complete, pending⟩

/-- Reads tokens until the stream ends. Each token takes a character, so as many steps as there are
characters, and one more for the end, are enough. -/
def readAll : (steps : Nat) → Scanner → Tokens
  | 0, s => s.stop false
  | steps + 1, s =>
    let ready := s.toNext
    match ready.step with
    | none => s.stop false
    | some after => if ready.rest.isEmpty then after.stop true else readAll steps after

/-- The tokens of a stream. -/
def read (cs : List Char) : Tokens :=
  readAll (cs.length + 1) { rest := cs }

end Schematic.Yaml.Scanner
