import Schematic.Literal.Number
import Schematic.Yaml.Characters

/-!
# Scalars of a YAML stream

Plain, quoted and block scalars. Each reading takes the characters in front of it and tells where
it stopped. Line ends inside plain and quoted scalars are folded: a single one is a blank, and of
several the first is dropped.
-/

namespace Schematic.Yaml

/-- A place in a stream. -/
structure Mark where
  line : Nat := 0
  column : Nat := 0
  index : Nat := 0
  deriving Repr, DecidableEq

namespace Mark

/-- Behind one more character. -/
def next (m : Mark) : Mark :=
  { m with column := m.column + 1, index := m.index + 1 }

/-- At the start of the next line, behind a line end of the given length. -/
def newline (m : Mark) (length : Nat) : Mark :=
  ⟨m.line + 1, 0, m.index + length⟩

end Mark

/-- A blank or a tab. -/
def isBlank (c : Char) : Bool :=
  c = ' ' || c = '\t'

/-- A character that ends a line. -/
def isBreak (c : Char) : Bool :=
  c = '\n' || c = '\r' || c = '\u0085' || c = '\u2028' || c = '\u2029'

/-- A line end as it stands in a scalar. -/
def normalBreak (c : Char) : Char :=
  if c = '\u2028' || c = '\u2029' then c else '\n'

/-- Whether a blank, a line end or the end of the stream comes next. -/
def atBlank : List Char → Bool
  | [] => true
  | c :: _ => isBlank c || isBreak c

/-- Whether a blank or the end of the stream comes next. -/
def atSpace : List Char → Bool
  | [] => true
  | c :: _ => c = ' '

/-- Whether a line end or the end of the stream comes next. -/
def atBreak : List Char → Bool
  | [] => true
  | c :: _ => isBreak c

/-- Whether the mark of a document's start or end comes next. -/
def atDocumentMark : List Char → Bool
  | a :: b :: c :: t => a = b && b = c && (a = '-' || a = '.') && atBlank t
  | _ => false

/-- A scalar being folded; its text is kept with the last character first. -/
structure Folding where
  text : List Char := []
  /-- Blanks since the last character. -/
  blanks : List Char := []
  /-- Whether a line ended since the last character. -/
  broken : Bool := false
  /-- The first line end since then, unless it was escaped. -/
  first : Option Char := none
  /-- The line ends after that. -/
  others : List Char := []
  /-- Whether the next line end is escaped. -/
  escaped : Bool := false
  deriving Repr, DecidableEq

namespace Folding

/-- The text with what was left pending. -/
def joined (f : Folding) : List Char :=
  if f.broken then
    match f.first with
    | some b =>
      if b = '\n' then (if f.others.isEmpty then ' ' :: f.text else f.others ++ f.text)
      else f.others ++ b :: f.text
    | none => f.others ++ f.text
  else f.blanks ++ f.text

/-- Adds characters, given in order. -/
def push (f : Folding) (cs : List Char) : Folding :=
  { text := cs.reverse ++ f.joined }

/-- Adds a blank, which does not count behind a line end. -/
def blank (f : Folding) (c : Char) : Folding :=
  if f.broken then f else { f with blanks := c :: f.blanks }

/-- Adds a line end. -/
def lineEnd (f : Folding) (c : Char) : Folding :=
  if f.escaped then { text := f.joined, broken := true }
  else if f.broken then { f with others := normalBreak c :: f.others }
  else { f with blanks := [], broken := true, first := some (normalBreak c) }

end Folding

/-- A scalar that was read, where reading stopped, and whether a line ended since its last
character. -/
structure Reading where
  text : List Char
  mark : Mark
  rest : List Char
  broken : Bool
  deriving Repr, DecidableEq

/-- Whether a plain scalar ends in front of a character. -/
def endsPlain (indent : Int) (flow : Bool) (m : Mark) (f : Folding) (c : Char)
    (t : List Char) : Bool :=
  (m.column = 0 && atDocumentMark (c :: t)) ||
    (c = '#' && (f.broken || !f.blanks.isEmpty)) ||
    (!flow && f.broken && m.column < indent) ||
    (c = ':' && atBlank t) ||
    (flow && ([',', '[', ']', '\x7b', '\x7d'].contains c || (c = '?' && atSpace t)))

/-- Reads a plain scalar; `indent` is the least column of its lines. -/
def plain (indent : Int) (flow : Bool) : Mark → Folding → List Char → Option Reading
  | m, f, [] => some ⟨f.text.reverse, m, [], f.broken⟩
  | m, f, '\r' :: '\n' :: t => plain indent flow (m.newline 2) (f.lineEnd '\n') t
  | m, f, c :: t =>
    if isBreak c then plain indent flow (m.newline 1) (f.lineEnd c) t
    else if isBlank c then
      if c = '\t' && f.broken && m.column < indent then none
      else plain indent flow m.next (f.blank c) t
    else if endsPlain indent flow m f c t then some ⟨f.text.reverse, m, c :: t, f.broken⟩
    else plain indent flow m.next (f.push [c]) t

/-- The characters behind a backslash that stand for one character. -/
def escapes : List (Char × Char) :=
  [('0', '\x00'), ('a', '\x07'), ('b', '\x08'), ('t', '\t'), ('\t', '\t'), ('n', '\n'),
   ('v', '\x0B'), ('f', '\x0C'), ('r', '\r'), ('e', '\x1B'), (' ', ' '), ('"', '"'),
   ('\'', '\''), ('\\', '\\'), ('N', '\u0085'), ('_', '\u00a0'), ('L', '\u2028'),
   ('P', '\u2029')]

/-- The value of a hexadecimal digit. -/
def hexValue? (c : Char) : Option Nat :=
  if c.toNat < 0x80 then Literal.hexDigit? c.toNat.toUInt8 else none

/-- The character of a code in hexadecimal digits. -/
def coded? (digits : List Char) : Option Char := do
  let code ← digits.foldlM (fun n c => return n * 16 + (← hexValue? c)) 0
  if (0xD800 ≤ code && code ≤ 0xDFFF) || 0x10FFFF < code then none else some (Char.ofNat code)

/-- The character that an escape stands for, and how many characters the escape has behind its
backslash. -/
def escape? : List Char → Option (Char × Nat)
  | [] => none
  | e :: t =>
    match escapes.lookup e with
    | some c => some (c, 1)
    | none => do
      let width ← [('x', 2), ('u', 4), ('U', 8)].lookup e
      let digits := t.take width
      if digits.length = width then return (← coded? digits, width + 1) else none

/-- Reads the inside of a quoted scalar and its closing mark. The first `taken` characters belong
to an escape already read. -/
def quoted (single : Bool) : (taken : Nat) → Mark → Folding → List Char → Option Reading
  | _, _, _, [] => none
  | taken + 1, m, f, _ :: t => quoted single taken m.next f t
  | 0, m, f, '\r' :: '\n' :: t => quoted single 0 (m.newline 2) (f.lineEnd '\n') t
  | 0, m, f, c :: t =>
    if isBreak c then quoted single 0 (m.newline 1) (f.lineEnd c) t
    else if isBlank c then quoted single 0 m.next (f.blank c) t
    else if m.column = 0 && atDocumentMark (c :: t) then none
    else if single then
      if c = '\'' then
        if t.head? = some '\'' then quoted single 1 m.next (f.push ['\'']) t
        else some ⟨f.joined.reverse, m.next, t, false⟩
      else quoted single 0 m.next (f.push [c]) t
    else if c = '"' then some ⟨f.joined.reverse, m.next, t, false⟩
    else if c = '\\' then
      if !t.isEmpty && atBreak t then
        quoted single 0 m.next { text := f.joined, escaped := true } t
      else
        match escape? t with
        | some (e, width) => quoted single width m.next (f.push [e]) t
        | none => none
    else quoted single 0 m.next (f.push [c]) t

/-- What is kept of the line ends behind a block scalar. -/
inductive Chomping where
  | strip
  | clip
  | keep
  deriving Repr, DecidableEq

/-- A block scalar being read; texts are kept with the last character first. -/
structure BlockText where
  text : List Char := []
  /-- The end of the last line with text. -/
  lineEnd : List Char := []
  /-- The empty lines after that. -/
  empties : List Char := []
  /-- Whether the last line with text started with a blank. -/
  startsBlank : Bool := false
  deriving Repr, DecidableEq

namespace BlockText

/-- Starts a line with text. Between two lines of a folded scalar that do not start with blanks the
line end is folded. -/
def startLine (literal : Bool) (b : BlockText) (c : Char) : BlockText :=
  let folds := !literal && !b.startsBlank && !isBlank c && b.lineEnd = ['\n']
  let joint := if folds then (if b.empties.isEmpty then [' '] else []) else b.lineEnd
  { text := c :: (b.empties ++ (joint ++ b.text)), startsBlank := isBlank c }

/-- The whole text. -/
def finish (chomping : Chomping) (b : BlockText) : List Char :=
  (match chomping with
  | .strip => b.text
  | .clip => b.lineEnd ++ b.text
  | .keep => b.empties ++ (b.lineEnd ++ b.text)).reverse

end BlockText

/-- How a block scalar is read. -/
structure BlockStyle where
  literal : Bool
  chomping : Chomping
  /-- The indentation of the collection around it. -/
  parent : Int

/-- Reads the lines of a block scalar. `indent` is its indentation once it is known, `widest` the
widest indentation so far, and `inLine` says whether a line with text has begun. -/
def block (style : BlockStyle) :
    (indent : Option Nat) → (widest : Nat) → (inLine : Bool) → Mark → BlockText → List Char →
      Option Reading
  | _, _, _, m, b, [] => some ⟨b.finish style.chomping, m, [], true⟩
  | indent, widest, inLine, m, b, '\r' :: '\n' :: t =>
    let b := if inLine then { b with lineEnd := ['\n'] } else { b with empties := '\n' :: b.empties }
    block style indent widest false (m.newline 2) b t
  | indent, widest, inLine, m, b, c :: t =>
    if isBreak c then
      let b :=
        if inLine then { b with lineEnd := [normalBreak c] }
        else { b with empties := normalBreak c :: b.empties }
      block style indent widest false (m.newline 1) b t
    else if inLine then block style indent widest true m.next { b with text := c :: b.text } t
    else
      let before := indent.all fun i => m.column < i
      if before && c = ' ' then
        block style indent (max widest (m.column + 1)) false m.next b t
      else if before && c = '\t' then none
      else
        let i := indent.getD (max widest (max (style.parent + 1).toNat 1))
        if m.column = i then block style (some i) widest true m.next (b.startLine style.literal c) t
        else some ⟨b.finish style.chomping, m, c :: t, true⟩

end Schematic.Yaml
