import Schematic.Calendar
import Schematic.Literal.Double
import Schematic.Literal.Integer
import Schematic.Text.Rune

/-!
# Statements of a TOML file

A file is a list of table headers and assignments. Of values only texts and integers are of use
here; all others are checked and then forgotten.
-/

namespace Schematic.Toml

/-- A value as it is written. -/
inductive Item where
  | text (t : Text)
  | integer (i : Int)
  /-- A truth value, a number with a fraction, a date or a time. -/
  | other
  | array (items : List Item)
  | inline (members : List (List Text × Item))

/-- A statement of a file. -/
inductive Statement where
  | table (path : List Text)
  | tableArray (path : List Text)
  | assign (path : List Text) (value : Item)

/-- A part of a file, read from its start. -/
abbrev Read (α : Type) := StateT Text Option α

/-- A blank or a tab. -/
def isBlank (b : UInt8) : Bool :=
  b = 0x20 || b = 0x09

/-- A part of a line end. -/
def isBreak (b : UInt8) : Bool :=
  b = 0x0A || b = 0x0D

/-- Whether every byte may occur: there are no control characters but tabs and line ends. -/
def isClean : Text → Bool
  | [] => true
  | 0x0D :: t => t.head? = some 0x0A && isClean t
  | b :: t => (0x20 ≤ b && b ≠ 0x7F || b = 0x09 || b = 0x0A) && isClean t

/-- The text of a file without a byte order mark. -/
def withoutMark : Text → Text
  | 0xFF :: 0xFE :: t => t
  | 0xFE :: 0xFF :: t => t
  | 0xEF :: 0xBB :: 0xBF :: t => t
  | t => t

namespace Read

/-- The bytes in front that have a property. -/
def takeWhile (p : UInt8 → Bool) : Read Text := fun t =>
  some (t.takeWhile p, t.dropWhile p)

/-- Passes over the bytes in front that have a property. -/
def skipWhile (p : UInt8 → Bool) : Read Unit := fun t =>
  some ((), t.dropWhile p)

/-- The byte in front. -/
def peek : Read (Option UInt8) := fun t =>
  some (t.head?, t)

/-- Passes over a text if it is in front. -/
def skipIf (lead : Text) : Read Bool := fun t =>
  match Text.after? lead t with
  | some rest => some (true, rest)
  | none => some (false, t)

/-- Passes over a text that has to be in front. -/
def skip (lead : Text) : Read Unit := do
  if ← skipIf lead then return else none

/-- Passes over a comment, if there is one in front. -/
def comment : Read Unit := do
  if (← peek) = some 0x23 then skipWhile fun b => !isBreak b

/-- The text up to a closing mark on the same line; in a text with escapes a backslash keeps the
next byte from closing it. -/
def lineExtent (close : UInt8) (escapes : Bool) : (escaped : Bool) → Text → Option (Text × Text)
  | _, [] => none
  | escaped, b :: t =>
    if isBreak b then none
    else if b = close && !escaped then some ([], t)
    else (lineExtent close escapes (escapes && !escaped && b = 0x5C) t).map fun (inside, rest) =>
      (b :: inside, rest)

/-- The text up to three closing marks. Up to two marks more belong to the text, and a third one if
a backslash stands before all of them. `run` is how many marks were just seen, and `last` the byte
before them. -/
def linesExtent (close : UInt8) (escapes : Bool) :
    (run : Nat) → (last : Option UInt8) → (escaped : Bool) → Text → Option (Text × Text)
  | run, last, escaped, t =>
    let ended :=
      if run ≤ 5 || (run = 6 && escapes && last = some 0x5C) then
        some (List.replicate (run - 3) close, t)
      else none
    match t with
    | [] => if 3 ≤ run then ended else none
    | b :: t =>
      if b = close && !escaped then linesExtent close escapes (run + 1) last false t
      else if 3 ≤ run then ended
      else (linesExtent close escapes 0 (some b) (escapes && !escaped && b = 0x5C) t).map
        fun (inside, rest) => (List.replicate run close ++ b :: inside, rest)

/-- The bytes that a letter behind a backslash stands for. -/
def escapes : List (UInt8 × UInt8) :=
  [(0x62, 0x08), (0x74, 0x09), (0x6E, 0x0A), (0x66, 0x0C), (0x72, 0x0D), (0x22, 0x22),
   (0x5C, 0x5C)]

/-- The bytes of a code point in hexadecimal digits. -/
def coded? (digits : Text) : Option Text := do
  let code ← Literal.digits? 16 digits
  if (0xD800 ≤ code && code ≤ 0xDFFF) || 0x10FFFF < code then none else some (Text.encode code)

/-- A text with its escapes put in. A backslash at the end of a line takes away the blanks and line
ends behind it. -/
def unescape : (skipping : Bool) → Text → Option Text
  | _, [] => some []
  | skipping, b :: t =>
    if skipping && (isBlank b || isBreak b) then unescape true t
    else if b ≠ 0x5C then do return b :: (← unescape false t)
    else match t with
      | [] => none
      | e :: t =>
        if isBlank e || isBreak e then
          if (e :: t.takeWhile fun b => isBlank b || isBreak b).contains 0x0A then unescape true t
          else none
        else match escapes.lookup e with
          | some c => do return c :: (← unescape false t)
          | none =>
            match t with
            | a :: b :: c :: d :: t =>
              if e = 0x75 then do return (← coded? [a, b, c, d]) ++ (← unescape false t)
              else if e = 0x55 then
                match t with
                | f :: g :: h :: i :: t => do
                  return (← coded? [a, b, c, d, f, g, h, i]) ++ (← unescape false t)
                | _ => none
              else none
            | _ => none

/-- A text without a line end at its start. -/
def dropFirstBreak : Text → Text
  | 0x0A :: t => t
  | 0x0D :: 0x0A :: t => t
  | t => t

/-- A text on one line, behind its opening mark. -/
def lineText (close : UInt8) : Read Text := do
  if close = 0x22 then unescape false (← lineExtent close true false)
  else lineExtent close false false

/-- A text on several lines, behind its three opening marks. -/
def linesText (close : UInt8) : Read Text := do
  if close = 0x22 then
    unescape false (dropFirstBreak (← linesExtent close true 0 none false))
  else return dropFirstBreak (← linesExtent close false 0 none false)

/-- Letters, digits, underscores and hyphens. -/
def isBareByte (b : UInt8) : Bool :=
  (0x41 ≤ b && b ≤ 0x5A) || (0x61 ≤ b && b ≤ 0x7A) || Text.isDigitByte b || b = 0x5F || b = 0x2D

/-- One name of a path. -/
def name : Read Text := do
  skipWhile isBlank
  if ← skipIf "\"" then lineText 0x22
  else if ← skipIf "'" then lineText 0x27
  else
    let bare ← takeWhile isBareByte
    if bare.isEmpty then none else return bare

/-- A path of names with points between them, up to a closing mark. -/
def path (close : Text) : (steps : Nat) → Read (List Text)
  | 0 => none
  | steps + 1 => do
    let first ← name
    skipWhile isBlank
    if ← skipIf "." then return first :: (← path close steps)
    else
      skip close
      return [first]

/-- Whether underscores only stand behind digits, and a digit at the end. -/
def underscoresFit (t : Text) : Bool :=
  let isDigit := fun (b : UInt8) => (Literal.hexDigit? b).isSome
  let fits := t.foldl
    (fun (fits, afterDigit) b => (fits && (b ≠ 0x5F || afterDigit), isDigit b))
    (true, false)
  fits.1 && fits.2

/-- Whether a decimal number starts with a zero that it should not have. -/
def hasLeadingZero : Text → Bool
  | 0x30 :: b :: _ => b ≠ 0x62 && b ≠ 0x6F && b ≠ 0x78
  | s :: 0x30 :: _ :: _ => s = 0x2B || s = 0x2D
  | _ => false

/-- An integer of 64 bits. -/
def integer (t : Text) : Option Item := do
  if !underscoresFit t || hasLeadingZero t then none
  else
    let i ← Literal.integer? (t.filter (· ≠ 0x5F))
    if Text.fitsWord 64 i then return .integer i else none

/-- Whether every point is followed by a digit. -/
def pointsFit : Text → Bool
  | [] => true
  | b :: t => (b ≠ 0x2E || t.head?.any Text.isDigitByte) && pointsFit t

/-- Whether a byte separates the parts of a number with a fraction. -/
def isPartMark (b : UInt8) : Bool :=
  b = 0x2E || b = 0x65 || b = 0x45

/-- The parts of a number with a fraction. -/
def parts (t : Text) : List Text :=
  (Text.splitOn 0x2E (t.map fun b => if isPartMark b then 0x2E else b)).filter (!·.isEmpty)

/-- A number with a fraction or an exponent. -/
def float (t : Text) : Option Item :=
  let ps := parts t
  let number := Literal.number? (t.filter (· ≠ 0x5F))
  if ps.all underscoresFit && !ps.head?.any hasLeadingZero && pointsFit t &&
      number.any Literal.Number.fitsDouble then some .other
  else none

/-- A date, a time, or both with or without a zone. -/
def datetime (t : Text) : Option Item :=
  let t := t.map fun b => if b = 0x7A then 0x5A else if b = 0x74 || b = 0x20 then 0x54 else b
  let date := Calendar.date true t
  let moment := do Calendar.time true (← Calendar.mark 0x54 (← date))
  if Calendar.takesAll date || Calendar.takesAll moment ||
      Calendar.takesAll (moment.bind Calendar.zone) || Calendar.takesAll (Calendar.time true t) then
    some .other
  else none

/-- Bytes of a date or a time. -/
def isDateByte (b : UInt8) : Bool :=
  Text.isDigitByte b || [0x2D, 0x3A, 0x54, 0x74, 0x20, 0x2E, 0x5A, 0x7A, 0x2B].contains b

/-- Bytes of a number with a fraction. -/
def isFloatByte (b : UInt8) : Bool :=
  Text.isDigitByte b || [0x5F, 0x2E, 0x2D, 0x2B, 0x65, 0x45].contains b

/-- A decimal number, of which the sign and the first digits were read. -/
def decimal (start : Text) : Read Item := do
  let whole ← takeWhile fun b => Text.isDigitByte b || b = 0x5F
  if (← peek).any isPartMark then float (start ++ whole ++ (← takeWhile isFloatByte))
  else integer (start ++ whole)

/-- A number in a base other than ten, behind the letter of the base. -/
def based (lead : Text) (base : Nat) : Read Item := do
  let isDigit := fun (b : UInt8) => (Literal.hexDigit? b).any (· < base)
  if (← peek).any isDigit then
    integer (lead ++ (← takeWhile fun b => isDigit b || b = 0x5F))
  else none

/-- A value that starts with a digit. -/
def numberOrDate : Read Item := do
  if ← skipIf "0x" then based "0x" 16
  else if ← skipIf "0o" then based "0o" 8
  else if ← skipIf "0b" then based "0b" 2
  else
    let digits ← takeWhile Text.isDigitByte
    if (← peek).any fun b => b = 0x2D || b = 0x3A then
      let more ← takeWhile isDateByte
      datetime ((digits ++ more).reverse.dropWhile (· = 0x20)).reverse
    else decimal digits

/-- A number behind its sign. -/
def signed (sign : Text) : Read Item := do
  if ← skipIf "inf" then return .other
  else if ← skipIf "nan" then return .other
  else if (← peek).any Text.isDigitByte then decimal sign
  else none

/-- Passes over blanks, line ends and comments. -/
def skipLines : (steps : Nat) → Read Unit
  | 0 => return
  | steps + 1 => do
    skipWhile fun b => isBlank b || isBreak b
    if (← peek) = some 0x23 then
      comment
      skipLines steps

mutual

/-- A value. -/
def value : (steps : Nat) → Read Item
  | 0 => none
  | steps + 1 => do
    skipWhile isBlank
    if ← skipIf "[" then return .array (← items steps)
    else if ← skipIf "\x7b" then
      skipWhile isBlank
      if ← skipIf "\x7d" then return .inline [] else return .inline (← members steps)
    else if ← skipIf "\"\"\"" then return .text (← linesText 0x22)
    else if ← skipIf "\"" then return .text (← lineText 0x22)
    else if ← skipIf "'''" then return .text (← linesText 0x27)
    else if ← skipIf "'" then return .text (← lineText 0x27)
    else if ← skipIf "+" then signed "+"
    else if ← skipIf "-" then signed "-"
    else if (← peek).any Text.isDigitByte then numberOrDate
    else if ← skipIf "true" then return .other
    else if ← skipIf "false" then return .other
    else if ← skipIf "inf" then return .other
    else if ← skipIf "nan" then return .other
    else none

/-- The items of an array, behind its opening bracket or a comma. -/
def items : (steps : Nat) → Read (List Item)
  | 0 => none
  | steps + 1 => do
    skipLines (steps + 1)
    if ← skipIf "]" then return []
    else
      let item ← value steps
      skipLines (steps + 1)
      if ← skipIf "," then return item :: (← items steps)
      else
        skip "]"
        return [item]

/-- The members of an inline table, behind its opening brace or a comma. -/
def members : (steps : Nat) → Read (List (List Text × Item))
  | 0 => none
  | steps + 1 => do
    let key ← path "=" (steps + 1)
    let item ← value steps
    skipWhile isBlank
    if ← skipIf "," then return (key, item) :: (← members steps)
    else
      skip "\x7d"
      return [(key, item)]

end

/-- One statement. -/
def statement (steps : Nat) : Read Statement := do
  if ← skipIf "[[" then return .tableArray (← path "]]" steps)
  else if ← skipIf "[" then return .table (← path "]" steps)
  else
    let key ← path "=" steps
    return .assign key (← value steps)

/-- All statements. Each ends with its line. -/
def statements (size : Nat) : (steps : Nat) → Read (List Statement)
  | 0 => none
  | steps + 1 => do
    skipLines size
    if (← peek).isNone then return []
    else
      let first ← statement size
      skipWhile isBlank
      comment
      if (← peek).all isBreak then return first :: (← statements size steps)
      else none

end Read

/-- The statements of a file. A value takes at most two steps for each of its bytes. -/
def statements (file : Text) : Option (List Statement) :=
  let t := withoutMark file
  let steps := 2 * t.length + 2
  if !Text.isUtf8 t || !isClean t then none
  else ((Read.statements steps steps).run t).map Prod.fst

end Schematic.Toml
