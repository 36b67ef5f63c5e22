import Schematic.Document
import Schematic.Text.Base64
import Schematic.Text.Escaped
import Schematic.Yaml.Meaning

/-!
# Writing YAML

A document in block style with two blanks for each level. A text stands without quotation marks
wherever it would be read as the same text. Texts of documents have no line ends and no blanks.
-/

namespace Schematic.Yaml

/-- Words that older readers take for truth values. -/
def oldTruthWords : List Text :=
  ["y", "Y", "yes", "Yes", "YES", "on", "On", "ON", "n", "N", "no", "No", "NO", "off", "Off", "OFF"]

/-- Whether a text would be read as something else if it had no quotation marks. -/
def isMistakable (t : Text) : Bool :=
  meaning t ≠ .text || oldTruthWords.contains t

/-- Whether a character may be written as it is. -/
def isWritable (code : Nat) : Bool :=
  (0x20 ≤ code && code ≤ 0x7E) || (0xA0 ≤ code && code ≤ 0xFFFD && code ≠ 0xFEFF)

/-- Marks that no plain scalar starts with. -/
def leadingMarks : Text :=
  "#,[]\x7b\x7d&*!|>'\"%@`"

/-- Whether a text may stand without quotation marks. -/
def isPlain (t : Text) : Bool :=
  match t with
  | [] => true
  | b :: rest =>
    !leadingMarks.contains b &&
      !(rest.isEmpty && (b = 0x2D || b = 0x3F || b = 0x3A)) &&
      !Text.startsWith "---" t && !Text.startsWith "..." t && !Text.endsWith ":" t

/-- The letters that stand for characters behind a backslash. -/
def escapeLetters : List (Nat × UInt8) :=
  [(0x00, 0x30), (0x07, 0x61), (0x08, 0x62), (0x09, 0x74), (0x0A, 0x6E), (0x0B, 0x76),
   (0x0C, 0x66), (0x0D, 0x72), (0x1B, 0x65), (0x22, 0x22), (0x5C, 0x5C), (0x85, 0x4E),
   (0xA0, 0x5F), (0x2028, 0x4C), (0x2029, 0x50)]

/-- Upper case for the letters of a hexadecimal number. -/
def upperHex (width code : Nat) : Text :=
  (Text.hex width code).map fun b => if 0x61 ≤ b then b - 0x20 else b

/-- A character behind a backslash. -/
def escape (code : Nat) : Text :=
  match escapeLetters.lookup code with
  | some letter => [0x5C, letter]
  | none =>
    if code ≤ 0xFF then Text.concat ["\\x", upperHex 2 code]
    else if code ≤ 0xFFFF then Text.concat ["\\u", upperHex 4 code]
    else Text.concat ["\\U", upperHex 8 code]

/-- A text between double quotation marks. -/
def doubleQuoted (t : Text) : Text :=
  Text.quoted ((Text.runes t).flatMap fun r =>
    match r.code? with
    | some code =>
      if isWritable code && code ≠ 0x22 && code ≠ 0x5C then r.bytes else escape code
    | none => r.bytes)

/-- A text between single quotation marks. -/
def singleQuoted (t : Text) : Text :=
  Text.concat ["'", t.flatMap fun b => if b = 0x27 then [b, b] else [b], "'"]

/-- The longest line of base 64. -/
def base64Line : Nat :=
  70

/-- A text in lines of at most `width` bytes; `left` is the room in the current line. -/
def cutLines (width : Nat) : (left : Nat) → Text → List Text
  | _, [] => [[]]
  | 0, b :: t =>
    match cutLines width (width - 1) t with
    | line :: lines => [] :: (b :: line) :: lines
    | [] => [[], [b]]
  | left + 1, b :: t =>
    match cutLines width left t with
    | line :: lines => (b :: line) :: lines
    | [] => [[b]]

/-- The lines of bytes that are no text. -/
def binary (t : Text) : List Text :=
  let encoded := Text.base64 t
  if encoded.length < base64Line then [Text.concat ["!!binary ", encoded]]
  else "!!binary |" :: (cutLines base64Line base64Line encoded).map fun l => Text.concat ["  ", l]

/-- The lines of a text. -/
def textLines (t : Text) : List Text :=
  if !Text.isUtf8 t then binary t
  else if isMistakable t then [doubleQuoted t]
  else if !(Text.runes t).all fun r => r.code?.any isWritable then [doubleQuoted t]
  else if isPlain t then [t]
  else [singleQuoted t]

/-- Lines further in by two blanks. -/
def indent (lines : List Text) : List Text :=
  lines.map fun l => Text.concat ["  ", l]

/-- Lines behind something on the line of the first of them. -/
def behind (lead : Text) : List Text → List Text
  | [] => [lead]
  | first :: rest => Text.concat [lead, " ", first] :: rest

mutual

/-- The lines of a document. -/
def lines : Document → List Text
  | .text t => textLines t
  | .int i => [Text.ofInt i]
  | .bool b => [if b then "true" else "false"]
  | .list [] => ["[]"]
  | .list (d :: ds) => itemLines (d :: ds)
  | .map [] => ["\x7b\x7d"]
  | .map (e :: es) => entryLines (e :: es)

/-- The lines of the items of a list. -/
def itemLines : List Document → List Text
  | [] => []
  | d :: ds =>
    (match lines d with
    | [] => ["-"]
    | first :: rest => Text.concat ["- ", first] :: indent rest) ++ itemLines ds

/-- The lines of the entries of a map. -/
def entryLines : List (Text × Document) → List Text
  | [] => []
  | (key, d) :: es =>
    let head := Text.concat [key, ":"]
    (match d with
    | .list (_ :: _) => head :: indent (lines d)
    | .map (_ :: _) => head :: indent (lines d)
    | _ => behind head (lines d)) ++ entryLines es

end

/-- A document as YAML. -/
def render (d : Document) : Text :=
  (lines d).flatMap fun l => Text.concat [l, "\n"]

end Schematic.Yaml
