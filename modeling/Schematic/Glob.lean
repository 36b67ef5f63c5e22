import Schematic.FileTree
import Schematic.Text.Rune

/-!
# Path patterns

In a pattern a star matches any bytes but a slash, a question mark one character but a slash,
brackets one character of a class, and a backslash takes away the meaning of what follows. Each
element of a pattern is matched with the names in a directory.
-/

namespace Schematic.Glob

/-- A part of a pattern that matches one character, or bytes as they stand. -/
inductive Part where
  | bytes (t : Text)
  | any
  | oneOf (negated : Bool) (ranges : List (Nat × Nat))
  deriving Repr, DecidableEq

/-- Parts in a row, with or without a star before them. -/
structure Chunk where
  star : Bool
  parts : List Part
  deriving Repr, DecidableEq

/-- A character of a class, which may stand behind a backslash. More has to follow. -/
def classCharacter : List Text.Rune → Option (Nat × List Text.Rune)
  | [] => none
  | r :: rs =>
    if r.is 0x2D || r.is 0x5D then none
    else
      let (c, rest) :=
        match r.is 0x5C, rs with
        | true, e :: rest => (some e, rest)
        | true, [] => (none, [])
        | false, rest => (some r, rest)
      if rest.isEmpty then none else do return (← (← c).code?, rest)

/-- The ranges of a class and what follows its closing bracket. -/
def classRanges : (steps : Nat) → (ranges : List (Nat × Nat)) → List Text.Rune →
    Option (List (Nat × Nat) × List Text.Rune)
  | 0, _, _ => none
  | steps + 1, ranges, rs =>
    if !ranges.isEmpty && rs.head?.any (·.is 0x5D) then some (ranges, rs.tail)
    else do
      let (first, rest) ← classCharacter rs
      if rest.head?.any (·.is 0x2D) then
        let (last, rest) ← classCharacter rest.tail
        classRanges steps (ranges ++ [(first, last)]) rest
      else classRanges steps (ranges ++ [(first, first)]) rest

/-- Puts a part in front of chunks. -/
def consPart (p : Part) : List Chunk → List Chunk
  | c :: cs => if c.star then ⟨false, [p]⟩ :: c :: cs else ⟨false, p :: c.parts⟩ :: cs
  | [] => [⟨false, [p]⟩]

/-- Puts a star in front of chunks. -/
def consStar : List Chunk → List Chunk
  | c :: cs => ⟨true, c.parts⟩ :: cs
  | [] => [⟨true, []⟩]

/-- The chunks of a pattern, unless it is not well formed. -/
def chunks : (steps : Nat) → List Text.Rune → Option (List Chunk)
  | 0, _ => none
  | _, [] => some []
  | steps + 1, r :: rs =>
    if r.is 0x2A then do return consStar (← chunks steps rs)
    else if r.is 0x3F then do return consPart .any (← chunks steps rs)
    else if r.is 0x5C then
      match rs with
      | [] => none
      | e :: rs => do return consPart (.bytes e.bytes) (← chunks steps rs)
    else if r.is 0x5B then do
      let negated := rs.head?.any (·.is 0x5E)
      let (ranges, rest) ← classRanges (steps + 1) [] (if negated then rs.tail else rs)
      return consPart (.oneOf negated ranges) (← chunks steps rest)
    else do return consPart (.bytes r.bytes) (← chunks steps rs)

/-- The chunks of a pattern, unless it is not well formed. -/
def parse (pattern : Text) : Option (List Chunk) :=
  let rs := Text.runes pattern
  chunks (rs.length + 1) rs

/-- The code point that stands for bytes that are no character. -/
def replacement : Nat :=
  0xFFFD

/-- What follows the parts at the start of a name, if they match there. -/
def matchParts : List Part → Text → Option Text
  | [], name => some name
  | .bytes t :: parts, name => do matchParts parts (← Text.after? t name)
  | .any :: parts, b :: name =>
    if b = Path.slash then none
    else matchParts parts ((b :: name).drop (Text.firstRune b name).bytes.length)
  | .oneOf negated ranges :: parts, b :: name =>
    let r := Text.firstRune b name
    let code := r.code?.getD replacement
    if (ranges.any fun (first, last) => first ≤ code && code ≤ last) = negated then none
    else matchParts parts ((b :: name).drop r.bytes.length)
  | _ :: _, [] => none

/-- What follows the parts at the first place where they match, when bytes other than slashes may
be passed over before. The parts at the end of a pattern also have to match at the end of the
name. -/
def matchLater (parts : List Part) (atEnd : Bool) (star : Bool) : Text → Option Text
  | [] => (matchParts parts []).filter fun rest => rest.isEmpty || !atEnd
  | b :: name =>
    match (matchParts parts (b :: name)).filter fun rest => rest.isEmpty || !atEnd with
    | some rest => some rest
    | none => if star && b ≠ Path.slash then matchLater parts atEnd star name else none

/-- Whether a name matches chunks. -/
def matchChunks : List Chunk → Text → Bool
  | [], name => name.isEmpty
  | c :: cs, name =>
    if c.star && c.parts.isEmpty then !name.contains Path.slash
    else match matchLater c.parts cs.isEmpty c.star name with
      | some rest => matchChunks cs rest
      | none => false

/-- Whether a pattern has anything but plain bytes. -/
def hasMarks (pattern : Text) : Bool :=
  pattern.any fun b => [0x2A, 0x3F, 0x5B, 0x5C].contains b

/-- The part of a path before its last name, without the slash between them. -/
def around (pattern : Text) : Text :=
  let dir := pattern.take (pattern.length - (Path.afterLastSlash pattern).length)
  if dir.isEmpty then "." else if dir = [Path.slash] then dir else dir.dropLast

/-- The paths in a directory whose names match chunks. -/
def within (t : FileTree) (cs : List Chunk) (dir : Text) : List Text :=
  match t.locate dir with
  | .error _ => []
  | .ok l =>
    if t.isDirectory l then
      ((t.names l).filter (matchChunks cs)).map fun name => Path.join [dir, name]
    else []

/-- The paths that match a pattern, unless it is not well formed. The directories around the last
name can be patterns themselves. -/
def expand (t : FileTree) : (steps : Nat) → (pattern : Text) → Option (List Text)
  | 0, _ => none
  | steps + 1, pattern => do
    let _ ← parse pattern
    if !hasMarks pattern then
      return if (t.locate pattern).toBool then [pattern] else []
    else
      let dir := around pattern
      let last ← parse (Path.afterLastSlash pattern)
      if !hasMarks dir then return within t last dir
      else if dir = pattern then none
      else return (← expand t steps dir).flatMap (within t last)

/-- The paths that match a pattern. -/
def paths (t : FileTree) (pattern : Text) : Option (List Text) :=
  expand t (pattern.length + 1) pattern

end Schematic.Glob
