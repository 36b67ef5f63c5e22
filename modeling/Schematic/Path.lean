import Schematic.Text

/-!
# Paths

Slash-separated paths, as texts. Cleaning a path is purely textual and never looks at files.
-/

namespace Schematic.Path

/-- The byte between two elements of a path. -/
def slash : UInt8 :=
  0x2F

/-- Whether a path starts at the root. -/
def isAbsolute : Text → Bool
  | b :: _ => b = slash
  | [] => false

/-- The elements of a path that say where to go: empty ones and single dots are left out. -/
def elements (p : Text) : List Text :=
  (Text.splitOn slash p).filter fun e => !e.isEmpty && e ≠ "."

/-- Takes one more element; the list holds the last element first. Two dots take back the element
before them, and above the root there is nothing. -/
def enter (rooted : Bool) (taken : List Text) (e : Text) : List Text :=
  if e = ".." then
    match taken with
    | top :: rest => if top = ".." then e :: taken else rest
    | [] => if rooted then [] else [e]
  else e :: taken

/-- The elements of the shortest path that leads to the same place. -/
def cleanElements (p : Text) : List Text :=
  ((elements p).foldl (enter (isAbsolute p)) []).reverse

/-- The shortest path that leads to the same place. -/
def clean (p : Text) : Text :=
  let joined := Text.join [slash] (cleanElements p)
  if isAbsolute p then slash :: joined else if joined.isEmpty then "." else joined

/-- Paths one inside the other, cleaned; empty ones do not count. -/
def join (parts : List Text) : Text :=
  let parts := parts.filter fun p => !p.isEmpty
  if parts.isEmpty then [] else clean (Text.join [slash] parts)

/-- A text without the slashes at its end. -/
def dropLastSlashes (p : Text) : Text :=
  (p.reverse.dropWhile fun b => b = slash).reverse

/-- What stands behind the last slash. -/
def afterLastSlash (p : Text) : Text :=
  (p.reverse.takeWhile fun b => b ≠ slash).reverse

/-- The directory that a path names something in. -/
def directory (p : Text) : Text :=
  clean (p.take (p.length - (afterLastSlash p).length))

/-- The last element of a path. -/
def base (p : Text) : Text :=
  if p.isEmpty then "."
  else
    let p := dropLastSlashes p
    if p.isEmpty then [slash] else afterLastSlash p

/-- The part of the last element from its last dot on. -/
def extension (p : Text) : Text :=
  let last := afterLastSlash p
  let tail := last.reverse.takeWhile fun b => b ≠ 0x2E
  if tail.length < last.length then 0x2E :: tail.reverse else []

/-- A path without its extension. -/
def dropExtension (p : Text) : Text :=
  p.take (p.length - (extension p).length)

end Schematic.Path
