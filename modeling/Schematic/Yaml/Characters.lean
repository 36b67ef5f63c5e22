import Schematic.Text.Rune

/-!
# Characters of a YAML stream

A stream is UTF-8, or UTF-16 if it starts with a byte order mark of that encoding. Control
characters are not allowed in it.
-/

namespace Schematic.Yaml

/-- Whether a character may occur in a stream. -/
def isAllowed (code : Nat) : Bool :=
  code = 0x09 || code = 0x0A || code = 0x0D || (0x20 ≤ code && code ≤ 0x7E) || code = 0x85 ||
    (0xA0 ≤ code && code ≤ 0xD7FF) || (0xE000 ≤ code && code ≤ 0xFFFD) ||
    (0x10000 ≤ code && code ≤ 0x10FFFF)

/-- The characters of code points that all may occur. -/
def allowed (codes : List Nat) : Option (List Char) :=
  codes.mapM fun code => if isAllowed code then some (Char.ofNat code) else none

/-- The code points of UTF-8. -/
def utf8Codes (t : Text) : Option (List Nat) :=
  (Text.runes t).mapM Text.Rune.code?

/-- The units of UTF-16; `littleEndian` says which byte of a unit comes first. -/
def units (littleEndian : Bool) : Text → Option (List Nat)
  | a :: b :: t => do
    let unit := if littleEndian then a.toNat + 256 * b.toNat else 256 * a.toNat + b.toNat
    return unit :: (← units littleEndian t)
  | [] => some []
  | [_] => none

/-- The code points that units of UTF-16 spell. -/
def utf16Codes : List Nat → Option (List Nat)
  | [] => some []
  | [a] => if 0xD800 ≤ a && a < 0xE000 then none else some [a]
  | a :: b :: us =>
    if 0xD800 ≤ a && a < 0xDC00 then
      if 0xDC00 ≤ b && b < 0xE000 then do
        return (0x10000 + (a - 0xD800) * 0x400 + (b - 0xDC00)) :: (← utf16Codes us)
      else none
    else if 0xDC00 ≤ a && a < 0xE000 then none
    else do return a :: (← utf16Codes (b :: us))

/-- The characters of a stream without its byte order mark. -/
def characters (t : Text) : Option (List Char) :=
  match t with
  | 0xFF :: 0xFE :: t => do allowed (← utf16Codes (← units true t))
  | 0xFE :: 0xFF :: t => do allowed (← utf16Codes (← units false t))
  | 0xEF :: 0xBB :: 0xBF :: t => do allowed (← utf8Codes t)
  | t => do allowed (← utf8Codes t)

/-- The bytes of characters. -/
def ofCharacters (cs : List Char) : Text :=
  cs.flatMap fun c => Text.encode c.toNat

end Schematic.Yaml
