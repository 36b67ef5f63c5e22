import Schematic.Literal.Number
import Schematic.Text.Rune

/-!
# Quoted literals

Text between double quotation marks, single quotation marks or backquotes. Escapes are read
between the first two; single marks hold at most one character.
-/

namespace Schematic.Literal

/-- The value of hexadecimal digits. -/
def hexValue? (ds : Text) : Option Nat :=
  ds.foldlM (fun n d => (hexDigit? d).map fun x => 16 * n + x) 0

/-- The value of octal digits. -/
def octalValue? (ds : Text) : Option Nat :=
  ds.foldlM (fun n d => if 0x30 ≤ d && d ≤ 0x37 then some (8 * n + (d.toNat - 0x30)) else none) 0

/-- A code point that is no surrogate. -/
def isScalar (code : Nat) : Bool :=
  code < 0xD800 || (0xE000 ≤ code && code ≤ 0x10FFFF)

/-- The bytes that an escape stands for, given what follows the backslash, and how many bytes of
it the escape takes. -/
def escape? (mark : UInt8) : Text → Option (Text × Nat)
  | [] => none
  | c :: t =>
    match c with
    | 0x61 => some ([0x07], 1)
    | 0x62 => some ([0x08], 1)
    | 0x66 => some ([0x0C], 1)
    | 0x6E => some ([0x0A], 1)
    | 0x72 => some ([0x0D], 1)
    | 0x74 => some ([0x09], 1)
    | 0x76 => some ([0x0B], 1)
    | 0x5C => some ([0x5C], 1)
    | 0x78 => do
      guard (2 ≤ t.length)
      let v ← hexValue? (t.take 2)
      return ([v.toUInt8], 3)
    | 0x75 => do
      guard (4 ≤ t.length)
      let v ← hexValue? (t.take 4)
      guard (isScalar v)
      return (Text.encode v, 5)
    | 0x55 => do
      guard (8 ≤ t.length)
      let v ← hexValue? (t.take 8)
      guard (isScalar v)
      return (Text.encode v, 9)
    | _ =>
      if 0x30 ≤ c && c ≤ 0x37 then do
        guard (2 ≤ t.length)
        let v ← octalValue? (c :: t.take 2)
        guard (v ≤ 255)
        return ([v.toUInt8], 3)
      else if c = mark then some ([c], 1)
      else none

/-- The bytes of the next character between marks, and how many bytes spell it. A byte that is no
UTF-8 becomes a replacement character; a line feed is not allowed. -/
def character? (mark : UInt8) (b : UInt8) (t : Text) : Option (Text × Nat) :=
  if b = 0x5C then (escape? mark t).map fun (bytes, n) => (bytes, n + 1)
  else if b = 0x0A then none
  else
    let r := Text.firstRune b t
    some (if r.code?.isSome then r.bytes else Text.encode 0xFFFD, r.bytes.length)

/-- The bytes up to the closing mark, which ends the text; the first `taken` bytes belong to a
character already read. -/
def unquoteFrom (mark : UInt8) : (taken : Nat) → Text → Option Text
  | _, [] => none
  | taken + 1, _ :: t => unquoteFrom mark taken t
  | 0, b :: t =>
    if b = mark then if t.isEmpty then some [] else none
    else do
      let (bytes, n) ← character? mark b t
      let rest ← unquoteFrom mark (n - 1) t
      return bytes ++ rest

/-- The bytes that a quoted literal stands for. -/
def unquote? : Text → Option Text
  | 0x60 :: t =>
    match t.reverse with
    | 0x60 :: body =>
      if body.contains 0x60 then none else some (body.reverse.filter fun b => b ≠ 0x0D)
    | _ => none
  | 0x22 :: t => unquoteFrom 0x22 0 t
  | [0x27, 0x27] => some []
  | 0x27 :: 0x27 :: _ => none
  | 0x27 :: b :: t => do
    let (bytes, n) ← character? 0x27 b t
    guard ((b :: t).drop n = [0x27])
    return bytes
  | _ => none

end Schematic.Literal
