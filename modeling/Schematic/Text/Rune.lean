import Schematic.Text

/-!
# Runes

A text read as UTF-8: each rune is one code point with the bytes that spell it, or a single byte
that belongs to no well-formed sequence.
-/

namespace Schematic.Text

/-- One step of reading UTF-8. -/
structure Rune where
  /-- The bytes as they stand in the text. -/
  bytes : Text
  /-- The code point, unless the byte is ill-formed. -/
  code? : Option Nat
  deriving Repr, DecidableEq

/-- Membership in a sorted list of closed ranges. -/
def inRanges : List (Nat × Nat) → Nat → Bool
  | [], _ => false
  | (first, last) :: ranges, code =>
    if code < first then false
    else if code ≤ last then true
    else inRanges ranges code

/-- Whether the rune is a code point of the given ranges. -/
def Rune.codeIn (ranges : List (Nat × Nat)) (r : Rune) : Bool :=
  match r.code? with
  | some code => inRanges ranges code
  | none => false

/-- Whether the rune is the given code point. -/
def Rune.is (code : Nat) (r : Rune) : Bool :=
  r.code? == some code

/-- The last six bits of a continuation byte. -/
def continuation (b : UInt8) : Nat :=
  b.toNat % 0x40

/-- Two bytes that spell a code point from U+0080 to U+07FF. -/
def isPair (a b : UInt8) : Bool :=
  0xC2 ≤ a && a ≤ 0xDF && 0x80 ≤ b && b ≤ 0xBF

/-- Three bytes that spell a code point from U+0800 to U+FFFF, surrogates excepted. -/
def isTriple (a b c : UInt8) : Bool :=
  0xE0 ≤ a && a ≤ 0xEF &&
    (if a = 0xE0 then 0xA0 else 0x80) ≤ b && b ≤ (if a = 0xED then 0x9F else 0xBF) &&
    0x80 ≤ c && c ≤ 0xBF

/-- Four bytes that spell a code point from U+10000 to U+10FFFF. -/
def isQuadruple (a b c d : UInt8) : Bool :=
  0xF0 ≤ a && a ≤ 0xF4 &&
    (if a = 0xF0 then 0x90 else 0x80) ≤ b && b ≤ (if a = 0xF4 then 0x8F else 0xBF) &&
    0x80 ≤ c && c ≤ 0xBF && 0x80 ≤ d && d ≤ 0xBF

/-- The rune that starts with the byte `a` when the bytes `t` follow it. -/
def firstRune (a : UInt8) (t : Text) : Rune :=
  let ill : Rune := ⟨[a], none⟩
  if a < 0x80 then ⟨[a], some a.toNat⟩
  else match t with
    | [] => ill
    | b :: t =>
      if isPair a b then ⟨[a, b], some (a.toNat % 0x20 * 0x40 + continuation b)⟩
      else match t with
        | [] => ill
        | c :: t =>
          if isTriple a b c then
            ⟨[a, b, c],
              some (a.toNat % 0x10 * 0x1000 + continuation b * 0x40 + continuation c)⟩
          else match t with
            | [] => ill
            | d :: _ =>
              if isQuadruple a b c d then
                ⟨[a, b, c, d],
                  some (a.toNat % 0x08 * 0x40000 + continuation b * 0x1000 +
                    continuation c * 0x40 + continuation d)⟩
              else ill

/-- The runes of a text whose first `taken` bytes belong to a rune already read. -/
def runesFrom : (taken : Nat) → Text → List Rune
  | _, [] => []
  | taken + 1, _ :: t => runesFrom taken t
  | 0, a :: t =>
    let r := firstRune a t
    r :: runesFrom (r.bytes.length - 1) t

/-- The runes of a text, in order. -/
def runes (t : Text) : List Rune :=
  runesFrom 0 t

/-- Whether the whole text is well-formed UTF-8. -/
def isUtf8 (t : Text) : Bool :=
  (runes t).all fun r => r.code?.isSome

/-- The bytes of a list of runes. -/
def ofRunes (rs : List Rune) : Text :=
  (rs.map Rune.bytes).flatten

/-- The number of runes. -/
def runeCount (t : Text) : Nat :=
  (runes t).length

/-- The UTF-8 spelling of a code point. -/
def encode (code : Nat) : Text :=
  if code < 0x80 then [code.toUInt8]
  else if code < 0x800 then
    [(0xC0 + code / 0x40).toUInt8, (0x80 + code % 0x40).toUInt8]
  else if code < 0x10000 then
    [(0xE0 + code / 0x1000).toUInt8, (0x80 + code / 0x40 % 0x40).toUInt8,
      (0x80 + code % 0x40).toUInt8]
  else
    [(0xF0 + code / 0x40000).toUInt8, (0x80 + code / 0x1000 % 0x40).toUInt8,
      (0x80 + code / 0x40 % 0x40).toUInt8, (0x80 + code % 0x40).toUInt8]

/-- The rune of a code point. -/
def Rune.ofCode (code : Nat) : Rune :=
  ⟨encode code, some code⟩

end Schematic.Text
