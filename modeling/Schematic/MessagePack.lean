import Schematic.Document
import Schematic.Text.LittleEndian

/-!
# MessagePack

A document as bytes. Numbers and lengths take the least width that holds them, the most significant
byte first.
-/

namespace Schematic.MessagePack

/-- A number in a fixed number of bytes, the most significant first. -/
def bigEndian (width n : Nat) : Text :=
  (Text.littleEndian width n).reverse

/-- An integer. -/
def int (i : Int) : Text :=
  let n := i.toNat
  if 0 ≤ i then
    if n < 0x80 then [n.toUInt8]
    else if n < 0x100 then 0xCC :: bigEndian 1 n
    else if n < 0x10000 then 0xCD :: bigEndian 2 n
    else if n < 0x100000000 then 0xCE :: bigEndian 4 n
    else 0xCF :: bigEndian 8 n
  else if -0x20 ≤ i then [(i % 0x100).toNat.toUInt8]
  else if -0x80 ≤ i then 0xD0 :: bigEndian 1 (i % 0x100).toNat
  else if -0x8000 ≤ i then 0xD1 :: bigEndian 2 (i % 0x10000).toNat
  else if -0x80000000 ≤ i then 0xD2 :: bigEndian 4 (i % 0x100000000).toNat
  else 0xD3 :: bigEndian 8 (i % 0x10000000000000000).toNat

/-- The length of a text. -/
def textHeader (n : Nat) : Text :=
  if n < 0x20 then [(0xA0 + n).toUInt8]
  else if n < 0x100 then 0xD9 :: bigEndian 1 n
  else if n < 0x10000 then 0xDA :: bigEndian 2 n
  else 0xDB :: bigEndian 4 n

/-- The length of a list. -/
def listHeader (n : Nat) : Text :=
  if n < 0x10 then [(0x90 + n).toUInt8]
  else if n < 0x10000 then 0xDC :: bigEndian 2 n
  else 0xDD :: bigEndian 4 n

/-- The length of a map. -/
def mapHeader (n : Nat) : Text :=
  if n < 0x10 then [(0x80 + n).toUInt8]
  else if n < 0x10000 then 0xDE :: bigEndian 2 n
  else 0xDF :: bigEndian 4 n

/-- A text with its length. -/
def text (t : Text) : Text :=
  textHeader t.length ++ t

mutual

/-- A document as bytes. -/
def render : Document → Text
  | .text t => text t
  | .int i => int i
  | .bool b => [if b then 0xC3 else 0xC2]
  | .list items => listHeader items.length ++ renderItems items
  | .map entries => mapHeader entries.length ++ renderEntries entries

/-- The items of a list as bytes. -/
def renderItems : List Document → Text
  | [] => []
  | d :: ds => render d ++ renderItems ds

/-- The entries of a map as bytes. -/
def renderEntries : List (Text × Document) → Text
  | [] => []
  | (key, d) :: es => text key ++ render d ++ renderEntries es

end

end Schematic.MessagePack
