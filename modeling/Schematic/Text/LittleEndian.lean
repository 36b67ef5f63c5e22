import Schematic.Text

/-!
# Little-endian words

Numbers as a fixed number of bytes, the least significant first.
-/

namespace Schematic.Text

/-- The lowest `width` bytes of a number. -/
def littleEndian : (width : Nat) → Nat → Text
  | 0, _ => []
  | width + 1, n => (n % 256).toUInt8 :: littleEndian width (n / 256)

/-- The number that bytes spell. -/
def ofLittleEndian : Text → Nat
  | [] => 0
  | b :: t => b.toNat + 256 * ofLittleEndian t

/-- The words that consecutive groups of four bytes spell; fewer than four at the end count for
nothing. -/
def words32 : Text → List Nat
  | a :: b :: c :: d :: t => ofLittleEndian [a, b, c, d] :: words32 t
  | _ => []

end Schematic.Text
