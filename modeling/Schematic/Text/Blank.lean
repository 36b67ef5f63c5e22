import Schematic.Text.Rune

/-!
# Blanks

The property White_Space, and the words that blanks separate.
-/

namespace Schematic.Text

/-- The code points of white space. -/
def blankRanges : List (Nat × Nat) :=
  [(0x09, 0x0D), (0x20, 0x20), (0x85, 0x85), (0xA0, 0xA0), (0x1680, 0x1680), (0x2000, 0x200A),
   (0x2028, 0x2029), (0x202F, 0x202F), (0x205F, 0x205F), (0x3000, 0x3000)]

/-- A rune of white space. -/
def Rune.isBlank (r : Rune) : Bool :=
  r.codeIn blankRanges

/-- The text without the blanks at its end. -/
def trimRight (t : Text) : Text :=
  ofRunes ((runes t).reverse.dropWhile Rune.isBlank).reverse

end Schematic.Text
