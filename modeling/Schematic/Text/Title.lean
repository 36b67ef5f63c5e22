import Schematic.Text.Title.Cased
import Schematic.Text.Title.Mapping
import Schematic.Text.Title.Word

/-!
# Title case

The first cased rune of each word is put into title case; all other runes stay as they are.
-/

namespace Schematic.Text.Title

/-- Title case of the runes that follow. `inWord` says that the word already had its first cased
rune, `afterInner` that the rune before was one that may stand inside a word. -/
def titleFrom : (inWord afterInner : Bool) → List Rune → Text
  | _, _, [] => []
  | inWord, afterInner, r :: rs =>
    let inWord := inWord && !(afterInner && isInner r)
    if isCased r then
      (if inWord then r.bytes else titled r) ++ titleFrom true (isInner r) rs
    else
      r.bytes ++ titleFrom (inWord && !isBreak r) (isInner r) rs

end Schematic.Text.Title

namespace Schematic.Text

/-- Every word of the text starts in title case. -/
def titleCase (t : Text) : Text :=
  Title.titleFrom false false (runes t)

/-- The parts between underscores in title case, without the underscores. -/
def pascalCase (t : Text) : Text :=
  concat ((splitOn 0x5F t).map titleCase)

end Schematic.Text
