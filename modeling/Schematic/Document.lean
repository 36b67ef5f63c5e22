import Schematic.Text

/-!
# Documents

A tree of named values whose order counts, as data formats write it.
-/

namespace Schematic

/-- A value of a document. -/
inductive Document where
  | text (t : Text)
  | int (i : Int)
  | bool (b : Bool)
  | list (items : List Document)
  | map (entries : List (Text × Document))
  deriving Repr, Inhabited

namespace Document

/-- A map whose entries are given in groups. -/
def record (groups : List (List (Text × Document))) : Document :=
  map groups.flatten

/-- An entry that is only there if it has a value. -/
def entry? (key : Text) (make : α → Document) : Option α → List (Text × Document)
  | some a => [(key, make a)]
  | none => []

/-- An entry with a list that is only there if the list is not empty. -/
def entries? (key : Text) : List Document → List (Text × Document)
  | [] => []
  | items => [(key, list items)]

end Document

end Schematic
