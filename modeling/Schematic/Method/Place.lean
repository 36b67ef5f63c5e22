import Schematic.Value

/-!
# Places

What a statement of a generated method can refer to: a member of the struct, the current item of a
member that is an array, or the current element of a loop over values.
-/

namespace Schematic.Method

/-- Something that holds a value. -/
inductive Place where
  | member (name : Text)
  | memberAt (name : Text)
  | element
  deriving Repr, DecidableEq

namespace Place

/-- The value in a place. -/
def read (members : List (Text × Value)) (index : Nat) (element : Value) : Place → Option Value
  | .member name => members.lookup name
  | .memberAt name => do
    let items ← (← members.lookup name).items?
    items[index]?
  | .element => some element

/-- The members with the value in a place changed; the element of a loop is a copy and not part of
the members. -/
def update (members : List (Text × Value)) (index : Nat) (f : Value → Option Value) :
    Place → Option (List (Text × Value))
  | .member name => Value.updateMember f name members
  | .memberAt name =>
    Value.updateMember
      (fun v => do
        let items ← v.items?
        return .array (← Value.updateItem f index items))
      name members
  | .element => none

end Place

end Schematic.Method
