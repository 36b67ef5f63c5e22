import Schematic.Method.Place

/-!
# Defaults of a struct

The method that sets the declared defaults of a struct: those of its base, and those of each field
that is not a dynamic array, where structs set their own.
-/

namespace Schematic.Method

/-- A simple statement that sets defaults. -/
inductive DefaultStep where
  | object (p : Place) (type : Qualified)
  | assign (p : Place) (token : Text) (value : DefaultValue)
  deriving Repr, DecidableEq

/-- A statement that sets defaults. -/
inductive DefaultStatement where
  | step (s : DefaultStep)
  | eachIndex (member : Text) (s : DefaultStep)
  deriving Repr, DecidableEq

end Schematic.Method

namespace Schematic

open Method

namespace Field

/-- The statement that sets the default of one value of a field, if it has one. -/
def setOne? (f : Field) (p : Place) : Option DefaultStep :=
  match f.type with
  | .struct q => some (.object p q)
  | _ =>
    match f.defaultValue with
    | .ok (some value) => some (.assign p (f.default?.getD []) value)
    | _ => none

/-- The statements that set the default of a field. -/
def setDefault (f : Field) : List DefaultStatement :=
  match f.shape with
  | .dynamic => []
  | .scalar => ((f.setOne? (.member f.identifier)).map DefaultStatement.step).toList
  | .fixed _ =>
    ((f.setOne? (.memberAt f.identifier)).map
      (DefaultStatement.eachIndex f.identifier)).toList

end Field

/-- The statements that set the defaults of a struct. -/
def Struct.defaults (st : Struct) : List DefaultStatement :=
  (st.base.map fun b => DefaultStatement.step (.object (.member b.identifier) b)).toList ++
    st.fields.flatMap Field.setDefault

end Schematic
