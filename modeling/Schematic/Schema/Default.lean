import Schematic.Literal.Quoted
import Schematic.Schema.Error

/-!
# Defaults

A default is one token. What it may be depends on the type and shape of its field.
-/

namespace Schematic

/-- What a default stands for. -/
inductive DefaultValue where
  | bool (b : Bool)
  | int (i : Int)
  | float (n : Literal.Number)
  | string (t : Text)
  | label (e : Enumeration) (name : Text)
  deriving Repr, DecidableEq

namespace Basic

/-- The value that a token spells as a literal of a built-in type. -/
def literal (b : Basic) (token : Text) : Except DefaultFault DefaultValue :=
  match b with
  | bool =>
    if token = "true" then .ok (.bool true)
    else if token = "false" then .ok (.bool false)
    else .error .notABool
  | int =>
    match Text.int32? token with
    | some i => .ok (.int i)
    | none => .error (.notALiteral int)
  | float =>
    match Literal.single? token with
    | some n => .ok (.float n)
    | none => .error (.notALiteral float)
  | string =>
    match Literal.unquote? token with
    | some t => .ok (.string t)
    | none => .error (.notALiteral string)

end Basic

namespace FieldType

/-- The value that a token spells as a default of a type; `typeName` is how the type was written.
A type that refers to nothing declared takes any token. -/
def defaultValue (type : FieldType) (typeName token : Text) : Except DefaultFault DefaultValue :=
  match type with
  | basic b => b.literal token
  | enumeration e =>
    if e.hasLabel token then .ok (.label e token) else .error (.notALabel token e.name)
  | struct _ => .error (.structType typeName)
  | described _ _ => .ok (.string token)

end FieldType

namespace Field

/-- The value of a field's default, if it has one. -/
def defaultValue (f : Field) : Except DefaultFault (Option DefaultValue) :=
  match f.default? with
  | none => .ok none
  | some token =>
    if f.isDynamic then .error .dynamicArray
    else (f.type.defaultValue f.typeName token).map some

/-- Refuses a default that does not suit the field. -/
def checkDefault (f : Field) : Except SchemaError Unit :=
  match f.defaultValue with
  | .ok _ => .ok ()
  | .error fault => .error (.invalidDefault (f.default?.getD []) f.name f.line fault)

end Field

end Schematic
