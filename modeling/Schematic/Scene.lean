import Schematic.Schema

/-!
# A schema of drawings

Points, shapes and paths: small, and with every kind of field.
-/

namespace Schematic.Scene

/-- A field without a default. -/
def field (name typeName : Text) (type : FieldType) (shape : Shape) (line : Nat) : Field :=
  ⟨name, typeName, type, shape, false, none, line⟩

/-- A field with a default. -/
def fieldWith (default : Text) (f : Field) : Field :=
  { f with default? := some default }

/-- A point in the plane. -/
def point : Struct where
  name := "Point"
  scope := []
  parent := none
  base := none
  line := 4
  enums := []
  fields :=
    [field "x" "float" (.basic .float) .scalar 4, field "y" "float" (.basic .float) .scalar 4]
  children := []

/-- The kinds of shapes. -/
def kind : Enumeration where
  name := "Kind"
  owner := some ["Shape"]
  line := 7
  labels := [⟨"Polygon", 0⟩, ⟨"Circle", 4⟩, ⟨"Label", 5⟩]

/-- What all shapes have. -/
def shape : Struct where
  name := "Shape"
  scope := []
  parent := none
  base := none
  line := 6
  enums := [kind]
  fields :=
    [fieldWith "Circle" (field "kind" "Kind" (.enumeration kind) .scalar 9),
      fieldWith "\"shape\"" (field "name" "string" (.basic .string) .scalar 10),
      fieldWith "true" (field "visible" "bool" (.basic .bool) .scalar 11),
      field "kinds" "Kind" (.enumeration kind) .dynamic 12]
  children := []

/-- How a path is drawn. -/
def style : Struct where
  name := "Style"
  scope := ["Path"]
  parent := none
  base := none
  line := 16
  enums := []
  fields :=
    [fieldWith "1" (field "width" "int" (.basic .int) .scalar 16),
      field "color" "string" (.basic .string) .scalar 16]
  children := []

/-- A shape along points. -/
def path : Struct where
  name := "Path"
  scope := []
  parent := some "Shape"
  base := some ["Shape"]
  line := 15
  enums := []
  fields :=
    [field "pts" "Point" (.struct ["Point"]) .dynamic 18,
      field "style" "Style" (.struct ["Path", "Style"]) .scalar 19,
      fieldWith "7" (field "ids" "int" (.basic .int) (.fixed 2) 20),
      field "tags" "string" (.basic .string) .dynamic 21,
      field "corners" "Point" (.struct ["Point"]) (.fixed 2) 22,
      field "names" "string" (.basic .string) (.fixed 2) 23,
      field "styles" "Style" (.struct ["Path", "Style"]) .dynamic 24]
  children := [style]

/-- The schema of drawings. -/
def schema : Schema where
  binaryNamespace := some "scenebin"
  friendlyNamespace := some "scene"
  structs := [point, shape, path]

end Schematic.Scene
