import Schematic.Code.Piece
import Schematic.Method.Defaults
import Schematic.Method.Serializer

/-!
# Bodies of methods

The code of the statements of generated methods. The receiver is `o`, the writer `w`, the element
of a loop `e`, its index `i`, and the handle of an element's slot `local`.
-/

namespace Schematic.Code

open Method

/-- The code of a place. -/
def place : Place → List Piece
  | .member id => ["o.", .name id]
  | .memberAt id => ["o.", .name id, "[i]"]
  | .element => ["e"]

/-- The variable for the handles of a field. -/
def slotName (id : Text) : Piece :=
  .name (Text.concat ["fixup", id])

/-- The code of a variable that holds a handle. -/
def slot : Slot → List Piece
  | .field id => [slotName id]
  | .fieldAt id => [slotName id, "[i]"]
  | .element => ["local"]

/-- The method that writes a plain value, and its argument. -/
def writeValue (value : List Piece) : Plain → List Piece
  | .bool => pieces [["w.WriteBool("], value, [")"]]
  | .int32 => pieces [["w.WriteInt32("], value, [")"]]
  | .float32 => pieces [["w.WriteFloat32("], value, [")"]]
  | .string => pieces [["w.WriteString("], value, [")"]]
  | .enumeration => pieces [["w.WriteInt32(int32("], value, ["))"]]

/-- What declares or assigns a variable that holds a handle. -/
def slotAssignment : Slot → List Piece
  | .fieldAt id => pieces [slot (.fieldAt id), [" = "]]
  | s => pieces [slot s, [" := "]]

/-- The code of a simple statement. -/
def writeStep : WriteStep → List Line
  | .value kind p => [⟨0, writeValue (place p) kind⟩]
  | .object p _ => [⟨0, pieces [place p, [".Serialize(w)"]]⟩]
  | .count member => [⟨0, ["w.WriteCount(len(o.", .name member, "))"]⟩]
  | .reserve s => [⟨0, pieces [slotAssignment s, ["w.CreateFixup()"]]⟩]
  | .resolve s => [⟨0, pieces [["w.InsertFixup("], slot s, [")"]]⟩]
  | .orNew q => block ["if e == nil"] [⟨0, ["e = new(", .name q.identifier, ")"]⟩]

/-- The code of a statement; `package` is the name of the package of handles. -/
def writeStatement (package : Text) : WriteStatement → List Line
  | .step s => writeStep s
  | .reserveEach id count =>
    [⟨0, ["var ", slotName id, " [", .mark (Text.ofInt count), "]", .name package, ".Handle"]⟩] ++
      block ["for i := range ", slotName id] (writeStep (.reserve (.fieldAt id)))
  | .eachIndex id body => block ["for i := range o.", .name id] (body.flatMap writeStep)
  | .eachElement id body => block ["for _, e := range o.", .name id] (body.flatMap writeStep)
  | .remark t => [.blank, ⟨0, [.comment t]⟩]

/-- The code of a default's value: labels by their constants, all else as it was written. -/
def defaultPiece (token : Text) : DefaultValue → Piece
  | .label e name => .name (e.constant name)
  | _ => .literal token

/-- The code of a simple statement that sets defaults. -/
def defaultStep : DefaultStep → Line
  | .object p _ => ⟨0, pieces [place p, [".SetDefaults()"]]⟩
  | .assign p token value => ⟨0, pieces [place p, [" = ", defaultPiece token value]]⟩

/-- The code of a statement that sets defaults. -/
def defaultStatement : DefaultStatement → List Line
  | .step s => [defaultStep s]
  | .eachIndex id s => block ["for i := range o.", .name id] [defaultStep s]

end Schematic.Code
