import Schematic.Identifier
import Schematic.Schema.Error

/-!
# Reading a schema

The reader takes one token at a time. Between two tokens it stands at a `Position`, which holds
what is known of the clause being read, and keeps a stack of the structs whose bodies are open.
Types are looked up where they are used, among what is declared so far: a struct can be named from
its header on, an enumeration from its end on.
-/

namespace Schematic

/-- The two representations that get a namespace of their own. -/
inductive Side where
  | binary
  | friendly
  deriving Repr, DecidableEq

/-- The type and mark that the fields of one declaration share. -/
structure FieldGroup where
  typeName : Text
  type : FieldType
  optional : Bool
  deriving Repr, DecidableEq

/-- A place between two tokens. -/
inductive Position where
  /-- Between the declarations of the file. -/
  | file
  /-- Behind the keyword of a namespace. -/
  | namespaceSign (side : Side)
  /-- Behind the sign of a namespace. -/
  | namespaceName (side : Side)
  /-- Behind the name of a namespace. -/
  | namespaceEnd (side : Side) (name : Text)
  /-- Behind a brace that ends the file. -/
  | fileEnd
  /-- Behind the end of the file; whatever follows is not read. -/
  | finished
  /-- Behind `struct`. -/
  | structName
  /-- Behind a struct's name. -/
  | structHead (name : Text) (line : Nat)
  /-- Behind the colon in front of a parent. -/
  | structParent (name : Text) (line : Nat)
  /-- In front of a struct's opening brace; the struct is declared. -/
  | structOpen
  /-- Between the members of the innermost open struct. -/
  | body
  /-- Behind a struct's closing brace. -/
  | structEnd
  /-- Behind `enum`. -/
  | enumName
  /-- Behind an enumeration's name. -/
  | enumOpen (e : Enumeration)
  /-- In front of a label or the closing brace; `next` is the value of a label without one. -/
  | labels (e : Enumeration) (next : Int)
  /-- Behind a label. -/
  | labelSign (e : Enumeration) (next : Int) (label : Token)
  /-- Behind the sign of a label. -/
  | labelValue (e : Enumeration) (label : Token)
  /-- Behind the value of a label. -/
  | labelEnd (e : Enumeration) (next : Int)
  /-- Behind an enumeration's closing brace. -/
  | enumEnd (e : Enumeration)
  /-- Behind the type of a field. -/
  | fieldMark (g : FieldGroup)
  /-- In front of a field's name. -/
  | fieldName (g : FieldGroup)
  /-- Behind a field's name. -/
  | fieldShape (g : FieldGroup) (f : Field)
  /-- Behind an opening bracket. -/
  | fieldCount (g : FieldGroup) (f : Field)
  /-- Behind the count between brackets. -/
  | fieldBracket (g : FieldGroup) (f : Field)
  /-- Behind a field's name and brackets. -/
  | fieldSign (g : FieldGroup) (f : Field)
  /-- Behind the sign in front of a default. -/
  | fieldDefault (g : FieldGroup) (f : Field)
  /-- Behind a default. -/
  | fieldEnd (g : FieldGroup) (f : Field)
  deriving Repr, DecidableEq

/-- What is read so far. -/
structure Reader where
  position : Position := .file
  /-- The open structs, innermost first. -/
  stack : List Struct := []
  /-- The finished structs of the file. -/
  structs : List Struct := []
  /-- The structs declared so far, open ones included. -/
  declared : List Qualified := []
  /-- The enumerations declared so far. -/
  enums : List Enumeration := []
  binaryNamespace : Option Text := none
  friendlyNamespace : Option Text := none

namespace Reader

/-- The name of the innermost open struct. -/
def scope (r : Reader) : Qualified :=
  match r.stack with
  | [] => []
  | s :: _ => s.qualified

/-- Whether a struct has this full name or an enumeration this name. -/
def isDeclared (r : Reader) (name : Text) : Bool :=
  r.declared.any (fun q => q.text = name) || r.enums.any fun e => e.name = name

/-- What a type name means inside the innermost open struct: a struct of one of the scopes around
it, then an enumeration, then a struct of the file, then a built-in type. -/
def resolve? (r : Reader) (name : Text) : Option FieldType :=
  let inner := r.scope.scopes.findSome? fun outer =>
    let q := outer ++ [name]
    if r.declared.contains q then some (FieldType.struct q) else none
  inner
    |>.or ((r.enums.find? fun e => e.name = name).map .enumeration)
    |>.or (if r.declared.contains [name] then some (.struct [name]) else none)
    |>.or ((Basic.ofName? name).map .basic)

/-- Goes on at another position. -/
def goto (r : Reader) (position : Position) : Reader :=
  { r with position }

/-- Goes on behind an expected token. -/
def expect (r : Reader) (expected : Text) (t : Token) (position : Position) :
    Except SchemaError Reader :=
  if t.text = expected then .ok (r.goto position)
  else .error (.unexpected expected t.text t.line)

/-- A token that is an identifier; `what` says what it is to name. -/
def identifier (what : Text) (t : Token) : Except SchemaError Text :=
  if Text.isIdentifier t.text then .ok t.text
  else .error (.unexpected what t.text t.line)

/-- A token that is an identifier and no keyword of generated code. -/
def typeName (what : Text) (t : Token) : Except SchemaError Text :=
  if Text.isIdentifier t.text && !Text.isKeyword t.text then .ok t.text
  else .error (.unexpected what t.text t.line)

/-- Changes the innermost open struct. -/
def modifyTop (r : Reader) (change : Struct → Struct) : Reader :=
  match r.stack with
  | [] => r
  | s :: stack => { r with stack := change s :: stack }

/-- Declares a struct and opens it. -/
def openStruct (r : Reader) (name : Text) (line : Nat) (parent : Option Text) :
    Except SchemaError Reader :=
  let s : Struct := ⟨name, r.scope, parent, none, line, [], [], []⟩
  if r.isDeclared s.fullName then .error (.duplicateType s.fullName line)
  else .ok { r with
    position := .structOpen
    stack := s :: r.stack
    declared := r.declared ++ [s.qualified] }

/-- Closes the innermost open struct and puts it where it was declared. -/
def closeStruct (r : Reader) : Reader :=
  match r.stack with
  | [] => r.goto .file
  | [s] => { r with position := .file, stack := [], structs := r.structs ++ [s] }
  | s :: outer :: stack =>
    { r with
      position := .body
      stack := { outer with children := outer.children ++ [s] } :: stack }

/-- Declares an enumeration in the innermost open struct. -/
def closeEnum (r : Reader) (e : Enumeration) : Except SchemaError Reader :=
  if r.isDeclared e.name then .error (.duplicateType e.name e.line)
  else .ok (({ r with enums := r.enums ++ [e] }.modifyTop fun s =>
    { s with enums := s.enums ++ [e] }).goto .body)

/-- An enumeration with one more label; `line` is that of the token read last. -/
def addLabel (e : Enumeration) (label : Token) (value : Int) (line : Nat) :
    Except SchemaError Enumeration :=
  if e.hasLabel label.text then .error (.duplicateMember e.name label.text line)
  else .ok { e with labels := e.labels ++ [⟨label.text, value⟩] }

/-- Adds a field to the innermost open struct. -/
def addField (r : Reader) (f : Field) : Reader :=
  r.modifyTop fun s => { s with fields := s.fields ++ [f] }

/-- A token between the declarations of the file. -/
def stepFile (r : Reader) (t : Token) : Except SchemaError Reader :=
  if t.text = "struct" then .ok (r.goto .structName)
  else if t.text = "binary_namespace" then .ok (r.goto (.namespaceSign .binary))
  else if t.text = "friendly_namespace" then .ok (r.goto (.namespaceSign .friendly))
  else if t.text = "\x7d" then .ok (r.goto .fileEnd)
  else .error (.unexpected "struct, binary_namespace or friendly_namespace" t.text t.line)

/-- A token between the members of a struct. -/
def stepBody (r : Reader) (t : Token) : Except SchemaError Reader :=
  if t.text = "\x7d" then .ok (r.goto .structEnd)
  else if t.text = "struct" then .ok (r.goto .structName)
  else if t.text = "enum" then .ok (r.goto .enumName)
  else match r.resolve? t.text with
    | some type => .ok (r.goto (.fieldMark ⟨t.text, type, false⟩))
    | none => .error (.unknownType t.text r.scope.text t.line)

/-- A token in front of a label or the closing brace. -/
def stepLabels (r : Reader) (e : Enumeration) (next : Int) (t : Token) :
    Except SchemaError Reader :=
  if t.text = "\x7d" then .ok (r.goto (.enumEnd e))
  else if Text.isIdentifier t.text then .ok (r.goto (.labelSign e next t))
  else .error (.unexpected "enum label" t.text t.line)

/-- A token behind a label that is complete; a comma is optional. -/
def stepLabelEnd (r : Reader) (e : Enumeration) (next : Int) (t : Token) :
    Except SchemaError Reader :=
  if t.text = "," then .ok (r.goto (.labels e next)) else stepLabels r e next t

/-- A token in front of a field's name. -/
def stepFieldName (r : Reader) (g : FieldGroup) (t : Token) : Except SchemaError Reader := do
  let name ← identifier "variable name" t
  return r.goto (.fieldShape g ⟨name, g.typeName, g.type, .scalar, g.optional, none, t.line⟩)

/-- A token behind a complete field: a comma in front of the next one, or the end. -/
def stepFieldEnd (r : Reader) (g : FieldGroup) (f : Field) (t : Token) :
    Except SchemaError Reader :=
  if t.text = "," then .ok ((r.addField f).goto (.fieldName g))
  else if t.text = ";" then .ok ((r.addField f).goto .body)
  else .error (.undivided t.text t.line)

/-- A token behind a field's name and brackets. -/
def stepFieldSign (r : Reader) (g : FieldGroup) (f : Field) (t : Token) :
    Except SchemaError Reader :=
  if t.text = "=" then .ok (r.goto (.fieldDefault g f)) else stepFieldEnd r g f t

/-- The count between brackets; minus one is another spelling of no count. -/
def count? (t : Text) : Option Shape :=
  ((Text.int64? t).filter fun i => -1 ≤ i).map Shape.ofInt

/-- Reads one token. -/
def step (r : Reader) (t : Token) : Except SchemaError Reader :=
  match r.position with
  | .file => stepFile r t
  | .namespaceSign side => r.expect "=" t (.namespaceName side)
  | .namespaceName side => do
    let name ← typeName "namespace name" t
    return r.goto (.namespaceEnd side name)
  | .namespaceEnd side name => do
    let r ← r.expect ";" t .file
    return match side with
      | .binary => { r with binaryNamespace := some name }
      | .friendly => { r with friendlyNamespace := some name }
  | .fileEnd => r.expect ";" t .finished
  | .finished => .ok r
  | .structName => do
    let name ← typeName "struct name" t
    return r.goto (.structHead name t.line)
  | .structHead name line =>
    if t.text = ":" then .ok (r.goto (.structParent name line))
    else do
      let r ← r.openStruct name line none
      r.expect "\x7b" t .body
  | .structParent name line => do
    let parent ← typeName "parent struct name" t
    r.openStruct name line (some parent)
  | .structOpen => r.expect "\x7b" t .body
  | .body => stepBody r t
  | .structEnd => do
    let r ← r.expect ";" t .body
    return r.closeStruct
  | .enumName => do
    let name ← typeName "enum name" t
    return r.goto (.enumOpen ⟨name, some r.scope, t.line, []⟩)
  | .enumOpen e => r.expect "\x7b" t (.labels e 0)
  | .labels e next => stepLabels r e next t
  | .labelSign e next label =>
    if t.text = "=" then .ok (r.goto (.labelValue e label))
    else do
      let e ← addLabel e label next label.line
      stepLabelEnd r e (next + 1) t
  | .labelValue e label =>
    match Text.int32? t.text with
    | none => .error (.unexpected "32-bit integer" t.text t.line)
    | some value => do
      let e ← addLabel e label value t.line
      return r.goto (.labelEnd e (value + 1))
  | .labelEnd e next => stepLabelEnd r e next t
  | .enumEnd e => do
    let r ← r.expect ";" t .body
    r.closeEnum e
  | .fieldMark g =>
    if t.text = "?" then .ok (r.goto (.fieldName { g with optional := true }))
    else stepFieldName r g t
  | .fieldName g => stepFieldName r g t
  | .fieldShape g f =>
    if t.text = "[" then .ok (r.goto (.fieldCount g f)) else stepFieldSign r g f t
  | .fieldCount g f =>
    if t.text = "]" then .ok (r.goto (.fieldSign g { f with shape := .dynamic }))
    else match count? t.text with
      | some shape => .ok (r.goto (.fieldBracket g { f with shape }))
      | none => .error (.invalidCount t.text t.line)
  | .fieldBracket g f => r.expect "]" t (.fieldSign g f)
  | .fieldSign g f => stepFieldSign r g f t
  | .fieldDefault g f => .ok (r.goto (.fieldEnd g { f with default? := some t.text }))
  | .fieldEnd g f => stepFieldEnd r g f t

/-- Ends the reading behind the last token, which stood on `line`. A struct or label whose name
was read last is still held against those declared before. -/
def finish (r : Reader) (line : Nat) : Except SchemaError Schema :=
  match r.position with
  | .file | .finished => .ok ⟨r.binaryNamespace, r.friendlyNamespace, r.structs⟩
  | .structHead name first => do
    let _ ← r.openStruct name first none
    .error (.endOfInput line)
  | .labelSign e next label => do
    let _ ← addLabel e label next label.line
    .error (.endOfInput line)
  | _ => .error (.endOfInput line)

/-- The schema that tokens spell, its parents not yet looked up. -/
def read (tokens : List Token) : Except SchemaError Schema := do
  let r ← tokens.foldlM step {}
  r.finish ((tokens.getLast?.map Token.line).getD 0)

end Reader

end Schematic
