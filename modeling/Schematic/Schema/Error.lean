import Schematic.Schema
import Schematic.Token.Cursor

/-!
# Errors of a schema source

Each constructor is one cause; `message` is the only place that words it.
-/

namespace Schematic

/-- Why a default does not suit its field. -/
inductive DefaultFault where
  | dynamicArray
  | structType (typeName : Text)
  | notALabel (label enumeration : Text)
  | notABool
  | notALiteral (basic : Basic)
  deriving Repr, DecidableEq

namespace DefaultFault

/-- What is said of an unsuitable default. -/
def message : DefaultFault → Text
  | dynamicArray => "variable-length arrays can't have defaults"
  | structType typeName =>
    Text.concat ["struct type ", Text.quoted typeName, " can't have a default"]
  | notALabel label enumeration =>
    Text.concat [Text.quoted label, " is not a label of enum ", Text.quoted enumeration]
  | notABool => "expected true or false"
  | notALiteral basic => Text.concat ["not a valid ", basic.name, " literal"]

end DefaultFault

/-- Why a source is no schema. -/
inductive SchemaError where
  | comment (e : CommentError)
  | endOfInput (line : Nat)
  | unexpected (expected found : Text) (line : Nat)
  | unknownType (name scope : Text) (line : Nat)
  | undivided (found : Text) (line : Nat)
  | invalidCount (found : Text) (line : Nat)
  | duplicateType (name : Text) (line : Nat)
  | duplicateMember (scope name : Text) (line : Nat)
  | unknownParent (struct parent : Text) (line : Nat)
  | inheritanceCycle (struct : Text) (line : Nat)
  | containsItself (struct field : Text) (line : Nat)
  | invalidDefault (value field : Text) (line : Nat) (fault : DefaultFault)
  deriving Repr, DecidableEq

namespace SchemaError

/-- What is said of a source that is no schema. -/
def message : SchemaError → Text
  | comment e => e.message
  | endOfInput line => (CursorError.endOfInput line).message
  | unexpected expected found line => (CursorError.unexpected expected found line).message
  | unknownType name scope line =>
    Text.concat ["unknown type ", Text.quoted name, " in struct ", Text.quoted scope, " on line ",
      Text.ofNat line]
  | undivided found line =>
    Text.concat ["expected \",\" or \";\" after variable declaration, got ", Text.quoted found,
      " on line ", Text.ofNat line]
  | invalidCount found line =>
    Text.concat ["invalid array size ", Text.quoted found, " on line ", Text.ofNat line]
  | duplicateType name line =>
    Text.concat ["type ", Text.quoted name, " redeclared on line ", Text.ofNat line]
  | duplicateMember scope name line =>
    Text.concat [Text.quoted name, " clashes with another member of ", Text.quoted scope,
      " on line ", Text.ofNat line]
  | unknownParent struct parent line =>
    Text.concat ["struct ", Text.quoted struct, " inherits from unknown struct ",
      Text.quoted parent, " on line ", Text.ofNat line]
  | inheritanceCycle struct line =>
    Text.concat ["struct ", Text.quoted struct, " inherits from itself on line ", Text.ofNat line]
  | containsItself struct field line =>
    Text.concat ["field ", Text.quoted field, " makes struct ", Text.quoted struct,
      " contain itself on line ", Text.ofNat line]
  | invalidDefault value field line fault =>
    Text.concat ["invalid default ", Text.quoted value, " for ", Text.quoted field, " on line ",
      Text.ofNat line, ": ", fault.message]

end SchemaError

end Schematic
