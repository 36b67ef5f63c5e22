import Schematic.Command
import Schematic.Text.Decimal
import Schematic.Text.Escaped

/-!
# Arguments

Which command a list of arguments names, and what its flags and other arguments are.
-/

namespace Schematic

/-- Why arguments cannot be used. -/
inductive ArgumentError where
  | unknownCommand (name path : Text) (suggestions : List Text)
  | count (received : Nat)
  | malformedFlag (argument : Text)
  | unknownFlag (name : Text)
  | unknownLetter (letter : UInt8) (letters : Text)
  | flagNeedsValue (name : Text)
  | letterNeedsValue (letter : UInt8) (letters : Text)
  | notATruth (flag : Flag) (value : Text)
  | unknownColor (mode : Text)
  deriving Repr, DecidableEq

/-- The code point that is shown for a letter; of one that is not ASCII only the first byte of its
encoding counts. -/
def shownLetter (b : UInt8) : Nat :=
  if b < 0x80 then b.toNat else if b < 0xC0 then 0xC2 else 0xC3

/-- A letter between single quotation marks. -/
def quotedLetter (b : UInt8) : Text :=
  let code := shownLetter b
  let inside : Text :=
    if code = 0x27 then "\\'" else if code = 0x22 then "\"" else (Text.Rune.ofCode code).escaped
  Text.concat ["'", inside, "'"]

/-- How a flag is named in messages. -/
def Flag.title (f : Flag) : Text :=
  match f.letter with
  | some letter => Text.concat ["-", [letter], ", --", f.name]
  | none => Text.concat ["--", f.name]

/-- The wording of an error. -/
def ArgumentError.message : ArgumentError → Text
  | unknownCommand name path suggestions =>
    Text.concat ["unknown command ", name.escaped, " for ", path.escaped,
      if suggestions.isEmpty then []
      else Text.concat ["\n\nDid you mean this?\n",
        Text.concat (suggestions.map fun s => Text.concat ["\t", s, "\n"])]]
  | count received => Text.concat ["accepts 1 arg(s), received ", Text.ofNat received]
  | malformedFlag argument => Text.concat ["bad flag syntax: ", argument]
  | unknownFlag name => Text.concat ["unknown flag: --", name]
  | unknownLetter letter letters =>
    Text.concat ["unknown shorthand flag: ", quotedLetter letter, " in -", letters]
  | flagNeedsValue name => Text.concat ["flag needs an argument: --", name]
  | letterNeedsValue letter letters =>
    Text.concat ["flag needs an argument: ", quotedLetter letter, " in -", letters]
  | notATruth flag value =>
    Text.concat ["invalid argument ", value.escaped, " for ", flag.title.escaped,
      " flag: strconv.ParseBool: parsing ", value.escaped, ": invalid syntax"]
  | unknownColor mode => Text.concat ["unknown color mode ", Text.quoted mode]

/-- What the arguments of a command say. -/
structure Arguments where
  /-- The values of flags by name, the latest one first. -/
  values : List (Text × Text) := []
  /-- The arguments that belong to no flag. -/
  plain : List Text := []
  deriving Repr, DecidableEq

namespace Arguments

/-- The spellings of truth values. -/
def truthWords : List (Text × Bool) :=
  [("1", true), ("t", true), ("T", true), ("TRUE", true), ("true", true), ("True", true),
   ("0", false), ("f", false), ("F", false), ("FALSE", false), ("false", false), ("False", false)]

/-- Whether a flag is set to true. -/
def isSet (a : Arguments) (name : Text) : Bool :=
  (do truthWords.lookup (← a.values.lookup name)).getD false

/-- The text of a flag. -/
def text (a : Arguments) (flags : List Flag) (name : Text) : Text :=
  match a.values.lookup name with
  | some t => t
  | none => ((flags.find? fun f => f.name = name).bind Flag.initial).getD []

/-- Sets a flag. -/
def set (a : Arguments) (f : Flag) (value : Text) : Except ArgumentError Arguments :=
  if f.isTruth && (truthWords.lookup value).isNone then .error (.notATruth f value)
  else .ok { a with values := (f.name, value) :: a.values }

/-- A flag that takes the next argument as its value, and the error if there is none. -/
structure Waiting where
  flag : Flag
  ifAbsent : ArgumentError

/-- Reads letters of flags. A letter of a flag with a text takes what follows it. -/
def readLetters (flags : List Flag) :
    (letters : Text) → Arguments → Except ArgumentError (Arguments × Option Waiting)
  | [], a => .ok (a, none)
  | letter :: more, a =>
    if Text.startsWith "test." (letter :: more) then .ok (a, none)
    else match flags.find? fun f => f.letter = some letter with
      | none => .error (.unknownLetter letter (letter :: more))
      | some f =>
        match more with
        | 0x3D :: b :: value => do return (← a.set f (b :: value), none)
        | _ =>
          if f.isTruth then do readLetters flags more (← a.set f "true")
          else if more.isEmpty then
            .ok (a, some ⟨f, .letterNeedsValue letter (letter :: more)⟩)
          else do return (← a.set f more, none)

/-- Reads a flag that is written by name, without the hyphens. -/
def readName (flags : List Flag) (written : Text) (a : Arguments) :
    Except ArgumentError (Arguments × Option Waiting) :=
  if written.isEmpty || written.head?.any fun b => b = 0x2D || b = 0x3D then
    .error (.malformedFlag (Text.concat ["--", written]))
  else
    let (name, value) :=
      match Text.cut? "=" written with
      | some (name, value) => (name, some value)
      | none => (written, none)
    match flags.find? fun f => f.name = name with
    | none => .error (.unknownFlag name)
    | some f =>
      match value with
      | some value => do return (← a.set f value, none)
      | none =>
        if f.isTruth then do return (← a.set f "true", none)
        else .ok (a, some ⟨f, .flagNeedsValue name⟩)

/-- Adds an argument that belongs to no flag. -/
def addPlain (a : Arguments) (more : List Text) : Arguments :=
  { a with plain := a.plain ++ more }

/-- Reads arguments one after the other. -/
def readAll (flags : List Flag) :
    Option Waiting → List Text → Arguments → Except ArgumentError Arguments
  | none, [], a => .ok a
  | some w, [], _ => .error w.ifAbsent
  | some w, value :: rest, a => do readAll flags none rest (← a.set w.flag value)
  | none, argument :: rest, a =>
    match argument with
    | 0x2D :: 0x2D :: [] => .ok (a.addPlain rest)
    | 0x2D :: 0x2D :: written => do
      let (a, waiting) ← readName flags written a
      readAll flags waiting rest a
    | 0x2D :: letter :: letters => do
      let (a, waiting) ← readLetters flags (letter :: letters) a
      readAll flags waiting rest a
    | plain => readAll flags none rest (a.addPlain [plain])

/-- Reads the arguments of a command. -/
def ofList (flags : List Flag) (arguments : List Text) : Except ArgumentError Arguments :=
  readAll flags none arguments {}

end Arguments

namespace Command

/-- Whether the argument behind a flag seems to be its value: the flag is not known to be a truth
value. -/
def takesNext (flags : List Flag) (argument : Text) : Bool :=
  let isTruth := fun (p : Flag → Bool) => flags.any fun f => p f && f.isTruth
  match argument with
  | 0x2D :: rest =>
    !argument.contains 0x3D &&
      match rest with
      | 0x2D :: name => !isTruth fun f => f.name = name
      | [letter] => !isTruth fun f => f.letter = some letter
      | _ => false
  | _ => false

/-- Whether an argument starts with a hyphen. -/
def isFlag (argument : Text) : Bool :=
  argument.head? = some 0x2D

/-- The arguments that are neither flags nor values of flags. A flag that is last but one or last
hides all that follows. -/
def wordsOf (flags : List Flag) : (skip : Bool) → List Text → List Text
  | _, [] => []
  | true, _ :: rest => wordsOf flags false rest
  | false, argument :: rest =>
    if argument = "--" then []
    else if takesNext flags argument then
      if rest.length ≤ 1 then [] else wordsOf flags true rest
    else if argument.isEmpty || isFlag argument then wordsOf flags false rest
    else argument :: wordsOf flags false rest

/-- The arguments without the first one that is a given word. -/
def without (flags : List Flag) (word : Text) : (skip : Bool) → List Text → List Text
  | _, [] => []
  | true, argument :: rest => argument :: without flags word false rest
  | false, argument :: rest =>
    if argument = "--" then argument :: rest
    else if takesNext flags argument then argument :: without flags word true rest
    else if argument = word && !isFlag argument then rest
    else argument :: without flags word false rest

/-- A letter of the Latin alphabet as a small one. -/
def lower (t : Text) : Text :=
  t.map fun b => if 0x41 ≤ b && b ≤ 0x5A then b + 0x20 else b

/-- The next row of distances: from one more byte to the beginnings of a text. -/
def distanceRow (a : UInt8) : (left : Nat) → (text : Text) → (above : List Nat) → List Nat
  | left, b :: text, diagonal :: up :: above =>
    let d := if a = b then diagonal else 1 + min up (min left diagonal)
    d :: distanceRow a d text (up :: above)
  | _, _, _ => []

/-- How many bytes have to be added, removed or changed to get from one text to another. -/
def distance (s t : Text) : Nat :=
  let rows := s.foldl
    (fun row a =>
      let first := row.headD 0 + 1
      first :: distanceRow a first t row)
    (List.range (t.length + 1))
  rows.getLastD 0

/-- The commands that are similar to a word, or start with it. -/
def suggestions (word : Text) : List Text :=
  (suggestible.map name).filter fun n =>
    distance (lower word) n ≤ 2 || Text.startsWith (lower word) n

/-- The command that arguments name, and the arguments without its name. -/
def find (arguments : List Text) : Except ArgumentError (Command × List Text) :=
  match wordsOf commonFlags false arguments with
  | [] => .ok (root, arguments)
  | word :: _ =>
    match named? word with
    | some c => .ok (c, without commonFlags word false arguments)
    | none => .error (.unknownCommand word program (suggestions word))

/-- Checks how many arguments a command has. -/
def checkCount (c : Command) (plain : List Text) : Except ArgumentError Unit :=
  match c with
  | compile | inspect | tokenize =>
    if plain.length = 1 then .ok () else .error (.count plain.length)
  | generate | version =>
    match plain with
    | [] => .ok ()
    | first :: _ => .error (.unknownCommand first c.path [])
  | _ => .ok ()

end Command

end Schematic
