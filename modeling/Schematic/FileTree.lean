import Schematic.Path

/-!
# File trees

Files and directories by location, and a working directory in which relative paths start. All
operations are functions from a tree to a tree. There are no links in a tree, so that a path without
dots leads to one place, and no permissions: whatever is in a tree can be read and changed.
-/

namespace Schematic

/-- What is at a location. -/
inductive Entry where
  | file (content : Text)
  | directory
  deriving Repr, DecidableEq

/-- The names that lead from the root to a place. -/
abbrev Location := List Text

/-- A tree of files with a working directory. The root is always there. -/
structure FileTree where
  workingDir : Location := []
  entries : List (Location × Entry) := []
  deriving Repr, DecidableEq

/-- Why a path cannot be used. -/
inductive FileFault where
  | missing
  | notDirectory
  | isDirectory
  deriving Repr, DecidableEq

/-- The wording of a fault. -/
def FileFault.message : FileFault → Text
  | .missing => "no such file or directory"
  | .notDirectory => "not a directory"
  | .isDirectory => "is a directory"

/-- The operations on files that can fail. -/
inductive FileOperation where
  | open
  | read
  | stat
  | mkdir
  deriving Repr, DecidableEq

/-- The name of an operation. -/
def FileOperation.name : FileOperation → Text
  | .open => "open"
  | .read => "read"
  | .stat => "stat"
  | .mkdir => "mkdir"

/-- An operation that failed on a path. -/
structure FileError where
  operation : FileOperation
  path : Text
  fault : FileFault
  deriving Repr, DecidableEq

/-- The wording of a failed operation. -/
def FileError.message (e : FileError) : Text :=
  Text.concat [e.operation.name, " ", e.path, ": ", e.fault.message]

namespace FileTree

/-- What is at a location. -/
def entry? (t : FileTree) (l : Location) : Option Entry :=
  if l = [] then some .directory else t.entries.lookup l

/-- Whether a directory is at a location. -/
def isDirectory (t : FileTree) (l : Location) : Bool :=
  t.entry? l = some .directory

/-- Puts an entry at a location, in the place of the one before. -/
def put (t : FileTree) (l : Location) (e : Entry) : FileTree :=
  { t with entries := (l, e) :: t.entries.filter fun x => x.1 ≠ l }

/-- Goes from a location by names. Only directories can be gone into; an empty name and a dot stay,
two dots go back. -/
def walk (t : FileTree) : Location → List Text → Except FileFault Location
  | l, [] => .ok l
  | l, name :: names =>
    if !t.isDirectory l then .error .notDirectory
    else if name.isEmpty || name = "." then t.walk l names
    else if name = ".." then t.walk l.dropLast names
    else if (t.entry? (l ++ [name])).isSome then t.walk (l ++ [name]) names
    else .error .missing

/-- Where a path starts. -/
def start (t : FileTree) (path : Text) : Location :=
  if Path.isAbsolute path then [] else t.workingDir

/-- The location that a path leads to. -/
def locate (t : FileTree) (path : Text) : Except FileFault Location :=
  if path.isEmpty then .error .missing
  else t.walk (t.start path) (Text.splitOn Path.slash path)

/-- The location that a path to something new leads to. -/
def locateNew (t : FileTree) (path : Text) : Except FileFault Location := do
  let names := Text.splitOn Path.slash path
  let l ← t.walk (t.start path) names.dropLast
  if t.isDirectory l then return l ++ [names.getLastD []] else throw .notDirectory

/-- Whether something is at a path. -/
def stat (t : FileTree) (path : Text) : Except FileError Unit :=
  match t.locate path with
  | .ok _ => .ok ()
  | .error fault => .error ⟨.stat, path, fault⟩

/-- The content of a file. -/
def read (t : FileTree) (path : Text) : Except FileError Text :=
  match t.locate path with
  | .error fault => .error ⟨.open, path, fault⟩
  | .ok l =>
    match t.entry? l with
    | some (.file content) => .ok content
    | some .directory => .error ⟨.read, path, .isDirectory⟩
    | none => .error ⟨.open, path, .missing⟩

/-- Writes a file; its directory has to be there. -/
def write (t : FileTree) (path content : Text) : Except FileError FileTree :=
  match t.locate path with
  | .ok l =>
    if t.isDirectory l then .error ⟨.open, path, .isDirectory⟩ else .ok (t.put l (.file content))
  | .error .missing =>
    match t.locateNew path with
    | .ok l => .ok (t.put l (.file content))
    | .error fault => .error ⟨.open, path, fault⟩
  | .error fault => .error ⟨.open, path, fault⟩

/-- Makes a directory unless it is there. -/
def makeDirectory (t : FileTree) (path : Text) : Except FileError FileTree :=
  match t.locate path with
  | .ok l => if t.isDirectory l then .ok t else .error ⟨.mkdir, path, .notDirectory⟩
  | .error _ =>
    match t.locateNew path with
    | .ok l => .ok (t.put l .directory)
    | .error fault => .error ⟨.mkdir, path, fault⟩

/-- The paths along a path, the shortest one first. -/
def along (path : Text) : List Text :=
  let names := Text.splitOn Path.slash path
  ((List.range names.length).map fun n => Text.join [Path.slash] (names.take (n + 1))).filter
    fun p => !p.isEmpty

/-- Makes a directory and those around it. -/
def makeDirectories (t : FileTree) (path : Text) : Except FileError FileTree :=
  (along path).foldlM makeDirectory t

/-- Whether a location is inside another one, or the same. -/
def isWithin : (outer inner : Location) → Bool
  | [], _ => true
  | _ :: _, [] => false
  | a :: outer, b :: inner => a = b && isWithin outer inner

/-- Removes what is at a path, with all that is inside. -/
def remove (t : FileTree) (path : Text) : FileTree :=
  match t.locate path with
  | .ok l => { t with entries := t.entries.filter fun x => !isWithin l x.1 }
  | .error _ => t

/-- The names in a directory, sorted. -/
def names (t : FileTree) (l : Location) : List Text :=
  Text.sortedSet (t.entries.filterMap fun x =>
    if x.1 ≠ [] && x.1.dropLast = l then x.1.getLast? else none)

/-- The order in which a walk through sorted directories meets locations. -/
def precedes : Location → Location → Bool
  | [], _ => true
  | _ :: _, [] => false
  | a :: l, b :: m => Text.less a b || (a = b && precedes l m)

/-- The files inside a location with their contents, in the order of a walk; their locations start
there. -/
def files (t : FileTree) (l : Location) : List (Location × Text) :=
  let inside := t.entries.filterMap fun x =>
    match x.2 with
    | .file content => if isWithin l x.1 then some (x.1.drop l.length, content) else none
    | .directory => none
  inside.mergeSort fun x y => precedes x.1 y.1

/-- A tree in which a file is put with the directories around it; a path with a slash at its end is
a directory. -/
def install (t : FileTree) (path content : Text) : Except FileError FileTree := do
  if Text.endsWith [Path.slash] path then t.makeDirectories (Path.clean path)
  else (← t.makeDirectories (Path.directory path)).write path content

end FileTree

end Schematic
