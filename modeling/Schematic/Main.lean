import Schematic.Command.Run

/-!
# The program on real files

Takes up the files of the working directory and of what the arguments name, runs the program on
them and writes what it made.
-/

namespace Schematic.Disk

/-- The location of an absolute path. -/
def locationOf (path : String) : Location :=
  ((path.splitOn "/").filter (!·.isEmpty)).map Text.ofString

/-- The absolute path of a location. -/
def pathOf (l : Location) : String :=
  let path := Text.concat ["/", Text.join "/" l]
  (String.fromUTF8? (ByteArray.mk path.toArray)).getD ""

/-- Takes up the entries of a directory with all that is inside. -/
partial def addEntries (l : Location) (entries : List IO.FS.DirEntry) (t : FileTree) :
    IO FileTree :=
  entries.foldlM
    (fun t entry => do
      let place := l ++ [Text.ofString entry.fileName]
      match (← entry.path.symlinkMetadata).type with
      | .dir =>
        addEntries place (← entry.path.readDir).toList (t.put place .directory)
      | .file => return t.put place (.file (← IO.FS.readBinFile entry.path).data.toList)
      | _ => return t)
    t

/-- Takes up the directory at a path, or the one around the file there, if there is any. -/
def addPath (t : FileTree) (path : String) : IO FileTree := do
  try
    let real ← IO.FS.realPath path
    let dir := if ← real.isDir then real else real.parent.getD real
    let l := locationOf dir.toString
    let around := (List.range l.length).foldl (fun t n => t.put (l.take (n + 1)) .directory) t
    addEntries l (← dir.readDir).toList around
  catch _ => return t

/-- Writes the entries that a tree did not have before. -/
def writeNew (before after : FileTree) : IO Unit :=
  after.entries.reverse.forM fun (l, entry) => do
    if before.entry? l ≠ some entry then
      match entry with
      | .directory => IO.FS.createDirAll (pathOf l)
      | .file content => IO.FS.writeBinFile (pathOf l) (ByteArray.mk content.toArray)

end Schematic.Disk

open Schematic in
/-- Runs the program. -/
def main (arguments : List String) : IO UInt32 := do
  let here := (← IO.currentDir).toString
  let values := arguments.map fun a => ((a.splitOn "=").getLastD a)
  let tree ← (values ++ [here]).foldlM Disk.addPath { workingDir := Disk.locationOf here }
  let outcome := Command.run tree (arguments.map Text.ofString)
  Disk.writeNew tree outcome.tree
  (← IO.getStdout).write (ByteArray.mk outcome.out.toArray)
  (← IO.getStderr).write (ByteArray.mk outcome.err.toArray)
  return outcome.exitCode.toUInt32
