/-
The program: the command line over the files of the system. Everything
but the operations on files themselves is in the library, which does not
know whether its files are these.
-/
import Datapack.Cli.Run
import Datapack.Component.Summary
import Datapack.Pack.Codec

namespace Datapack

-- =================================================================== files

/-- The fault that the system reported. -/
def FileFault.ofSystem : IO.Error → FileFault
  | .noFileOrDirectory .. => .noEntry
  | .alreadyExists .. => .exists
  | .unsatisfiedConstraints .. => .notEmpty
  | .inappropriateType _ 20 _ => .notDirectory
  | .inappropriateType _ 21 _ => .isDirectory
  | error => .other (toString error)

/-- Runs an operation on the system's files and keeps its fault. -/
def faultless {α : Type} (operation : IO α) : IO (Except FileFault α) := do
  try
    return .ok (← operation)
  catch error =>
    return .error (.ofSystem error)

/-- The files below a directory, those of a subdirectory where it stands
among the other entries by its name. Links are passed over. -/
partial def walkSystem (path : Path) :
    ExceptT (Path × FileFault) IO (List (Path × FileName)) := do
  let attempt {α : Type} (path : Path) (operation : IO α) :
      ExceptT (Path × FileFault) IO α := do
    match ← (faultless operation : IO (Except FileFault α)) with
    | .ok value => return value
    | .error fault => throw (path, fault)
  let entries ← attempt path do ((← IO.currentDir) / path.display).readDir
  let names := entries.toList.map fun entry => Text.encode entry.fileName
  let sorted := names.foldr (FileTree.insertSorted fun a b => decide (a < b)) []
  let found ← sorted.mapM fun name => do
    let entry := path.entry name
    match (← attempt
      entry do ((← IO.currentDir) / entry.display).symlinkMetadata).type with
    | .file => return [(entry, name)]
    | .dir => walkSystem entry
    | _ => return []
  return found.flatten

instance : FileAccess IO where
  present path := do
    if path.isEmpty then return false
      else ((← IO.currentDir) / path.display).pathExists
  isDirectory path := do
    if path.isEmpty then return false
      else ((← IO.currentDir) / path.display).isDir
  read path := faultless do
    return (← IO.FS.readBinFile ((← IO.currentDir) / path.display)).data.toList
  walk path := (walkSystem path).run
  makeDirectories
    path := faultless do IO.FS.createDirAll ((← IO.currentDir) / path.display)
  write path content := faultless do
    IO.FS.writeBinFile ((← IO.currentDir) / path.display) ⟨content.toArray⟩
  removeFile
    path := faultless do IO.FS.removeFile ((← IO.currentDir) / path.display)
  removeAll path := faultless do
    let file := (← IO.currentDir) / path.display
    if (← file.symlinkMetadata).type == .symlink then IO.FS.removeFile file
    else IO.FS.removeDirAll file

end Datapack

/-- Runs the command line. -/
def main (arguments : List String) : IO UInt32 := do
  let outcome ← (Datapack.Cli.run arguments : IO Datapack.Cli.Outcome)
  IO.print outcome.stdout
  return outcome.code.toUInt32
