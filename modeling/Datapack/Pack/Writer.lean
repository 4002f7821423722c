/-
Writing packs, to memory or to a directory. A directory is touched only
when the first file is about to be written: what is there is then removed,
if that is allowed, and otherwise nothing is written.
-/
import Datapack.ProjectError
import Datapack.Files.Access
import Datapack.Pack
import Datapack.Table

namespace Datapack

-- ================================================================= memory

/-- The files of a pack and their contents, by their paths. -/
abbrev MemoryPack := Table String

/-- Writes files one after the other. -/
def MemoryPack.writeAll (memory : MemoryPack) (files : List (String × String)) :
    MemoryPack :=
  files.foldl (fun memory file => memory.insert file.1 file.2) memory

/-- The files of a pack, by their paths. -/
def Pack.inMemory (pack : Pack) : MemoryPack :=
  MemoryPack.writeAll Table.empty pack.files

-- ============================================================== directory

/-- Writes a pack to a directory. -/
structure DirectoryWriter where
  root : Path
  /-- What is at the root may be removed. -/
  overwrite : Bool
  /-- The root has been made ready for the first file. -/
  prepared : Bool := false
  /-- The number of files written. -/
  files : Nat := 0
  deriving DecidableEq, Repr

namespace DirectoryWriter

variable {m : Type → Type} [Monad m] [FileAccess m]

/-- A step of writing. The writer keeps what it has done when one fails. -/
abbrev Writing (m : Type → Type) :=
  ExceptT ProjectError (StateT DirectoryWriter m)

/-- Runs an operation on a path, whose fault is an error of the pack. -/
def operate (path : Path) (operation : m (Except FileFault Unit)) :
    Writing m Unit := do
  match ← (operation : m (Except FileFault Unit)) with
  | .ok () => return ()
  | .error fault => throw (.access path fault)

/-- Removes what is at the root. -/
def clearRoot (root : Path) : Writing m Unit := do
  if ← FileAccess.isDirectory (m := m)
    root then operate root (FileAccess.removeAll root)
  else operate root (FileAccess.removeFile root)

/-- Makes the root ready for the first file. -/
def prepare : Writing m Unit := do
  let writer ← get
  if !writer.prepared then
    if ← FileAccess.present (m := m) writer.root then
      if writer.overwrite then clearRoot writer.root
      else throw (.packExists writer.root)
    operate writer.root (FileAccess.makeDirectories writer.root)
    modify fun writer => { writer with prepared := true }

/-- Writes a file at a path inside the pack. -/
def write (file content : String) : Writing m Unit := do
  prepare
  let path := (← get).root.join (.ofString file)
  if let some parent := path.parent? then
    operate parent (FileAccess.makeDirectories parent)
  operate path (FileAccess.write path (Text.encode content))
  modify fun writer => { writer with files := writer.files + 1 }

/-- Writes files one after the other. -/
def writeAll : List (String × String) → Writing m Unit
  | [] => return ()
  | (file, content) :: rest => do
    write file content
    writeAll rest

end DirectoryWriter

/-- Writes a pack to a directory, and gives the number of its files. -/
def Pack.toDirectory {m : Type → Type} [Monad m] [FileAccess m] (pack : Pack)
    (root : Path) (overwrite : Bool) : ExceptT ProjectError m Nat := do
  let writer : DirectoryWriter := { root := root, overwrite := overwrite }
  let (outcome, writer)
      ← (DirectoryWriter.writeAll (m := m) pack.files).run.run writer
  match outcome with
  | .ok () => return writer.files
  | .error error => throw error

end Datapack
