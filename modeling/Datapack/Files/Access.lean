/-
The operations on files that loading a project and writing a pack need. A
`FileTree` as the state of a computation has them, so what is said about
trees is said about every program that is written over this class.
-/
import Datapack.Files.Tree

namespace Datapack

/-- Computations that can look at files and change them. -/
class FileAccess (m : Type → Type) where
  /-- The path leads to something. -/
  present : Path → m Bool
  /-- The path leads to a directory. -/
  isDirectory : Path → m Bool
  /-- The content of the file that the path leads to. -/
  read : Path → m (Except FileFault (List UInt8))
  /-- The files below the path and their names, in the order of a walk. -/
  walk : Path → m (Except (Path × FileFault) (List (Path × FileName)))
  /-- Makes a directory and those that it lies in. -/
  makeDirectories : Path → m (Except FileFault Unit)
  /-- Writes a file. -/
  write : Path → List UInt8 → m (Except FileFault Unit)
  /-- Removes a file or a link. -/
  removeFile : Path → m (Except FileFault Unit)
  /-- Removes a directory with everything below it. -/
  removeAll : Path → m (Except FileFault Unit)

/-- All of a tree may be read and changed, and nobody else changes it. So
what fails is what fails for the form of the tree and of the path alone. -/
instance : FileAccess (StateM FileTree) where
  present path := do return (← get).contains path
  isDirectory path := do return (← get).isDirectory path
  read path := do return (← get).read path
  walk path := do return (← get).walk path
  makeDirectories path := fun tree => tree.makeDirectories path
  write path content := fun tree => tree.write path content
  removeFile path := fun tree => tree.removeFile path
  removeAll path := fun tree => tree.removeAll path

end Datapack
