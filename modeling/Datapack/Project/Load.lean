/-
Loading a project from a directory: its manifest, and the manifest of a
component for each JSON file anywhere below the directory of components.
-/
import Datapack.ProjectError
import Datapack.Files.Access
import Datapack.Manifest.Codec

namespace Datapack

/-- A project and its components, as found in a directory. -/
structure LoadedProject where
  root : Path
  project : Project
  components : List Component

/-- What a parser says about a text, read from a path, that is not the JSON it
should be. The saying is passed on to the user as it is. -/
class JsonDiagnosis where
  describe : Path → String → String

/-- The readers of this library say only whether they take a text. -/
instance : JsonDiagnosis where
  describe _ _ := "not the expected JSON"

namespace LoadedProject

variable {m : Type → Type} [Monad m] [FileAccess m] [JsonDiagnosis]

/-- The file of the project's manifest. -/
def manifestFile : Path := .ofString "project.json"

/-- The directory of the components' manifests. -/
def componentsDirectory : Path := .ofString "components"

/-- The extension of the components' manifests. -/
def manifestExtension : FileName := Text.encode "json"

/-- What the JSON in a file describes. -/
def readJson {α : Type} (look? : Json → Option α) (path : Path) :
    ExceptT ProjectError m α := do
  match ← FileAccess.read (m := m) path with
  | .error fault => throw (.access path fault)
  | .ok bytes =>
    match Text.decode? bytes with
    | none => throw (.access path .notText)
    | some text =>
      match Json.decode? look? text with
      | none => throw (.json path (JsonDiagnosis.describe path text))
      | some value => return value

/-- The files of the components' manifests, in the order of a walk. -/
def componentFiles (directory : Path) :
    ExceptT ProjectError m (List (Path × FileName)) := do
  if ← FileAccess.present (m := m) directory then
    match ← FileAccess.walk (m := m) directory with
    | .error (path, fault) => throw (.access path fault)
    | .ok files =>
      return files.filter
        fun file => FileName.extension? file.2 == some manifestExtension
  else return []

/-- The component that a file describes; the name of the file is its name
unless the manifest has one. -/
def readComponent (space : String) (path : Path) (name : FileName) :
    ExceptT ProjectError m Component := do
  let manifest ← readJson (m := m) ComponentManifest.ofJson? path
  match Text.decode? (FileName.stem name) with
  | none => throw (.manifest path "file name is not valid UTF-8")
  | some stem => return manifest.toComponent space stem

/-- The components that files describe. -/
def readComponents (space : String) :
    List (Path × FileName) → ExceptT ProjectError m (List Component)
  | [] => return []
  | (path, name) :: rest => do
    let component ← readComponent (m := m) space path name
    let components ← readComponents space rest
    return component :: components

/-- The project in a directory. -/
def load (directory : Path) : ExceptT ProjectError m LoadedProject := do
  if ← FileAccess.isDirectory (m := m) directory then
    let manifest
        ← readJson (m := m) ProjectManifest.ofJson?
          (directory.join manifestFile)
    let project := manifest.toProject
    let files ← componentFiles (m := m) (directory.join componentsDirectory)
    let components ← readComponents (m := m) project.space files
    return { root := directory, project := project, components := components }
  else throw (.noProject directory)

end LoadedProject

end Datapack
