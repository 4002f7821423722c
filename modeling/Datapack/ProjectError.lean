/-
Why a project cannot be loaded, built or written.
-/
import Datapack.Files.Fault
import Datapack.Files.Path
import Datapack.Report

namespace Datapack

/-- A cause for which a project does not become a pack. -/
inductive ProjectError where
  /-- The build failed. -/
  | build (failure : Failure)
  /-- An operation on a file failed. -/
  | access (path : Path) (fault : FileFault)
  /-- A file does not hold the JSON that it should; the message is what the
  parser says about it. -/
  | json (path : Path) (message : String)
  | manifest (path : Path) (message : String)
  | noProject (path : Path)
  | packExists (path : Path)
  deriving DecidableEq, Repr

namespace ProjectError

/-- The code that names the kind of error. -/
def code : ProjectError → String
  | .build failure => failure.code
  | .access .. => "IO_ERROR"
  | .json .. => "JSON_INVALID"
  | .manifest .. => "MANIFEST_INVALID"
  | .noProject .. => "PROJECT_NOT_FOUND"
  | .packExists .. => "PACK_EXISTS"

/-- The text of an error. -/
def message : ProjectError → String
  | .build failure => failure.message
  | .access path fault => s!"Failed to access {path.display}: {fault.message}"
  | .json path message => s!"Failed to parse {path.display}: {message}"
  | .manifest path message => s!"Invalid manifest {path.display}: {message}"
  | .noProject path => s!"Project directory does not exist: {path.display}"
  | .packExists path =>
    s!"Pack already exists at {path.display}; pass --overwrite to replace it."

/-- The report on an error. -/
def report : ProjectError → Report
  | .build failure => .ofFailure failure
  | error => { code := error.code, labels := [], causes := [error.message] }

end ProjectError

end Datapack
