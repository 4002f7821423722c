/-
Running the commands of the command line. What happened is printed line by
line, each line a word and what it reports; texts that may hold anything
are printed as JSON, so that each stays on its line.
-/
import Datapack.Cli.Arguments
import Datapack.Pack.Writer
import Datapack.Project.Load

namespace Datapack.Cli

/-- How a run of the program ended. -/
structure Outcome where
  code : Nat
  stdout : String
  deriving DecidableEq, Repr

/-- An error, and what was being done when it came up. -/
structure Problem where
  activity : String
  error : ProjectError
  deriving DecidableEq, Repr

variable {m : Type → Type} [Monad m] [FileAccess m] [JsonDiagnosis]

-- =============================================================== printing

/-- Lines as they are printed. -/
def printed (lines : List String) : String :=
  String.join (lines.map fun line => s!"{line}\n")

/-- The lines about the size of a pack. -/
def sizeLines (pack : Pack) : List String :=
  [s!"FUNCTIONS:{pack.functions.length}", s!"TAGS:{pack.tags.length}"]

/-- The lines about a problem. -/
def problemLines (problem : Problem) : List String :=
  let report := problem.error.report
  ["RESULT:ERROR", s!"ERROR_CODE:{report.code}",
    s!"ERROR_MSG_JSON:{Json.quoted problem.activity}",
    s!"REPORT_JSON:{Json.quoted report.headline}"]
    ++ report.causes.map fun cause => s!"CAUSE_JSON:{Json.quoted cause}"

/-- How a run ends that has lines to print or a problem. -/
def Outcome.of : Except Problem (List String) → Outcome
  | .ok lines => { code := 0, stdout := printed lines }
  | .error problem => { code := 1, stdout := printed (problemLines problem) }

-- =============================================================== commands

/-- Names what is done, for the error it may end in. -/
def during {α : Type} (activity : String) (step : ExceptT ProjectError m α) :
    ExceptT Problem m α := do
  match ← (step.run : m (Except ProjectError α)) with
  | .ok value => return value
  | .error error => throw { activity := activity, error := error }

/-- Loads and builds the project in a directory. -/
def loadAndBuild (directory : Path) : ExceptT Problem m (Project × Pack) := do
  let loaded ← during s!"Failed to load project from {directory.display}"
    (LoadedProject.load (m := m) directory)
  let pack ← during s!"Failed to build project \"{loaded.project.name}\"" <|
    match loaded.project.build loaded.components with
    | .ok pack => pure pack
    | .error failure => throw (.build failure)
  return (loaded.project, pack)

/-- Builds the project in a directory without writing anything. -/
def check (directory : Path) : ExceptT Problem m (List String) := do
  let (_, pack) ← loadAndBuild (m := m) directory
  return ["RESULT:OK"]
    ++ pack.artifacts.map (fun artifact => s!"ARTIFACT:{artifact.location}")
    ++ sizeLines pack

/-- Builds the project in a directory and writes its pack. -/
def build (directory output : Path) (overwrite : Bool) :
    ExceptT Problem m (List String) := do
  let (project, pack) ← loadAndBuild (m := m) directory
  let root := output.join (.ofString project.name)
  let files ← during s!"Failed to write pack to {root.display}"
    (pack.toDirectory (m := m) root overwrite)
  return ["RESULT:OK", s!"PACK_JSON:{Json.quoted root.display}",
    s!"FILES:{files}"]
    ++ sizeLines pack

/-- Runs the program with its arguments. -/
def run (arguments : List String) : m Outcome := do
  match Request.ofArguments arguments with
  | .information => return { code := 0, stdout := "" }
  | .unusable => return { code := 2, stdout := "" }
  | .run (.check directory) =>
    return .of (← (check (.ofString directory)).run)
  | .run (.build directory output overwrite) =>
    return .of
      (← (build (.ofString directory) (.ofString output) overwrite).run)

end Datapack.Cli
