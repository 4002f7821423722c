/-
What a user is told about a failure: where in the project it happened, and
why. The labels of all steps say where; the causes are the texts of
everything inside the innermost step. A failure without a step is its own
cause.
-/
import Datapack.Failure

namespace Datapack

/-- A summary of a failure. -/
structure Report where
  code : String
  labels : List String
  causes : List String
  deriving DecidableEq, Repr

namespace Report

/-- The report on a failure. Where the cause is a text from outside, which
has no code, the code is that of the outermost layer. -/
def ofFailure (failure : Failure) : Report where
  code := match failure.innermost? with
    | some cause => cause.code?.getD failure.code
    | none => failure.code
  labels := failure.labels
  causes := match failure.innermost? with
    | some cause => cause.layers.map Failure.message
    | none => [failure.message]

/-- The first line of a report. -/
def headline (report : Report) : String :=
  if report.labels.isEmpty then "Build failed"
  else
    let path := " > ".intercalate report.labels
    s!"Couldn't build {path}"

/-- The whole report. -/
def render (report : Report) : String :=
  let causes := report.causes.map fun cause => s!"\n  caused by: {cause}"
  s!"{report.headline} [{report.code}]" ++ String.join causes

end Report

end Datapack
