/-
Functions while they are being written. A draft is open until it is either
closed, which makes it part of the pack if it has a location, or discarded.
It keeps each command twice: as it stands in the function, and as it was
registered together with its execution context, so that a block of a
single command can be put where the block stood.
-/
import Datapack.ExecutionContext
import Datapack.Pack

namespace Datapack

/-- How far a draft has come. -/
inductive Draft.Stage where
  | opened
  | closed
  | discarded
  deriving DecidableEq, Repr

/-- A function that is being written. -/
structure Draft where
  /-- Where the function goes; a block has no location until it needs one. -/
  location : Option String
  /-- The context that the function is called in. -/
  base : ExecutionContext
  commands : List Command := []
  /-- The commands as registered, each with its context. -/
  sources : List (ExecutionContext × Command) := []
  stage : Draft.Stage := .opened
  deriving DecidableEq, Repr

namespace Draft

/-- The name of the function in messages. -/
def label (draft : Draft) : String :=
  draft.location.getD "<anonymous>"

/-- Commands may still be added. -/
def isOpen (draft : Draft) : Bool :=
  draft.stage = .opened

/-- Adds a command, under those clauses of its context that the function
is not called in. -/
def register (draft : Draft) (context : ExecutionContext) (command : Command) :
    Except Defect Draft :=
  if draft.isOpen then do
    let wrapper ← context.wrapperFrom draft.base
    return { draft with
      commands := draft.commands ++ [command.behind wrapper]
      sources := draft.sources ++ [(context, command)] }
  else .error (.closedFunction draft.label)

/-- Finishes the function. -/
def close (draft : Draft) : Except Defect Draft :=
  if draft.isOpen then .ok { draft with stage := .closed }
  else .error (.closedFunction draft.label)

/-- Gives the function up. -/
def discard (draft : Draft) : Draft :=
  { draft with stage := .discarded }

/-- The finished function, if it has a place in the pack. -/
def artifact? (draft : Draft) : Option PackFunction :=
  if draft.stage = .closed then
    draft.location.map
      fun location => ⟨location, draft.commands.map Command.render⟩
  else none

end Draft

end Datapack
