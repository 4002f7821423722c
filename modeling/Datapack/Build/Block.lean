/-
Functions and blocks. A block that adds clauses to the current context is
collected in a draft of its own, called under those clauses. What becomes
of the draft depends on the number of its commands: without any it is
dropped, a single one goes where the block stood, and more become a
generated function that is called there.
-/
import Datapack.Build.State
import Datapack.Command.Builtin

namespace Datapack.Build

/-- Runs a step with a node as the function being built, called in a
context. -/
def insideFunction (node : NodeId) (context : ExecutionContext)
    (body : Build Unit) : Build Unit :=
  focused .function node (withContext context body)

/-- Runs a step that writes the function of a node. The function is given
up if the step fails, and closed otherwise. -/
def writeFunction (node : NodeId) (context : ExecutionContext)
    (body : Build Unit) :
    Build Unit := do
  orElse (insideFunction node context body) fun failure => do
    discardDraft node
    throw failure
  modifyDraft node Draft.close

/-- Builds the function of a location below a node. It is called without
clauses, so its body starts from the empty context. -/
def function (parent : NodeId) (location : String) (body : Build Unit) :
    Build Unit := do
  let node ← insertNode (some parent) location
    (.function { location := some location, base := .empty })
  writeFunction node .empty body

/-- Puts the commands of a closed block where the block stood. -/
def placeBlock (node : NodeId) (context : ExecutionContext) : Build Unit := do
  let draft ← ofExcept ((← get).tree.draft? node)
  match draft.sources with
  | [] =>
    discardDraft node
    modifyTree fun tree => tree.dissolve node
  | [(registered, command)] =>
    discardDraft node
    modifyTree fun tree => tree.dissolve node
    emitUnder registered command
  | _ =>
    let location ← freshFunction
    modifyDraft node fun draft => .ok { draft with location := some location }
    modifyTree fun tree => tree.rename node location
    emitUnder context (.function location)

/-- Runs a step as a block under a context. In the current context there is
nothing to add and the step runs as it is. -/
def block (context : ExecutionContext) (body : Build Unit) : Build Unit := do
  if context = (← get).context then body
  else
    let parent ← currentFunction
    let node ← insertNode (some parent) "scope"
        (.function { location := none, base := context })
    writeFunction node context body
    placeBlock node context

/-- Runs a step as a block under further clauses. -/
def execute (clauses : List Clause) (body : Build Unit) : Build Unit := do
  block ((← get).context.enter clauses) body

/-- Adds a command to the function being built, under further clauses. -/
def emitInside (clauses : List Clause) (command : Command) : Build Unit := do
  emitUnder ((← get).context.enter clauses) command

end Datapack.Build
