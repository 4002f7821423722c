/-
The state of a build and the steps that change it. A step can fail, and
what it has done until then stays done: a caught failure leaves the nodes
in the tree that it found there. Steps that enter a node or a context
put the previous one back, whether what they run fails or not.
-/
import Datapack.Build.Tree
import Datapack.CallTable
import Datapack.NameStream

namespace Datapack

/-- Everything that the steps of one build share. -/
structure BuildState where
  space : String
  tree : BuildTree
  /-- The execution contexts entered and not left yet, innermost first. -/
  contexts : List ExecutionContext
  focus : Focus
  functionNames : NameStream
  tagNames : NameStream
  calls : CallTable

namespace BuildState

/-- The state at the start of a build. -/
def initial (space : String) (calls : CallTable) : BuildState where
  space := space
  tree := .empty
  contexts := []
  focus := {}
  functionNames := .ofTemplate (Location.functionTemplate space)
  tagNames := .ofTemplate (Location.tagTemplate space)
  calls := calls

/-- The execution context that commands are emitted under. -/
def context (state : BuildState) : ExecutionContext :=
  state.contexts.head?.getD .empty

/-- The component that the function being built belongs to. -/
def currentComponent? (state : BuildState) : Option String := do
  let function ← state.focus.function
  let component ← state.tree.ancestor? function .component
  let node ← state.tree.node? component
  return node.name

end BuildState

/-- A step of a build. -/
abbrev Build := EStateM Failure BuildState

namespace Build

-- ================================================================ failing

/-- The value, or the failure for its defect. -/
def ofExcept {α : Type} : Except Defect α → Build α
  | .ok value => pure value
  | .error defect => throw (.defect defect)

/-- Runs a step under a label, which a failure of it carries. -/
def labelled {α : Type} (label : String) (step : Build α) : Build α :=
  fun state =>
    match step state with
    | .ok value state => .ok value state
    | .error failure state => .error (.step label failure) state

/-- Runs a step, and another one with the failure if it fails. -/
def orElse (step : Build Unit) (handler : Failure → Build Unit) : Build Unit :=
  fun state =>
    match step state with
    | .ok value state => .ok value state
    | .error failure state => handler failure state

-- ================================================================== names

/-- A fresh location for a function. -/
def freshFunction : Build String :=
  fun state => .ok state.functionNames.head
    { state with functionNames := state.functionNames.tail }

/-- A fresh entity tag. -/
def freshTag : Build String :=
  fun state =>
    .ok state.tagNames.head { state with tagNames := state.tagNames.tail }

-- =================================================================== tree

/-- Changes the tree. -/
def modifyTree (change : BuildTree → BuildTree) : Build Unit :=
  modify fun state => { state with tree := change state.tree }

/-- Adds a node to the tree. -/
def insertNode (parent : Option NodeId) (name : String)
    (content : NodeContent) : Build NodeId :=
  fun state => .ok state.tree.nodes.length
    { state with tree := state.tree.insert parent name content }

/-- Changes the function of a node. -/
def modifyDraft (id : NodeId) (change : Draft → Except Defect Draft) :
    Build Unit := do
  let draft ← ofExcept ((← get).tree.draft? id)
  let draft ← ofExcept (change draft)
  modifyTree fun tree => tree.setDraft id draft

/-- Gives up the function of a node. -/
def discardDraft (id : NodeId) : Build Unit :=
  modifyDraft id fun draft => .ok draft.discard

-- ================================================================== focus

/-- Runs a step with a node in focus. -/
def focused {α : Type} (kind : NodeKind) (node : NodeId) (step : Build α) :
    Build α :=
  fun state =>
    let previous := state.focus.get? kind
    match step { state with focus := state.focus.set kind (some node) } with
    | .ok value state =>
      .ok value { state with focus := state.focus.set kind previous }
    | .error failure state =>
      .error failure { state with focus := state.focus.set kind previous }

/-- Runs a step in an execution context. -/
def withContext {α : Type} (context : ExecutionContext) (step : Build α) :
    Build α :=
  fun state =>
    match step { state with contexts := context :: state.contexts } with
    | .ok value state =>
      .ok value { state with contexts := state.contexts.tail }
    | .error failure state =>
        .error failure { state with contexts := state.contexts.tail }

/-- The function being built. -/
def currentFunction : Build NodeId := do
  match (← get).focus.function with
  | some node => return node
  | none => throw (.defect .noActiveFunction)

/-- Adds a command to the function being built, under a context. -/
def emitUnder (context : ExecutionContext) (command : Command) :
    Build Unit := do
  let function ← currentFunction
  modifyDraft function fun draft => draft.register context command

/-- Adds a command to the function being built, under the current context. -/
def emit (command : Command) : Build Unit := do
  emitUnder (← get).context command

end Build

end Datapack
