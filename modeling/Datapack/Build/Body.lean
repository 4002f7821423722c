/-
Running the bodies of methods. Statements and actions are run in order,
and the first failure leaves the body. Calls are resolved while the body
runs, with the component being built as the caller.
-/
import Datapack.Body
import Datapack.Build.Block

namespace Datapack

namespace Build

-- ================================================================== calls

/-- Calls a method of a component, whose declared name is put in snake
case. -/
def call (component method : String) : Build Unit := do
  let state ← get
  let target ← ofExcept
    (state.calls.resolve state.currentComponent?
      (Name.snakeCase component) method)
  emit (.function target.location)

/-- Calls a method of the component being built. -/
def invoke (method : String) : Build Unit := do
  match (← get).currentComponent? with
  | some component => call component method
  | none => throw (.defect (.noActiveComponent method))

/-- The registered name of a component that entities can have. -/
def instantiable (component : String) : Build String := do
  let name := Name.snakeCase component
  let methods ← ofExcept ((← get).calls.component? name)
  if methods.isAbstract then throw (.defect (.abstractComponent name))
  else return name

/-- Calls the function that attaches a component. -/
def attach (component : String) : Build Unit := do
  let name ← instantiable component
  emit (.function (Location.ofAttach (← get).space name))

/-- Calls the function that detaches a component. -/
def detach (component : String) : Build Unit := do
  let name ← instantiable component
  emit (.function (Location.ofDetach (← get).space name))

/-- Runs a step a number of times. -/
def iterate : Nat → Build Unit → Build Unit
  | 0, _ => pure ()
  | times + 1, step => do
    step
    iterate times step

/-- Adds commands to the function being built, all under one context. -/
def emitAllUnder (context : ExecutionContext) : List Command → Build Unit
  | [] => pure ()
  | command :: rest => do
    emitUnder context command
    emitAllUnder context rest

end Build

-- ============================================================= statements

mutual

/-- Runs a statement. -/
def Statement.build : Statement → Build Unit
  | .run tokens => Build.emit ⟨tokens⟩
  | .say message => Build.emit (.say message)
  | .log message => Build.emit (.log message)
  | .error message => Build.emit (.error message)
  | .addTag tag => Build.emit (.addTag tag)
  | .removeTag tag => Build.emit (.removeTag tag)
  | .function location => do
    Build.emit (.function (Location.qualify (← get).space location))
  | .functionTag location => do
    Build.emit (.functionTag (Location.qualify (← get).space location))
  | .invoke method => Build.invoke method
  | .call component method => Build.call component method
  | .attach component => Build.attach component
  | .detach component => Build.detach component
  | .execute clauses body => Build.execute clauses (Statement.buildAll body)

/-- Runs statements in order. -/
def Statement.buildAll : List Statement → Build Unit
  | [] => pure ()
  | statement :: rest => do
    statement.build
    Statement.buildAll rest

end

-- ================================================================ actions

mutual

/-- Runs an action. -/
def Action.build : Action → Build Unit
  | .perform statement => statement.build
  | .execute clauses body => Build.execute clauses (Action.buildAll body)
  | .inline clauses commands => do
    Build.emitAllUnder ((← get).context.enter clauses) commands
  | .direct command => Build.emit command
  | .freshTag emit => do
    let tag ← Build.freshTag
    if emit then Build.emit (.addTag tag)
  | .whoami => do
    let state ← get
    let component := state.currentComponent?.getD "nobody"
    Build.emit (.say s!"{component} in {state.space}")
  | .fail failure => throw failure
  | .attempt body =>
    Build.orElse (Action.buildAll body) fun failure =>
      Build.emit (.say s!"caught {failure.message}")
  | .labelled label body => Build.labelled label (Action.buildAll body)
  | .iterate times body => Build.iterate times (Action.buildAll body)

/-- Runs actions in order. -/
def Action.buildAll : List Action → Build Unit
  | [] => pure ()
  | action :: rest => do
    action.build
    Action.buildAll rest

end

end Datapack
