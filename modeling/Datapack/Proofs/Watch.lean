/-
Builds that are watched.

What can go wrong with the state of a build goes wrong at certain moments:
when a command is emitted, when a block has been run, when a failure is
caught. A watched step notes these moments and does otherwise what the step
does. Its result is put together by the steps of the build itself, so
watching cannot change it: every watched step has the step it watches as
its `result`, from single commands up to a whole project
(`Project.result_watchTree`).

# Where moments are noted

Commands get into a function in one way only, by `Build.emitUnder`, so there
is one moment for each use of it. Blocks are those of `execute` chains, of
actions that catch, label or repeat, and the blocks that a recursion guard
and the functions around a component are made of.
-/
import Datapack.Project

namespace Datapack

-- ================================================================ moments

/-- A moment in the course of a build. -/
inductive Moment where
  /-- A command is about to be emitted under a context. -/
  | emission (state : BuildState) (context : ExecutionContext)
  /-- A block has been run, from a state to its end or to a failure. -/
  | passage (before : BuildState)
    (result : EStateM.Result Failure BuildState Unit)
  /-- A failure of a body has been caught. -/
  | caught (body : List Action) (failure : Failure)

/-- A step of a build that notes the moments it comes by. -/
def Watch (α : Type) :=
  BuildState → List Moment × EStateM.Result Failure BuildState α

namespace Watch

variable {α β : Type}

/-- The step that is watched. -/
def result (step : Watch α) : Build α := fun state => (step state).2

/-- The moments of a step that starts in a state. -/
def moments (step : Watch α) (state : BuildState) : List Moment :=
  (step state).1

/-- A step without moments of its own. -/
def quiet (step : Build α) : Watch α := fun state => ([], step state)

/-- What comes after a step that ended well. -/
def andThen (step : Watch α) (next : α → Watch β) : Watch β := fun state =>
  (step.moments state
      ++ match step.result state with
        | .ok value state => (next value).moments state
        | .error _ _ => [],
    (step.result >>= fun value => (next value).result) state)

instance : Monad Watch where
  pure value := quiet (pure value)
  bind := andThen

-- ============================================================ single steps

def note (moment : BuildState → Moment) : Watch Unit := fun state =>
  ([moment state], .ok () state)

/-- A step that emits a command under the current context, before it changes
anything. -/
def emitting (step : Build Unit) : Watch Unit := fun state =>
  ([.emission state state.context], step state)

def emitUnder (context : ExecutionContext) (command : Command) : Watch Unit :=
  fun state =>
    ([.emission state context], Build.emitUnder context command state)

def emit (command : Command) : Watch Unit := emitting (Build.emit command)

def emitInside (clauses : List Clause) (command : Command) : Watch Unit := do
  let state ← quiet get
  emitUnder (state.context.enter clauses) command

def emitAllUnder (context : ExecutionContext) : List Command → Watch Unit
  | [] => pure ()
  | command :: rest => do
    emitUnder context command
    emitAllUnder context rest

-- ============================================================== around steps

/-- A step that is a block. -/
def passing (step : Watch Unit) : Watch Unit := fun state =>
  (step.moments state ++ [.passage state (step.result state)],
    step.result state)

def orElse (step : Watch Unit) (handler : Failure → Watch Unit) : Watch Unit :=
  fun state =>
    (step.moments state
        ++ match step.result state with
          | .ok _ _ => []
          | .error failure state => (handler failure).moments state,
      Build.orElse step.result (fun failure => (handler failure).result) state)

def labelled (label : String) (step : Watch Unit) : Watch Unit := fun state =>
  (step.moments state, Build.labelled label step.result state)

def focused (kind : NodeKind) (node : NodeId) (step : Watch Unit) :
    Watch Unit := fun state =>
  (step.moments { state with focus := state.focus.set kind (some node) },
    Build.focused kind node step.result state)

def withContext (context : ExecutionContext) (step : Watch Unit) : Watch Unit :=
  fun state =>
    (step.moments { state with contexts := context :: state.contexts },
      Build.withContext context step.result state)

def iterate : Nat → Watch Unit → Watch Unit
  | 0, _ => pure ()
  | times + 1, step => do
    step
    iterate times step

-- =================================================================== blocks

def writeFunction (node : NodeId) (context : ExecutionContext)
    (body : Watch Unit) :
    Watch Unit := do
  orElse (focused .function node (withContext context body))
    fun failure => quiet do
    Build.discardDraft node
    throw failure
  quiet (Build.modifyDraft node Draft.close)

def function (parent : NodeId) (location : String) (body : Watch Unit) :
    Watch Unit := do
  let node ← quiet (Build.insertNode (some parent) location
    (.function { location := some location, base := .empty }))
  writeFunction node .empty body

/-- Gives up a block that is not needed as a function. -/
def dissolve (node : NodeId) : Build Unit := do
  Build.discardDraft node
  Build.modifyTree fun tree => tree.dissolve node

/-- Gives a block a place of its own. -/
def rename (node : NodeId) (location : String) : Build Unit := do
  Build.modifyDraft node
    fun draft => .ok { draft with location := some location }
  Build.modifyTree fun tree => tree.rename node location

/-- Puts the commands of a closed block where the block stood. -/
def placeSources (node : NodeId) (context : ExecutionContext) :
    List (ExecutionContext × Command) → Watch Unit
  | [] => quiet (dissolve node)
  | [(registered, command)] => do
    quiet (dissolve node)
    emitUnder registered command
  | _ => do
    let location ← quiet Build.freshFunction
    quiet (rename node location)
    emitUnder context (.function location)

def block (context : ExecutionContext) (body : Watch Unit) : Watch Unit := do
  let state ← quiet get
  if context = state.context then body
  else
    let parent ← quiet Build.currentFunction
    let node ← quiet (Build.insertNode (some parent) "scope"
      (.function { location := none, base := context }))
    writeFunction node context body
    let state ← quiet get
    let draft ← quiet (Build.ofExcept (state.tree.draft? node))
    placeSources node context draft.sources

def execute (clauses : List Clause) (body : Watch Unit) : Watch Unit :=
  passing do
  let state ← quiet get
  block (state.context.enter clauses) body

end Watch

-- ================================================================== bodies

mutual

def Statement.watch : Statement → Watch Unit
  | .execute clauses body => Watch.execute clauses (Statement.watchAll body)
  | statement => Watch.emitting statement.build

def Statement.watchAll : List Statement → Watch Unit
  | [] => pure ()
  | statement :: rest => do
    statement.watch
    Statement.watchAll rest

end

mutual

def Action.watch : Action → Watch Unit
  | .perform statement => statement.watch
  | .execute clauses body => Watch.execute clauses (Action.watchAll body)
  | .inline clauses commands => do
    let state ← Watch.quiet get
    Watch.emitAllUnder (state.context.enter clauses) commands
  | .direct command => Watch.emit command
  | .freshTag emit => do
    let tag ← Watch.quiet Build.freshTag
    if emit then Watch.emit (.addTag tag) else pure ()
  | .whoami => Watch.emitting (Action.build .whoami)
  | .fail failure => Watch.quiet (throw failure)
  | .attempt body => Watch.passing <|
    Watch.orElse (Action.watchAll body) fun failure => do
      Watch.note fun _ => .caught body failure
      Watch.emit (.say s!"caught {failure.message}")
  | .labelled label body =>
    Watch.passing (Watch.labelled label (Action.watchAll body))
  | .iterate times body =>
    Watch.passing (Watch.iterate times (Action.watchAll body))

def Action.watchAll : List Action → Watch Unit
  | [] => pure ()
  | action :: rest => do
    action.watch
    Action.watchAll rest

end

-- ============================================================== components

namespace Watch

def guarded (component key : String) (body : Watch Unit) : Watch Unit := do
  let tag ← quiet Build.freshTag
  emitInside [⟨["if", "entity", s!"@e[tag={tag}]"]⟩]
    (.error s!"Recursive method invocation \"{component}/{key}\"")
  execute [⟨["unless", "entity", s!"@e[tag={tag}]"]⟩] do
    emit (.addTag tag)
    execute [⟨["as", s!"@e[tag={tag}]"]⟩] body
    emit (.removeTag tag)

def methodBody (component : Component) (member : Member) : Watch Unit :=
  if member.method.guarded then
    guarded component.name member.key (Action.watchAll member.method.body)
  else Action.watchAll member.method.body

def method (parent : NodeId) (component : Component) (member : Member) :
    Watch Unit :=
  labelled s!"component method \"{member.key}\"" do
    let node ← quiet (Build.insertNode (some parent) member.key .method)
    focused .method node do
      function node member.location (methodBody component member)
      quiet (Build.addToTags node member.location
        (Build.tagsOf component member))

def methods (parent : NodeId) (component : Component) : List Member → Watch Unit
  | [] => pure ()
  | member :: rest => do
    method parent component member
    methods parent component rest

def dispatcher (parent : NodeId) (component : Component) (members : List Member)
    (hook : Hook) : Watch Unit :=
  match hook.gameTag? with
  | none => pure ()
  | some gameTag =>
    if Build.anyHooked members hook then do
      let location ← quiet Build.freshFunction
      function parent location <|
        emitInside
          [⟨["as",
            s!"@e[tag={Location.marker component.space component.name}]"]⟩]
            (.functionTag
              (Location.callbackTag component.space hook component.name))
      quiet (Build.addToTag parent gameTag location)
    else pure ()

def dispatchers (parent : NodeId) (component : Component)
    (members : List Member) :
    List Hook → Watch Unit
  | [] => pure ()
  | hook :: rest => do
    dispatcher parent component members hook
    dispatchers parent component members rest

def runHook (component : Component) (members : List Member) (hook : Hook) :
    Watch Unit :=
  if Build.anyHooked members hook then
    emit (.functionTag
      (Location.callbackTag component.space hook component.name))
  else pure ()

def attachFunction (parent : NodeId) (component : Component)
    (members : List Member) :
    Watch Unit :=
  function parent (Location.ofAttach component.space component.name) <|
    execute [Build.markerClause "unless"
      (Location.marker component.space component.name)] do
      emit (.addTag (Location.marker component.space component.name))
      runHook component members .init

def detachFunction (parent : NodeId) (component : Component)
    (members : List Member) :
    Watch Unit :=
  function parent (Location.ofDetach component.space component.name) <|
    execute [Build.markerClause "if"
      (Location.marker component.space component.name)] do
      runHook component members .destroy
      emit (.removeTag (Location.marker component.space component.name))

def entryPoints (node : NodeId) (component : Component)
    (members : List Member) : Watch Unit :=
  if component.isAbstract then pure ()
  else do
    dispatchers node component members Hook.all
    attachFunction node component members
    detachFunction node component members

def component (parent : NodeId) (component : Component)
    (members : List Member) : Watch Unit :=
  labelled s!"component \"{component.name}\"" do
    let node ← quiet (Build.insertNode (some parent) component.name .component)
    focused .component node do
      methods node component members
      entryPoints node component members

def components (root : NodeId) : List (Component × List Member) → Watch Unit
  | [] => pure ()
  | (component, members) :: rest => do
    Watch.component root component members
    components root rest

end Watch

namespace Project

def watchTree (project : Project) (resolved : List (Component × List Member)) :
    Watch NodeId := do
  let root ← Watch.quiet
    (Build.insertNode none project.name (.project project.packDescription))
  Watch.focused .project root (Watch.components root resolved)
  return root

/-- The moments of the project's build. Before the tree is built there are
none. -/
def moments (project : Project) (components : List Component) : List Moment :=
  match Registry.empty.registerAll components with
  | .error _ => []
  | .ok registry =>
    if !Name.isValidNamespace project.space then []
    else
      match resolveAll registry (registry.componentsOf project.space) with
      | .error _ => []
      | .ok resolved =>
        (project.watchTree resolved).moments
          (BuildState.initial project.space (CallTable.ofComponents resolved))

end Project

-- ======================================================= nothing is changed

namespace Watch

variable {α β : Type}

@[simp] theorem result_quiet (step : Build α) : (quiet step).result = step :=
  rfl

@[simp] theorem result_pure (value : α) :
    (pure value : Watch α).result = pure value := rfl

/-- Watched steps in a row watch the steps in a row. -/
@[simp] theorem result_bind (step : Watch α) (next : α → Watch β) :
    (step >>= next).result = step.result >>= fun value => (next value).result :=
  rfl

@[simp] theorem result_emitting (step : Build Unit) :
    (emitting step).result = step := rfl

@[simp] theorem result_passing (step : Watch Unit) :
    (passing step).result = step.result := rfl

@[simp] theorem result_emitUnder (context : ExecutionContext)
    (command : Command) :
    (emitUnder context command).result = Build.emitUnder context command := rfl

@[simp] theorem result_emitInside (clauses : List Clause) (command : Command) :
    (emitInside clauses command).result = Build.emitInside clauses command :=
  rfl

private theorem result_ite (condition : Prop) [Decidable condition]
    (step other : Watch α) :
    (if condition then step else other).result
      = if condition then step.result else other.result :=
  apply_ite result condition step other

/-- Watching commands that are emitted in a row. -/
private theorem result_emitAllUnder (context : ExecutionContext)
    (commands : List Command) :
    (emitAllUnder context commands).result
      = Build.emitAllUnder context commands := by
  induction commands with
  | nil => rfl
  | cons command rest ih => rw [emitAllUnder, Build.emitAllUnder, ← ih]; rfl

private theorem result_iterate (times : Nat) (step : Watch Unit) :
    (iterate times step).result = Build.iterate times step.result := by
  induction times with
  | zero => rfl
  | succ times ih => rw [iterate, Build.iterate, ← ih]; rfl

/-- Watching a function that is written. -/
@[simp] theorem result_writeFunction (node : NodeId)
    (context : ExecutionContext) (body : Watch Unit) :
    (writeFunction node context body).result
      = Build.writeFunction node context body.result := rfl

@[simp] theorem result_function (parent : NodeId) (location : String)
    (body : Watch Unit) :
    (function parent location body).result
      = Build.function parent location body.result := rfl

/-- A block is placed by what is registered in it. -/
theorem placeBlock_eq (node : NodeId) (context : ExecutionContext) :
    Build.placeBlock node context = (do
      let state ← get
      let draft ← Build.ofExcept (state.tree.draft? node)
      (placeSources node context draft.sources).result) := by
  unfold Build.placeBlock
  congr 1
  funext state
  congr 1
  funext draft
  obtain ⟨location, base, commands, sources, stage⟩ := draft
  dsimp only
  rcases sources with _ | ⟨⟨registered, command⟩, _ | ⟨second, rest⟩⟩
  · rfl
  · simp only [placeSources, dissolve, result_bind, result_quiet,
      result_emitUnder, bind_assoc]
  · simp only [placeSources, rename, result_bind, result_quiet,
      result_emitUnder, bind_assoc]

/-- Watching a block: what is done with its commands is decided as in
the build. -/
@[simp] theorem result_block (context : ExecutionContext) (body : Watch Unit) :
    (block context body).result = Build.block context body.result := by
  unfold block Build.block
  rw [result_bind]
  congr 1
  funext state
  rw [result_ite]
  simp only [result_bind, result_quiet, result_writeFunction, placeBlock_eq]

/-- Watching a block with its clauses. -/
@[simp] theorem result_execute (clauses : List Clause) (body : Watch Unit) :
    (execute clauses body).result = Build.execute clauses body.result := by
  funext state
  show (block (state.context.enter clauses) body).result state = _
  rw [result_block]
  rfl

end Watch

mutual

/-- A watched statement does what the statement does. -/
@[simp] theorem Statement.result_watch : ∀ statement : Statement,
    statement.watch.result = statement.build
  | .execute clauses body => by
      rw [Statement.watch, Statement.build, Watch.result_execute,
        Statement.result_watchAll]
  | .run .. | .say .. | .log .. | .error .. | .addTag .. | .removeTag ..
  | .function .. | .functionTag .. | .invoke .. | .call .. | .attach ..
  | .detach .. => by
      rw [Statement.watch]
      · exact Watch.result_emitting _
      all_goals exact fun _ _ h => by cases h

/-- So does a watched body of statements. -/
@[simp] theorem Statement.result_watchAll : ∀ body : List Statement,
    (Statement.watchAll body).result = Statement.buildAll body
  | [] => by rw [Statement.watchAll, Statement.buildAll, Watch.result_pure]
  | statement :: rest => by
      rw [Statement.watchAll, Statement.buildAll, Watch.result_bind,
        Statement.result_watch, Statement.result_watchAll]

end

mutual

/-- A watched action does what the action does. -/
@[simp] theorem Action.result_watch : ∀ action : Action,
  action.watch.result = action.build
  | .perform statement => by
      rw [Action.watch, Action.build, Statement.result_watch]
  | .execute clauses body => by
      rw [Action.watch, Action.build, Watch.result_execute,
        Action.result_watchAll]
  | .inline clauses commands => by
      rw [Action.watch, Action.build]
      simp only [Watch.result_bind, Watch.result_quiet,
        Watch.result_emitAllUnder]
  | .direct command => by rw [Action.watch, Action.build]; rfl
  | .freshTag emit => by
      rw [Action.watch, Action.build]
      cases emit with
      | true => rfl
      | false => rfl
  | .whoami => by rw [Action.watch, Watch.result_emitting]
  | .fail failure => by rw [Action.watch, Action.build, Watch.result_quiet]
  | .attempt body => by
      rw [Action.watch, Action.build, ← Action.result_watchAll body]
      rfl
  | .labelled label body => by
      rw [Action.watch, Action.build, ← Action.result_watchAll body]
      rfl
  | .iterate times body => by
      rw [Action.watch, Action.build, Watch.result_passing,
        Watch.result_iterate, Action.result_watchAll]

/-- So does a watched body of actions. -/
@[simp] theorem Action.result_watchAll : ∀ body : List Action,
    (Action.watchAll body).result = Action.buildAll body
  | [] => by rw [Action.watchAll, Action.buildAll, Watch.result_pure]
  | action :: rest => by
      rw [Action.watchAll, Action.buildAll, Watch.result_bind,
        Action.result_watch, Action.result_watchAll]

end

namespace Watch

/-- A watched method does what the method does, guarded or not. -/
@[simp] theorem result_methodBody (component : Component) (member : Member) :
    (methodBody component member).result
      = Build.methodBody component member := by
  unfold methodBody Build.methodBody
  rw [result_ite, Action.result_watchAll]
  unfold guarded Build.guarded
  simp only [result_bind, result_quiet, result_emitInside, result_execute,
    Action.result_watchAll]
  rfl

/-- So it does with its node around it. -/
@[simp] theorem result_method (parent : NodeId) (component : Component)
    (member : Member) :
    (method parent component member).result
      = Build.method parent component member := by
  unfold Build.method
  rw [← result_methodBody]
  rfl

/-- So do the methods of a component in order. -/
theorem result_methods (parent : NodeId) (component : Component)
    (members : List Member) :
    (methods parent component members).result
      = Build.methods parent component members := by
  induction members with
  | nil => rfl
  | cons member rest ih =>
      rw [methods, Build.methods, result_bind, result_method, ih]

/-- A watched dispatcher does what the dispatcher does. -/
theorem result_dispatcher (parent : NodeId) (component : Component)
    (members : List Member) (hook : Hook) :
    (dispatcher parent component members hook).result
      = Build.dispatcher parent component members hook := by
  unfold dispatcher Build.dispatcher
  cases hook.gameTag? with
  | none => rfl
  | some gameTag =>
      dsimp only
      rw [result_ite]
      rfl

/-- So do all dispatchers of a component. -/
theorem result_dispatchers (parent : NodeId) (component : Component)
    (members : List Member) (hooks : List Hook) :
    (dispatchers parent component members hooks).result
      = Build.dispatchers parent component members hooks := by
  induction hooks with
  | nil => rfl
  | cons hook rest ih =>
      rw [dispatchers, Build.dispatchers, result_bind, result_dispatcher, ih]

/-- Watching the call of a hook changes nothing. -/
@[simp] theorem result_runHook (component : Component) (members : List Member)
    (hook : Hook) :
    (runHook component members hook).result
      = Build.runHook component members hook := by
  unfold runHook Build.runHook
  rw [result_ite]
  rfl

/-- Watching the function that attaches changes nothing. -/
theorem result_attachFunction (parent : NodeId) (component : Component)
    (members : List Member) :
    (attachFunction parent component members).result
      = Build.attachFunction parent component members := by
  unfold attachFunction Build.attachFunction
  simp only [result_function, result_execute, result_bind, result_runHook]
  rfl

private theorem result_detachFunction (parent : NodeId) (component : Component)
    (members : List Member) :
    (detachFunction parent component members).result
      = Build.detachFunction parent component members := by
  unfold detachFunction Build.detachFunction
  simp only [result_function, result_execute, result_bind, result_runHook]
  rfl

/-- A watched component does what the component does. -/
@[simp] theorem result_component (parent : NodeId) (component : Component)
    (members : List Member) :
    (Watch.component parent component members).result
      = Build.component parent component members := by
  have hparts : ∀ node, (do
      methods node component members
      entryPoints node component members : Watch Unit).result = (do
        Build.methods node component members
        if !component.isAbstract then
          Build.dispatchers node component members Hook.all
          Build.attachFunction node component members
          Build.detachFunction node component members) := by
    intro node
    rw [result_bind, result_methods]
    unfold entryPoints
    cases component.isAbstract with
    | true => rfl
    | false =>
        simp only [Bool.false_eq_true, if_false, result_bind,
          result_dispatchers, result_attachFunction, result_detachFunction]
        rfl
  unfold Build.component
  simp only [← hparts]
  rfl

private theorem result_components (root : NodeId)
    (resolved : List (Component × List Member)) :
    (components root resolved).result
      = Project.buildComponents root resolved := by
  induction resolved with
  | nil => rfl
  | cons entry rest ih =>
      rw [components, Project.buildComponents, result_bind,
        result_component, ih]

end Watch

/-- Watching a project does not change what is built. -/
theorem Project.result_watchTree (project : Project)
    (resolved : List (Component × List Member)) :
    (project.watchTree resolved).result = project.buildTree resolved := by
  unfold Project.buildTree
  simp only [← Watch.result_components]
  rfl

end Datapack
