/-
Plans: what the steps of a build come to, without a tree and without a
state.

A step of a build reads little. It asks for the namespace, for the call
table, for the component it works for, for the context that commands are
emitted under and for the next generated names. All of that is its site.
And what it does is confined: it adds entries to the function being
written and nodes below it, it takes generated names, and it ends well or
with a failure. All of that is its outcome. A plan gives the outcome for
every site.

# Why failures are outcomes

A step that fails has done something before, and a caught failure leaves
it in the tree. So an outcome has both parts always, what was written and
how it ended, and the plan of a block whose body fails still writes the
discarded function with everything below it.

# Blocks

A block of its own context is written as a function. When it ends well
with no entry or with one, the function goes again and the outcome is that
of its body: entries carry their whole context, so they mean the same one
level up, and the nodes below the block stay in its place. Only a block of
two entries or more leaves a function behind, and a call of it.
-/
import Datapack.Proofs.Outline
import Datapack.Build.Component

namespace Datapack

-- ================================================================ sites

/-- What the calls of a body depend on. -/
structure Ground where
  space : String
  calls : CallTable
  /-- The component that is being built. -/
  component : String

/-- Everything that a step of a build reads. -/
structure Site extends Ground where
  context : ExecutionContext
  functions : NameStream
  tags : NameStream

/-- What a step adds below the node that it works on. -/
@[ext] structure Written where
  entries : List SheetEntry := []
  below : Outline := .nil
  /-- The number of function names taken. -/
  functions : Nat := 0
  /-- The number of entity tags taken. -/
  tags : Nat := 0

namespace Written

/-- What is written first, and then what is written next. -/
instance : Append Written where
  append first second :=
    { entries := first.entries ++ second.entries
      below := first.below ++ second.below
      functions := first.functions + second.functions
      tags := first.tags + second.tags }

/-- The entries of what was written in two parts. -/
@[simp] theorem entries_append (first second : Written) :
    (first ++ second).entries = first.entries ++ second.entries := rfl

/-- What was hung below, in two parts. -/
@[simp] theorem below_append (first second : Written) :
    (first ++ second).below = first.below ++ second.below := rfl

/-- The names of functions that were taken, in two parts. -/
@[simp] theorem functions_append (first second : Written) :
    (first ++ second).functions = first.functions + second.functions := rfl

/-- The tags that were taken, in two parts. -/
@[simp] theorem tags_append (first second : Written) :
    (first ++ second).tags = first.tags + second.tags := rfl

end Written

/-- The site of the step after one that wrote something. -/
def Site.after (site : Site) (written : Written) : Site :=
  { site with
    functions := site.functions.drop written.functions
    tags := site.tags.drop written.tags }

/-- What a step wrote and how it ended. -/
structure Outcome where
  written : Written
  result : Except Failure Unit

namespace Outcome

/-- How a function ends up whose body had the outcome. -/
def stage (outcome : Outcome) : Draft.Stage :=
  match outcome.result with
  | .ok _ => .closed
  | .error _ => .discarded

/-- A function whose body ends well is closed. -/
theorem stage_of_ok {outcome : Outcome} (h : outcome.result = .ok ()) :
    outcome.stage = .closed := by
  unfold stage
  rw [h]

/-- A function whose body fails is given up. -/
theorem stage_of_error {outcome : Outcome} {failure : Failure}
    (h : outcome.result = .error failure) : outcome.stage = .discarded := by
  unfold stage
  rw [h]

/-- The body's outcome as a function of its own. -/
def asFunction (outcome : Outcome) (location : Option String)
    (base : ExecutionContext) :
    Written where
  below :=
    .single (.function ⟨location, base, outcome.stage, outcome.written.entries⟩)
      outcome.written.below
  functions := outcome.written.functions
  tags := outcome.written.tags

def beneath (outcome : Outcome) (piece : Piece) : Outcome where
  written :=
    { below := .single piece outcome.written.below
      functions := outcome.written.functions
      tags := outcome.written.tags }
  result := outcome.result

end Outcome

-- ================================================================ plans

/-- The outcome of a step at every site. -/
def Plan := Site → Outcome

namespace Plan

def done : Plan := fun _ => ⟨{}, .ok ()⟩

def fail (failure : Failure) : Plan := fun _ => ⟨{}, .error failure⟩

/-- Entries are added. -/
def enter (entries : Site → List SheetEntry) : Plan := fun site =>
  ⟨{ entries := entries site }, .ok ()⟩

/-- A command is added under the current context. -/
def emit (cause : Cause) (command : Command) : Plan :=
  enter fun site => [⟨site.context, command, cause⟩]

/-- One step and then another, unless the first fails. -/
def andThen (first second : Plan) : Plan := fun site =>
  match (first site).result with
  | .error _ => first site
  | .ok _ =>
    let next := second (site.after (first site).written)
    ⟨(first site).written ++ next.written, next.result⟩

/-- A step, and another one with the failure if the first fails. -/
def orElse (first : Plan) (handler : Failure → Plan) : Plan := fun site =>
  match (first site).result with
  | .ok _ => first site
  | .error failure =>
    let next := handler failure (site.after (first site).written)
    ⟨(first site).written ++ next.written, next.result⟩

/-- A step under a label, which a failure of it carries. -/
def labelled (label : String) (plan : Plan) : Plan := fun site =>
  match (plan site).result with
  | .ok _ => plan site
  | .error failure => ⟨(plan site).written, .error (.step label failure)⟩

def iterate : Nat → Plan → Plan
  | 0, _ => done
  | times + 1, plan => plan.andThen (iterate times plan)

def each {α : Type} (plan : α → Plan) : List α → Plan
  | [] => done
  | a :: rest => (plan a).andThen (each plan rest)

/-- A step with a fresh entity tag. -/
def withTag (plan : String → Plan) : Plan := fun site =>
  let rest := plan site.tags.head (site.after { tags := 1 })
  ⟨{ tags := 1 } ++ rest.written, rest.result⟩

/-- A step with a fresh location for a function. -/
def withFunction (plan : String → Plan) : Plan := fun site =>
  let rest := plan site.functions.head (site.after { functions := 1 })
  ⟨{ functions := 1 } ++ rest.written, rest.result⟩

/-- A body as a block under further clauses. -/
def block (clauses : List Clause) (body : Plan) : Plan := fun site =>
  let context := site.context.enter clauses
  let inner := body { site with context := context }
  if context = site.context then inner
  else
    match inner.result with
    | .error _ => ⟨inner.asFunction none context, inner.result⟩
    | .ok _ =>
      if inner.written.entries.length ≤ 1 then inner
      else
        let location := (site.functions.drop inner.written.functions).head
        ⟨inner.asFunction (some location) context
          ++ { entries := [⟨context, .function location, .block⟩],
               functions := 1 }, .ok ()⟩

/-- The outcome of two steps is that of the first, if it fails, and
otherwise both together. -/
theorem andThen_cases (first second : Plan) (site : Site) :
    (∃ failure, (first site).result = .error failure
      ∧ first.andThen second site = first site)
    ∨ (first site).result = .ok () ∧ first.andThen second site
        = ⟨(first site).written
          ++ (second (site.after (first site).written)).written,
            (second (site.after (first site).written)).result⟩ := by
  unfold andThen
  cases h : (first site).result with
  | error failure => exact .inl ⟨failure, rfl, rfl⟩
  | ok value => exact .inr ⟨rfl, rfl⟩

/-- Two steps end well only if both do, and then they write both. -/
theorem andThen_ok {first second : Plan} {site : Site}
    (h : (first.andThen second site).result = .ok ()) :
    (first site).result = .ok ()
      ∧ (second (site.after (first site).written)).result = .ok ()
      ∧ (first.andThen second site).written
          = (first site).written
            ++ (second (site.after (first site).written)).written := by
  rcases andThen_cases first second site with ⟨failure, hfail, heq⟩ | ⟨hok, heq⟩
  · rw [heq, hfail] at h
    cases h
  · rw [heq] at h ⊢
    exact ⟨hok, h, rfl⟩

/-- The outcome of a step with a handler is that of the step, unless it
fails. -/
theorem orElse_cases (first : Plan) (handler : Failure → Plan) (site : Site) :
    (first site).result = .ok () ∧ first.orElse handler site = first site
    ∨ ∃ failure,
      (first site).result = .error failure ∧ first.orElse handler site
        = ⟨(first site).written
              ++ (handler failure (site.after (first site).written)).written,
            (handler failure (site.after (first site).written)).result⟩ := by
  unfold orElse
  cases h : (first site).result with
  | error failure => exact .inr ⟨failure, rfl, rfl⟩
  | ok value => exact .inl ⟨rfl, rfl⟩

/-- A label changes nothing but the failure. -/
theorem labelled_written (label : String) (plan : Plan) (site : Site) :
    (plan.labelled label site).written = (plan site).written := by
  unfold labelled
  split <;> rfl

/-- A step under a label ends well only if it does so itself. -/
theorem result_of_labelled {label : String} {plan : Plan} {site : Site}
    (h : (plan.labelled label site).result = .ok ()) :
    (plan site).result = .ok () := by
  unfold labelled at h
  split at h
  · next hres => exact hres
  · cases h

/-- A block comes to its body, unless the body fails or has more than one
entry. -/
theorem block_cases (clauses : List Clause) (body : Plan) (site : Site) :
    let context := site.context.enter clauses
    let inner := body { site with context := context }
    let location := (site.functions.drop inner.written.functions).head
    body.block clauses site = inner
    ∨ (∃ failure, inner.result = .error failure
        ∧ body.block clauses site
          = ⟨inner.asFunction none context, .error failure⟩)
    ∨ inner.result = .ok ()
      ∧ 1 < inner.written.entries.length ∧ body.block clauses site
        = ⟨inner.asFunction (some location) context
            ++ { entries := [⟨context, .function location, .block⟩],
                 functions := 1 }, .ok ()⟩ := by
  intro context inner location
  unfold block
  by_cases hsame : site.context.enter clauses = site.context
  · exact .inl (if_pos hsame)
  · rw [if_neg hsame]
    cases hres : inner.result with
    | error failure => exact .inr (.inl ⟨failure, rfl, rfl⟩)
    | ok value =>
        by_cases hlen : inner.written.entries.length ≤ 1
        · exact .inl (if_pos hlen)
        · exact .inr (.inr ⟨rfl, Nat.lt_of_not_le hlen, if_neg hlen⟩)

/-- The function of a location. -/
def function (location : String) (body : Plan) : Plan := fun site =>
  let inner := body { site with context := .empty }
  ⟨inner.asFunction (some location) .empty, inner.result⟩

/-- A step below a node of its own. -/
def beneath (piece : Piece) (plan : Plan) : Plan := fun site =>
  (plan site).beneath piece

def tag (value location : String) : Plan := fun _ =>
  ⟨{ below := .single (.tag location [value]) .nil }, .ok ()⟩

def within (component : String) (plan : Plan) : Plan := fun site =>
  plan { site with component := component }

end Plan

-- =============================================================== bodies

/-- The command of a call that the table resolves. -/
def Ground.call (ground : Ground) (component method : String) :
    Except Defect Command := do
  let target
      ← ground.calls.resolve (some ground.component)
        (Name.snakeCase component) method
  return .function target.location

/-- The command that calls a function of a component that entities can
have. -/
def Ground.onEntity (ground : Ground) (component : String)
    (location : String → String) :
    Except Defect Command := do
  let calls ← ground.calls.component? (Name.snakeCase component)
  if calls.isAbstract then
    .error (.abstractComponent (Name.snakeCase component))
  else
    return .function (location (Name.snakeCase component))

/-- The command that a statement comes to, or the defect of a call that
leads nowhere. A block has no command of its own; nothing asks for it. -/
def Statement.command (ground : Ground) : Statement → Except Defect Command
  | .run tokens => .ok ⟨tokens⟩
  | .say message => .ok (.say message)
  | .log message => .ok (.log message)
  | .error message => .ok (.error message)
  | .addTag tag => .ok (.addTag tag)
  | .removeTag tag => .ok (.removeTag tag)
  | .function location =>
    .ok (.function (Location.qualify ground.space location))
  | .functionTag location =>
    .ok (.functionTag (Location.qualify ground.space location))
  | .invoke method => ground.call ground.component method
  | .call component method => ground.call component method
  | .attach component =>
    ground.onEntity component (Location.ofAttach ground.space)
  | .detach component =>
    ground.onEntity component (Location.ofDetach ground.space)
  | .execute .. => .ok ⟨[]⟩

def Plan.leaf (statement : Statement) : Plan := fun site =>
  match statement.command site.toGround with
  | .ok command =>
    ⟨{ entries := [⟨site.context, command, .statement statement⟩] }, .ok ()⟩
  | .error defect => ⟨{}, .error (.defect defect)⟩

mutual

def Statement.plan : Statement → Plan
  | .execute clauses body => .block clauses (Statement.planAll body)
  | statement => .leaf statement

def Statement.planAll : List Statement → Plan
  | [] => .done
  | statement :: rest => statement.plan.andThen (Statement.planAll rest)

end

mutual

def Action.plan : Action → Plan
  | .perform statement => statement.plan
  | .execute clauses body => .block clauses (Action.planAll body)
  | .inline clauses commands =>
    .enter fun site =>
      commands.map fun command => ⟨site.context.enter clauses, command, .action⟩
  | .direct command => .emit .action command
  | .freshTag emit =>
    .withTag fun tag => if emit then .emit .action (.addTag tag) else .done
  | .whoami =>
    .enter fun site =>
      [⟨site.context, .say s!"{site.component} in {site.space}", .action⟩]
  | .fail failure => .fail failure
  | .attempt body =>
    .orElse (Action.planAll body) fun failure =>
      .emit .action (.say s!"caught {failure.message}")
  | .labelled label body => .labelled label (Action.planAll body)
  | .iterate times body => .iterate times (Action.planAll body)

def Action.planAll : List Action → Plan
  | [] => .done
  | action :: rest => action.plan.andThen (Action.planAll rest)

end

-- =========================================================== components

namespace Plan

/-- The plan of a guarded body. -/
def guarded (component key : String) (body : Plan) : Plan :=
  withTag fun tag =>
    let selector := s!"@e[tag={tag}]"
    (enter fun site => [⟨site.context.enter [⟨["if", "entity", selector]⟩],
      .error s!"Recursive method invocation \"{component}/{key}\"",
      .mark⟩]).andThen
    (block [⟨["unless", "entity", selector]⟩]
      ((emit .mark (.addTag tag)).andThen
      ((block [⟨["as", selector]⟩] body).andThen
        (emit .mark (.removeTag tag)))))

def methodBody (component : Component) (member : Member) : Plan :=
  if member.method.guarded then
    guarded component.name member.key (Action.planAll member.method.body)
  else Action.planAll member.method.body

def method (component : Component) (member : Member) : Plan :=
  labelled s!"component method \"{member.key}\"" <| beneath .method <|
    (function member.location (methodBody component member)).andThen
      (each (tag member.location) (Build.tagsOf component member))

def hook (component : Component) (hook : Hook) : Plan :=
  emit .hook
    (.functionTag (Location.callbackTag component.space hook component.name))

def dispatcher (component : Component) (members : List Member)
    (hook : Hook) : Plan :=
  match hook.gameTag? with
  | none => done
  | some gameTag =>
    if Build.anyHooked members hook then
      withFunction fun location =>
        (function location <| enter fun site =>
          [⟨site.context.enter
              [⟨["as",
                s!"@e[tag={Location.marker component.space component.name}]"]⟩],
            .functionTag
              (Location.callbackTag component.space hook component.name),
            .hook⟩]).andThen
        (tag location gameTag)
    else done

/-- The plan of the call of a hook's methods, if there are any. -/
def runHook (component : Component) (members : List Member)
    (moment : Hook) : Plan :=
  if Build.anyHooked members moment then hook component moment else done

/-- The plan of attaching a component to an entity that does not have it. -/
def attachBody (component : Component) (members : List Member) : Plan :=
  (emit .mark
    (.addTag (Location.marker component.space component.name))).andThen
    (runHook component members .init)

/-- The plan of detaching a component from an entity that has it. -/
def detachBody (component : Component) (members : List Member) : Plan :=
  (runHook component members .destroy).andThen
    (emit .mark (.removeTag (Location.marker component.space component.name)))

def attachFunction (component : Component) (members : List Member) : Plan :=
  function (Location.ofAttach component.space component.name) <|
    block [Build.markerClause "unless"
      (Location.marker component.space component.name)]
      (attachBody component members)

def detachFunction (component : Component) (members : List Member) : Plan :=
  function (Location.ofDetach component.space component.name) <|
    block [Build.markerClause "if"
      (Location.marker component.space component.name)]
      (detachBody component members)

/-- The plan of what a component has besides its methods. -/
def entryPoints (component : Component) (members : List Member) : Plan :=
  if component.isAbstract then done
  else
    (each (dispatcher component members) Hook.all).andThen
      ((attachFunction component members).andThen
        (detachFunction component members))

def component (component : Component) (members : List Member) : Plan :=
  labelled s!"component \"{component.name}\"" <|
    within component.name <| beneath .component <|
      (each (method component) members).andThen (entryPoints component members)

def components (resolved : List (Component × List Member)) : Plan :=
  each (fun entry => component entry.1 entry.2) resolved

end Plan

end Datapack
