/-
Steps that emit, and how steps are put together.

`Performs` ties a step of a build to a plan: on a node that is ready for
it, the step ends as the plan says and leaves the state grown by what the
plan writes. Being ready is `Writing` for the steps of a body, and less for
steps that only add parts; all that the lemmas on putting steps together
need is that growth keeps it (`Stable`), so there is one lemma for each way
of putting steps together and not one for each kind of node.

The statements that are not blocks have one lemma together: whatever they
do before, they end by emitting the command that `Statement.command` names,
or with the defect that it names.
-/
import Datapack.Proofs.Growth

namespace Datapack

-- ============================================================== running

/-- How a step ends in a state. -/
def Outcome.ending (result : Except Failure Unit) (state : BuildState) :
    EStateM.Result Failure BuildState Unit :=
  match result with
  | .ok _ => .ok () state
  | .error failure => .error failure state

namespace Build

variable {α β : Type} {step : Build α} {next : α → Build β}
  {state state' : BuildState}

/-- A step that succeeds hands its value and its state to the next. -/
theorem bind_ok {value : α} (h : step state = .ok value state') :
    (step >>= next) state = next value state' := by
  show EStateM.bind step next state = _
  unfold EStateM.bind
  rw [h]

/-- After a step that fails nothing is run. -/
theorem bind_error {failure : Failure}
    (h : step state = .error failure state') :
    (step >>= next) state = .error failure state' := by
  show EStateM.bind step next state = _
  unfold EStateM.bind
  rw [h]

theorem bind_get (next : BuildState → Build β) (state : BuildState) :
    ((get : Build BuildState) >>= next) state = next state state :=
  rfl

/-- A lookup that finds something goes on with it. -/
theorem bind_ofExcept_ok {value : Except Defect α} {a : α} (h : value = .ok a) :
    (ofExcept value >>= next) state = next a state := by
  subst h
  rfl

/-- A lookup that finds nothing ends with its defect. -/
theorem bind_ofExcept_error {value : Except Defect α} {defect : Defect}
    (h : value = .error defect) :
    (ofExcept value >>= next) state = .error (.defect defect) state := by
  subst h
  rfl

/-- Nothing is caught where nothing fails. -/
theorem orElse_ok {step : Build Unit} {handler : Failure → Build Unit}
    (h : step state = .ok () state') :
    orElse step handler state = .ok () state' := by
  unfold orElse
  rw [h]

/-- The handler goes on in the state that the failure left. -/
theorem orElse_error {step : Build Unit} {handler : Failure → Build Unit}
    {failure : Failure} (h : step state = .error failure state') :
    orElse step handler state = handler failure state' := by
  unfold orElse
  rw [h]

/-- A label does nothing to a step that succeeds. -/
theorem labelled_ok {label : String} {value : α}
    (h : step state = .ok value state') :
    labelled label step state = .ok value state' := by
  unfold labelled
  rw [h]

/-- A label is put around the failure of a step. -/
theorem labelled_error {label : String} {failure : Failure}
    (h : step state = .error failure state') :
    labelled label step state = .error (.step label failure) state' := by
  unfold labelled
  rw [h]

/-- A step with a node in focus, whose previous node is put back. -/
theorem focused_ending {step : Build Unit} {kind : NodeKind} {node : Nat}
    {result : Except Failure Unit}
    (h : step { state with focus := state.focus.set kind (some node) }
      = Outcome.ending result state') :
    focused kind node step state
      = Outcome.ending result
          { state' with focus :=
              state'.focus.set kind (state.focus.get? kind) } := by
  unfold focused
  dsimp only
  rw [h]
  cases result <;> rfl

/-- The name of a function is the next of its stream. -/
theorem freshFunction_apply (state : BuildState) :
    freshFunction state = .ok state.functionNames.head
      { state with functionNames := state.functionNames.tail } :=
  rfl

theorem modifyTree_apply (change : BuildTree → BuildTree) (state : BuildState) :
    modifyTree change state = .ok () { state with tree := change state.tree } :=
  rfl

/-- Changing a draft changes it at its node, if there is one and the change
is accepted. -/
theorem modifyDraft_apply {id : Nat} {draft draft' : Draft}
    {change : Draft → Except Defect Draft}
    (h : state.tree.draft? id = .ok draft) (hc : change draft = .ok draft') :
    modifyDraft id change state
      = .ok () { state with tree := state.tree.setDraft id draft' } := by
  unfold modifyDraft
  rw [bind_get, bind_ofExcept_ok h, bind_ofExcept_ok hc]
  rfl

/-- A draft can always be given up. -/
theorem discardDraft_apply {id : Nat} {draft : Draft}
    (h : state.tree.draft? id = .ok draft) :
    discardDraft id state
      = .ok () { state with tree := state.tree.setDraft id draft.discard } :=
  modifyDraft_apply h rfl

end Build

-- ============================================================= emitting

namespace ExecutionContext

variable {context base : ExecutionContext}

/-- A context inside another is written with the clauses that are new
in it. -/
theorem wrapperFrom_of_prefix (h : base.clauses <+: context.clauses) :
    context.wrapperFrom base
      = .ok (Clause.wrapper (context.clauses.drop base.length)) := by
  unfold wrapperFrom beyond? extends?
  rw [if_pos (List.isPrefixOf_iff_prefix.mpr h)]

/-- A context that is not inside another has no place in its function. -/
theorem wrapperFrom_of_not_prefix (h : ¬base.clauses <+: context.clauses) :
    context.wrapperFrom base
      = .error
        (.detachedContext (context.clauses.map Clause.tokens)
          (base.clauses.map Clause.tokens)) := by
  unfold wrapperFrom beyond? extends?
  rw [if_neg (mt List.isPrefixOf_iff_prefix.mp h)]

end ExecutionContext

/-- A command of a context inside the function's own is registered. -/
theorem Draft.register_eq {draft : Draft} {context : ExecutionContext}
    (hopen : draft.stage = .opened)
    (hbase : draft.base.clauses <+: context.clauses) (command : Command)
    (cause : Cause) :
    draft.register context command
      = .ok (draft.extend [⟨context, command, cause⟩]) := by
  unfold Draft.register Draft.isOpen
  rw [if_pos (by simp [hopen]), ExecutionContext.wrapperFrom_of_prefix hbase]
  rfl

variable {site : Site} {state state' : BuildState} {id : Nat}

/-- Giving the node another function is growth by the entries it got. -/
theorem BuildTree.grows_setDraft {tree : BuildTree} {node : BuildNode}
    {draft : Draft} (hn : tree.node? id = some node)
    (hc : node.content = .function draft) (entries : List SheetEntry) :
    tree.Grows id
      { entries := entries } (tree.setDraft id (draft.extend entries)) where
  length_le := by simp
  kept other _ hne := node?_modify_of_ne _ hne
  grown node' hn' := by
    rw [hn] at hn'
    cases hn'
    refine ⟨[], ?_, shows_nil _⟩
    unfold BuildTree.setDraft
    rw [node?_modify_self, hn]
    simp [hc, NodeContent.extend]

/-- A command of a context inside the current one is added to the function
being written. -/
theorem Writing.emitUnder (h : Writing site state id)
    {context : ExecutionContext} (hc : site.context.clauses <+: context.clauses)
    (command : Command) (cause : Cause) :
    ∃ state', Build.emitUnder context command state = .ok () state'
      ∧ state.Grows id { entries := [⟨context, command, cause⟩] } state' := by
  obtain ⟨node, draft, hn, hcontent, hopen, hbase⟩ := h.opened
  have hfocus : Build.currentFunction state = .ok id state := by
    unfold Build.currentFunction
    rw [Build.bind_get, h.focus]
    rfl
  have hreg := Draft.register_eq hopen (hbase.trans hc) command cause
  let grown := draft.extend [⟨context, command, cause⟩]
  refine ⟨{ state with tree := state.tree.setDraft id grown },
    ?_, ⟨rfl, rfl, rfl, rfl, rfl, rfl, BuildTree.grows_setDraft hn hcontent _⟩⟩
  unfold Build.emitUnder
  rw [Build.bind_ok hfocus]
  exact Build.modifyDraft_apply (BuildTree.draft?_eq hn hcontent) hreg

/-- The current context lies inside itself and inside what it is entered
by. -/
theorem ExecutionContext.prefix_enter (context : ExecutionContext)
    (clauses : List Clause) :
    context.clauses <+: (context.enter clauses).clauses :=
  List.prefix_append ..

-- =========================================================== performing

/-- A condition on states that growth keeps, for the site after the step. -/
structure Stable (Ready : Site → BuildState → Nat → Prop) : Prop where
  lt_length : ∀ {site state id},
    Ready site state id → id < state.tree.nodes.length
  after : ∀ {site state id written state'}, Ready site state id →
    state.Grows id written state' → Ready (site.after written) state' id

/-- A function that is being written can be written on. -/
theorem Writing.stable : Stable Writing where
  lt_length h := h.lt_length
  after := Writing.after

/-- A node of the component stays one of the component. -/
theorem Placed.stable : Stable Placed where
  lt_length h := h.lt_length
  after := Placed.after

/-- A node that is there stays there. -/
theorem Anchored.stable : Stable Anchored where
  lt_length := Anchored.lt_length
  after := Anchored.after

/-- On every node that is ready for it, the step does what the plan says. -/
def Performs (Ready : Site → BuildState → Nat → Prop) (step : Nat → Build Unit)
    (plan : Plan) : Prop :=
  ∀ ⦃site : Site⦄ ⦃state : BuildState⦄ ⦃id : Nat⦄, Ready site state id →
    ∃ state', step id state = Outcome.ending (plan site).result state'
      ∧ state.Grows id (plan site).written state'

namespace Performs

variable {Ready : Site → BuildState → Nat → Prop} {step next : Nat → Build Unit}
  {plan second : Plan}

/-- A step that does not ask for the node does what the plan says on any
that is ready. -/
theorem runs {body : Build Unit} (h : Performs Ready (fun _ => body) plan)
    {site : Site} {state : BuildState} {id : Nat}
    (hready : Ready site state id) :
    ∃ state', body state = Outcome.ending (plan site).result state'
      ∧ state.Grows id (plan site).written state' :=
  h hready

/-- Doing nothing performs the empty plan. -/
theorem done : Performs Ready (fun _ => pure ()) .done := by
  intro site state id _
  exact ⟨state, rfl, .refl state id⟩

/-- Failing performs the plan that fails. -/
theorem fail (failure : Failure) :
    Performs Ready (fun _ => throw failure) (.fail failure) := by
  intro site state id _
  exact ⟨state, rfl, .refl state id⟩

/-- Two steps in a row perform two plans in a row: the second starts at the
site that the first leaves. -/
theorem andThen (hr : Stable Ready) (h : Performs Ready step plan)
    (h' : Performs Ready next second) :
    Performs Ready (fun id => do step id; next id) (plan.andThen second) := by
  intro site state id hready
  obtain ⟨state', hrun, hgrow⟩ := h hready
  cases hres : (plan site).result with
  | error failure =>
      rw [hres] at hrun
      simp only [Plan.andThen, hres]
      exact ⟨state', Build.bind_error hrun, hgrow⟩
  | ok value =>
      rw [hres] at hrun
      obtain ⟨state'', hrun', hgrow'⟩ := h' (hr.after hready hgrow)
      simp only [Plan.andThen, hres]
      exact ⟨state'', (Build.bind_ok hrun).trans hrun',
        hgrow.trans hgrow' (hr.lt_length hready)⟩

/-- Catching performs the plan that catches, since what was written before
the failure stays. -/
theorem orElse (hr : Stable Ready) (h : Performs Ready step plan)
    {handler : Failure → Build Unit} {handling : Failure → Plan}
    (h' : ∀ failure,
      Performs Ready (fun _ => handler failure) (handling failure)) :
    Performs Ready (fun id => Build.orElse (step id) handler)
      (plan.orElse handling) := by
  intro site state id hready
  obtain ⟨state', hrun, hgrow⟩ := h hready
  cases hres : (plan site).result with
  | ok value =>
      rw [hres] at hrun
      simp only [Plan.orElse, hres]
      exact ⟨state', Build.orElse_ok hrun, hgrow⟩
  | error failure =>
      rw [hres] at hrun
      obtain ⟨state'', hrun', hgrow'⟩ := h' failure (hr.after hready hgrow)
      simp only [Plan.orElse, hres]
      exact ⟨state'', (Build.orElse_error hrun).trans hrun',
        hgrow.trans hgrow' (hr.lt_length hready)⟩

/-- A labelled step performs the labelled plan. -/
theorem labelled (label : String) (h : Performs Ready step plan) :
    Performs Ready (fun id => Build.labelled label (step id))
      (plan.labelled label) := by
  intro site state id hready
  obtain ⟨state', hrun, hgrow⟩ := h hready
  cases hres : (plan site).result with
  | ok value =>
      rw [hres] at hrun
      simp only [Plan.labelled, hres]
      exact ⟨state', Build.labelled_ok hrun, hgrow⟩
  | error failure =>
      rw [hres] at hrun
      simp only [Plan.labelled, hres]
      exact ⟨state', Build.labelled_error hrun, hgrow⟩

/-- A step that is repeated performs the plan that is repeated. -/
theorem iterate (hr : Stable Ready) {step : Build Unit}
    (h : Performs Ready (fun _ => step) plan) :
    ∀ times, Performs Ready (fun _ => Build.iterate times step)
      (Plan.iterate times plan)
  | 0 => done
  | times + 1 => andThen hr h (iterate hr h times)

/-- A step that takes a tag performs the plan with the next tag of the
stream. -/
theorem withTag (hr : Stable Ready)
    (hd : ∀ {site state id}, Ready site state id →
      site.Describes state) {step : String → Build Unit} {plan : String → Plan}
    (h : ∀ tag, Performs Ready (fun _ => step tag) (plan tag)) :
    Performs Ready
      (fun _ => do let tag ← Build.freshTag; step tag) (Plan.withTag plan) := by
  intro site state id hready
  -- taking the tag is growth by nothing but the tag
  have hgrow : state.Grows id
      { tags := 1 } { state with tagNames := state.tagNames.tail } :=
    ⟨rfl, rfl, rfl, rfl, rfl, rfl, .names state.tree id 0 1⟩
  obtain ⟨state', hrun, hgrow'⟩ := h site.tags.head (hr.after hready hgrow)
  have hfresh : Build.freshTag state
      = .ok site.tags.head { state with tagNames := state.tagNames.tail } := by
    unfold Build.freshTag
    rw [(hd hready).tags]
  exact ⟨state', (Build.bind_ok hfresh).trans hrun,
    hgrow.trans hgrow' (hr.lt_length hready)⟩

/-- A step that takes the name of a function performs the plan with the
next name of the stream. -/
theorem withFunction (hr : Stable Ready)
    (hd : ∀ {site state id}, Ready site state id →
      site.Describes state) {step : Nat → String → Build Unit}
      {plan : String → Plan}
    (h : ∀ location,
      Performs Ready (fun id => step id location) (plan location)) :
    Performs Ready
      (fun id => do let location ← Build.freshFunction; step id location)
      (Plan.withFunction plan) := by
  intro site state id hready
  have hgrow : state.Grows id { functions := 1 }
      { state with functionNames := state.functionNames.tail } :=
    ⟨rfl, rfl, rfl, rfl, rfl, rfl, .names state.tree id 1 0⟩
  obtain ⟨state', hrun, hgrow'⟩ := h site.functions.head (hr.after hready hgrow)
  have hfresh : Build.freshFunction state
      = .ok site.functions.head
        { state with functionNames := state.functionNames.tail } := by
    rw [Build.freshFunction_apply, (hd hready).functions]
  exact ⟨state', (Build.bind_ok hfresh).trans hrun,
    hgrow.trans hgrow' (hr.lt_length hready)⟩

/-- Steps over a list perform the plans of its elements in order. -/
theorem each (hr : Stable Ready) {α : Type} {steps : Nat → List α → Build Unit}
    {step : Nat → α → Build Unit} {plan : α → Plan}
    (hnil : ∀ id, steps id [] = pure ())
    (hcons : ∀ id a rest,
      steps id (a :: rest)
        = do step id a; steps id rest)
        (h : ∀ a, Performs Ready (fun id => step id a) (plan a)) :
    ∀ list, Performs Ready (fun id => steps id list) (Plan.each plan list) := by
  intro list
  induction list with
  | nil =>
      simp only [hnil]
      exact done
  | cons a rest ih =>
      simp only [hcons]
      exact andThen hr (h a) ih

-- ============================================================= emitting

/-- Emitting a command under further clauses writes one entry. -/
theorem emitInside (clauses : List Clause) (command : Command) (cause : Cause) :
    Performs Writing (fun _ => Build.emitInside clauses command)
      (.enter fun site => [⟨site.context.enter clauses, command, cause⟩]) := by
  intro site state id hw
  show ∃ state', Build.emitInside clauses command state = _ ∧ _
  unfold Build.emitInside
  rw [Build.bind_get, hw.context]
  exact hw.emitUnder (site.context.prefix_enter clauses) command cause

/-- Emitting a command writes one entry in the current context. -/
theorem emit (command : Command) (cause : Cause) :
    Performs Writing (fun _ => Build.emit command) (.emit cause command) := by
  intro site state id hw
  show ∃ state', Build.emit command state = _ ∧ _
  unfold Build.emit
  rw [Build.bind_get, hw.context]
  exact hw.emitUnder (List.prefix_refl _) command cause

/-- Emitting commands under further clauses writes an entry for each. -/
theorem emitAllInside (clauses : List Clause) (commands : List Command)
    (cause : Cause) :
    Performs Writing
      (fun _ => do Build.emitAllUnder ((← get).context.enter clauses) commands)
      (.enter fun site =>
        commands.map
          fun command => ⟨site.context.enter clauses, command, cause⟩) := by
  intro site state id hw
  have hc := site.context.prefix_enter clauses
  have hrun :
      (do Build.emitAllUnder ((← get).context.enter clauses) commands : Build
        Unit) state
      = Build.emitAllUnder (site.context.enter clauses) commands state := by
    rw [Build.bind_get, hw.context]
  simp only [hrun, Plan.enter]
  clear hrun
  generalize site.context.enter clauses = context at hc ⊢
  induction commands generalizing site state with
  | nil => exact ⟨state, rfl, .refl state id⟩
  | cons command rest ih =>
      obtain ⟨state', hrun, hgrow⟩ := hw.emitUnder hc command cause
      obtain ⟨state'', hrun', hgrow'⟩ := ih (hw.after hgrow) hc
      refine ⟨state'', ?_, hgrow.trans hgrow' hw.lt_length⟩
      rw [Build.emitAllUnder, Build.bind_ok hrun]
      exact hrun'

end Performs

-- =========================================================== statements

def Statement.isBlock : Statement → Bool
  | .execute .. => true
  | _ => false

/-- A call resolves as the site says. -/
theorem Writing.call (h : Writing site state id) (component method : String) :
    Build.call component method state
      = match site.toGround.call component method with
        | .ok command => Build.emit command state
        | .error defect => .error (.defect defect) state := by
  unfold Build.call Ground.call
  rw [Build.bind_get, h.currentComponent?, h.describes.calls]
  cases hres : site.calls.resolve (some site.component)
    (Name.snakeCase component) method with
  | error defect => rw [Build.bind_ofExcept_error rfl]; rfl
  | ok target => rw [Build.bind_ofExcept_ok rfl]; rfl

/-- Functions that attach and detach are called as the site says. -/
theorem Writing.onEntity (h : Writing site state id) (component : String)
    (location : String → String → String) :
    (do
      let name ← Build.instantiable component
      Build.emit (.function (location (← get).space name)) : Build Unit) state
      = match site.toGround.onEntity component (location site.space) with
        | .ok command => Build.emit command state
        | .error defect => .error (.defect defect) state := by
  cases hres : site.calls.component? (Name.snakeCase component) with
  | error defect =>
      have hrun : Build.instantiable component state
          = .error (.defect defect) state := by
        unfold Build.instantiable
        rw [Build.bind_get, h.describes.calls, Build.bind_ofExcept_error hres]
      rw [Build.bind_error hrun]
      unfold Ground.onEntity
      rw [hres]
      rfl
  | ok calls =>
      -- the component is known, and only whether it is abstract is left
      by_cases habs : calls.isAbstract = true
      · have hrun : Build.instantiable component state
            = .error (.defect (.abstractComponent (Name.snakeCase component)))
              state := by
          unfold Build.instantiable
          rw [Build.bind_get, h.describes.calls, Build.bind_ofExcept_ok hres,
            if_pos habs]
          rfl
        rw [Build.bind_error hrun]
        unfold Ground.onEntity
        rw [hres]
        simp only [bind, Except.bind, habs, if_true]
      · have hrun : Build.instantiable component state
            = .ok (Name.snakeCase component) state := by
          unfold Build.instantiable
          rw [Build.bind_get, h.describes.calls, Build.bind_ofExcept_ok hres,
            if_neg habs]
          rfl
        rw [Build.bind_ok hrun, Build.bind_get, h.describes.space]
        unfold Ground.onEntity
        rw [hres]
        simp only [bind, Except.bind, habs]
        rfl

/-- A statement that is not a block emits its command, or fails with the
defect in its place. -/
theorem Statement.build_eq {statement : Statement}
    (hleaf : statement.isBlock = false) (h : Writing site state id) :
    statement.build state
      = match statement.command site.toGround with
        | .ok command => Build.emit command state
        | .error defect => .error (.defect defect) state := by
  cases statement with
  | execute clauses body => cases hleaf
  | function location =>
      rw [Statement.build, Build.bind_get, h.describes.space]
      rfl
  | functionTag location =>
      rw [Statement.build, Build.bind_get, h.describes.space]
      rfl
  | invoke method =>
      rw [Statement.build]
      unfold Build.invoke
      rw [Build.bind_get, h.currentComponent?]
      exact h.call site.component method
  | call component method => rw [Statement.build]; exact h.call component method
  | attach component =>
      rw [Statement.build]
      exact h.onEntity component fun space name => Location.ofAttach space name
  | detach component =>
      rw [Statement.build]
      exact h.onEntity component fun space name => Location.ofDetach space name
  | _ => rw [Statement.build]; rfl

/-- A statement that is no block emits its command, or fails with the
defect of the call. -/
theorem Statement.performs_leaf {statement : Statement}
    (hleaf : statement.isBlock = false) :
    Performs Writing (fun _ => statement.build) (.leaf statement) := by
  intro site state id hw
  show ∃ state', statement.build state = _ ∧ _
  rw [statement.build_eq hleaf hw]
  unfold Plan.leaf
  cases hcmd : statement.command site.toGround with
  | ok command => exact Performs.emit command (.statement statement) hw
  | error defect => exact ⟨state, rfl, .refl state id⟩

end Datapack
