/-
The state of a build is never corrupted.

Three pieces of a state have to go together: the function in focus, the
contexts entered, and the draft of the function in the tree. `Writing` says
that they do, and every step of a body keeps it, so that at each moment of
a build what is needed is there (`Moment.Sound`):

- a command is emitted while a function is in focus, its draft is open, and
  the context lies inside that of the draft;
- a block leaves everything in focus and all contexts as they were, whether
  it ends well or fails;
- a failure that is caught was raised by the body, or is a defect of the
  project and not of the state.

The obligation is the same for every way of putting steps together, and
`Watch.Sound` has one lemma for each. The one that has an argument in it is
that on blocks: after a block has closed, its single command is emitted
once more in the function around it, whose context is shorter.
-/
import Datapack.Proofs.Causes
import Datapack.Proofs.Notices

namespace Datapack

-- ============================================================== soundness

/-- A function is in focus that takes commands under the context. -/
def BuildState.Accepts (state : BuildState) (context : ExecutionContext) :
    Prop :=
  ∃ id draft, state.focus.function = some id ∧ state.tree.draft? id = .ok draft
    ∧ draft.isOpen = true ∧ context.extends? draft.base = true

def Moment.Sound : Moment → Prop
  | .emission state context => state.Accepts context
  | .passage before result =>
    (Build.stateOf result).focus = before.focus
      ∧ (Build.stateOf result).contexts = before.contexts
  | .caught body failure => failure.StemsFrom (Action.raisedAll body)

variable {site : Site} {state : BuildState} {id : Nat}

/-- While a function is being written it accepts commands. -/
theorem Writing.accepts (h : Writing site state id) {context : ExecutionContext}
    (hc : site.context.clauses <+: context.clauses) :
    state.Accepts context := by
  obtain ⟨node, draft, hn, hcontent, hopen, hbase⟩ := h.opened
  refine ⟨id, draft, h.focus, BuildTree.draft?_eq hn hcontent, ?_, ?_⟩
  · simp [Draft.isOpen, hopen]
  · exact List.isPrefixOf_iff_prefix.mpr (hbase.trans hc)

/-- A step that ends as a plan says leaves the state it says. -/
private theorem Outcome.stateOf_ending (result : Except Failure Unit)
    (state : BuildState) :
    Build.stateOf (Outcome.ending result state) = state := by
  cases result <;> rfl

/-- A step that performs a plan is passed soundly. -/
theorem Performs.passage {Ready : Site → BuildState → Nat → Prop}
    {step : Build Unit} {plan : Plan} (h : Performs Ready (fun _ => step) plan)
    (hready : Ready site state id) :
    (Moment.passage state (step state)).Sound := by
  obtain ⟨state', hrun, hgrow⟩ := h.runs hready
  show (Build.stateOf (step state)).focus = _
    ∧ (Build.stateOf (step state)).contexts = _
  rw [hrun, Outcome.stateOf_ending]
  exact ⟨hgrow.focus, hgrow.contexts⟩

/-- After a step the node is ready for the next, also if the step failed. -/
theorem Performs.ready {Ready : Site → BuildState → Nat → Prop}
    (hr : Stable Ready) {step : Nat → Build Unit} {plan : Plan}
    (h : Performs Ready step plan) (hready : Ready site state id) :
    ∃ site', Ready site' (Build.stateOf (step id state)) id := by
  obtain ⟨state', hrun, hgrow⟩ := h hready
  rw [hrun, Outcome.stateOf_ending]
  exact ⟨_, hr.after hready hgrow⟩

/-- What performs a plan may be written differently. -/
theorem Performs.congr {Ready : Site → BuildState → Nat → Prop}
    {step step' : Nat → Build Unit} {plan : Plan} (h : Performs Ready step plan)
    (heq : ∀ id, step' id = step id) :
    Performs Ready step' plan :=
  funext heq ▸ h

/-- A step fails as its plan does. -/
theorem Performs.result_eq {Ready : Site → BuildState → Nat → Prop}
    {step : Nat → Build Unit} {plan : Plan} (h : Performs Ready step plan)
    (hready : Ready site state id) {failure : Failure} {state' : BuildState}
    (hrun : step id state = .error failure state') :
    (plan site).result = .error failure := by
  obtain ⟨state'', hending, -⟩ := h hready
  rw [hrun] at hending
  cases hres : (plan site).result with
  | ok value =>
      rw [hres] at hending
      cases hending
  | error other =>
      rw [hres] at hending
      cases hending
      rfl

-- ================================================================ moments

namespace Watch

variable {α β : Type} {moment : Moment}

/-- The moments of two steps are those of the first and, if it ended well,
those of the second. -/
theorem mem_moments_bind {step : Watch α} {next : α → Watch β}
    (h : moment ∈ (step >>= next).moments state) :
    moment ∈ step.moments state
      ∨ ∃ value state', step.result state = .ok value state'
          ∧ moment ∈ (next value).moments state' := by
  rcases List.mem_append.1 h with h | h
  · exact .inl h
  · cases hrun : step.result state with
    | error failure state' =>
        rw [hrun] at h
        cases h
    | ok value state' =>
        rw [hrun] at h
        exact .inr ⟨value, state', rfl, h⟩

/-- A quiet step has no moments. -/
private theorem not_mem_moments_quiet {step : Build α} :
    moment ∉ (quiet step).moments state :=
  fun h => by cases h

/-- The moments after a quiet step are those of what comes next. -/
private theorem mem_moments_quiet_bind {step : Build α} {next : α → Watch β}
    (h : moment ∈ (quiet step >>= next).moments state) :
    ∃ value state',
      step state = .ok value state' ∧ moment ∈ (next value).moments state' :=
  (mem_moments_bind h).resolve_left not_mem_moments_quiet

private theorem mem_moments_get_bind {next : BuildState → Watch β}
    (h : moment ∈ (quiet (get : Build BuildState) >>= next).moments state) :
    moment ∈ (next state).moments state := by
  obtain ⟨value, state', hrun, h⟩ := mem_moments_quiet_bind h
  cases hrun
  exact h

/-- The moments of a step that catches are its own and those of the
handler, in the state that the failure left. -/
private theorem mem_moments_orElse {step : Watch Unit}
    {handler : Failure → Watch Unit}
    (h : moment ∈ (orElse step handler).moments state) :
    moment ∈ step.moments state
      ∨ ∃ failure state', step.result state = .error failure state'
          ∧ moment ∈ (handler failure).moments state' := by
  rcases List.mem_append.1 h with h | h
  · exact .inl h
  · cases hrun : step.result state with
    | ok value state' =>
        rw [hrun] at h
        cases h
    | error failure state' =>
        rw [hrun] at h
        exact .inr ⟨failure, state', rfl, h⟩

/-- A watched block performs its plan, as the block does. -/
private theorem performs_execute {body : Watch Unit} {plan : Plan}
    (hp : Performs Writing (fun _ => body.result) plan) (hin : plan.Inside)
    (clauses : List Clause) :
    Performs Writing (fun _ => (execute clauses body).result)
      (plan.block clauses) :=
  (hp.execute hin clauses).congr fun _ => result_execute clauses body

/-- At every node that is ready for the step, its moments are sound. -/
def Sound (Ready : Site → BuildState → Nat → Prop) (step : Nat → Watch Unit) :
    Prop :=
  ∀ ⦃site : Site⦄ ⦃state : BuildState⦄ ⦃id : Nat⦄, Ready site state id →
    ∀ moment ∈ (step id).moments state, moment.Sound

namespace Sound

variable {Ready : Site → BuildState → Nat → Prop} {step next : Nat → Watch Unit}
  {plan : Plan}

private theorem quiet (step : Nat → Build Unit) :
    Sound Ready fun id => Watch.quiet (step id) :=
  fun _ _ _ _ _ h => absurd h not_mem_moments_quiet

/-- The moments of two steps in a row are sound: the second starts in a
state that the first has left ready. -/
private theorem andThen (hr : Stable Ready) (h : Sound Ready step)
    (hp : Performs Ready (fun id => (step id).result) plan)
    (h' : Sound Ready next) :
    Sound Ready (fun id => do step id; next id) := by
  intro site state id hready moment hmoment
  rcases mem_moments_bind hmoment with hmoment | ⟨value, state', hrun, hmoment⟩
  · exact h hready moment hmoment
  · obtain ⟨site', hready'⟩ := hp.ready hr hready
    rw [hrun] at hready'
    exact h' hready' moment hmoment

/-- What is caught stems from the step. -/
theorem orElse (hr : Stable Ready) {step : Watch Unit}
    {handler : Failure → Watch Unit} {raised : List Failure}
    (h : Sound Ready fun _ => step)
    (hp : Performs Ready (fun _ => step.result) plan)
    (hfails : plan.FailsFrom raised)
    (h' : ∀ failure,
      failure.StemsFrom raised → Sound Ready fun _ => handler failure) :
    Sound Ready fun _ => Watch.orElse step handler := by
  intro site state id hready moment hmoment
  rcases mem_moments_orElse hmoment with hmoment
    | ⟨failure, state', hrun, hmoment⟩
  · exact h hready moment hmoment
  · have hstems := hfails site failure (hp.result_eq hready hrun)
    obtain ⟨site', hready'⟩ := hp.ready hr hready
    rw [hrun] at hready'
    exact h' failure hstems hready' moment hmoment

/-- What a caught failure passes on is sound, since the step performs
its plan. -/
private theorem passing {step : Watch Unit} (h : Sound Ready fun _ => step)
    (hp : Performs Ready (fun _ => step.result) plan) :
    Sound Ready fun _ => Watch.passing step := by
  intro site state id hready moment hmoment
  rcases List.mem_append.1 hmoment with hmoment | hmoment
  · exact h hready moment hmoment
  · rw [List.mem_singleton.1 hmoment]
    exact hp.passage hready

private theorem labelled (label : String) (h : Sound Ready step) :
    Sound Ready fun id => Watch.labelled label (step id) :=
  h

private theorem iterate (hr : Stable Ready) {step : Watch Unit}
    (h : Sound Ready fun _ => step)
    (hp : Performs Ready (fun _ => step.result) plan) :
    ∀ times, Sound Ready fun _ => Watch.iterate times step
  | 0 => quiet _
  | times + 1 => andThen hr h hp (iterate hr h hp times)

/-- Taking a fresh tag changes nothing that matters to the moments. -/
theorem withTag {step : String → Watch Unit}
    (h : ∀ tag, Sound Writing fun _ => step tag) :
    Sound Writing (fun _ => do
      let tag ← Watch.quiet Build.freshTag
      step tag) := by
  intro site state id hw moment hmoment
  obtain ⟨tag, state', hfresh, hmoment⟩ := mem_moments_quiet_bind hmoment
  cases hfresh
  have hgrow : state.Grows id
      { tags := 1 } { state with tagNames := state.tagNames.tail } :=
    ⟨rfl, rfl, rfl, rfl, rfl, rfl, .names state.tree id 0 1⟩
  exact h _ (hw.after hgrow) moment hmoment

-- =============================================================== emitting

private theorem emitting (step : Build Unit) :
    Sound Writing fun _ => Watch.emitting step := by
  intro site state id hw moment hmoment
  rw [List.mem_singleton.1 hmoment]
  exact hw.accepts (hw.context ▸ List.prefix_refl _)

/-- A command is emitted under a context inside the current one, where the
function in focus takes it. -/
private theorem emitUnder {context : ExecutionContext} (command : Command)
    (hw : Writing site state id)
    (hc : site.context.clauses <+: context.clauses) :
    ∀ moment ∈ (Watch.emitUnder context command).moments state,
      moment.Sound := by
  intro moment hmoment
  rw [List.mem_singleton.1 hmoment]
  exact hw.accepts hc

/-- Under further clauses the context lies inside the current one. -/
private theorem emitInside (clauses : List Clause) (command : Command) :
    Sound Writing fun _ => Watch.emitInside clauses command := by
  intro site state id hw moment hmoment
  refine emitUnder command hw ?_ moment (mem_moments_get_bind hmoment)
  rw [hw.context]
  exact site.context.prefix_enter clauses

private theorem emitAllInside (clauses : List Clause)
    (commands : List Command) :
    Sound Writing (fun _ => do
      let state ← Watch.quiet get
      Watch.emitAllUnder (state.context.enter clauses) commands) := by
  intro site state id hw moment hmoment
  replace hmoment := mem_moments_get_bind hmoment
  have hc : site.context.clauses <+: (state.context.enter clauses).clauses := by
    rw [hw.context]
    exact site.context.prefix_enter clauses
  generalize state.context.enter clauses = context at hc hmoment
  -- the context stays the same while the state goes on
  induction commands generalizing site state with
  | nil => cases hmoment
  | cons command rest ih =>
      rcases mem_moments_bind hmoment with hmoment
        | ⟨value, state', hrun, hmoment⟩
      · exact emitUnder command hw hc moment hmoment
      · obtain ⟨state'', hemit, hgrow⟩ := hw.emitUnder hc command .action
        rw [show Build.emitUnder context command state
          = .ok value state' from hrun] at hemit
        cases hemit
        exact ih (hw.after hgrow) hc hmoment

-- ================================================================= blocks

/-- The moments of a function being written are those of its body. -/
theorem writeFunction {body : Watch Unit} (hp : Placed site state id)
    (h : Sound Writing fun _ => body) (name : String) (location : Option String)
    (context : ExecutionContext) :
    ∀ moment
      ∈ (Watch.writeFunction state.tree.nodes.length context body).moments
        { state with
        tree := state.tree.insert (some id) name
          (.function { location := location, base := context }) },
          moment.Sound := by
  intro moment hmoment
  rcases mem_moments_bind hmoment with hmoment | ⟨_, _, -, hmoment⟩
  · rcases mem_moments_orElse hmoment with hmoment | ⟨_, _, -, hmoment⟩
    · exact h (hp.writing name location context) moment hmoment
    · exact absurd hmoment not_mem_moments_quiet
  · exact absurd hmoment not_mem_moments_quiet

/-- The command that is emitted for a block finds the function around the
block open, and its context is inside that of the block. -/
theorem placeSources {context : ExecutionContext} {tree : BuildTree}
    {written : Written} (hw : Writing site state id)
    (hc : site.context.clauses <+: context.clauses)
    (hin : ∀ entry ∈ written.entries, context.clauses <+: entry.context.clauses)
    (hg : state.tree.Gains id
      (.function ⟨none, context, .closed, written.entries⟩)
      written.below tree) :
    ∀ moment ∈ (Watch.placeSources state.tree.nodes.length context
        (written.entries.map SheetEntry.source)).moments
        (state.advance tree written),
      moment.Sound := by
  intro moment hmoment
  rcases hent : written.entries with _ | ⟨entry, _ | ⟨second, rest⟩⟩
  · -- no command: the node goes, and nothing is emitted
    rw [hent] at hmoment
    exact absurd hmoment not_mem_moments_quiet
  · rw [hent] at hmoment
    -- one command: it goes to the function around, whose context is that of
    -- the site
    obtain ⟨_, state', hrun, hmoment⟩ := mem_moments_quiet_bind hmoment
    obtain ⟨tree', hdissolve, hgrow⟩ := dissolve_runs hw.toPlaced hg rfl
    rw [show Watch.dissolve _ (state.advance tree written) = _ from hdissolve]
      at hrun
    cases hrun
    have hgrow' : state.Grows id { written with entries := [] }
        (state.advance tree' written) := hgrow.advance
    have hentry : site.context.clauses <+: entry.context.clauses :=
      hc.trans (hin entry (by rw [hent]; exact List.mem_singleton_self _))
    exact emitUnder _ (hw.after hgrow') hentry moment hmoment
  · rw [hent] at hmoment
    -- several: the block keeps its function, and its call is emitted
    obtain ⟨location, state', hfresh, hmoment⟩ := mem_moments_quiet_bind hmoment
    obtain ⟨_, state'', hrename, hmoment⟩ := mem_moments_quiet_bind hmoment
    obtain ⟨new, hnode, -, hcontent, -⟩ := hg.new
    cases hfresh
    have hassign : Build.modifyDraft state.tree.nodes.length
        (fun draft => .ok { draft with
          location := some (state.advance tree written).functionNames.head })
        { state.advance tree written with
          functionNames := (state.advance tree written).functionNames.tail }
        = .ok () _ :=
      Build.modifyDraft_apply (BuildTree.draft?_eq hnode hcontent) rfl
    unfold Watch.rename at hrename
    rw [Build.bind_ok hassign, Build.modifyTree_apply] at hrename
    cases hrename
    have hgain := (hg.setDraft hw.lt_length ⟨some (state.functionNames.drop
      written.functions).head, context, .closed, written.entries⟩).rename
      hw.lt_length
        (state.functionNames.drop written.functions).head
    have hgrow : state.Grows id _ _ :=
      (hgain.grows (written.functions + 1) written.tags).advance
    exact emitUnder _ (hw.after hgrow) hc moment hmoment

/-- The moments of a block are sound. After it has closed, its single
command is emitted in the function around it, under a context that the body
did not leave. -/
private theorem execute {body : Watch Unit} (h : Sound Writing fun _ => body)
    (hp : Performs Writing (fun _ => body.result) plan) (hin : plan.Inside)
    (clauses : List Clause) :
    Sound Writing fun _ => Watch.execute clauses body := by
  refine passing ?_ (performs_execute hp hin clauses)
  intro site state id hw moment hmoment
  have hc := site.context.prefix_enter clauses
  replace hmoment := mem_moments_get_bind hmoment
  rw [hw.context] at hmoment
  generalize site.context.enter clauses = context at hc hmoment
  unfold Watch.block at hmoment
  replace hmoment := mem_moments_get_bind hmoment
  split at hmoment
  · exact h hw moment hmoment
  · -- the function around the block is the one being written
    obtain ⟨parent, state', hparent, hmoment⟩ := mem_moments_quiet_bind hmoment
    unfold Build.currentFunction at hparent
    rw [Build.bind_get, hw.focus] at hparent
    cases hparent
    obtain ⟨node, state', hnode, hmoment⟩ := mem_moments_quiet_bind hmoment
    cases hnode
    rcases mem_moments_bind hmoment with hmoment
      | ⟨value, closed, hrun, hmoment⟩
    · exact writeFunction hw.toPlaced h "scope" none context moment hmoment
    · obtain ⟨tree, hwrite, hgains⟩ :=
        writeFunction_runs hw.toPlaced hp "scope" none context
      have hinner := hin { site with context := context }
      rw [result_writeFunction, hwrite] at hrun
      generalize plan { site with context := context } = inner at *
      obtain ⟨written, result⟩ := inner
      cases result with
      | error failure => cases hrun
      | ok value =>
          cases hrun
          replace hmoment := mem_moments_get_bind hmoment
          obtain ⟨draft, state', hdraft, hmoment⟩ :=
            mem_moments_quiet_bind hmoment
          obtain ⟨new, hnode, -, hcontent, -⟩ := hgains.new
          rw [show (state.advance tree written).tree.draft?
            state.tree.nodes.length = _ from
            BuildTree.draft?_eq hnode hcontent] at hdraft
          cases hdraft
          exact placeSources hw hc hinner hgains moment hmoment

end Sound

end Watch

-- ================================================================== bodies

/-- A watched statement performs its plan. -/
private theorem Statement.performs_watch (statement : Statement) :
    Performs Writing (fun _ => statement.watch.result) statement.plan :=
  statement.performs.congr fun _ => statement.result_watch

private theorem Statement.performs_watchAll (body : List Statement) :
    Performs Writing (fun _ => (Statement.watchAll body).result)
      (Statement.planAll body) :=
  (Statement.performsAll body).congr fun _ => Statement.result_watchAll body

/-- A watched action performs its plan. -/
private theorem Action.performs_watch (action : Action) :
    Performs Writing (fun _ => action.watch.result) action.plan :=
  action.performs.congr fun _ => action.result_watch

private theorem Action.performs_watchAll (body : List Action) :
    Performs Writing (fun _ => (Action.watchAll body).result)
      (Action.planAll body) :=
  (Action.performsAll body).congr fun _ => Action.result_watchAll body

mutual

/-- The moments of a statement are sound. -/
private theorem Statement.sound_watch : ∀ statement : Statement,
    Watch.Sound Writing fun _ => statement.watch
  | .execute clauses body => by
      rw [Statement.watch]
      exact .execute (Statement.sound_watchAll body)
        (Statement.performs_watchAll body) (Statement.inside body) clauses
  | .run .. | .say .. | .log .. | .error .. | .addTag .. | .removeTag ..
  | .function .. | .functionTag .. | .invoke .. | .call .. | .attach ..
  | .detach .. => by
      rw [Statement.watch]
      · exact .emitting _
      all_goals exact fun _ _ h => by cases h

/-- So are those of a body of statements. -/
theorem Statement.sound_watchAll : ∀ body : List Statement,
    Watch.Sound Writing fun _ => Statement.watchAll body
  | [] => by
      rw [Statement.watchAll]
      exact .quiet _
  | statement :: rest => by
      rw [Statement.watchAll]
      exact .andThen Writing.stable statement.sound_watch
        statement.performs_watch (Statement.sound_watchAll rest)

end

mutual

/-- The moments of an action are sound, in blocks and in what is
caught as well. -/
theorem Action.sound_watch : ∀ action : Action,
  Watch.Sound Writing fun _ => action.watch
  | .perform statement => by
      rw [Action.watch]
      exact statement.sound_watch
  | .execute clauses body => by
      rw [Action.watch]
      exact .execute (Action.sound_watchAll body)
        (Action.performs_watchAll body) (Action.inside body) clauses
  | .inline clauses commands => by
      rw [Action.watch]
      exact .emitAllInside clauses commands
  | .direct command => by
      rw [Action.watch]
      exact .emitting _
  | .freshTag emit => by
      rw [Action.watch]
      refine .withTag fun tag => ?_
      cases emit with
      | true => exact .emitting _
      | false => exact .quiet _
  | .whoami => by
      rw [Action.watch]
      exact .emitting _
  | .fail failure => by
      rw [Action.watch]
      exact .quiet _
  | .attempt body => by
      have hattempt := Action.performs_watch (.attempt body)
      rw [Action.watch] at hattempt ⊢
      refine .passing (.orElse Writing.stable (Action.sound_watchAll body)
        (Action.performs_watchAll body) (Action.failsFromAll body)
        fun failure hstems => ?_) hattempt
      intro site state id hw moment hmoment
      rcases Watch.mem_moments_bind hmoment with hmoment
        | ⟨_, _, hnote, hmoment⟩
      · rw [List.mem_singleton.1 hmoment]
        exact hstems
      · cases hnote
        exact Watch.Sound.emitting _ hw moment hmoment
  | .labelled label body => by
      have hlabelled := Action.performs_watch (.labelled label body)
      rw [Action.watch] at hlabelled ⊢
      exact .passing (.labelled label (Action.sound_watchAll body)) hlabelled
  | .iterate times body => by
      have hiterate := Action.performs_watch (.iterate times body)
      rw [Action.watch] at hiterate ⊢
      exact .passing (.iterate Writing.stable (Action.sound_watchAll body)
        (Action.performs_watchAll body) times) hiterate

private theorem Action.sound_watchAll : ∀ body : List Action,
    Watch.Sound Writing fun _ => Action.watchAll body
  | [] => by
      rw [Action.watchAll]
      exact .quiet _
  | action :: rest => by
      rw [Action.watchAll]
      exact .andThen Writing.stable action.sound_watch action.performs_watch
        (Action.sound_watchAll rest)

end

-- ============================================================== components

namespace Watch

private theorem Sound.function {body : Watch Unit}
    (h : Sound Writing fun _ => body) (location : String) :
    Sound Placed fun id => Watch.function id location body := by
  intro site state id hp moment hmoment
  obtain ⟨node, state', hnode, hmoment⟩ := mem_moments_quiet_bind hmoment
  cases hnode
  exact writeFunction hp h location (some location) .empty moment hmoment

/-- The moments of a method are sound, guarded or not. -/
private theorem sound_methodBody (component : Component) (member : Member) :
    Sound Writing fun _ => methodBody component member := by
  have hbody := Action.sound_watchAll member.method.body
  have hperforms := Action.performs_watchAll member.method.body
  have hcomposed : Plan.Composed (fun _ => True) _ :=
    Action.composedAll member.method.body
  unfold methodBody
  split
  · refine .withTag fun tag => ?_
    have hinner : Plan.Composed (fun _ => True) _ :=
      .andThen (.emitMark (Command.isCall_addTag tag))
        (.andThen (.block [⟨["as", s!"@e[tag={tag}]"]⟩] hcomposed)
          (.emitMark (Command.isCall_removeTag tag)))
    have has :=
      performs_execute hperforms hcomposed.inside [⟨["as", s!"@e[tag={tag}]"]⟩]
    refine .andThen Writing.stable (.emitInside _ _)
      (Performs.emitInside _ _ .mark) ?_
    -- the block of the guard, with the block of the body in it
    refine .execute ?_ ?_ hinner.inside _
    · refine .andThen Writing.stable (.emitting _) (Performs.emit _ .mark) ?_
      exact .andThen Writing.stable
        (.execute hbody hperforms hcomposed.inside _) has (.emitting _)
    · exact .andThen Writing.stable (.emit _ .mark)
        (.andThen Writing.stable has (.emit _ .mark))
  · exact hbody

/-- Below a new node in focus the moments are those of the step there. -/
theorem Sound.beneath {step : NodeId → Watch Unit} (h : Sound Placed step)
    (piece : Piece) {name : String} (ha : Anchored site state id)
    (hb : (state.tree.insert (some id) name piece.content).BelongsTo
      state.tree.nodes.length site.component) (kind : NodeKind) :
    ∀ moment ∈ (do
        let node ← Watch.quiet (Build.insertNode (some id) name piece.content)
        focused kind node (step node) : Watch Unit).moments state,
          moment.Sound := by
  intro moment hmoment
  obtain ⟨node, state', hnode, hmoment⟩ := mem_moments_quiet_bind hmoment
  cases hnode
  exact h (ha.placed_insert hb kind) moment hmoment

private theorem sound_method (component : Component) (member : Member) :
    Sound Placed fun id => method id component member := by
  have hfunction := (sound_methodBody component member).function member.location
  have hbody := (performs_methodBody component member).congr fun _ =>
    result_methodBody component member
  have hperforms := (hbody.function member.location).congr fun id =>
    result_function id member.location (methodBody component member)
  refine .labelled _ fun site state id hp => ?_
  obtain ⟨above, hn, -⟩ := hp.present
  exact Sound.beneath (.andThen Placed.stable hfunction hperforms (.quiet _))
    .method hp.toAnchored
    (BuildTree.belongsTo_insert hn hp.belongs
      (by simp [Piece.content, NodeContent.kind])) .method

private theorem sound_methods (component : Component) (members : List Member) :
    Sound Placed fun id => methods id component members := by
  induction members with
  | nil => exact .quiet _
  | cons member rest ih =>
      exact .andThen Placed.stable (sound_method component member)
        ((performs_method component member).congr fun id =>
          result_method id component member) ih

/-- A dispatcher emits one command, in its own function. -/
private theorem sound_dispatcher (component : Component) (members : List Member)
    (hook : Hook) :
    Sound Placed fun id => dispatcher id component members hook := by
  unfold dispatcher
  cases hook.gameTag? with
  | none => exact .quiet _
  | some gameTag =>
      dsimp only
      split
      · intro site state id hp moment hmoment
        obtain ⟨location, state', hfresh, hmoment⟩ :=
          mem_moments_quiet_bind hmoment
        cases hfresh
        have hgrow : state.Grows id { functions := 1 }
            { state with functionNames := state.functionNames.tail } :=
          ⟨rfl, rfl, rfl, rfl, rfl, rfl, .names state.tree id 1 0⟩
        rcases mem_moments_bind hmoment with hmoment | ⟨_, _, -, hmoment⟩
        · exact (Sound.emitInside _ _).function _ (hp.after hgrow)
            moment hmoment
        · exact absurd hmoment not_mem_moments_quiet
      · exact .quiet _

private theorem sound_dispatchers (component : Component)
    (members : List Member) (hooks : List Hook) :
    Sound Placed fun id => dispatchers id component members hooks := by
  induction hooks with
  | nil => exact .quiet _
  | cons hook rest ih =>
      exact .andThen Placed.stable (sound_dispatcher component members hook)
        ((performs_dispatcher component members hook).congr fun id =>
          result_dispatcher id component members hook) ih

/-- The call of a hook is emitted in the function of the entry point. -/
private theorem sound_runHook (component : Component) (members : List Member)
    (hook : Hook) :
    Sound Writing fun _ => runHook component members hook := by
  unfold runHook
  split
  · exact .emitting _
  · exact .quiet _

private theorem performs_watch_runHook (component : Component)
    (members : List Member) (hook : Hook) :
    Performs Writing (fun _ => (runHook component members hook).result)
      (.runHook component members hook) :=
  (performs_runHook component members hook).congr fun _ =>
    result_runHook component members hook

private theorem sound_attachFunction (component : Component)
    (members : List Member) :
    Sound Placed fun id => attachFunction id component members := by
  have hcomposed : (Plan.attachBody component members).Composed fun _ => True :=
    Plan.composed_attachBody fun _ _ => trivial
  refine .function (.execute ?_ ?_ hcomposed.inside _) _
  · exact .andThen Writing.stable (.emitting _) (Performs.emit _ .mark)
      (sound_runHook ..)
  · exact .andThen Writing.stable (.emit _ .mark) (performs_watch_runHook ..)

private theorem sound_detachFunction (component : Component)
    (members : List Member) :
    Sound Placed fun id => detachFunction id component members := by
  have hcomposed : (Plan.detachBody component members).Composed fun _ => True :=
    Plan.composed_detachBody fun _ _ => trivial
  refine .function (.execute ?_ ?_ hcomposed.inside _) _
  · exact .andThen Writing.stable (sound_runHook ..) (performs_watch_runHook ..)
      (.emitting _)
  · exact .andThen Writing.stable (performs_watch_runHook ..) (.emit _ .mark)

/-- The moments of the entry points are sound. -/
private theorem sound_entryPoints (component : Component)
    (members : List Member) :
    Sound Placed fun id => entryPoints id component members := by
  unfold entryPoints
  split
  · exact .quiet _
  · have hdispatchers : Performs Placed
        (fun id => Build.dispatchers id component members Hook.all) _ :=
      .each Placed.stable (fun _ => rfl) (fun _ _ _ => rfl)
        (performs_dispatcher component members) Hook.all
    refine .andThen Placed.stable (sound_dispatchers ..)
      (hdispatchers.congr
        fun id => result_dispatchers id component members Hook.all) ?_
    exact .andThen Placed.stable (sound_attachFunction ..)
      ((performs_attachFunction component members).congr fun id =>
        result_attachFunction id component members) (sound_detachFunction ..)

/-- The moments of a component are sound. -/
private theorem sound_component (component : Component)
    (members : List Member) :
    Sound Anchored fun id => Watch.component id component members := by
  have hmethods := (performs_methods component members).congr fun id =>
    result_methods id component members
  refine .labelled _ fun site state id ha => ?_
  exact Sound.beneath
    (.andThen Placed.stable (sound_methods ..) hmethods (sound_entryPoints ..))
    .component (ha.within component.name)
    (BuildTree.belongsTo_insert_component ha.lt_length) .component

/-- The moments of all components in order are sound. -/
private theorem sound_components (resolved : List (Component × List Member)) :
    Sound Anchored fun id => components id resolved := by
  induction resolved with
  | nil => exact .quiet _
  | cons entry rest ih =>
      exact .andThen Anchored.stable (sound_component entry.1 entry.2)
        ((performs_component entry.1 entry.2).congr fun id =>
          result_component id entry.1 entry.2) ih

end Watch

-- ================================================================ projects

namespace Project

/-- From the state that a build starts in, all its moments are sound. -/
private theorem sound_watchTree (project : Project)
    (resolved : List (Component × List Member)) :
    ∀ moment ∈ (project.watchTree resolved).moments
      (BuildState.initial project.space (CallTable.ofComponents resolved)),
      moment.Sound := by
  intro moment hmoment
  obtain ⟨root, state', hroot, hmoment⟩ := Watch.mem_moments_quiet_bind hmoment
  cases hroot
  rcases Watch.mem_moments_bind hmoment with hmoment | ⟨_, _, -, hmoment⟩
  · exact Watch.sound_components resolved (project.anchored_rootState resolved)
      moment hmoment
  · exact absurd hmoment Watch.not_mem_moments_quiet

/-- Watching a build changes nothing of it and misses none of its commands,
and what is seen is sound at every moment. A body leaves everything in focus
and all contexts as they were, in whatever state it starts. A build fails with
a defect of its own state only if the body of a method raises it. -/
theorem emission_state_kept (project : Project) (components : List Component) :
    (∀ resolved,
      (project.watchTree resolved).result = project.buildTree resolved
        ∧ (project.watchTree resolved).Notes)
      ∧ (∀ moment ∈ project.moments components, moment.Sound)
      ∧ (∀ (body : List Action) (state : BuildState),
          (Build.stateOf (Action.buildAll body state)).focus = state.focus
            ∧ (Build.stateOf (Action.buildAll body state)).contexts
              = state.contexts)
      ∧ ∀ failure,
        project.build components = .error failure → failure.BlamesState →
          ∃ component ∈ components, ∃ method ∈ component.methods,
            ∃ raised ∈ Action.raisedAll method.body, ∃ labels,
              failure = Failure.under labels raised := by
  refine ⟨fun resolved =>
    ⟨project.result_watchTree resolved, project.notes_watchTree resolved⟩,
    fun moment hmoment => ?_, fun body state => ?_,
    fun failure hfail hblames => ?_⟩
  · -- before the tree is built there are no moments
    unfold moments at hmoment
    split at hmoment
    · cases hmoment
    · split at hmoment
      · cases hmoment
      · split at hmoment
        · cases hmoment
        · exact project.sound_watchTree _ moment hmoment
  · rw [← Action.result_watchAll]
    exact ⟨(Action.notesAll body state).focus,
      (Action.notesAll body state).contexts⟩
  · obtain ⟨raised, hraised, labels, rfl⟩ :=
      (stems_of_build hfail).raised_of_blamesState hblames
    obtain ⟨component, hcomponent, hraised⟩ := List.mem_flatMap.1 hraised
    obtain ⟨method, hmethod, hraised⟩ := List.mem_flatMap.1 hraised
    exact ⟨component, hcomponent, method, hmethod, raised, hraised, labels, rfl⟩

end Project

end Datapack
