/-
Watching misses nothing.

Most of what is known about a step of a build needs a state that a build can
come to. Two things hold in every state, and of every watched step
(`Watch.Notes`):

- the step leaves everything in focus and all contexts as they were, since
  whoever changes them puts them back, also after a failure;
- if a command stands in some function of the tree after the step and not
  before, then an emission under the context of that command was noted. So
  no command gets into a function between the moments.

A step without moments of its own must therefore add no command at all, and
that is what has to be shown of each of them (`Build.AddsNothing`).
-/
import Datapack.Proofs.Blocks
import Datapack.Proofs.Watch

namespace Datapack

-- ================================================================ commands

/-- The commands of a node as they were registered. -/
def NodeContent.sources : NodeContent → List (ExecutionContext × Command)
  | .function draft => draft.sources
  | _ => []

namespace BuildTree

variable {tree : BuildTree} {id : Nat} {source : ExecutionContext × Command}

/-- The command stands in some function of the tree, finished or not. -/
def Has (tree : BuildTree) (source : ExecutionContext × Command) : Prop :=
  ∃ id node, tree.node? id = some node ∧ source ∈ node.content.sources

/-- Changing a node but not its content moves no command. -/
private theorem Has.of_modify {change : BuildNode → BuildNode}
    (h : (tree.modify id change).Has source)
    (hchange : ∀ node, (change node).content = node.content) :
    tree.Has source := by
  obtain ⟨other, node, hnode, hsource⟩ := h
  rw [node?_modify] at hnode
  split at hnode
  · obtain ⟨before, hbefore, rfl⟩ := Option.map_eq_some_iff.1 hnode
    exact ⟨other, before, hbefore, hchange before ▸ hsource⟩
  · exact ⟨other, node, hnode, hsource⟩

/-- A command of the tree after a draft was set is one of the draft,
or was there. -/
private theorem Has.of_setDraft {draft : Draft}
    (h : (tree.setDraft id draft).Has source) :
    tree.Has source ∨ source ∈ draft.sources := by
  obtain ⟨other, node, hnode, hsource⟩ := h
  unfold setDraft at hnode
  rw [node?_modify] at hnode
  split at hnode
  · obtain ⟨before, -, rfl⟩ := Option.map_eq_some_iff.1 hnode
    exact .inr hsource
  · exact .inl ⟨other, node, hnode, hsource⟩

/-- A new node without commands adds none. -/
private theorem Has.of_insert {parent : Option Nat} {name : String}
    {content : NodeContent} (hcontent : content.sources = [])
    (h : (tree.insert parent name content).Has source) :
    tree.Has source := by
  have hextended :
      (⟨tree.nodes ++ [⟨name, parent, [], content⟩]⟩ : BuildTree).Has source →
        tree.Has source := by
    rintro ⟨other, node, hnode, hsource⟩
    unfold BuildTree.node? at hnode
    rw [List.getElem?_append] at hnode
    split at hnode
    · exact ⟨other, node, hnode, hsource⟩
    · rw [List.mem_singleton.1 (List.mem_of_getElem? hnode),
        hcontent] at hsource
      cases hsource
  unfold insert at h
  cases parent with
  | none => exact hextended h
  | some parent =>
      dsimp only at h
      exact hextended (h.of_modify fun _ => rfl)

/-- Dissolving a node adds no command. -/
private theorem Has.of_dissolve (h : (tree.dissolve id).Has source) :
    tree.Has source := by
  have hadopt : ∀ (parent : Nat) (children : List Nat) (tree : BuildTree),
      (children.foldl (fun tree child =>
        tree.modify child fun node => { node with parent := some parent })
        tree).Has source →
      tree.Has source := by
    intro parent children
    induction children with
    | nil => exact fun _ h => h
    | cons child rest ih =>
        intro tree h
        have hrest :=
          ih (tree.modify child
            fun node => { node with parent := some parent }) h
        exact hrest.of_modify fun _ => rfl
  unfold dissolve at h
  split at h
  · exact h
  · split at h
    · exact h
    · dsimp only at h
      exact (hadopt _ _ _ (h.of_modify fun _ => rfl)).of_modify fun _ => rfl

/-- The commands of a draft stand in the tree. -/
private theorem has_of_draft? {draft : Draft} (h : tree.draft? id = .ok draft)
    (hsource : source ∈ draft.sources) : tree.Has source := by
  unfold draft? at h
  split at h
  · cases h
  · next node hnode =>
    split at h
    · next content hcontent =>
      cases h
      exact ⟨id, node, hnode, by rw [hcontent]; exact hsource⟩
    · cases h

end BuildTree

-- ================================================================ accounts

/-- The moments account for all that is new in a state: what is in focus and
the contexts are as before, and the commands were emitted at the moments. -/
structure Moment.Account (moments : List Moment) (before after : BuildState) :
    Prop where
  focus : after.focus = before.focus
  contexts : after.contexts = before.contexts
  noted : ∀ source, after.tree.Has source →
    before.tree.Has source ∨ ∃ seen, Moment.emission seen source.1 ∈ moments

namespace Moment.Account

private theorem refl (moments : List Moment) (state : BuildState) :
    Account moments state state :=
  ⟨rfl, rfl, fun _ => .inl⟩

private theorem trans {moments moments' : List Moment} {a b c : BuildState}
    (h : Account moments a b) (h' : Account moments' b c) :
    Account (moments ++ moments') a c := by
  refine ⟨h'.focus.trans h.focus, h'.contexts.trans h.contexts,
    fun source hsource => ?_⟩
  rcases h'.noted source hsource with hbefore | ⟨seen, hmem⟩
  · exact (h.noted source hbefore).imp_right fun ⟨seen, hmem⟩ =>
      ⟨seen, List.mem_append_left _ hmem⟩
  · exact .inr ⟨seen, List.mem_append_right _ hmem⟩

end Moment.Account

-- ============================================================ single steps

namespace Build

variable {α β : Type}

/-- The state in which a step ended, well or not. -/
def stateOf : EStateM.Result Failure BuildState α → BuildState
  | .ok _ state => state
  | .error _ state => state

/-- From any state, the step restores focus and contexts and adds no
command. -/
def AddsNothing (step : Build α) : Prop :=
  ∀ state, Moment.Account [] state (stateOf (step state))

/-- A function is changed, or the step fails and nothing happens. -/
theorem modifyDraft_cases (id : NodeId) (change : Draft → Except Defect Draft)
    (state : BuildState) :
    (∃ failure, modifyDraft id change state = .error failure state)
      ∨ ∃ draft draft',
        state.tree.draft? id = .ok draft ∧ change draft = .ok draft'
        ∧ modifyDraft id change state
            = .ok () { state with tree := state.tree.setDraft id draft' } := by
  cases hdraft : state.tree.draft? id with
  | error defect =>
      refine .inl ⟨.defect defect, ?_⟩
      unfold modifyDraft
      rw [bind_get, bind_ofExcept_error hdraft]
  | ok draft =>
      cases hchange : change draft with
      | error defect =>
          refine .inl ⟨.defect defect, ?_⟩
          unfold modifyDraft
          rw [bind_get, bind_ofExcept_ok hdraft, bind_ofExcept_error hchange]
      | ok draft' =>
          exact .inr
            ⟨draft, draft', rfl, hchange, modifyDraft_apply hdraft hchange⟩

namespace AddsNothing

/-- Two steps that add nothing add nothing in a row. -/
private theorem bind {step : Build α} {next : α → Build β}
    (h : AddsNothing step) (h' : ∀ value, AddsNothing (next value)) :
    AddsNothing (step >>= next) := by
  intro state
  have hstep := h state
  cases hrun : step state with
  | ok value state' =>
      rw [hrun] at hstep
      rw [bind_ok hrun]
      exact hstep.trans (h' value state')
  | error failure state' =>
      rw [hrun] at hstep
      rw [bind_error hrun]
      exact hstep

private theorem pure (value : α) : AddsNothing (Pure.pure value : Build α) :=
  .refl []

private theorem get : AddsNothing (MonadState.get : Build BuildState) :=
  .refl []

private theorem throw (failure : Failure) :
    AddsNothing (MonadExcept.throw failure : Build α) := .refl []

private theorem ofExcept (value : Except Defect α) :
    AddsNothing (Build.ofExcept value) := by
  cases value with
  | ok value => exact pure value
  | error defect => exact throw _

private theorem freshFunction : AddsNothing Build.freshFunction :=
  fun _ => ⟨rfl, rfl, fun _ => .inl⟩

private theorem freshTag : AddsNothing Build.freshTag :=
  fun _ => ⟨rfl, rfl, fun _ => .inl⟩

private theorem currentFunction : AddsNothing Build.currentFunction := by
  refine bind get fun state => ?_
  cases state.focus.function with
  | none => exact throw _
  | some node => exact pure node

/-- A change of the tree adds nothing if it adds no command. -/
private theorem modifyTree {change : BuildTree → BuildTree}
    (h : ∀ tree source, (change tree).Has source → tree.Has source) :
    AddsNothing (Build.modifyTree change) :=
  fun state =>
    ⟨rfl, rfl, fun source hsource => .inl (h state.tree source hsource)⟩

/-- Inserting a node without commands adds nothing. -/
private theorem insertNode (parent : Option NodeId) (name : String)
    {content : NodeContent} (h : content.sources = []) :
    AddsNothing (Build.insertNode parent name content) :=
  fun _ => ⟨rfl, rfl, fun _ hsource => .inl (hsource.of_insert h)⟩

/-- A change of a draft adds nothing if it keeps the commands. -/
private theorem modifyDraft (node : NodeId)
    {change : Draft → Except Defect Draft}
    (h : ∀ draft draft',
      change draft = .ok draft' → draft'.sources = draft.sources) :
    AddsNothing (Build.modifyDraft node change) := by
  intro state
  rcases modifyDraft_cases node change state with
    ⟨failure, hrun⟩ | ⟨draft, draft', hdraft, hchange, hrun⟩
  · rw [hrun]
    exact .refl [] state
  · rw [hrun]
    refine ⟨rfl, rfl,
      fun source hsource => .inl (hsource.of_setDraft.elim id fun hmem => ?_)⟩
    rw [h draft draft' hchange] at hmem
    exact BuildTree.has_of_draft? hdraft hmem

/-- Giving up a function adds no command to it. -/
private theorem discardDraft (node : NodeId) :
    AddsNothing (Build.discardDraft node) :=
  modifyDraft node fun draft draft' h => by cases h; rfl

/-- Closing a function adds no command to it. -/
private theorem closeDraft (node : NodeId) :
    AddsNothing (Build.modifyDraft node Draft.close) := by
  refine modifyDraft node fun draft draft' h => ?_
  unfold Draft.close at h
  split at h
  · cases h
    rfl
  · cases h

/-- Dissolving a node adds no command. -/
private theorem dissolve (node : NodeId) : AddsNothing (Watch.dissolve node) :=
  bind (discardDraft node) fun _ => modifyTree fun _ _ h => h.of_dissolve

/-- Naming a function adds no command to it. -/
private theorem rename (node : NodeId) (location : String) :
    AddsNothing (Watch.rename node location) :=
  bind (modifyDraft node fun draft draft' h => by cases h; rfl) fun _ =>
    modifyTree fun _ _ h => h.of_modify fun _ => rfl

/-- A tag has no commands. -/
private theorem addToTag (parent : NodeId) (location value : String) :
    AddsNothing (Build.addToTag parent location value) :=
  bind (insertNode _ _ rfl) fun _ => pure ()

private theorem addToTags (parent : NodeId) (value : String) :
    ∀ locations, AddsNothing (Build.addToTags parent value locations)
  | [] => pure ()
  | location :: rest =>
    bind (addToTag parent location value) fun _ => addToTags parent value rest

end AddsNothing

end Build

-- ============================================================== emissions

/-- Registering adds the one command, at the end. -/
private theorem Draft.sources_register {draft draft' : Draft}
    {context : ExecutionContext} {command : Command}
    (h : draft.register context command = .ok draft') :
    draft'.sources = draft.sources ++ [(context, command)] := by
  unfold register at h
  split at h
  · cases hwrapper : context.wrapperFrom draft.base with
    | error defect =>
        rw [hwrapper] at h
        cases h
    | ok wrapper =>
        rw [hwrapper] at h
        cases h
        rfl
  · cases h

namespace Build

/-- An emission adds one command to a function, or fails and adds none. -/
theorem account_emitUnder (context : ExecutionContext) (command : Command)
    (state seen : BuildState) :
    Moment.Account [.emission seen context] state
      (stateOf (emitUnder context command state)) := by
  unfold emitUnder currentFunction
  rw [bind_assoc, bind_get]
  cases state.focus.function with
  | none => exact .refl _ state
  | some node =>
      show Moment.Account _ state
        (stateOf
          (modifyDraft node (fun draft => draft.register context command)
            state))
      rcases modifyDraft_cases node
        (fun draft => draft.register context command) state with
        ⟨failure, hrun⟩ | ⟨draft, draft', hdraft, hregister, hrun⟩
      · rw [hrun]
        exact .refl _ state
      · rw [hrun]
        refine ⟨rfl, rfl, fun source hsource => ?_⟩
        rcases hsource.of_setDraft with hbefore | hmem
        · exact .inl hbefore
        · rw [Draft.sources_register hregister, List.mem_append,
            List.mem_singleton] at hmem
          rcases hmem with hbefore | rfl
          · exact .inl (BuildTree.has_of_draft? hdraft hbefore)
          · exact .inr ⟨seen, List.mem_singleton_self _⟩

/-- The step fails at once or emits a command under the current context. -/
def Emits (step : Build Unit) : Prop :=
  ∀ state, (∃ failure, step state = .error failure state)
    ∨ ∃ command, step state = emit command state

private theorem emits_emit (command : BuildState → Command) :
    Emits (do
      let state ← get
      emit (command state)) :=
  fun state => .inr ⟨command state, bind_get _ state⟩

/-- A call fails, or emits the call of what was found. -/
private theorem emits_call (component method : String) :
    Emits (call component method) := by
  intro state
  unfold call
  rw [bind_get]
  cases hres : state.calls.resolve state.currentComponent?
    (Name.snakeCase component) method with
  | error defect => exact .inl ⟨.defect defect, bind_ofExcept_error rfl⟩
  | ok target => exact .inr ⟨_, bind_ofExcept_ok rfl⟩

/-- Attaching and detaching fail, or emit the call of the entry point. -/
private theorem emits_onEntity (component : String)
    (location : String → String → String) :
    Emits (do
      let name ← instantiable component
      emit (.function (location (← get).space name))) := by
  intro state
  have hcases : (∃ failure, instantiable component state = .error failure state)
      ∨ ∃ name, instantiable component state = .ok name state := by
    unfold instantiable
    rw [bind_get]
    cases state.calls.component? (Name.snakeCase component) with
    | error defect => exact .inl ⟨_, bind_ofExcept_error rfl⟩
    | ok calls =>
        rw [bind_ofExcept_ok rfl]
        split
        · exact .inl ⟨_, rfl⟩
        · exact .inr ⟨_, rfl⟩
  rcases hcases with ⟨failure, hrun⟩ | ⟨name, hrun⟩
  · exact .inl ⟨failure, bind_error hrun⟩
  · exact .inr ⟨_, (bind_ok hrun).trans (bind_get _ state)⟩

end Build

/-- A statement that is no block emits one command or fails. -/
private theorem Statement.emits {statement : Statement}
    (hleaf : statement.isBlock = false) :
    Build.Emits statement.build := by
  cases statement with
  | execute clauses body => cases hleaf
  | function location =>
      rw [Statement.build]
      exact Build.emits_emit
        fun state => .function (Location.qualify state.space location)
  | functionTag location =>
      rw [Statement.build]
      exact Build.emits_emit
        fun state => .functionTag (Location.qualify state.space location)
  | invoke method =>
      intro state
      rw [Statement.build]
      unfold Build.invoke
      rw [Build.bind_get]
      -- outside of a component there is nobody to invoke a method of
      cases state.currentComponent? with
      | none => exact .inl ⟨_, rfl⟩
      | some component => exact Build.emits_call component method state
  | call component method =>
      rw [Statement.build]
      exact Build.emits_call component method
  | attach component =>
      rw [Statement.build]
      exact Build.emits_onEntity component Location.ofAttach
  | detach component =>
      rw [Statement.build]
      exact Build.emits_onEntity component Location.ofDetach
  | _ => exact fun state => .inr ⟨_, by rw [Statement.build]⟩

-- ============================================================ watched steps

namespace Build

private theorem stateOf_labelled (label : String) (step : Build Unit)
    (state : BuildState) :
    stateOf (labelled label step state) = stateOf (step state) := by
  cases hrun : step state with
  | ok value state' => exact congrArg stateOf (labelled_ok hrun)
  | error failure state' =>
      rw [labelled_error hrun]
      simp only [stateOf]

/-- What was in focus is put back, however the step ends. -/
private theorem stateOf_focused (kind : NodeKind) (node : NodeId)
    (step : Build Unit) (state : BuildState) :
    stateOf (focused kind node step state)
      = { stateOf (step
            { state with focus := state.focus.set kind (some node) }) with
          focus := (stateOf (step { state with
            focus := state.focus.set kind (some node) })).focus.set kind
              (state.focus.get? kind) } := by
  unfold focused
  cases step { state with focus := state.focus.set kind (some node) } <;> rfl

/-- The context is left again, however the step ends. -/
private theorem stateOf_withContext (context : ExecutionContext)
    (step : Build Unit) (state : BuildState) :
    stateOf (withContext context step state)
      = { stateOf (step
            { state with contexts := context :: state.contexts }) with
          contexts := (stateOf (step { state with
            contexts := context :: state.contexts })).contexts.tail } := by
  unfold withContext
  cases step { state with contexts := context :: state.contexts } <;> rfl

end Build

namespace Watch

variable {α β : Type}

/-- From any state, the moments of the step account for what it does. -/
def Notes (step : Watch α) : Prop :=
  ∀ state, Moment.Account (step.moments state) state
    (Build.stateOf (step.result state))

namespace Notes

private theorem quiet {step : Build α} (h : Build.AddsNothing step) :
    Notes (Watch.quiet step) := h

private theorem pure (value : α) : Notes (Pure.pure value : Watch α) :=
  quiet (.pure value)

private theorem note (moment : BuildState → Moment) :
    Notes (Watch.note moment) :=
  fun state => .refl _ state

/-- Two watched steps note what both add. -/
private theorem bind {step : Watch α} {next : α → Watch β} (h : Notes step)
    (h' : ∀ value, Notes (next value)) : Notes (step >>= next) := by
  intro state
  have hstep := h state
  show Moment.Account (step.moments state ++ _) state
    (Build.stateOf ((step.result >>= _) state))
  cases hrun : step.result state with
  | ok value state' =>
      rw [hrun] at hstep
      rw [Build.bind_ok hrun]
      exact hstep.trans (h' value state')
  | error failure state' =>
      rw [hrun] at hstep
      rw [Build.bind_error hrun]
      exact hstep.trans (.refl [] state')

/-- What was added before a failure that is caught was noted. -/
private theorem orElse {step : Watch Unit} {handler : Failure → Watch Unit}
    (h : Notes step) (h' : ∀ failure, Notes (handler failure)) :
    Notes (Watch.orElse step handler) := by
  intro state
  have hstep := h state
  show Moment.Account (step.moments state ++ _) state
    (Build.stateOf (Build.orElse step.result _ state))
  cases hrun : step.result state with
  | ok value state' =>
      rw [hrun] at hstep
      rw [Build.orElse_ok hrun]
      exact hstep.trans (.refl [] state')
  | error failure state' =>
      rw [hrun] at hstep
      rw [Build.orElse_error hrun]
      exact hstep.trans (h' failure state')

private theorem passing {step : Watch Unit} (h : Notes step) :
    Notes (Watch.passing step) :=
  fun state => (h state).trans (.refl _ _)

private theorem labelled (label : String) {step : Watch Unit} (h : Notes step) :
    Notes (Watch.labelled label step) := by
  intro state
  show Moment.Account _ state
    (Build.stateOf (Build.labelled label step.result state))
  rw [Build.stateOf_labelled]
  exact h state

/-- The node that was in focus is put back. -/
theorem focused (kind : NodeKind) (node : NodeId) {step : Watch Unit}
    (h : Notes step) :
    Notes (Watch.focused kind node step) := by
  intro state
  have hstep := h { state with focus := state.focus.set kind (some node) }
  show Moment.Account _ state
    (Build.stateOf (Build.focused kind node step.result state))
  rw [Build.stateOf_focused]
  refine ⟨?_, hstep.contexts, hstep.noted⟩
  dsimp only
  rw [hstep.focus]
  exact state.focus.set_set kind _

/-- The context is taken off again. -/
theorem withContext (context : ExecutionContext) {step : Watch Unit}
    (h : Notes step) :
    Notes (Watch.withContext context step) := by
  intro state
  have hstep := h { state with contexts := context :: state.contexts }
  show Moment.Account _ state
    (Build.stateOf (Build.withContext context step.result state))
  rw [Build.stateOf_withContext]
  refine ⟨hstep.focus, ?_, hstep.noted⟩
  dsimp only
  rw [hstep.contexts]
  rfl

private theorem iterate {step : Watch Unit} (h : Notes step) :
    ∀ times, Notes (Watch.iterate times step)
  | 0 => pure ()
  | times + 1 => bind h fun _ => iterate h times

-- =============================================================== emitting

/-- The command that is emitted is the one that is noted. -/
private theorem emitUnder (context : ExecutionContext) (command : Command) :
    Notes (Watch.emitUnder context command) :=
  fun state => Build.account_emitUnder context command state state

/-- A step that emits one command notes that one. -/
private theorem emitting {step : Build Unit} (h : Build.Emits step) :
    Notes (Watch.emitting step) := by
  intro state
  show Moment.Account [.emission state state.context] state
    (Build.stateOf (step state))
  rcases h state with ⟨failure, hrun⟩ | ⟨command, hrun⟩
  · rw [hrun]
    exact .refl _ state
  · rw [hrun]
    exact Build.account_emitUnder state.context command state state

private theorem emit (command : Command) : Notes (Watch.emit command) :=
  emitting fun _ => .inr ⟨command, rfl⟩

private theorem emitInside (clauses : List Clause) (command : Command) :
    Notes (Watch.emitInside clauses command) :=
  bind (quiet .get) fun _ => emitUnder _ command

private theorem emitAllUnder (context : ExecutionContext) :
    ∀ commands, Notes (Watch.emitAllUnder context commands)
  | [] => pure ()
  | command :: rest =>
    bind (emitUnder context command) fun _ => emitAllUnder context rest

-- ================================================================= blocks

/-- Writing a function notes what its body notes, and ending it adds
nothing. -/
private theorem writeFunction (node : NodeId) (context : ExecutionContext)
    {body : Watch Unit} (h : Notes body) :
    Notes (Watch.writeFunction node context body) := by
  refine bind
    (orElse (focused .function node (withContext context h)) fun failure => ?_)
    fun _ => quiet (.closeDraft node)
  exact quiet (.bind (.discardDraft node) fun _ => .throw failure)

private theorem function (parent : NodeId) (location : String)
    {body : Watch Unit} (h : Notes body) :
    Notes (Watch.function parent location body) :=
  bind (quiet (.insertNode _ _ rfl)) fun node => writeFunction node .empty h

/-- The single command of a block is emitted again, and noted again. -/
private theorem placeSources (node : NodeId) (context : ExecutionContext) :
    ∀ sources, Notes (Watch.placeSources node context sources)
  | [] => quiet (.dissolve node)
  | [(registered, command)] =>
    bind (quiet (.dissolve node)) fun _ => emitUnder registered command
  | _ :: _ :: _ =>
    bind (quiet .freshFunction) fun location =>
      bind (quiet (.rename node location))
        fun _ => emitUnder context (.function location)

/-- A block notes what its body notes, and the command that is moved. -/
private theorem block (context : ExecutionContext) {body : Watch Unit}
    (h : Notes body) :
    Notes (Watch.block context body) := by
  refine bind (quiet .get) fun state => ?_
  split
  · exact h
  · refine bind (quiet .currentFunction) fun parent => ?_
    refine bind (quiet (.insertNode _ _ rfl)) fun node => ?_
    refine bind (writeFunction node context h) fun _ => ?_
    refine bind (quiet .get) fun state => ?_
    exact bind (quiet (.ofExcept _))
      fun draft => placeSources node context draft.sources

private theorem execute (clauses : List Clause) {body : Watch Unit}
    (h : Notes body) :
    Notes (Watch.execute clauses body) :=
  passing (bind (quiet .get) fun _ => block _ h)

end Notes

end Watch

-- ================================================================== bodies

mutual

/-- Every statement notes what it adds. -/
private theorem Statement.notes : ∀ statement : Statement, statement.watch.Notes
  | .execute clauses body => by
      rw [Statement.watch]
      exact .execute clauses (Statement.notesAll body)
  | .run .. | .say .. | .log .. | .error .. | .addTag .. | .removeTag ..
  | .function .. | .functionTag .. | .invoke .. | .call .. | .attach ..
  | .detach .. => by
      rw [Statement.watch]
      · exact .emitting (Statement.emits rfl)
      all_goals exact fun _ _ h => by cases h

/-- So does a body of statements. -/
theorem Statement.notesAll : ∀ body : List Statement,
  (Statement.watchAll body).Notes
  | [] => by
      rw [Statement.watchAll]
      exact .pure ()
  | statement :: rest => by
      rw [Statement.watchAll]
      exact .bind statement.notes fun _ => Statement.notesAll rest

end

mutual

/-- Every action notes what it adds, also where it catches failures. -/
theorem Action.notes : ∀ action : Action, action.watch.Notes
  | .perform statement => by
      rw [Action.watch]
      exact statement.notes
  | .execute clauses body => by
      rw [Action.watch]
      exact .execute clauses (Action.notesAll body)
  | .inline clauses commands => by
      rw [Action.watch]
      exact .bind (.quiet .get) fun _ => .emitAllUnder _ commands
  | .direct command => by
      rw [Action.watch]
      exact .emit command
  | .freshTag emit => by
      rw [Action.watch]
      refine .bind (.quiet .freshTag) fun tag => ?_
      cases emit with
      | true => exact .emit _
      | false => exact .pure ()
  | .whoami => by
      rw [Action.watch]
      refine .emitting ?_
      rw [Action.build]
      exact Build.emits_emit _
  | .fail failure => by
      rw [Action.watch]
      exact .quiet (.throw failure)
  | .attempt body => by
      rw [Action.watch]
      refine .passing (.orElse (Action.notesAll body) fun failure => ?_)
      exact .bind (.note _) fun _ => .emit _
  | .labelled label body => by
      rw [Action.watch]
      exact .passing (.labelled label (Action.notesAll body))
  | .iterate times body => by
      rw [Action.watch]
      exact .passing (.iterate (Action.notesAll body) times)

/-- So does a body of actions. -/
theorem Action.notesAll : ∀ body : List Action, (Action.watchAll body).Notes
  | [] => by
      rw [Action.watchAll]
      exact .pure ()
  | action :: rest => by
      rw [Action.watchAll]
      exact .bind action.notes fun _ => Action.notesAll rest

end

-- ============================================================== components

namespace Watch.Notes

/-- A method notes what it adds, guarded or not. -/
private theorem methodBody (component : Component) (member : Member) :
    Notes (Watch.methodBody component member) := by
  unfold Watch.methodBody
  split
  · refine bind (quiet .freshTag)
      fun tag => bind (emitInside _ _) fun _ => execute _ ?_
    refine bind (emit _) fun _ => ?_
    exact bind (execute _ (Action.notesAll member.method.body)) fun _ => emit _
  · exact Action.notesAll member.method.body

private theorem method (parent : NodeId) (component : Component)
    (member : Member) :
    Notes (Watch.method parent component member) := by
  refine labelled _
    (bind (quiet (.insertNode _ _ rfl)) fun node => focused _ node ?_)
  exact bind (function node _ (methodBody component member))
    fun _ => quiet (.addToTags _ _ _)

private theorem methods (parent : NodeId) (component : Component) :
    ∀ members, Notes (Watch.methods parent component members)
  | [] => pure ()
  | member :: rest =>
    bind (method parent component member) fun _ => methods parent component rest

private theorem dispatcher (parent : NodeId) (component : Component)
    (members : List Member) (hook : Hook) :
    Notes (Watch.dispatcher parent component members hook) := by
  unfold Watch.dispatcher
  cases hook.gameTag? with
  | none => exact pure ()
  | some gameTag =>
      dsimp only
      split
      · refine bind (quiet .freshFunction) fun location => ?_
        exact bind (function parent location (emitInside _ _))
          fun _ => quiet (.addToTag _ _ _)
      · exact pure ()

private theorem dispatchers (parent : NodeId) (component : Component)
    (members : List Member) :
    ∀ hooks, Notes (Watch.dispatchers parent component members hooks)
  | [] => pure ()
  | hook :: rest =>
    bind (dispatcher parent component members hook) fun _ =>
      dispatchers parent component members rest

private theorem runHook (component : Component) (members : List Member)
    (hook : Hook) :
    Notes (Watch.runHook component members hook) := by
  unfold Watch.runHook
  split
  · exact emit _
  · exact pure ()

/-- The entry points note what they add. -/
private theorem entryPoints (node : NodeId) (component : Component)
    (members : List Member) :
    Notes (Watch.entryPoints node component members) := by
  unfold Watch.entryPoints
  split
  · exact pure ()
  · refine bind (dispatchers node component members Hook.all) fun _ => ?_
    refine bind (function node _ (execute _ ?_))
      fun _ => function node _ (execute _ ?_)
    · exact bind (emit _) fun _ => runHook component members .init
    · exact bind (runHook component members .destroy) fun _ => emit _

/-- A component notes what its methods and entry points add. -/
private theorem component (parent : NodeId) (component : Component)
    (members : List Member) :
    Notes (Watch.component parent component members) := by
  refine labelled _
    (bind (quiet (.insertNode _ _ rfl)) fun node => focused _ node ?_)
  exact bind (methods node component members)
    fun _ => entryPoints node component members

private theorem components (root : NodeId) :
    ∀ resolved, Notes (Watch.components root resolved)
  | [] => pure ()
  | (entry, members) :: rest =>
    bind (component root entry members) fun _ => components root rest

end Watch.Notes

/-- Nothing of a project is built between the moments. -/
theorem Project.notes_watchTree (project : Project)
    (resolved : List (Component × List Member)) :
    (project.watchTree resolved).Notes := by
  refine .bind (.quiet (.insertNode _ _ rfl)) fun root => ?_
  exact .bind (.focused .project root (.components root resolved))
    fun _ => .pure root

end Datapack
