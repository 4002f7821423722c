/-
Bodies perform their plans.

`Plan.Composed` lists the ways in which the plan of a body is put together.
Bodies come in two languages, statements and actions, and the functions
around a component are written with the same steps; what holds of every
body is therefore proved by one induction over `Composed`, and not over
each language again. The first such fact stands here: entries never leave
the context that they are written in (`Composed.inside`). A block needs it
of its body, since its single entry moves to the function around it.

`Action.performsAll` is what the module is for: running the actions of a
body does to the tree what their plan says.
-/
import Datapack.Proofs.Blocks

namespace Datapack

-- ============================================================== composing

/-- The command calls a function, or the functions of a tag. -/
def Command.isCall (command : Command) : Bool :=
  command.tokens.head? == some "function"

/-- Adding a tag calls nothing. -/
theorem Command.isCall_addTag (tag : String) :
    (Command.addTag tag).isCall = false := by
  simp [Command.isCall, Command.addTag]

/-- Removing a tag calls nothing. -/
theorem Command.isCall_removeTag (tag : String) :
    (Command.removeTag tag).isCall = false := by
  simp [Command.isCall, Command.removeTag]

private theorem Command.isCall_error (message : String) :
    (Command.error message).isCall = false := by
  simp [Command.isCall, Command.error, Command.announce]

/-- An entry that is neither a statement's nor a block's. What it calls by
a tag is one of `tags`, and marks call nothing. -/
def SheetEntry.Plain (tags : String → Prop) (entry : SheetEntry) : Prop :=
  match entry.cause with
  | .statement _ | .block => False
  | .hook => ∃ tag, tags tag ∧ entry.command = .functionTag tag
  | .mark => entry.command.isCall = false
  | .action => True

/-- The plan is put together from the steps of bodies, which call hooks by
`tags` only. -/
inductive Plan.Composed (tags : String → Prop) : Plan → Prop
  | done : Composed tags .done
  | fail (failure : Failure) : Composed tags (.fail failure)
  | leaf (statement : Statement) : Composed tags (.leaf statement)
  | enter {entries : Site → List SheetEntry}
      (h : ∀ site, ∀ entry ∈ entries site,
        site.context.clauses <+: entry.context.clauses ∧ entry.Plain tags) :
      Composed tags (.enter entries)
  | andThen {first second : Plan} :
      Composed tags first →
        Composed tags second → Composed tags (first.andThen second)
  | orElse {first : Plan} {handler : Failure → Plan} :
      Composed tags first → (∀ failure, Composed tags (handler failure)) →
        Composed tags (first.orElse handler)
  | labelled (label : String) {plan : Plan} :
      Composed tags plan → Composed tags (plan.labelled label)
  | withTag {plan : String → Plan} :
      (∀ tag, Composed tags (plan tag)) → Composed tags (.withTag plan)
  | block (clauses : List Clause) {body : Plan} :
      Composed tags body → Composed tags (.block clauses body)

variable {tags : String → Prop}

namespace Plan.Composed

/-- A single plain entry under further clauses. -/
theorem enterUnder (clauses : List Clause) {command : Site → Command}
    {cause : Cause}
    (h : ∀ site,
      SheetEntry.Plain tags ⟨site.context.enter clauses, command site, cause⟩) :
    Composed tags
      (.enter fun site =>
        [⟨site.context.enter clauses, command site, cause⟩]) :=
  .enter fun site entry hentry => by
    rw [List.mem_singleton] at hentry
    subst hentry
    exact ⟨site.context.prefix_enter clauses, h site⟩

/-- A single plain entry in the current context. -/
private theorem enterHere {command : Site → Command} {cause : Cause}
    (h : ∀ site, SheetEntry.Plain tags ⟨site.context, command site, cause⟩) :
    Composed tags (.enter fun site => [⟨site.context, command site, cause⟩]) :=
  .enter fun site entry hentry => by
    rw [List.mem_singleton] at hentry
    subst hentry
    exact ⟨List.prefix_refl _, h site⟩

private theorem emitAction (command : Command) :
    Composed tags (.emit .action command) :=
  enterHere fun _ => trivial

/-- A mark calls nothing, so it is plain. -/
theorem emitMark {command : Command} (h : command.isCall = false) :
    Composed tags (.emit .mark command) :=
  enterHere fun _ => h

private theorem iterate {plan : Plan} (h : Composed tags plan) :
    ∀ times, Composed tags (.iterate times plan)
  | 0 => .done
  | times + 1 => .andThen h (iterate h times)

end Plan.Composed

mutual

/-- The plan of a statement is composed, for whatever tags: statements do
not call hooks. -/
private theorem Statement.composed : ∀ statement : Statement,
  statement.plan.Composed tags
  | .execute clauses body => by
      rw [Statement.plan]
      exact .block clauses (Statement.composedAll body)
  | .run .. | .say .. | .log .. | .error .. | .addTag .. | .removeTag ..
  | .function .. | .functionTag .. | .invoke .. | .call .. | .attach ..
  | .detach .. => by
      rw [Statement.plan]
      · exact .leaf _
      all_goals exact fun _ _ h => by cases h

private theorem Statement.composedAll : ∀ body : List Statement,
  (Statement.planAll body).Composed tags
  | [] => by rw [Statement.planAll]; exact .done
  | statement :: rest => by
      rw [Statement.planAll]
      exact .andThen statement.composed (Statement.composedAll rest)

end

mutual

/-- The plan of an action is composed, for whatever tags. The failures that
it catches are those of its own body. -/
theorem Action.composed : ∀ action : Action, action.plan.Composed tags
  | .perform statement => by rw [Action.plan]; exact statement.composed
  | .execute clauses body => by
      rw [Action.plan]; exact .block clauses (Action.composedAll body)
  | .inline clauses commands => by
      rw [Action.plan]
      exact .enter fun site entry h => by
        obtain ⟨command, -, rfl⟩ := List.mem_map.mp h
        exact ⟨site.context.prefix_enter clauses, trivial⟩
  | .direct command => by rw [Action.plan]; exact .emitAction command
  | .freshTag emit => by
      rw [Action.plan]
      refine .withTag fun tag => ?_
      cases emit with
      | true => exact .emitAction _
      | false => exact .done
  | .whoami => by
      rw [Action.plan]
      exact .enterHere fun _ => trivial
  | .fail failure => by rw [Action.plan]; exact .fail failure
  | .attempt body => by
      rw [Action.plan]
      exact .orElse (Action.composedAll body) fun failure => .emitAction _
  | .labelled label body => by
      rw [Action.plan]; exact .labelled label (Action.composedAll body)
  | .iterate times body => by
      rw [Action.plan]; exact .iterate (Action.composedAll body) times

/-- So is the plan of a body of actions. -/
theorem Action.composedAll : ∀ body : List Action,
  (Action.planAll body).Composed tags
  | [] => by rw [Action.planAll]; exact .done
  | action :: rest => by
      rw [Action.planAll]
      exact .andThen action.composed (Action.composedAll rest)

end

namespace Plan

/-- The lines of a guard are marks, around a body that is composed. -/
private theorem Composed.guarded (component key : String) {body : Plan}
    (h : body.Composed tags) :
    (Plan.guarded component key body).Composed tags := by
  refine .withTag fun tag => .andThen ?_ (.block _ ?_)
  · exact .enterUnder _ fun _ => Command.isCall_error _
  · exact .andThen (.emitMark (Command.isCall_addTag tag))
      (.andThen (.block _ h) (.emitMark (Command.isCall_removeTag tag)))

/-- The body of a method is composed, guarded or not. -/
theorem composed_methodBody (component : Component) (member : Member) :
    (methodBody component member).Composed tags := by
  unfold methodBody
  split
  · exact .guarded _ _ (Action.composedAll _)
  · exact Action.composedAll _

/-- The methods of a hook are called by its tag, if there are any. -/
theorem composed_runHook {component : Component} {members : List Member}
    {moment : Hook} (h : Build.anyHooked members moment = true →
      tags (Location.callbackTag component.space moment component.name)) :
    (runHook component members moment).Composed tags := by
  unfold runHook
  split
  · next hany => exact .enterHere fun _ => ⟨_, h hany, rfl⟩
  · exact .done

/-- The function that attaches calls the hooks by their tags and is
composed otherwise of marks. -/
theorem composed_attachBody {component : Component} {members : List Member}
    (h : ∀ moment, Build.anyHooked members moment = true →
      tags (Location.callbackTag component.space moment component.name)) :
    (attachBody component members).Composed tags :=
  .andThen (.emitMark (Command.isCall_addTag _)) (composed_runHook (h .init))

/-- The function that detaches is composed in the same way. -/
theorem composed_detachBody {component : Component} {members : List Member}
    (h : ∀ moment, Build.anyHooked members moment = true →
      tags (Location.callbackTag component.space moment component.name)) :
    (detachBody component members).Composed tags :=
  .andThen (composed_runHook (h .destroy))
    (.emitMark (Command.isCall_removeTag _))

-- ================================================================= inside

/-- The plan writes no entry outside the current context. -/
def Inside (plan : Plan) : Prop :=
  ∀ site, ∀ entry ∈ (plan site).written.entries,
    site.context.clauses <+: entry.context.clauses

/-- Composed plans stay inside the context they start in. The induction is
over the way they were composed; only a block opens a new context, and it
extends the old one. -/
theorem Composed.inside {plan : Plan} (h : plan.Composed tags) :
    plan.Inside := by
  induction h with
  | done => exact fun site entry h => by cases h
  | fail failure => exact fun site entry h => by cases h
  | enter h => exact fun site entry hentry => (h site entry hentry).1
  | leaf statement =>
      intro site entry hentry
      unfold Plan.leaf at hentry
      split at hentry
      · obtain rfl := List.mem_singleton.mp hentry
        exact List.prefix_refl _
      · cases hentry
  | @andThen first second _ _ ih ih' =>
      intro site entry hentry
      rcases andThen_cases first second site with ⟨_, -, h⟩ | ⟨-, h⟩
      · exact ih site entry (h ▸ hentry)
      · rw [h, Written.entries_append, List.mem_append] at hentry
        rcases hentry with hentry | hentry
        · exact ih site entry hentry
        · exact ih' (site.after _) entry hentry
  | @orElse first handler _ _ ih ih' =>
      intro site entry hentry
      rcases orElse_cases first handler site with ⟨-, h⟩ | ⟨failure, -, h⟩
      · exact ih site entry (h ▸ hentry)
      · rw [h, Written.entries_append, List.mem_append] at hentry
        rcases hentry with hentry | hentry
        · exact ih site entry hentry
        · exact ih' failure (site.after _) entry hentry
  | labelled label _ ih =>
      intro site entry hentry
      rw [labelled_written] at hentry
      exact ih site entry hentry
  | withTag _ ih =>
      exact fun site entry hentry =>
        ih _ (site.after { tags := 1 }) entry hentry
  | block clauses _ ih =>
      intro site entry hentry
      -- a block extends the context, and its call is entered in the context
      -- of the block
      have hc := site.context.prefix_enter clauses
      rcases block_cases clauses _ site with h | ⟨failure, -, h⟩ | ⟨-, -, h⟩
      · rw [h] at hentry
        exact hc.trans
          (ih { site with context := site.context.enter clauses } entry hentry)
      · rw [h] at hentry
        cases hentry
      · rw [h] at hentry
        rw [List.mem_singleton.mp hentry]
        exact hc

end Plan

/-- Statements stay inside the context of their body. -/
theorem Statement.inside (body : List Statement) :
    (Statement.planAll body).Inside :=
  (Statement.composedAll body : Plan.Composed (fun _ => True) _).inside

/-- Actions stay inside the context of their body. -/
theorem Action.inside (body : List Action) : (Action.planAll body).Inside :=
  (Action.composedAll body : Plan.Composed (fun _ => True) _).inside

-- ============================================================= performing

/-- A block performs its plan if its body does and stays inside. -/
theorem Performs.execute {body : Build Unit} {plan : Plan}
    (h : Performs Writing (fun _ => body) plan) (hin : plan.Inside)
    (clauses : List Clause) :
    Performs Writing (fun _ => Build.execute clauses body)
      (.block clauses plan) := by
  intro site state id hw
  show ∃ state', Build.execute clauses body state = _ ∧ _
  unfold Build.execute Build.block Plan.block
  rw [Build.bind_get, Build.bind_get, hw.context]
  dsimp only
  -- clauses that add nothing open no block
  by_cases hsame : site.context.enter clauses = site.context
  · rw [if_pos hsame, if_pos hsame, hsame]
    exact h hw
  · rw [if_neg hsame, if_neg hsame]
    have hfocus : Build.currentFunction state = .ok id state := by
      unfold Build.currentFunction
      rw [Build.bind_get, hw.focus]
      rfl
    rw [Build.bind_ok hfocus]
    obtain ⟨tree, hrun, hgains⟩ :=
      writeFunction_runs hw.toPlaced h "scope" none (site.context.enter clauses)
    have hinner := hin { site with context := site.context.enter clauses }
    generalize plan
      { site with context := site.context.enter clauses } = inner at *
    obtain ⟨written, result⟩ := inner
    cases result with
    | error failure =>
        refine ⟨state.advance tree written, ?_,
          (hgains.grows written.functions written.tags).advance⟩
        exact (Build.bind_ok rfl).trans (Build.bind_error hrun)
    | ok value =>
        -- the commands of the block lie inside its context, so a single one
        -- can move to the function around
        obtain ⟨state', hplace, hgrow⟩ :=
          placeBlock_runs hw (site.context.prefix_enter clauses) hinner hgains
        refine ⟨state', ?_, ?_⟩
        · rw [apply_ite Outcome.result, ite_self]
          exact (Build.bind_ok rfl).trans ((Build.bind_ok hrun).trans hplace)
        · rw [apply_ite Outcome.written]
          exact hgrow

mutual

/-- Running a statement does to the tree what its plan says. -/
theorem Statement.performs :
    ∀ statement : Statement,
      Performs Writing (fun _ => statement.build) statement.plan
  | .execute clauses body => by
      rw [Statement.plan, Statement.build]
      exact (Statement.performsAll body).execute (Statement.inside body) clauses
  | .run .. | .say .. | .log .. | .error .. | .addTag .. | .removeTag ..
  | .function .. | .functionTag .. | .invoke .. | .call .. | .attach ..
  | .detach .. => by
      rw [Statement.plan]
      · exact Statement.performs_leaf rfl
      all_goals exact fun _ _ h => by cases h

/-- So does running the statements of a body in order. -/
theorem Statement.performsAll : ∀ body : List Statement,
    Performs Writing (fun _ => Statement.buildAll body) (Statement.planAll body)
  | [] => by
      rw [Statement.planAll, Statement.buildAll]
      exact .done
  | statement :: rest => by
      rw [Statement.planAll, Statement.buildAll]
      exact .andThen Writing.stable statement.performs
        (Statement.performsAll rest)

end

mutual

/-- Running an action does to the tree what its plan says. -/
theorem Action.performs :
    ∀ action : Action, Performs Writing (fun _ => action.build) action.plan
  | .perform statement => by
      rw [Action.plan, Action.build]
      exact statement.performs
  | .execute clauses body => by
      rw [Action.plan, Action.build]
      exact (Action.performsAll body).execute (Action.inside body) clauses
  | .inline clauses commands => by
      rw [Action.plan, Action.build]
      exact .emitAllInside clauses commands .action
  | .direct command => by
      rw [Action.plan, Action.build]
      exact .emit command .action
  | .freshTag emit => by
      rw [Action.plan, Action.build]
      refine .withTag Writing.stable (fun h => h.describes) fun tag => ?_
      cases emit with
      | true => exact .emit (.addTag tag) .action
      | false => exact .done
  | .whoami => by
      rw [Action.plan, Action.build]
      intro site state id hw
      -- the component in focus is the one that the site has
      show ∃ state', (do
        let state ← get
        let name := state.currentComponent?.getD "nobody"
        Build.emit (.say s!"{name} in {state.space}") : Build Unit) state = _
          ∧ _
      rw [Build.bind_get, hw.currentComponent?, hw.describes.space]
      exact Performs.emit _ .action hw
  | .fail failure => by
      rw [Action.plan, Action.build]
      exact .fail failure
  | .attempt body => by
      rw [Action.plan, Action.build]
      exact .orElse Writing.stable (Action.performsAll body)
        fun failure => .emit _ .action
  | .labelled label body => by
      rw [Action.plan, Action.build]
      exact .labelled label (Action.performsAll body)
  | .iterate times body => by
      rw [Action.plan, Action.build]
      exact .iterate Writing.stable (Action.performsAll body) times

/-- So does running the actions of a body in order. -/
theorem Action.performsAll : ∀ body : List Action,
    Performs Writing (fun _ => Action.buildAll body) (Action.planAll body)
  | [] => by
      rw [Action.planAll, Action.buildAll]
      exact .done
  | action :: rest => by
      rw [Action.planAll, Action.buildAll]
      exact .andThen Writing.stable action.performs (Action.performsAll rest)

end

/-- The body of a method performs its plan, guarded or not. -/
theorem performs_methodBody (component : Component) (member : Member) :
    Performs Writing (fun _ => Build.methodBody component member)
      (.methodBody component member) := by
  have hbody := Action.performsAll member.method.body
  have hcomposed : Plan.Composed (fun _ => True) _ :=
    Action.composedAll member.method.body
  unfold Build.methodBody Plan.methodBody
  by_cases hguard : member.method.guarded = true
  · simp only [hguard, if_true]
    refine .withTag Writing.stable (fun h => h.describes) fun tag => ?_
    refine .andThen Writing.stable (.emitInside _ _ .mark) ?_
    have hinner : Plan.Composed (fun _ => True) _ :=
      .andThen (.emitMark (Command.isCall_addTag tag))
        (.andThen (.block [⟨["as", s!"@e[tag={tag}]"]⟩] hcomposed)
          (.emitMark (Command.isCall_removeTag tag)))
    refine .execute ?_ hinner.inside _
    exact .andThen Writing.stable (.emit _ .mark)
      (.andThen Writing.stable (hbody.execute hcomposed.inside _)
        (.emit _ .mark))
  · simp only [hguard]
    exact hbody

end Datapack
