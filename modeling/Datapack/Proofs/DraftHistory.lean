/-
A function over the calls made of it while it is written.

There are three calls. One registers a command under its context, one
closes the function, and one gives it up. They are steps of a build, made
of the function of a node, and a step leaves a state behind even if it
fails. That a refused call changes nothing is therefore something to be
shown.

A `History` is a build together with its record, the calls that have
succeeded. What one call can come to is said once (`Call.Effect`). It
follows from this that the record has a simple form (`Kept`): first the
commands that were registered, in their order, and behind them how the
function ended (`Ending`). What became of the function, and whether the
pack has it, is read off the record. A closed or discarded function never
opens again, since no effect opens one (`Follows`).
-/
import Datapack.Proofs.Emission
import Mathlib.Data.List.Basic

namespace Datapack

namespace Draft

-- ================================================================== calls

/-- What can be asked of a function while it is written. -/
inductive Call where
  | register (context : ExecutionContext) (command : Command)
  | close
  | discard

/-- The command as it stands in a function, under those clauses of its
context that the function is not called in. -/
def line (base : ExecutionContext) (source : ExecutionContext × Command) :
    Command :=
  source.2.behind (Clause.wrapper (source.1.clauses.drop base.length))

namespace Call

/-- The call, made of the function of a node. -/
def step (id : NodeId) : Call → Build Unit
  | register context command =>
    Build.modifyDraft id fun draft => draft.register context command
  | close => Build.modifyDraft id Draft.close
  | discard => Build.discardDraft id

/-- What the call makes of a draft. -/
def change : Call → Draft → Except Defect Draft
  | register context command, draft => draft.register context command
  | close, draft => draft.close
  | discard, draft => .ok draft.discard

/-- A call changes the draft of its node and nothing else. -/
private theorem step_eq (id : Nat) (call : Call) :
    call.step id = Build.modifyDraft id call.change := by
  cases call <;> rfl

/-- The call is refused with a failure. -/
inductive Refused (draft : Draft) : Call → Failure → Prop
  | late {call : Call} : draft.isOpen = false → call ≠ .discard →
      Refused draft call (.defect (.closedFunction draft.label))
  | detached {context : ExecutionContext} {command : Command} :
      draft.isOpen = true → ¬draft.base.clauses <+: context.clauses →
      Refused draft (.register context command) (.defect (.detachedContext
        (context.clauses.map Clause.tokens)
        (draft.base.clauses.map Clause.tokens)))

/-- What a call comes to. -/
inductive Effect (draft : Draft) : Call → Except Defect Draft → Prop
  | refused {call : Call} {defect : Defect} :
      Refused draft call (.defect defect) → Effect draft call (.error defect)
  | registered {context : ExecutionContext} {command : Command} :
      draft.isOpen = true → draft.base.clauses <+: context.clauses →
      Effect draft (.register context command) (.ok { draft with
        commands := draft.commands ++ [line draft.base (context, command)]
        sources := draft.sources ++ [(context, command)] })
  | closed :
      draft.isOpen = true →
        Effect draft .close (.ok { draft with stage := .closed })
  | discarded : Effect draft .discard (.ok { draft with stage := .discarded })

/-- What a call makes of a draft is an effect of the call. -/
private theorem effect_change (call : Call) (draft : Draft) :
    Effect draft call (call.change draft) := by
  cases call with
  | register context command =>
      show Effect draft _ (draft.register context command)
      unfold Draft.register
      cases hopen : draft.isOpen with
      | false => exact .refused (.late hopen Call.noConfusion)
      | true =>
          rw [if_pos rfl]
          by_cases hinside : draft.base.clauses <+: context.clauses
          · rw [ExecutionContext.wrapperFrom_of_prefix hinside]
            exact .registered hopen hinside
          · rw [ExecutionContext.wrapperFrom_of_not_prefix hinside]
            exact .refused (.detached hopen hinside)
  | close =>
      show Effect draft _ draft.close
      unfold Draft.close
      cases hopen : draft.isOpen with
      | false => exact .refused (.late hopen Call.noConfusion)
      | true => exact .closed hopen
  | discard => exact .discarded

/-- A call is refused for one reason. -/
private theorem Refused.unique {draft : Draft} {call : Call}
    {failure failure' : Failure} (h : Refused draft call failure)
    (h' : Refused draft call failure') : failure = failure' := by
  cases h with
  | late hclosed _ =>
      cases h' with
      | late _ _ => rfl
      | detached hopen _ =>
          rw [hclosed] at hopen
          cases hopen
  | detached hopen _ =>
      cases h' with
      | late hclosed _ =>
          rw [hopen] at hclosed
          cases hclosed
      | detached _ _ => rfl

/-- A call that is refused has no draft to leave. -/
private theorem Refused.not_effect {draft draft' : Draft} {call : Call}
    {failure : Failure} (h : Refused draft call failure) :
    ¬Effect draft call (.ok draft') := by
  intro heffect
  cases h with
  | late hclosed hdiscard =>
      cases heffect with
      | registered hopen _ =>
          rw [hclosed] at hopen
          cases hopen
      | closed hopen =>
          rw [hclosed] at hopen
          cases hopen
      | discarded => exact hdiscard rfl
  | detached _ hdetached =>
      cases heffect with
      | registered _ hinside => exact hdetached hinside

/-- A call of the function that a node holds, with what is left of the
build. -/
theorem step_cases {state : BuildState} {id : Nat} {draft : Draft}
    (h : state.tree.draft? id = .ok draft) (call : Call) :
    (∃ failure,
      Refused draft call failure ∧ call.step id state = .error failure state)
      ∨ ∃ draft', Effect draft call (.ok draft')
        ∧ call.step id state
          = .ok () { state with tree := state.tree.setDraft id draft' } := by
  have heffect := call.effect_change draft
  cases hchange : call.change draft with
  | error defect =>
      rw [hchange] at heffect
      cases heffect with
      | refused hrefused =>
          refine .inl ⟨.defect defect, hrefused, ?_⟩
          rw [step_eq]
          unfold Build.modifyDraft
          rw [Build.bind_get, Build.bind_ofExcept_ok h,
            Build.bind_ofExcept_error hchange]
  | ok draft' =>
      rw [hchange] at heffect
      rw [step_eq]
      exact .inr ⟨draft', heffect, Build.modifyDraft_apply h hchange⟩

/-- Which calls fail, and that these leave the build as it was. -/
theorem step_eq_error_iff {state left : BuildState} {id : Nat} {draft : Draft}
    {call : Call} {failure : Failure} (h : state.tree.draft? id = .ok draft) :
    call.step id state = .error failure left ↔ Refused draft call failure
      ∧ left = state := by
  rcases call.step_cases h with ⟨failure', hrefused, hstep⟩
    | ⟨draft', heffect, hstep⟩
  · rw [hstep]
    constructor
    · intro heq
      cases heq
      exact ⟨hrefused, rfl⟩
    · rintro ⟨hrefused', rfl⟩
      rw [hrefused.unique hrefused']
  · rw [hstep]
    constructor
    · intro heq
      cases heq
    · rintro ⟨hrefused, -⟩
      exact absurd heffect hrefused.not_effect

end Call

-- ============================================================== following

/-- The second draft comes of the first by some calls. -/
structure Follows (draft draft' : Draft) : Prop where
  commands : draft.commands <+: draft'.commands
  sources : draft.sources <+: draft'.sources
  finished : draft.isOpen = false →
    draft'.isOpen = false ∧ draft'.commands = draft.commands

namespace Follows

variable {draft draft' draft'' : Draft}

private theorem refl (draft : Draft) : draft.Follows draft :=
  ⟨List.prefix_rfl, List.prefix_rfl, fun hclosed => ⟨hclosed, rfl⟩⟩

private theorem trans (h : draft.Follows draft') (h' : draft'.Follows draft'') :
    draft.Follows draft'' := by
  refine ⟨h.commands.trans h'.commands, h.sources.trans h'.sources,
    fun hclosed => ?_⟩
  obtain ⟨hclosed', hsame⟩ := h.finished hclosed
  obtain ⟨hclosed'', hsame'⟩ := h'.finished hclosed'
  exact ⟨hclosed'', hsame'.trans hsame⟩

/-- A single call leads to a draft that follows. -/
private theorem of_effect {call : Call}
    (h : Call.Effect draft call (.ok draft')) :
    draft.Follows draft' := by
  cases h with
  | registered hopen _ =>
      refine ⟨List.prefix_append .., List.prefix_append .., fun hclosed => ?_⟩
      rw [hopen] at hclosed
      cases hclosed
  | closed _ => exact ⟨List.prefix_rfl, List.prefix_rfl, fun _ => ⟨rfl, rfl⟩⟩
  | discarded => exact ⟨List.prefix_rfl, List.prefix_rfl, fun _ => ⟨rfl, rfl⟩⟩

end Follows

-- ================================================================ records

/-- The commands that are registered by calls. -/
def registered (record : List Call) : List (ExecutionContext × Command) :=
  record.filterMap fun
    | .register context command => some (context, command)
    | _ => none

/-- The calls that register commands. -/
def registering (sources : List (ExecutionContext × Command)) : List Call :=
  sources.map fun source => .register source.1 source.2

/-- The commands are read back from the calls that register them. -/
private theorem registered_registering
    (sources : List (ExecutionContext × Command)) :
    registered (registering sources) = sources := by
  unfold registered registering
  rw [List.filterMap_map]
  exact List.filterMap_some

private theorem register_of_mem_registering
    {sources : List (ExecutionContext × Command)} {call : Call}
      (h : call ∈ registering sources) :
        ∃ context command, call = .register context command := by
  obtain ⟨source, -, rfl⟩ := List.mem_map.1 h
  exact ⟨source.1, source.2, rfl⟩

/-- Registering does not close a function. -/
private theorem close_notMem_registering
    (sources : List (ExecutionContext × Command)) :
    .close ∉ registering sources := by
  intro h
  obtain ⟨_, _, heq⟩ := register_of_mem_registering h
  cases heq

/-- Registering does not give a function up. -/
private theorem discard_notMem_registering
    (sources : List (ExecutionContext × Command)) :
    .discard ∉ registering sources := by
  intro h
  obtain ⟨_, _, heq⟩ := register_of_mem_registering h
  cases heq

/-- How the record of a draft ends. -/
def Ending : Stage → List Call → Prop
  | .opened, ending => ending = []
  | .closed, ending => ending = [.close]
  | .discarded, ending =>
    .discard ∈ ending ∧ ∀ call ∈ ending, call = .close ∨ call = .discard

/-- After the last command there are only calls that end the function. -/
private theorem Ending.close_or_discard {stage : Stage} {ending : List Call}
    (h : Ending stage ending) :
    ∀ call ∈ ending, call = .close ∨ call = .discard := by
  cases stage with
  | opened =>
      rw [show ending = [] from h]
      exact List.forall_mem_nil _
  | closed =>
      rw [show ending = [.close] from h, List.forall_mem_singleton]
      exact .inl rfl
  | discarded => exact h.2

/-- The record accounts for the draft. -/
structure Kept (location : Option String) (base : ExecutionContext)
    (record : List Call) (draft : Draft) : Prop where
  location_eq : draft.location = location
  base_eq : draft.base = base
  commands_eq : draft.commands = draft.sources.map (line base)
  inside : ∀ source ∈ draft.sources, base.clauses <+: source.1.clauses
  ended : ∃ ending,
    Ending draft.stage ending ∧ record = registering draft.sources ++ ending

namespace Kept

variable {location : Option String} {base : ExecutionContext}
  {record : List Call} {draft draft' : Draft}

/-- A new draft has an empty record. -/
private theorem start (location : Option String) (base : ExecutionContext) :
    Kept location base [] { location := location, base := base } where
  location_eq := rfl
  base_eq := rfl
  commands_eq := rfl
  inside := List.forall_mem_nil _
  ended := ⟨[], rfl, rfl⟩

/-- As long as the draft is open, all there is on record are its commands. -/
theorem record_of_isOpen (h : Kept location base record draft)
    (hopen : draft.isOpen = true) :
    draft.stage = .opened ∧ record = registering draft.sources := by
  have hstage : draft.stage = .opened := of_decide_eq_true hopen
  obtain ⟨ending, hending, hrecord⟩ := h.ended
  rw [hstage] at hending
  rw [show ending = [] from hending, List.append_nil] at hrecord
  exact ⟨hstage, hrecord⟩

/-- A call that succeeds goes to the end of the record. A closed draft
takes no command, so those in the record stay in front. -/
private theorem next (h : Kept location base record draft) {call : Call}
    (heffect : Call.Effect draft call (.ok draft')) :
    Kept location base (record ++ [call]) draft' := by
  cases heffect with
  | @registered context command hopen hinside =>
      obtain ⟨hstage, hrecord⟩ := h.record_of_isOpen hopen
      refine ⟨h.location_eq, h.base_eq, ?_, fun source hsource => ?_,
        [], ?_, ?_⟩
      · show draft.commands ++ [line draft.base (context, command)] = _
        rw [h.commands_eq, h.base_eq, List.map_append]
        rfl
      · rcases List.mem_append.1 hsource with hold | hnew
        · exact h.inside source hold
        · rw [List.mem_singleton.1 hnew, ← h.base_eq]
          exact hinside
      · show Ending draft.stage []
        rw [hstage]
        rfl
      · rw [hrecord, List.append_nil]
        unfold registering
        rw [List.map_append]
        rfl
  | closed hopen =>
      obtain ⟨-, hrecord⟩ := h.record_of_isOpen hopen
      exact ⟨h.location_eq, h.base_eq, h.commands_eq, h.inside, [.close],
        rfl, by rw [hrecord]⟩
  | discarded =>
      -- a function can be given up at any time, also after it was closed
      obtain ⟨ending, hending, hrecord⟩ := h.ended
      refine ⟨h.location_eq, h.base_eq, h.commands_eq, h.inside,
        ending ++ [.discard], ?_, ?_⟩
      · refine ⟨List.mem_append_right _ (List.mem_singleton_self _),
          fun call hcall => ?_⟩
        rcases List.mem_append.1 hcall with hold | hnew
        · exact hending.close_or_discard call hold
        · exact .inr (List.mem_singleton.1 hnew)
      · rw [hrecord, List.append_assoc]

/-- A command and its line stand at the same place. -/
theorem getElem?_commands (h : Kept location base record draft) {i : Nat}
    {context : ExecutionContext} {command : Command}
    (hsource : draft.sources[i]? = some (context, command)) :
    ∃ rest, context.clauses = base.clauses ++ rest
      ∧ draft.commands[i]? = some (command.behind (Clause.wrapper rest)) := by
  obtain ⟨rest, hrest⟩ :=
    h.inside (context, command) (List.mem_of_getElem? hsource)
  refine ⟨rest, hrest.symm, ?_⟩
  rw [h.commands_eq, List.getElem?_map, hsource, Option.map_some]
  unfold line ExecutionContext.length
  rw [← hrest, List.drop_left]

/-- The record of a closed function: its commands in their order, and the
call that closed it. -/
private theorem record_of_closed (h : Kept location base record draft)
    (hstage : draft.stage = .closed) :
    record = registering draft.sources ++ [.close] := by
  obtain ⟨ending, hending, hrecord⟩ := h.ended
  rw [hstage] at hending
  rwa [show ending = [.close] from hending] at hrecord

/-- A draft is closed if that is on record, and that it was given up is
not. -/
theorem closed_iff (h : Kept location base record draft) :
    draft.stage = .closed ↔ .close ∈ record ∧ .discard ∉ record := by
  constructor
  · intro hstage
    rw [h.record_of_closed hstage]
    refine ⟨List.mem_append_right _ (List.mem_singleton_self _), fun hmem => ?_⟩
    rcases List.mem_append.1 hmem with hmem | hmem
    · exact discard_notMem_registering _ hmem
    · cases List.mem_singleton.1 hmem
  · rintro ⟨hclose, hdiscard⟩
    obtain ⟨ending, hending, hrecord⟩ := h.ended
    rw [hrecord, List.mem_append] at hclose hdiscard
    have hended : .close ∈ ending :=
      hclose.resolve_left (close_notMem_registering _)
    cases hstage : draft.stage with
    | opened =>
        rw [hstage] at hending
        rw [show ending = [] from hending] at hended
        cases hended
    | closed => rfl
    | discarded =>
        rw [hstage] at hending
        exact absurd (.inr hending.1) hdiscard

/-- The pack gets the function if it has a location, was closed and was not
given up. It has the commands that were registered until it was closed. -/
theorem artifact?_eq_some_iff (h : Kept location base record draft)
    {function : PackFunction} :
    draft.artifact? = some function ↔ ∃ place before later,
      location = some place
        ∧ record = before ++ .close :: later ∧ .discard ∉ record
        ∧ function = ⟨place, (registered before).map fun source =>
            (line base source).render⟩ := by
  have hlines : draft.commands.map Command.render
      = draft.sources.map fun source => (line base source).render := by
    rw [h.commands_eq, List.map_map]
    rfl
  unfold artifact?
  rw [h.location_eq, hlines]
  by_cases hstage : draft.stage = .closed
  · have hrecord := h.record_of_closed hstage
    rw [if_pos hstage, Option.map_eq_some_iff]
    constructor
    · rintro ⟨place, hplace, rfl⟩
      refine ⟨place, registering draft.sources, [], hplace, hrecord,
        (h.closed_iff.1 hstage).2, ?_⟩
      rw [registered_registering]
    · rintro ⟨place, before, later, hplace, hsplit, -, rfl⟩
      -- nothing else on record is a close, so the record is cut where the
      -- commands end
      obtain ⟨hbefore, -, -⟩ := (List.append_cons_inj_of_notMem
        (close_notMem_registering draft.sources) List.not_mem_nil).1
        (hrecord.symm.trans hsplit)
      refine ⟨place, hplace, ?_⟩
      rw [← hbefore, registered_registering]
  · rw [if_neg hstage]
    constructor
    · intro heq
      cases heq
    · rintro ⟨place, before, later, -, hsplit, hdiscard, -⟩
      refine absurd (h.closed_iff.2 ⟨?_, hdiscard⟩) hstage
      rw [hsplit]
      exact List.mem_append_right _ List.mem_cons_self

end Kept

-- ============================================================== histories

/-- A build, and the calls that have succeeded, the earliest first. -/
structure History where
  state : BuildState
  record : List Call

namespace History

variable {id : Nat} {location : Option String} {base : ExecutionContext}
  {history : History} {draft : Draft}

/-- A call goes on the record if it succeeds. The build is what the call
leaves, and it leaves one even if it fails. -/
def next (id : NodeId) (history : History) (call : Call) : History :=
  match call.step id history.state with
  | .ok _ state => ⟨state, history.record ++ [call]⟩
  | .error _ state => ⟨state, history.record⟩

/-- What there is after further calls, made one after the other. -/
def after (id : NodeId) (history : History) (calls : List Call) : History :=
  calls.foldl (next id) history

/-- What one call does to the function, and to the record. -/
theorem exists_next (hdraft : history.state.tree.draft? id = .ok draft)
    (hkept : Kept location base history.record draft) (call : Call) :
    ∃ draft', (history.next id call).state.tree.draft? id = .ok draft'
      ∧ draft.Follows draft'
      ∧ Kept location base (history.next id call).record draft'
      ∧ (.discard ∈ (history.next id call).record
          ↔ .discard ∈ history.record ∨ call = .discard) := by
  unfold next
  rcases call.step_cases hdraft with ⟨failure, hrefused, hstep⟩
    | ⟨draft', heffect, hstep⟩
  · rw [hstep]
    refine ⟨draft, hdraft, .refl draft, hkept, Iff.intro .inl fun hcall => ?_⟩
    rcases hcall with hcall | rfl
    · exact hcall
    · exact absurd .discarded hrefused.not_effect
  · rw [hstep]
    refine ⟨draft', BuildTree.draft?_setDraft hdraft draft', .of_effect heffect,
      hkept.next heffect, ?_⟩
    rw [List.mem_append, List.mem_singleton, eq_comm]

/-- What a run of calls does to the function, and to the record. -/
theorem exists_after (hdraft : history.state.tree.draft? id = .ok draft)
    (hkept : Kept location base history.record draft) (calls : List Call) :
    ∃ draft', (history.after id calls).state.tree.draft? id = .ok draft'
      ∧ draft.Follows draft'
      ∧ Kept location base (history.after id calls).record draft'
      ∧ (.discard ∈ (history.after id calls).record
          ↔ .discard ∈ history.record ∨ .discard ∈ calls) := by
  induction calls generalizing history draft with
  | nil => exact ⟨draft, hdraft, .refl draft, hkept, by simp [after]⟩
  | cons call rest ih =>
      obtain ⟨draft', hdraft', hfollows, hkept', hdiscard⟩ :=
        exists_next hdraft hkept call
      obtain ⟨draft'', hdraft'', hfollows', hkept'', hdiscard'⟩ :=
        ih hdraft' hkept'
      refine ⟨draft'', hdraft'', hfollows.trans hfollows', hkept'',
        hdiscard'.trans ?_⟩
      rw [hdiscard, List.mem_cons, or_assoc, eq_comm]

/-- What can be said of the function of a node after calls, the function
having been new before them. -/
structure OneWay (id : NodeId) (location : Option String)
    (base : ExecutionContext) (calls : List Call) (history : History)
    (draft : Draft) : Prop where
  held : history.state.tree.draft? id = .ok draft
  location_eq : draft.location = location
  base_eq : draft.base = base
  /-- A call fails if the function is finished, or the context of a command
  does not lie inside that of the function. It leaves everything as it was. -/
  refused : ∀ call failure left,
    call.step id history.state = .error failure left
    ↔ Call.Refused draft call failure ∧ left = history.state
  length_eq : draft.commands.length = draft.sources.length
  /-- A command stands in the function under the clauses that the context of
  the function does not have. -/
  lines : ∀ (i : Nat) (context : ExecutionContext) (command : Command),
    draft.sources[i]? = some (context, command) → ∃ rest,
      context.clauses = base.clauses ++ rest
        ∧ draft.commands[i]? = some (command.behind (Clause.wrapper rest))
  /-- Whatever is called then, commands are added at the end, and none once
  the function is finished. -/
  onward : ∀ later, ∃ draft',
    (history.after id later).state.tree.draft? id = .ok draft'
      ∧ draft.Follows draft'
  /-- The pack has the function if it has a location, it was closed with
  success and was never given up. -/
  artifact : ∀ function, draft.artifact? = some function ↔ ∃ place before later,
    location = some place
      ∧ history.record = before ++ .close :: later ∧ .discard ∉ calls
      ∧ function
        = ⟨place,
          (registered before).map fun source => (line base source).render⟩

/-- Whatever calls are made of a new function, and in whatever order, it only
gets more commands, and it is finished once. -/
theorem one_way {state : BuildState}
    (h : state.tree.draft? id = .ok { location := location, base := base })
    (calls : List Call) :
    ∃ draft,
      OneWay id location base calls (after id ⟨state, []⟩ calls) draft := by
  obtain ⟨draft, hdraft, -, hkept, hdiscard⟩ :=
    @exists_after id location base ⟨state, []⟩ _ h (.start location base) calls
  refine ⟨draft, hdraft, hkept.location_eq, hkept.base_eq,
    fun call failure left => Call.step_eq_error_iff hdraft, ?_,
    fun i context command => hkept.getElem?_commands, fun later => ?_,
    fun function => ?_⟩
  · rw [hkept.commands_eq, List.length_map]
  · obtain ⟨draft', hdraft', hfollows, -, -⟩ := exists_after hdraft hkept later
    exact ⟨draft', hdraft', hfollows⟩
  · have hnever : .discard ∉ (after id ⟨state, []⟩ calls).record
        ↔ .discard ∉ calls :=
      not_congr (hdiscard.trans (or_iff_right List.not_mem_nil))
    rw [hkept.artifact?_eq_some_iff, hnever]

/-- A build with one function, which is called under a clause. -/
def belfry : BuildState :=
  let chime : Draft :=
    { location := some "town:chime", base := ⟨[⟨["as", "@a"]⟩]⟩ }
  { BuildState.initial "town" .empty with
    tree := BuildTree.empty.insert none "chime" (.function chime) }

/-- Two commands in their contexts and one outside; the function is closed
between them and those that come too late. -/
def chimes : List Call :=
  [.register ⟨[⟨["as", "@a"]⟩]⟩ ⟨["say", "ding"]⟩,
    .register .empty ⟨["say", "lost"]⟩,
    .register ⟨[⟨["as", "@a"]⟩, ⟨["at", "@s"]⟩]⟩ ⟨["say", "dong"]⟩, .close,
    .register ⟨[⟨["as", "@a"]⟩]⟩ ⟨["say", "late"]⟩, .close]

/-- A function that was closed: the pack has its commands in the order in
which they were registered, each under the clauses that are new in its
context. -/
theorem chimes_one_way :
    belfry.tree.draft? 0
        = .ok { location := some "town:chime", base := ⟨[⟨["as", "@a"]⟩]⟩ }
      ∧ ∃ draft, OneWay 0 (some "town:chime") ⟨[⟨["as", "@a"]⟩]⟩ chimes
          (after 0 ⟨belfry, []⟩ chimes) draft
        ∧ draft.artifact?
          = some ⟨"town:chime",
            ["say ding", "execute at @s run say dong"]⟩ := by
  obtain ⟨draft, hdraft⟩ := @one_way 0 _ _ belfry rfl chimes
  have hartifact :
      ((after 0 ⟨belfry, []⟩ chimes).state.tree.draft? 0).toOption.bind
        artifact?
      = some ⟨"town:chime", ["say ding", "execute at @s run say dong"]⟩ := by
    decide +kernel
  rw [hdraft.held] at hartifact
  exact ⟨rfl, draft, hdraft, hartifact⟩

end History

end Draft

end Datapack
