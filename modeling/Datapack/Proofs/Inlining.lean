/-
Bodies, guarded or not, with their blocks put back.

`Expands` replaces every call of a generated function. A body may have commands
of its own that call one, and then the expansion of its function is no longer
its program. `Inlines` leaves it open which calls are replaced, so that a
function can be read with just those replaced that its blocks became. Read in
this way, what the plan of a body writes has one command for each leaf, in
order, whatever the leaves are (`Statement.spellsAll`).

A guard puts its own blocks around a body. What it writes does not depend on
the body but for what stands in the middle (`Plan.guarded_eq`): the inner block
may go, if the body has one command or none, and the outer one never does,
since the tag that is set and the tag that is taken away are two commands.
-/
import Datapack.Proofs.Programs

namespace Datapack

-- =============================================================== inlining

/-- The commands with their contexts come to the program when some calls of
generated functions are replaced by what is registered there. -/
inductive Inlines (space : String) (drafts : List Draft) :
    List (ExecutionContext × Command) → List (ExecutionContext × Command) → Prop
  | nil : Inlines space drafts [] []
  | keep {source : ExecutionContext × Command}
      {rest program : List (ExecutionContext × Command)} :
      Inlines space drafts rest program →
      Inlines space drafts (source :: rest) (source :: program)
  | call {draft : Draft} {location : String}
      {inner rest program : List (ExecutionContext × Command)} :
      Location.isGenerated space location = true → draft ∈ drafts →
      draft.location = some location →
        Inlines space drafts draft.sources inner →
      Inlines space drafts rest program →
      Inlines space drafts ((draft.base, .function location) :: rest)
        (inner ++ program)

namespace Inlines

variable {space : String} {drafts : List Draft}
  {sources others program further : List (ExecutionContext × Command)}

/-- Sources are inlined one behind the other. -/
theorem append (h : Inlines space drafts sources program)
    (h' : Inlines space drafts others further) :
    Inlines space drafts (sources ++ others) (program ++ further) := by
  induction h with
  | nil => exact h'
  | keep _ ih => exact .keep ih
  | call hgenerated hmem hlocation hinner _ _ ih =>
      rw [List.append_assoc]
      exact .call hgenerated hmem hlocation hinner ih

/-- A call by itself comes to what is registered where it leads. -/
theorem called {draft : Draft} {location : String}
    (hgenerated : Location.isGenerated space location = true)
    (hmem : draft ∈ drafts) (hlocation : draft.location = some location)
    (h : Inlines space drafts draft.sources program) :
    Inlines space drafts [(draft.base, .function location)] program := by
  rw [← List.append_nil program]
  exact .call hgenerated hmem hlocation h .nil

/-- Where no call is left that could be replaced, all of them have been. -/
theorem expands (h : Inlines space drafts sources program)
    (hprogram : ∀ step ∈ program, step.2.generated? space = none) :
    Expands space drafts sources program := by
  induction h with
  | nil => exact .nil
  | keep _ ih =>
      exact .keep (hprogram _ List.mem_cons_self)
        (ih fun step hstep => hprogram step (List.mem_cons_of_mem _ hstep))
  | call hgenerated hmem hlocation _ _ ihinner ihrest =>
      refine .call ?_ hmem hlocation
        (ihinner fun step hstep => hprogram step (List.mem_append_left _ hstep))
        (ihrest fun step hstep => hprogram step (List.mem_append_right _ hstep))
      rw [Command.generated?_function, if_pos hgenerated]

end Inlines

-- ================================================================= bodies

/-- What was written has a command for each of the leaves. -/
structure Outcome.Spells (ground : Ground) (drafts : List Draft)
    (leaves : List (List Clause × Statement)) (outcome : Outcome) : Prop where
  empty : outcome.written.entries = [] ↔ leaves = []
  program : ∃ program, Statement.Program ground leaves program
    ∧ Inlines ground.space drafts
      (outcome.written.entries.map SheetEntry.source) program

/-- Under the clauses, the plan has a command for each of the leaves, if it
ends well and its functions are among the drafts. -/
def Plan.Spells (ground : Ground) (drafts : List Draft) (clauses : List Clause)
    (leaves : List (List Clause × Statement)) (plan : Plan) : Prop :=
  ∀ site : Site, site.toGround = ground → site.context.clauses = clauses →
    site.functions.template = Location.functionTemplate ground.space →
    (plan site).result = .ok () →
    (∀ sheet ∈ (plan site).written.below.sheets, sheet.draft ∈ drafts) →
    (plan site).Spells ground drafts leaves

namespace Plan.Spells

variable {ground : Ground} {drafts : List Draft} {clauses : List Clause}
  {leaves others : List (List Clause × Statement)} {plan next : Plan}

private theorem done : Spells ground drafts clauses [] Plan.done :=
  fun _ _ _ _ _ _ => ⟨⟨fun _ => rfl, fun _ => rfl⟩, [], rfl, .nil⟩

/-- A leaf is spelled by its own command. -/
private theorem leaf (statement : Statement) :
    Spells ground drafts clauses [(clauses, statement)] (.leaf statement) := by
  rintro site rfl rfl - hres -
  unfold Plan.leaf at hres ⊢
  cases hcommand : statement.command site.toGround with
  | error defect =>
      rw [hcommand] at hres
      cases hres
  | ok command =>
      exact ⟨by simp, [(site.context, command)], .single hcommand, .keep .nil⟩

/-- Plans in a row spell their leaves in a row. -/
private theorem andThen (h : Spells ground drafts clauses leaves plan)
    (h' : Spells ground drafts clauses others next) :
    Spells ground drafts clauses (leaves ++ others) (plan.andThen next) := by
  intro site hground hclauses hnames hres hdrafts
  obtain ⟨hok, hok', hwritten⟩ := Plan.andThen_ok hres
  rw [hwritten, Written.below_append, Outline.sheets_append] at hdrafts
  obtain ⟨hempty, program, hprogram, hinlines⟩ :=
    h site hground hclauses hnames hok
      fun sheet hsheet => hdrafts sheet (List.mem_append_left _ hsheet)
  obtain ⟨hempty', further, hfurther, hinlines'⟩ :=
    h' (site.after _) hground hclauses hnames hok'
      fun sheet hsheet => hdrafts sheet (List.mem_append_right _ hsheet)
  refine ⟨?_, program ++ further, hprogram.append hfurther, ?_⟩
  · rw [hwritten, Written.entries_append, List.append_eq_nil_iff,
      List.append_eq_nil_iff, hempty, hempty']
  · rw [hwritten, Written.entries_append, List.map_append]
    exact hinlines.append hinlines'

/-- A block has the commands of its body, there or in the function that is
called there. -/
theorem block (hspace : '\x7b' ∉ ground.space.toList) {more : List Clause}
    (h : Spells ground drafts
      (clauses ++ more.filter fun clause => !clause.isEmpty) leaves plan) :
    Spells ground drafts clauses leaves (.block more plan) := by
  rintro site hground rfl hnames hres hdrafts
  have hbody :=
    h { site with context := site.context.enter more } hground rfl hnames
  rcases Plan.block_cases more plan site with heq | ⟨failure, -, heq⟩
    | ⟨hinner, hmany, heq⟩
  · rw [heq] at hres hdrafts ⊢
    exact hbody hres hdrafts
  · rw [heq] at hres
    cases hres
  · rw [heq, Written.below_append, Outline.append_nil] at hdrafts
    unfold Outcome.asFunction at hdrafts
    rw [Outline.sheets_single_function] at hdrafts
    obtain ⟨hempty, program, hprogram, hinlines⟩ := hbody hinner
      fun sheet hsheet => hdrafts sheet (List.mem_cons_of_mem _ hsheet)
    rw [heq]
    refine ⟨⟨fun hnil => absurd hnil (List.cons_ne_nil _ _), fun hnil => ?_⟩,
      program, hprogram, ?_⟩
    · -- a block that was kept has a command, so there is a leaf
      rw [hempty.2 hnil] at hmany
      exact absurd hmany (Nat.not_lt_zero 1)
    · refine .called (FunctionPlace.isGenerated_head hspace ?_)
        (hdrafts _ List.mem_cons_self) rfl hinlines
      exact hnames

end Plan.Spells

mutual

/-- A statement spells its leaves: putting the functions of its blocks back
in place gives their commands, each behind the clauses around it. The
recursion is over the blocks. -/
theorem Statement.spells {ground : Ground}
  (hspace : '\x7b' ∉ ground.space.toList)
    (drafts : List Draft) : ∀ (statement : Statement) (clauses : List Clause),
    Plan.Spells ground drafts clauses (statement.leaves clauses) statement.plan
  | .execute more body, clauses => by
      rw [Statement.leaves, Statement.plan]
      exact .block hspace (Statement.spellsAll hspace drafts body _)
  | .run .., _ | .say .., _ | .log .., _ | .error .., _ | .addTag .., _
  | .removeTag .., _ | .function .., _ | .functionTag .., _ | .invoke .., _
  | .call .., _ | .attach .., _ | .detach .., _ => by
      rw [Statement.plan, Statement.leaves]
      · exact .leaf _
      all_goals exact fun _ _ h => by cases h

private theorem Statement.spellsAll {ground : Ground}
  (hspace : '\x7b' ∉ ground.space.toList)
    (drafts : List Draft) : ∀ (body : List Statement) (clauses : List Clause),
    Plan.Spells ground drafts clauses (Statement.leavesAll clauses body)
      (Statement.planAll body)
  | [], _ => by
      rw [Statement.planAll, Statement.leavesAll]
      exact .done
  | statement :: rest, clauses => by
      rw [Statement.planAll, Statement.leavesAll]
      exact .andThen (statement.spells hspace drafts clauses)
        (Statement.spellsAll hspace drafts rest clauses)

end

mutual

/-- Clauses around a statement come before those inside it. -/
theorem Statement.leaves_append (outer : List Clause) :
    ∀ (statement : Statement) (clauses : List Clause),
      statement.leaves (outer ++ clauses)
      = (statement.leaves clauses).map fun leaf => (outer ++ leaf.1, leaf.2)
  | .execute more body, clauses => by
      rw [Statement.leaves, Statement.leaves, List.append_assoc,
        Statement.leavesAll_append outer body]
  | .run .., _ | .say .., _ | .log .., _ | .error .., _ | .addTag .., _
  | .removeTag .., _ | .function .., _ | .functionTag .., _ | .invoke .., _
  | .call .., _ | .attach .., _ | .detach .., _ => by
      rw [Statement.leaves, Statement.leaves]
      · rfl
      all_goals exact fun _ _ h => by cases h

/-- Further clauses around a body stand in front of those of every leaf. -/
private theorem Statement.leavesAll_append (outer : List Clause) :
    ∀ (body : List Statement) (clauses : List Clause),
      Statement.leavesAll (outer ++ clauses) body
        = (Statement.leavesAll clauses body).map
          fun leaf => (outer ++ leaf.1, leaf.2)
  | [], _ => by
      rw [Statement.leavesAll, Statement.leavesAll]
      rfl
  | statement :: rest, clauses => by
      rw [Statement.leavesAll, Statement.leavesAll, List.map_append,
        Statement.leaves_append outer statement,
        Statement.leavesAll_append outer rest]

end

/-- The leaves of a method under further clauses. -/
def Method.leavesUnder (method : Method) (outer : List Clause) :
    List (List Clause × Statement) :=
  method.leaves.map fun leaf => (outer ++ leaf.1, leaf.2)

/-- The body of a method has a command for each leaf. -/
theorem Method.IsStatements.spells {method : Method} (h : method.IsStatements)
    {ground : Ground} (hspace : '\x7b' ∉ ground.space.toList)
    (drafts : List Draft) (clauses : List Clause) :
    Plan.Spells ground drafts clauses (method.leavesUnder clauses)
      (Action.planAll method.body) := by
  obtain ⟨body, hbody⟩ := h
  have hleaves : method.leavesUnder clauses
      = Statement.leavesAll clauses body := by
    unfold Method.leavesUnder
    rw [Method.leaves_eq hbody, ← Statement.leavesAll_append clauses body,
      List.append_nil]
  rw [hleaves, hbody, Action.planAll_perform]
  exact Statement.spellsAll hspace drafts body clauses

-- ================================================================= guards

namespace Guard

/-- The entities that carry the tag. -/
def carriers (tag : String) : String := s!"@e[tag={tag}]"

/-- The clause that lets a command run if some entity carries the tag. -/
def whenCarried (tag : String) : Clause := ⟨["if", "entity", carriers tag]⟩

/-- The clause that lets a command run if no entity carries the tag. -/
def unlessCarried (tag : String) : Clause :=
  ⟨["unless", "entity", carriers tag]⟩

/-- The clause that runs a command as each entity that carries the tag. -/
def asCarriers (tag : String) : Clause := ⟨["as", carriers tag]⟩

/-- What is reported instead of running a method that is running. -/
def report (component key : String) : Command :=
  .error s!"Recursive method invocation \"{component}/{key}\""

end Guard

namespace Plan

open Guard

/-- A block under a clause that ends well is its body, if that has one entry at
most, and a call of the body otherwise. -/
theorem block_of_ok {clauses : List Clause} {body : Plan} {site : Site}
    (hclauses : site.context.enter clauses ≠ site.context)
    (hres : (body.block clauses site).result = .ok ()) :
    let context := site.context.enter clauses
    let inner := body { site with context := context }
    let location := (site.functions.drop inner.written.functions).head
    inner.result = .ok ()
      ∧ (inner.written.entries.length ≤ 1 ∧ body.block clauses site = inner
        ∨ 1 < inner.written.entries.length ∧ body.block clauses site
          = ⟨inner.asFunction (some location) context
              ++ { entries :=
                     [⟨context, .function location, .block⟩], functions := 1 },
            .ok ()⟩) := by
  intro context inner location
  revert hres
  unfold block
  rw [if_neg hclauses]
  cases hinner : inner.result with
  | error failure => exact fun hres => by cases hres
  | ok value =>
      intro _
      refine ⟨rfl, ?_⟩
      by_cases hlength : inner.written.entries.length ≤ 1
      · exact .inl ⟨hlength, if_pos hlength⟩
      · exact .inr ⟨Nat.lt_of_not_le hlength, if_neg hlength⟩

/-- Entries that are added first come before those of the next step. -/
theorem enter_andThen (entries : Site → List SheetEntry) (next : Plan)
    (site : Site) :
    (enter entries).andThen next site
      = ⟨{ (next site).written with
            entries := entries site ++ (next site).written.entries },
          (next site).result⟩ := by
  rcases andThen_cases (enter entries) next site with ⟨_, hfail, -⟩ | ⟨-, heq⟩
  · cases hfail
  · have hsite : site.after (enter entries site).written = site := rfl
    rw [heq, hsite]
    congr 1
    apply Written.ext
    · rfl
    · exact Outline.nil_append _
    · exact Nat.zero_add _
    · exact Nat.zero_add _

/-- A command that is added last comes after the entries of the step before. -/
theorem andThen_emit {plan : Plan} {site : Site}
    (h : (plan site).result = .ok ()) (cause : Cause) (command : Command) :
    plan.andThen (emit cause command) site
      = ⟨{ (plan site).written with
            entries :=
              (plan site).written.entries ++ [⟨site.context, command, cause⟩] },
          .ok ()⟩ := by
  rcases andThen_cases plan (emit cause command) site with ⟨_, hfail, -⟩
    | ⟨-, heq⟩
  · rw [h] at hfail
    cases hfail
  · rw [heq]
    congr 1
    apply Written.ext
    · rfl
    · exact Outline.append_nil _
    · rfl
    · rfl

/-- Where the body of a guard is built. -/
def insideGuard (site : Site) : Site :=
  { site.after { tags := 1 } with context := ⟨[unlessCarried site.tags.head]⟩ }

/-- The body of a guard. -/
def middle (body : Plan) (site : Site) : Outcome :=
  block [asCarriers site.tags.head] body (insideGuard site)

/-- A body between the commands that set a tag and take it away. -/
def bracketed (tag : String) (body : Plan) : Plan :=
  (emit .mark (.addTag tag)).andThen
    ((block [asCarriers tag] body).andThen (emit .mark (.removeTag tag)))

/-- What a guard writes inside its function: the tag set, what the body
comes to, and the tag removed. -/
private theorem bracketed_eq {body : Plan} {site : Site}
    (hres : (bracketed site.tags.head body (insideGuard site)).result
      = .ok ()) :
    (middle body site).result = .ok ()
      ∧ bracketed site.tags.head body (insideGuard site)
        = ⟨{ (middle body site).written with
            entries :=
              ⟨⟨[unlessCarried site.tags.head]⟩, .addTag site.tags.head, .mark⟩
              :: (middle body site).written.entries
                ++ [⟨⟨[unlessCarried site.tags.head]⟩,
                  .removeTag site.tags.head, .mark⟩] },
          .ok ()⟩ := by
  unfold bracketed emit at hres ⊢
  rw [enter_andThen] at hres ⊢
  obtain ⟨hmiddle, -, -⟩ := andThen_ok hres
  refine ⟨hmiddle, ?_⟩
  have hlast := andThen_emit hmiddle .mark (.removeTag site.tags.head)
  unfold emit at hlast
  have hcontext : (insideGuard site).context
      = ⟨[unlessCarried site.tags.head]⟩ := rfl
  rw [hlast, hcontext, List.singleton_append, List.cons_append]
  unfold middle
  rfl

/-- What a guard writes that ends well: the report and the call of a function,
which has the body between the commands that set the tag and take it away. -/
theorem guarded_eq {component key : String} {body : Plan} {site : Site}
    (hcontext : site.context = .empty)
    (hres : (guarded component key body site).result = .ok ()) :
    (middle body site).result = .ok ()
      ∧ ∃ number, (guarded component key body site).written =
        { entries :=
            [⟨⟨[whenCarried site.tags.head]⟩, report component key, .mark⟩,
             ⟨⟨[unlessCarried site.tags.head]⟩,
              .function (NameStream.nameAt site.functions.template number),
              .block⟩]
          below := .single (.function
            ⟨some (NameStream.nameAt site.functions.template number),
              ⟨[unlessCarried site.tags.head]⟩, .closed,
              ⟨⟨[unlessCarried site.tags.head]⟩, .addTag site.tags.head, .mark⟩
                :: (middle body site).written.entries
                  ++ [⟨⟨[unlessCarried site.tags.head]⟩,
                    .removeTag site.tags.head, .mark⟩]⟩)
            (middle body site).written.below
          functions := (middle body site).written.functions + 1
          tags := 1 + (middle body site).written.tags } := by
  have henter : ∀ clause : Clause, clause.isEmpty = false →
      (site.after { tags := 1 }).context.enter [clause] = ⟨[clause]⟩ := by
    intro clause hclause
    show site.context.enter [clause] = _
    simp [hcontext, ExecutionContext.enter, ExecutionContext.empty, hclause]
  have hguarded : guarded component key body site = withTag (fun tag =>
      (enter fun site =>
          [⟨site.context.enter [whenCarried tag], report component key,
            .mark⟩]).andThen
        (block [unlessCarried tag] (bracketed tag body))) site := rfl
  rw [hguarded] at hres ⊢
  unfold withTag at hres ⊢
  dsimp only at hres ⊢
  rw [enter_andThen] at hres ⊢
  obtain ⟨hinner, hcases⟩ := block_of_ok (by
    rw [henter _ rfl]
    show _ ≠ site.context
    simp [hcontext, ExecutionContext.empty]) hres
  rw [henter _ rfl] at hinner hcases
  obtain ⟨hmiddle, hbracketed⟩ := bracketed_eq hinner
  unfold insideGuard at hbracketed
  rw [hbracketed] at hcases
  refine ⟨hmiddle,
    site.functions.position + (middle body site).written.functions, ?_⟩
  rcases hcases with ⟨hfew, -⟩ | ⟨-, heq⟩
  · -- the two commands around the body are too many for the block to go
    simp at hfew
  · rw [heq, henter _ rfl]
    generalize middle body site = inner
    unfold Outcome.asFunction Outcome.stage
    apply Written.ext
    · rfl
    · show Outline.nil ++ (Outline.single _ inner.written.below ++ .nil) = _
      rw [Outline.nil_append, Outline.append_nil]
      rfl
    · exact Nat.zero_add _
    · rfl

variable {component : Component} {member : Member} {site : Site}
  {outline : Outline}

/-- What a guarded method leaves: its function with the report and the call,
the function that is called, and what the body leaves. -/
theorem MethodBuilt.guard (h : MethodBuilt component member site outline)
    (hguarded : member.method.guarded = true) :
    (middle (Action.planAll member.method.body) site).result = .ok ()
      ∧ (middle (Action.planAll member.method.body) site).written.below.pieces
        ⊆ outline.pieces
      ∧ ∃ number,
        Piece.function ⟨some member.location, .empty, .closed,
          [⟨⟨[whenCarried site.tags.head]⟩, report component.name member.key,
            .mark⟩,
           ⟨⟨[unlessCarried site.tags.head]⟩,
            .function (NameStream.nameAt site.functions.template number),
            .block⟩]⟩
          ∈ outline.pieces
        ∧ Piece.function
          ⟨some (NameStream.nameAt site.functions.template number),
            ⟨[unlessCarried site.tags.head]⟩, .closed,
            ⟨⟨[unlessCarried site.tags.head]⟩, .addTag site.tags.head, .mark⟩
              :: (middle (Action.planAll member.method.body)
                site).written.entries
                ++ [⟨⟨[unlessCarried site.tags.head]⟩,
                  .removeTag site.tags.head, .mark⟩]⟩
          ∈ outline.pieces := by
  have hplan : methodBody component member
      = guarded component.name member.key (Action.planAll member.method.body) :=
    if_pos hguarded
  have hres := h.result
  have hfunction := h.function
  have hbelow := h.below
  rw [hplan] at hres hfunction hbelow
  obtain ⟨hmiddle, number, hwritten⟩ := guarded_eq h.context hres
  rw [hwritten] at hfunction hbelow
  rw [Outline.pieces_single] at hbelow
  exact ⟨hmiddle, fun piece hpiece => hbelow (List.mem_cons_of_mem _ hpiece),
    number, hfunction, hbelow List.mem_cons_self⟩

/-- The body of a guard has a command for each leaf, under the clauses of the
guard. -/
theorem spells_middle {method : Method} (h : method.IsStatements)
    {ground : Ground} (hspace : '\x7b' ∉ ground.space.toList)
    {drafts : List Draft} (hground : site.toGround = ground)
    (hnames : site.functions.template = Location.functionTemplate ground.space)
    (hres : (middle (Action.planAll method.body) site).result = .ok ())
    (hdrafts :
      ∀ sheet ∈ (middle (Action.planAll method.body) site).written.below.sheets,
        sheet.draft ∈ drafts) :
    (middle (Action.planAll method.body) site).Spells ground drafts
      (method.leavesUnder
        [unlessCarried site.tags.head, asCarriers site.tags.head]) :=
  Spells.block hspace (h.spells hspace drafts _) (insideGuard site) hground
    rfl hnames hres hdrafts

end Plan

namespace Project.Built

variable {project : Project} {components : List Component}
  {resolved : List (Component × List Member)} {pack : Pack}

/-- A function that was finished is rendered into the pack. -/
theorem renders_sheet (h : project.Built components resolved pack)
    {sheet : Sheet}
    (hsheet : sheet ∈ (project.outcome resolved).written.below.sheets)
    (hstage : sheet.stage = .closed) {location : String}
    (hlocation : sheet.location = some location) :
    ∃ function ∈ pack.functions,
      function.location = location ∧ sheet.draft.Renders function := by
  obtain ⟨component, hsound⟩ := h.wellBuilt.sound sheet hsheet
  have hartifact := Sheet.artifact?_eq hstage hlocation
  refine ⟨_, ?_, rfl, hsound.renders hartifact⟩
  rw [h.pack]
  exact List.mem_filterMap.2 ⟨sheet, hsheet, hartifact⟩

/-- Every function of the pack is rendered from one that was written. -/
theorem exists_renders (h : project.Built components resolved pack)
    {function : PackFunction} (hfunction : function ∈ pack.functions) :
    ∃ sheet ∈ (project.outcome resolved).written.below.sheets,
      sheet.draft.Renders function := by
  rw [h.pack] at hfunction
  obtain ⟨sheet, hsheet, hartifact⟩ := List.mem_filterMap.1 hfunction
  obtain ⟨component, hsound⟩ := h.wellBuilt.sound sheet hsheet
  exact ⟨sheet, hsheet, hsound.renders hartifact⟩

end Project.Built

end Datapack
