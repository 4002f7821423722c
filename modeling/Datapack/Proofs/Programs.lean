/-
Blocks keep the program.

A block of two commands or more becomes a function of its own, and where it
stood there is a call of that function. `Expands` undoes this: it puts in
the place of each call of a generated function what was registered in that
function, again and again, and leaves everything else as it is. What comes
out for the function of a method are the leaves of its body in order, each
under the clauses of the blocks around it and no others. Blocks that went,
because they had no command or one, have left no trace.

# Why contexts need no adding up

A command is registered with its whole context, and a call of a block's
function is registered with the context that the function is called in. So
what stands in a generated function can be put in the place of its call as
it is. What is written into the file of a function is less: only the
clauses beyond the context that the function is called in.
-/
import Datapack.Proofs.Calls
import Datapack.Proofs.Results
import Mathlib.Data.List.Pairwise

namespace Datapack

-- ============================================================== expansion

/-- The location that a command calls, if it is one of those that generated
functions have. -/
def Command.generated? (space : String) (command : Command) : Option String :=
  match command.tokens with
  | ["function", location] =>
    if Location.isGenerated space location then some location else none
  | _ => none

/-- The location that a call names counts if it is a generated one. -/
theorem Command.generated?_function (space location : String) :
    (Command.function location).generated? space
      = if Location.isGenerated space location then some location
        else none := by
  simp [Command.generated?, Command.function]

/-- The names of the stream of functions look generated. -/
theorem FunctionPlace.isGenerated_head {space : String}
    (hspace : '\x7b' ∉ space.toList) {names : NameStream}
    (hnames : names.template = Location.functionTemplate space) :
    Location.isGenerated space names.head = true := by
  unfold NameStream.head
  rw [hnames]
  exact FunctionPlace.isGenerated_location hspace (.generated names.position)

/-- The commands with their contexts come to the program when calls of
generated functions are replaced by what is registered there. -/
inductive Expands (space : String) (drafts : List Draft) :
    List (ExecutionContext × Command) → List (ExecutionContext × Command) → Prop
  | nil : Expands space drafts [] []
  | keep {context : ExecutionContext} {command : Command}
      {rest program : List (ExecutionContext × Command)} :
      command.generated? space = none → Expands space drafts rest program →
      Expands space drafts ((context, command) :: rest)
        ((context, command) :: program)
  | call {draft : Draft} {command : Command} {location : String}
      {inner rest program : List (ExecutionContext × Command)} :
      command.generated? space = some location → draft ∈ drafts →
      draft.location = some location →
        Expands space drafts draft.sources inner →
      Expands space drafts rest program →
      Expands space drafts ((draft.base, command) :: rest) (inner ++ program)

namespace Expands

variable {space : String} {drafts : List Draft}
  {sources others program further : List (ExecutionContext × Command)}

private theorem append (h : Expands space drafts sources program)
    (h' : Expands space drafts others further) :
    Expands space drafts (sources ++ others) (program ++ further) := by
  induction h with
  | nil => exact h'
  | keep hkeep _ ih => exact .keep hkeep ih
  | call hcall hmem hlocation hinner _ _ ih =>
      rw [List.append_assoc]
      exact .call hcall hmem hlocation hinner ih

/-- Where no two functions share a location there is one expansion. -/
theorem unique (hunique : ∀ a ∈ drafts, ∀ b ∈ drafts, a.location.isSome = true →
      a.location = b.location → a = b)
    (h : Expands space drafts sources program)
    (h' : Expands space drafts sources further) :
    program = further := by
  -- on the first expansion; the command decides which way the second one goes
  induction h generalizing further with
  | nil =>
      cases h'
      rfl
  | keep hkeep _ ih =>
      cases h' with
      | keep _ hrest => rw [ih hrest]
      | call hcall _ _ _ _ =>
          rw [hkeep] at hcall
          cases hcall
  | call hcall hmem hlocation _ _ ihinner ihrest =>
      generalize hsource : (Draft.base _, _) = source at h'
      cases h' with
      | keep hkeep _ =>
          cases hsource
          rw [hcall] at hkeep
          cases hkeep
      | call hcall' hmem' hlocation' hinner' hrest' =>
          obtain ⟨-, rfl⟩ := Prod.mk.inj hsource
          rw [hcall] at hcall'
          obtain rfl := Option.some.inj hcall'
          obtain rfl := hunique _ hmem _ hmem' (by rw [hlocation]; rfl)
            (hlocation.trans hlocation'.symm)
          rw [ihinner hinner', ihrest hrest']

end Expands

-- =============================================================== programs

/-- The program has the commands of the leaves in order, each under the
clauses of its leaf. -/
def Statement.Program (ground : Ground)
    (leaves : List (List Clause × Statement))
    (program : List (ExecutionContext × Command)) : Prop :=
  leaves.map (fun leaf => (leaf.1, leaf.2.command ground))
    = program.map fun step => (step.1.clauses, .ok step.2)

namespace Statement.Program

variable {ground : Ground} {leaves others : List (List Clause × Statement)}
  {program further : List (ExecutionContext × Command)}

/-- The program of leaves in a row. -/
theorem append (h : Program ground leaves program)
    (h' : Program ground others further) :
    Program ground (leaves ++ others) (program ++ further) := by
  unfold Program at h h' ⊢
  rw [List.map_append, List.map_append, h, h']

/-- The program of one leaf is its command. -/
theorem single {context : ExecutionContext} {statement : Statement}
    {command : Command} (h : statement.command ground = .ok command) :
    Program ground [(context.clauses, statement)] [(context, command)] := by
  unfold Program
  rw [List.map_singleton, List.map_singleton, h]

/-- Leaves have one program at most. -/
theorem unique (h : Program ground leaves program)
    (h' : Program ground leaves further) :
    program = further := by
  unfold Program at h h'
  rw [h] at h'
  refine List.map_injective_iff.2 (fun a b heq => ?_) h'
  obtain ⟨⟨clauses⟩, command⟩ := a
  obtain ⟨⟨clauses'⟩, command'⟩ := b
  obtain ⟨hclauses, hcommand⟩ := Prod.mk.inj heq
  obtain rfl : clauses = clauses' := hclauses
  obtain rfl : command = command' := Except.ok.inj hcommand
  rfl

end Statement.Program

-- ================================================================= bodies

/-- Under the clauses, what the plan writes comes to the program of the
leaves, if it ends well and its functions are among the drafts. -/
def Plan.Keeps (ground : Ground) (drafts : List Draft) (clauses : List Clause)
    (leaves : List (List Clause × Statement)) (plan : Plan) : Prop :=
  ∀ site : Site, site.toGround = ground → site.context.clauses = clauses →
    site.functions.template = Location.functionTemplate ground.space →
    (plan site).result = .ok () →
    (∀ sheet ∈ (plan site).written.below.sheets, sheet.draft ∈ drafts) →
    ∃ program, Statement.Program ground leaves program
      ∧ Expands ground.space drafts
        ((plan site).written.entries.map SheetEntry.source) program

namespace Plan.Keeps

variable {ground : Ground} {drafts : List Draft} {clauses : List Clause}
  {leaves others : List (List Clause × Statement)} {plan next : Plan}

private theorem done : Keeps ground drafts clauses [] Plan.done :=
  fun _ _ _ _ _ _ => ⟨[], rfl, .nil⟩

/-- A leaf that calls no generated function is kept as it is. -/
private theorem leaf {statement : Statement}
    (h : ∀ command, statement.command ground = .ok command →
      command.generated? ground.space = none) :
    Keeps ground drafts clauses [(clauses, statement)] (.leaf statement) := by
  rintro site rfl rfl - hres -
  unfold Plan.leaf at hres ⊢
  cases hcommand : statement.command site.toGround with
  | error defect =>
      rw [hcommand] at hres
      cases hres
  | ok command =>
      exact ⟨[(site.context, command)], .single hcommand,
        .keep (h command hcommand) .nil⟩

/-- Plans in a row keep their leaves in a row. -/
private theorem andThen (h : Keeps ground drafts clauses leaves plan)
    (h' : Keeps ground drafts clauses others next) :
    Keeps ground drafts clauses (leaves ++ others) (plan.andThen next) := by
  intro site hground hclauses hnames hres hdrafts
  obtain ⟨hok, hok', hwritten⟩ := Plan.andThen_ok hres
  rw [hwritten, Written.below_append, Outline.sheets_append] at hdrafts
  obtain ⟨program, hprogram, hexpands⟩ := h site hground hclauses hnames hok
    fun sheet hsheet => hdrafts sheet (List.mem_append_left _ hsheet)
  obtain ⟨further, hfurther, hexpands'⟩ :=
    h' (site.after _) hground hclauses hnames hok'
      fun sheet hsheet => hdrafts sheet (List.mem_append_right _ hsheet)
  refine ⟨program ++ further, hprogram.append hfurther, ?_⟩
  rw [hwritten, Written.entries_append, List.map_append]
  exact hexpands.append hexpands'

/-- A block has the program of its body: it comes to its body, or its entry
calls a function in which the entries of the body are. -/
theorem block (hspace : '\x7b' ∉ ground.space.toList) {more : List Clause}
    (h : Keeps ground drafts
      (clauses ++ more.filter fun clause => !clause.isEmpty) leaves plan) :
    Keeps ground drafts clauses leaves (.block more plan) := by
  rintro site hground rfl hnames hres hdrafts
  have hbody :=
    h { site with context := site.context.enter more } hground rfl hnames
  rcases Plan.block_cases more plan site with heq | ⟨failure, -, heq⟩
    | ⟨hinner, -, heq⟩
  · rw [heq] at hres hdrafts ⊢
    exact hbody hres hdrafts
  · rw [heq] at hres
    cases hres
  · rw [heq, Written.below_append, Outline.append_nil] at hdrafts
    unfold Outcome.asFunction at hdrafts
    rw [Outline.sheets_single_function] at hdrafts
    -- the body's program stands in the function that is called here
    obtain ⟨program, hprogram, hexpands⟩ := hbody hinner
      fun sheet hsheet => hdrafts sheet (List.mem_cons_of_mem _ hsheet)
    refine ⟨program, hprogram, ?_⟩
    rw [heq, ← List.append_nil program]
    refine .call ?_ (hdrafts _ List.mem_cons_self) rfl hexpands .nil
    rw [Command.generated?_function]
    refine if_pos (FunctionPlace.isGenerated_head hspace ?_)
    exact hnames

end Plan.Keeps

mutual

/-- A statement keeps the program of its leaves: calls of the functions of
its blocks expand to what is in the blocks. The recursion is over the
blocks. -/
theorem Statement.keeps {ground : Ground}
  (hspace : '\x7b' ∉ ground.space.toList)
    (drafts : List Draft) : ∀ (statement : Statement) (clauses : List Clause),
    (∀ leaf ∈ statement.leaves clauses,
      ∀ command, leaf.2.command ground = .ok command →
        command.generated? ground.space = none) →
    Plan.Keeps ground drafts clauses (statement.leaves clauses) statement.plan
  | .execute more body, clauses, h => by
      rw [Statement.leaves] at h ⊢
      rw [Statement.plan]
      exact .block hspace (Statement.keepsAll hspace drafts body _ h)
  | .run .., _, h | .say .., _, h | .log .., _, h | .error .., _, h
  | .addTag .., _, h | .removeTag .., _, h | .function .., _, h
  | .functionTag .., _, h | .invoke .., _, h | .call .., _, h | .attach .., _, h
  | .detach .., _, h => by
      rw [Statement.leaves] at h
      · rw [Statement.plan, Statement.leaves]
        · exact .leaf (h _ (List.mem_singleton_self _))
        all_goals exact fun _ _ h => by cases h
      · exact fun _ _ h => by cases h

private theorem Statement.keepsAll {ground : Ground}
  (hspace : '\x7b' ∉ ground.space.toList)
    (drafts : List Draft) : ∀ (body : List Statement) (clauses : List Clause),
    (∀ leaf ∈ Statement.leavesAll clauses body,
      ∀ command, leaf.2.command ground = .ok command →
        command.generated? ground.space = none) →
    Plan.Keeps ground drafts clauses (Statement.leavesAll clauses body)
      (Statement.planAll body)
  | [], _, _ => by
      rw [Statement.planAll, Statement.leavesAll]
      exact .done
  | statement :: rest, clauses, h => by
      rw [Statement.leavesAll] at h
      rw [Statement.planAll, Statement.leavesAll]
      exact .andThen
        (statement.keeps hspace drafts clauses
          fun leaf hleaf => h leaf (List.mem_append_left _ hleaf))
        (Statement.keepsAll hspace drafts rest clauses
          fun leaf hleaf => h leaf (List.mem_append_right _ hleaf))

end

-- ============================================================ own commands

/-- The statement has a command of its own that calls what generated
functions are called. -/
def Statement.namesGenerated (space : String) : Statement → Bool
  | .run tokens => (Command.generated? space ⟨tokens⟩).isSome
  | .function location =>
    Location.isGenerated space (Location.qualify space location)
  | _ => false

/-- Tags do not look generated. -/
theorem Location.isGenerated_tag {space : String} (hspace : '#' ∉ space.toList)
    (location : String) :
    Location.isGenerated space s!"#{location}" = false := by
  have htext : (s!"#{location}").toList = '#' :: location.toList := by
    show ("#" ++ location).toList = _
    simp
  unfold Location.isGenerated FunctionPlace.generatedText
  rw [htext, Bool.eq_false_iff, ne_eq, List.isPrefixOf_iff_prefix]
  cases hchars : space.toList with
  | nil => simp [List.cons_prefix_cons]
  | cons c others =>
      rw [List.cons_append, List.cons_prefix_cons]
      rintro ⟨rfl, -⟩
      simp [hchars] at hspace

namespace Project.Built

variable {project : Project} {components : List Component}
  {resolved : List (Component × List Member)} {pack : Pack}

/-- Only a command of its own makes a statement call a generated function:
what it calls otherwise is at a place that is not generated. -/
theorem generated?_eq_none (h : project.Built components resolved pack)
    (hdescribed : ∀ component ∈ components, component.Described project.space)
    {component : String} {statement : Statement} {command : Command}
    (hown : statement.namesGenerated project.space = false)
    (hcommand :
      statement.command ⟨project.space, .ofComponents resolved, component⟩
      = .ok command) :
    command.generated? project.space = none := by
  have hbrace : '\x7b' ∉ project.space.toList :=
    Name.notMem_of_isValidNamespace h.space (by decide)
  have hnumber : '#' ∉ project.space.toList :=
    Name.notMem_of_isValidNamespace h.space (by decide)
  cases hcall : statement.isCall with
  | true =>
      -- calls lead to methods and to what attaches or detaches
      obtain ⟨place, hplace, rfl⟩ := h.call_place hdescribed hcall hcommand
      have hfixed := component?_places place hplace
      rw [Command.generated?_function,
        FunctionPlace.isGenerated_location hbrace, if_neg]
      rw [Option.isNone_iff_eq_none]
      exact Option.ne_none_iff_isSome.2 hfixed
  | false =>
      cases statement with
      | run tokens =>
          cases hcommand
          exact Option.not_isSome_iff_eq_none.1 (Bool.eq_false_iff.1 hown)
      | function location =>
          cases hcommand
          rw [Command.generated?_function, if_neg]
          exact Bool.eq_false_iff.1 hown
      | functionTag location =>
          cases hcommand
          refine (Command.generated?_function _ _).trans (if_neg ?_)
          exact Bool.eq_false_iff.1 (Location.isGenerated_tag hnumber _)
      | invoke => cases hcall
      | call => cases hcall
      | attach => cases hcall
      | detach => cases hcall
      | _ =>
          cases hcommand
          rfl

/-- No two functions of a build have one location. -/
theorem sheet_unique (h : project.Built components resolved pack)
    (hdescribed : ∀ component ∈ components, component.Described project.space)
    {a b : Sheet} (ha : a ∈ (project.outcome resolved).written.below.sheets)
    (hb : b ∈ (project.outcome resolved).written.below.sheets)
    (hsome : a.location.isSome = true) (heq : a.location = b.location) :
    a = b := by
  have hnodup := (h.locations_distinct hdescribed).1
  unfold Outline.locations at hnodup
  rw [List.Nodup, List.pairwise_filterMap] at hnodup
  obtain ⟨location, hlocation⟩ := Option.isSome_iff_exists.1 hsome
  have hsymm : Std.Symm fun x y : Sheet => ∀ l, x.location = some l →
      ∀ l', y.location = some l' → l ≠ l' :=
    ⟨fun x y hdiffer l hl l' hl' => Ne.symm (hdiffer l' hl' l hl)⟩
  by_contra hne
  exact hnodup.forall ha hb hne location hlocation location
    (heq ▸ hlocation) rfl

/-- The function of a method that is not guarded comes to the program of its
body. -/
theorem method_program (h : project.Built components resolved pack)
    (hdescribed : ∀ component ∈ components, component.Described project.space)
    {entry : Component × List Member} (hentry : entry ∈ resolved)
    {member : Member} (hmember : member ∈ entry.2)
    (hguarded : member.method.guarded = false) {body : List Statement}
    (hbody : member.method.body = body.map .perform)
    (hown : ∀ leaf ∈ Statement.leavesAll [] body,
      leaf.2.namesGenerated project.space = false) :
    ∃ sheet ∈ (project.outcome resolved).written.below.sheets,
      sheet.location = some member.location
        ∧ sheet.base = .empty ∧ sheet.stage = .closed
      ∧ ∃ program, Statement.Program
          ⟨project.space, CallTable.ofComponents resolved, entry.1.name⟩
          (Statement.leavesAll [] body) program
        ∧ Expands project.space
          ((project.outcome resolved).written.below.sheets.map Sheet.draft)
            sheet.draft.sources program := by
  have hbrace : '\x7b' ∉ project.space.toList :=
    Name.notMem_of_isValidNamespace h.space (by decide)
  obtain ⟨here, hground, hnames, hmethod⟩ :=
    Plan.components_contain hentry hmember h.result
  -- without a guard the function's plan is that of the body
  have hplan : Plan.methodBody entry.1 member = Statement.planAll body := by
    unfold Plan.methodBody
    rw [hguarded, hbody, Action.planAll_perform]
    rfl
  have hresult := hmethod.result
  have hbelow := hmethod.below
  rw [hplan] at hresult hbelow
  refine ⟨_, Outline.mem_sheets.2 hmethod.function, rfl, rfl, rfl, ?_⟩
  rw [hplan]
  refine Statement.keepsAll hbrace _ body []
    (fun leaf hleaf command hcommand => ?_) here hground
    (by rw [hmethod.context]; rfl) hnames hresult fun sheet hsheet => ?_
  · exact h.generated?_eq_none hdescribed (hown leaf hleaf) hcommand
  · exact List.mem_map_of_mem
      (Outline.mem_sheets.2 (hbelow (Outline.mem_sheets.1 hsheet)))

end Project.Built

-- ================================================================ packs

/-- The lines of the function are the commands of the draft, each behind the
clauses beyond those that the function is called in. -/
structure Draft.Renders (draft : Draft) (function : PackFunction) : Prop where
  location : draft.location = some function.location
  inside : ∀ source ∈ draft.sources, draft.base.clauses <+: source.1.clauses
  lines : function.commands = draft.sources.map fun source =>
    (source.2.behind
      (Clause.wrapper (source.1.clauses.drop draft.base.length))).render

/-- The lines of a function of the pack are rendered from its draft. -/
theorem Sheet.Sound.renders {ground : Ground} {tags : String → Prop}
    {sheets : List Sheet} {sheet : Sheet} (h : sheet.Sound ground tags sheets)
    {function : PackFunction} (hartifact : sheet.artifact? = some function) :
    sheet.draft.Renders function := by
  unfold Sheet.artifact? Draft.artifact? at hartifact
  split at hartifact
  · obtain ⟨location, hlocation, rfl⟩ := Option.map_eq_some_iff.1 hartifact
    refine ⟨hlocation, fun source hsource => ?_, ?_⟩
    · obtain ⟨entry, hentry, rfl⟩ := List.mem_map.1 hsource
      exact h.inside entry hentry
    · unfold Sheet.draft
      dsimp only
      rw [List.map_map, List.map_map]
      rfl
  · cases hartifact

/-- Building keeps the program of every method that is not guarded, however
its blocks were nested and whichever of them were kept as functions. What is
registered in the method's function, with generated functions put in the
place of their calls, are the leaves of the body. And every line of the pack
is a registered command behind the clauses that its function is not called
in. -/
theorem ProjectManifest.blocks_keep_programs (manifest : ProjectManifest)
    (files : List (String × ComponentManifest)) {pack : Pack}
    (h : manifest.toProject.build (manifest.components files) = .ok pack) :
    ∃ resolved tree root,
      manifest.toProject.Makes (manifest.components files) resolved tree root
      ∧ pack = manifest.toProject.collect tree root
      ∧ (∀ function ∈ pack.functions,
        ∃ draft ∈ tree.drafts root, draft.Renders function)
      ∧ ∀ entry ∈ resolved, ∀ member ∈ entry.2, member.method.guarded = false →
          ∀ body : List Statement, member.method.body = body.map .perform →
          (∀ leaf ∈ Statement.leavesAll [] body,
            leaf.2.namesGenerated manifest.space = false) →
          ∃ draft ∈ tree.drafts root, ∃ function ∈ pack.functions,
            function.location = member.location ∧ draft.Renders function
            ∧ draft.base = .empty
            ∧ ∃ program, Statement.Program
                ⟨manifest.space, CallTable.ofComponents resolved, entry.1.name⟩
                (Statement.leavesAll [] body) program
              ∧ ∀ other,
                Expands manifest.space (tree.drafts root) draft.sources other
                  ↔ other = program := by
  have hdescribed := manifest.described files
  obtain ⟨resolved, hbuilt⟩ := built_of_build h
  obtain ⟨tree, hmakes, hshows⟩ :=
    hbuilt.makes (manifest.space_components files)
  have hdrafts := BuildTree.drafts_eq hshows
  have hrenders :
      ∀ sheet ∈ (manifest.toProject.outcome resolved).written.below.sheets,
        ∀ function,
          sheet.artifact? = some function → sheet.draft.Renders function := by
    intro sheet hsheet function hartifact
    obtain ⟨component, hsound⟩ := hbuilt.wellBuilt.sound sheet hsheet
    exact hsound.renders hartifact
  refine ⟨resolved, tree, 0, hmakes,
    hbuilt.pack.trans (Project.collect_eq _ hshows).symm, ?_, ?_⟩
  · intro function hfunction
    rw [hbuilt.pack] at hfunction
    obtain ⟨sheet, hsheet, hartifact⟩ := List.mem_filterMap.1 hfunction
    rw [hdrafts]
    exact ⟨_, List.mem_map_of_mem hsheet,
      hrenders sheet hsheet function hartifact⟩
  · intro entry hentry member hmember hguarded body hbody hown
    obtain ⟨sheet, hsheet, hlocation, hbase, hstage, program, hprogram,
      hexpands⟩ :=
      hbuilt.method_program hdescribed hentry hmember hguarded hbody hown
    -- the sheet of the method is closed, so it is a function of the pack
    have hartifact := Sheet.artifact?_eq hstage hlocation
    rw [hdrafts]
    refine ⟨sheet.draft, List.mem_map_of_mem hsheet, _, ?_, rfl,
      hrenders sheet hsheet _ hartifact, hbase, program, hprogram,
      fun other => ⟨fun hother => ?_, ?_⟩⟩
    · rw [hbuilt.pack]
      exact List.mem_filterMap.2 ⟨sheet, hsheet, hartifact⟩
    · refine hother.unique (fun a ha b hb hsome heq => ?_) hexpands
      obtain ⟨x, hx, rfl⟩ := List.mem_map.1 ha
      obtain ⟨y, hy, rfl⟩ := List.mem_map.1 hb
      rw [hbuilt.sheet_unique hdescribed hx hy hsome heq]
    · rintro rfl
      exact hexpands

/-- The blocks of the sample stand inside each other, and its program has
their commands in order, each under the clauses of all of them. -/
theorem ProjectManifest.sample_program :
    ∃ pack resolved tree root,
      Sample.manifest.toProject.build (Sample.manifest.components Sample.files)
        = .ok pack
      ∧ Sample.manifest.toProject.Makes
        (Sample.manifest.components Sample.files) resolved tree root
      ∧ ∃ draft ∈ tree.drafts root,
        draft.location = some "demo:component/door/open"
        ∧ ∀ program, Expands "demo" (tree.drafts root) draft.sources program
          ↔ program =
            [(⟨[]⟩, .say "open"),
             (⟨[⟨["as", "@a"]⟩]⟩, .function "demo:component/door/knock"),
             (⟨[⟨["as", "@a"]⟩, ⟨["at", "@s"]⟩]⟩, .say "one"),
             (⟨[⟨["as", "@a"]⟩, ⟨["at", "@s"]⟩]⟩, .say "two")] := by
  obtain ⟨pack, h⟩ := Sample.build
  obtain ⟨resolved, tree, root, hmakes, -, -, hmethods⟩ :=
    Sample.manifest.blocks_keep_programs Sample.files h
  obtain rfl :=
    hmakes.resolved_eq (Sample.manifest.space_components Sample.files)
      Sample.prepared
  obtain ⟨draft, hdraft, function, -, hlocation, hrenders, -, program, hprogram,
    hexpands⟩ :=
    hmethods (Sample.door, Sample.door.membersAlong [Sample.door])
      List.mem_cons_self
      (Sample.door.member none []
        (Sample.door.methods.head (by decide))) List.mem_cons_self rfl _
        rfl (by decide)
  refine ⟨pack, _, tree, root, h, hmakes, draft, hdraft, ?_, fun other => ?_⟩
  · rw [hrenders.location, hlocation]
    rfl
  · -- the leaves have one program, which evaluates to the one given
    refine (hexpands other).trans ?_
    rw [hprogram.unique]
    rfl

end Datapack
