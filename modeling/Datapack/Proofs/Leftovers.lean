/-
What becomes of generated functions.

A function is generated for a block of several commands and for the
dispatcher of a hook. The dispatcher is listed in a tag of the game. The
function of a block is called where the block stood, and so the call is in
the function around the block, or where that went. As long as every block
ends well this makes all generated functions reachable.

# Blocks that fail

A block that fails is given up, with every call that was registered in it.
The functions that were generated for blocks inside it before the failure
are closed by then, and they stay in the tree and in the pack. So a third
case remains (`Project.generated_used`): a generated function that is called
from a function that was given up. The pack of `Leftover.component` has such
a function, and nothing in the pack mentions it.
-/
import Datapack.Proofs.References

namespace Datapack

-- ================================================================== calls

/-- A line of the function calls the location, under clauses or not. -/
def PackFunction.Calls (function : PackFunction) (location : String) : Prop :=
  ∃ clauses,
    ((Command.function location).behind (Clause.wrapper clauses)).render
    ∈ function.commands

/-- A call of the location was registered in the draft. -/
def Draft.Calls (draft : Draft) (location : String) : Prop :=
  ∃ context, (context, Command.function location) ∈ draft.sources

/-- An entry of the sheet calls the location. -/
def Sheet.Calls (sheet : Sheet) (location : String) : Prop :=
  ∃ entry ∈ sheet.entries, entry.command = .function location

/-- The function was given up, or it is finished and has a location. -/
def Sheet.Settled (sheet : Sheet) : Prop :=
  sheet.stage = .discarded
    ∨ sheet.stage = .closed ∧ sheet.location.isSome = true

/-- Every function below is settled, and those with a location are called by
the entries or from below. -/
structure Written.Calling (written : Written) : Prop where
  settled : ∀ sheet ∈ written.below.sheets, sheet.Settled
  called : ∀ location ∈ written.below.locations,
    (∃ entry ∈ written.entries, entry.command = .function location)
      ∨ ∃ sheet ∈ written.below.sheets, sheet.Calls location

namespace Written.Calling

/-- Without nodes there is nothing to be called. -/
theorem of_below {written : Written} (h : written.below = .nil) :
    written.Calling := by
  refine ⟨fun sheet hsheet => ?_, fun location hlocation => ?_⟩
  · rw [h] at hsheet
    cases hsheet
  · rw [h] at hlocation
    cases hlocation

private theorem append {first second : Written} (h : first.Calling)
    (h' : second.Calling) :
    (first ++ second).Calling := by
  refine ⟨fun sheet hsheet => ?_, fun location hlocation => ?_⟩
  · rw [Written.below_append, Outline.sheets_append, List.mem_append] at hsheet
    exact hsheet.elim (h.settled sheet) (h'.settled sheet)
  · simp only [Written.below_append, Outline.sheets_append,
      Outline.locations_append, Written.entries_append,
      List.mem_append] at hlocation ⊢
    rcases hlocation with hlocation | hlocation
    · rcases h.called location hlocation with ⟨entry, hentry, hcalls⟩
        | ⟨sheet, hsheet, hcalls⟩
      · exact .inl ⟨entry, .inl hentry, hcalls⟩
      · exact .inr ⟨sheet, .inl hsheet, hcalls⟩
    · rcases h'.called location hlocation with ⟨entry, hentry, hcalls⟩
        | ⟨sheet, hsheet, hcalls⟩
      · exact .inl ⟨entry, .inr hentry, hcalls⟩
      · exact .inr ⟨sheet, .inr hsheet, hcalls⟩

end Written.Calling

namespace Outcome

variable {outcome : Outcome} {location : Option String}
  {base : ExecutionContext}

/-- Writing a body as a function leaves that function settled, and those
below it. -/
private theorem settled_asFunction (h : outcome.written.Calling)
    (hlocation : outcome.result = .ok () → location.isSome = true) :
    ∀ sheet ∈ (outcome.asFunction location base).below.sheets,
      sheet.Settled := by
  intro sheet hsheet
  unfold asFunction at hsheet
  rw [Outline.sheets_single_function, List.mem_cons] at hsheet
  rcases hsheet with rfl | hsheet
  · cases hres : outcome.result with
    | error failure => exact .inl (stage_of_error hres)
    | ok value => exact .inr ⟨stage_of_ok hres, hlocation hres⟩
  · exact h.settled sheet hsheet

/-- The functions below a function are called from it or from below. -/
theorem called_asFunction (h : outcome.written.Calling) {called : String}
    (hcalled : called ∈ (outcome.asFunction location base).below.locations) :
    location = some called
      ∨ ∃ sheet ∈ (outcome.asFunction location base).below.sheets,
        sheet.Calls called := by
  unfold asFunction at hcalled ⊢
  rw [Outline.locations_single_function, List.mem_append,
    Option.mem_toList] at hcalled
  rw [Outline.sheets_single_function]
  rcases hcalled with hcalled | hcalled
  · exact .inl hcalled
  · rcases h.called called hcalled with ⟨entry, hentry, hcalls⟩
      | ⟨sheet, hsheet, hcalls⟩
    · exact .inr ⟨_, List.mem_cons_self, entry, hentry, hcalls⟩
    · exact .inr ⟨sheet, List.mem_cons_of_mem _ hsheet, hcalls⟩

end Outcome

namespace Plan

variable {tags : String → Prop}

/-- What the blocks of a body were made into is called by the body, also if
it fails. -/
theorem Composed.calling {plan : Plan} (h : plan.Composed tags) :
    ∀ site, (plan site).written.Calling := by
  induction h with
  | done => exact fun site => .of_below rfl
  | fail failure => exact fun site => .of_below rfl
  | enter h => exact fun site => .of_below rfl
  | leaf statement =>
      intro site
      unfold Plan.leaf
      split
      · exact .of_below rfl
      · exact .of_below rfl
  | @andThen first second _ _ ih ih' =>
      intro site
      rcases andThen_cases first second site with ⟨_, -, h⟩ | ⟨-, h⟩
      · rw [h]
        exact ih site
      · rw [h]
        exact (ih site).append (ih' _)
  | @orElse first handler _ _ ih ih' =>
      intro site
      rcases orElse_cases first handler site with ⟨-, h⟩ | ⟨failure, -, h⟩
      · rw [h]
        exact ih site
      · rw [h]
        exact (ih site).append (ih' failure _)
  | labelled label _ ih =>
      intro site
      rw [labelled_written]
      exact ih site
  | withTag _ ih =>
      intro site
      exact .append (.of_below rfl) (ih _ (site.after { tags := 1 }))
  | @block clauses body _ ih =>
      intro site
      have hinner := ih { site with context := site.context.enter clauses }
      rcases block_cases clauses body site with h | ⟨failure, hres, h⟩
        | ⟨-, -, h⟩
      · rw [h]
        exact hinner
      · -- the function is given up, and still has its calls
        rw [h]
        refine ⟨Outcome.settled_asFunction hinner fun hok => ?_,
          fun location hlocation => ?_⟩
        · rw [hres] at hok
          cases hok
        · exact .inr
            ((Outcome.called_asFunction hinner hlocation).resolve_left
              (by simp))
      · rw [h]
        refine ⟨fun sheet hsheet => ?_, fun location hlocation => ?_⟩
        · rw [Written.below_append, Outline.append_nil] at hsheet
          exact Outcome.settled_asFunction hinner (fun _ => rfl) sheet hsheet
        · rw [Written.below_append, Outline.append_nil] at hlocation ⊢
          rcases Outcome.called_asFunction hinner hlocation with hsame | hcalls
          · exact .inl
              ⟨_, List.mem_singleton_self _, by rw [Option.some.inj hsame]⟩
          · exact .inr hcalls

end Plan

-- ==================================================================== uses

/-- Every function has a `fixed` location, is called, or is listed in a tag
of the game. -/
structure Outline.Used (fixed : String → Prop) (outline : Outline) : Prop where
  settled : ∀ sheet ∈ outline.sheets, sheet.Settled
  used : ∀ location ∈ outline.locations, fixed location
    ∨ (∃ sheet ∈ outline.sheets, sheet.Calls location)
    ∨ ∃ tag ∈ Hook.gameTags, Piece.tag tag [location] ∈ outline.pieces

namespace Outline.Used

variable {fixed : String → Prop}

private theorem of_sheets {outline : Outline} (h : outline.sheets = []) :
    outline.Used fixed := by
  refine ⟨fun sheet hsheet => ?_, fun location hlocation => ?_⟩
  · rw [h] at hsheet
    cases hsheet
  · unfold Outline.locations at hlocation
    rw [h] at hlocation
    cases hlocation

private theorem append {first second : Outline} (h : first.Used fixed)
    (h' : second.Used fixed) :
    (first ++ second).Used fixed := by
  refine ⟨fun sheet hsheet => ?_, fun location hlocation => ?_⟩
  · rw [Outline.sheets_append, List.mem_append] at hsheet
    exact hsheet.elim (h.settled sheet) (h'.settled sheet)
  · simp only [Outline.sheets_append, Outline.pieces_append,
      Outline.locations_append, List.mem_append] at hlocation ⊢
    rcases hlocation with hlocation | hlocation
    · rcases h.used location hlocation with hfixed | ⟨sheet, hsheet, hcalls⟩
        | ⟨tag, htag, hpiece⟩
      · exact .inl hfixed
      · exact .inr (.inl ⟨sheet, .inl hsheet, hcalls⟩)
      · exact .inr (.inr ⟨tag, htag, .inl hpiece⟩)
    · rcases h'.used location hlocation with hfixed | ⟨sheet, hsheet, hcalls⟩
        | ⟨tag, htag, hpiece⟩
      · exact .inl hfixed
      · exact .inr (.inl ⟨sheet, .inr hsheet, hcalls⟩)
      · exact .inr (.inr ⟨tag, htag, .inr hpiece⟩)

/-- Nodes of components and methods need no use themselves. -/
private theorem single {piece : Piece} {below : Outline}
    (hpiece : piece = .component ∨ piece = .method) (h : below.Used fixed) :
    (Outline.single piece below).Used fixed := by
  have hsheets : (Outline.single piece below).sheets = below.sheets :=
    Outline.sheets_single_other (by rcases hpiece with rfl | rfl <;> rfl) below
  refine ⟨by rw [hsheets]; exact h.settled, fun location hlocation => ?_⟩
  unfold Outline.locations at hlocation
  rw [hsheets] at hlocation
  rw [hsheets, Outline.pieces_single]
  rcases h.used location hlocation with hfixed | hcalls | ⟨tag, htag, hmem⟩
  · exact .inl hfixed
  · exact .inr (.inl hcalls)
  · exact .inr (.inr ⟨tag, htag, List.mem_cons_of_mem _ hmem⟩)

private theorem gathers : Outline.Gathers (Outline.Used fixed) :=
  ⟨of_sheets rfl, append, single⟩

end Outline.Used

namespace Plan.Leaves

variable {fixed : String → Prop}

/-- A function at a fixed location is in use, and the functions below it
are called from it or below it. -/
private theorem used_function {location : String} (hfixed : fixed location)
    {body : Plan} (h : body.Composed fun _ => True) :
    Leaves (Outline.Used fixed) (.function location body) := by
  intro site
  have hinner := h.calling { site with context := .empty }
  refine ⟨Outcome.settled_asFunction hinner fun _ => rfl,
    fun called hcalled => ?_⟩
  rcases Outcome.called_asFunction hinner hcalled with hsame | hcalls
  · rw [← Option.some.inj hsame]
    exact .inl hfixed
  · exact .inr (.inl hcalls)

/-- A dispatcher is listed in the tag that its hook is run from. -/
theorem used_dispatcher (component : Component) (members : List Member)
    (hook : Hook) :
    Leaves (Outline.Used fixed) (.dispatcher component members hook) := by
  unfold Plan.dispatcher
  cases hgame : hook.gameTag? with
  | none => exact fun _ => .of_sheets rfl
  | some gameTag =>
      dsimp only
      split
      · intro site
        refine ⟨fun sheet hsheet => ?_, fun location hlocation => ?_⟩
        · rw [List.mem_singleton.1 hsheet]
          exact .inr ⟨rfl, rfl⟩
        · rw [List.mem_singleton.1 hlocation]
          exact .inr (.inr ⟨gameTag, Hook.mem_gameTags hgame,
            List.mem_cons_of_mem _ List.mem_cons_self⟩)
      · exact fun _ => .of_sheets rfl

/-- All functions of a project are in use: methods and entry points by
their locations, the others by calls or tags of the game. -/
private theorem used_components {resolved : List (Component × List Member)}
    (h : ∀ entry ∈ resolved, (∀ member ∈ entry.2, fixed member.location)
      ∧ fixed (Location.ofAttach entry.1.space entry.1.name)
      ∧ fixed (Location.ofDetach entry.1.space entry.1.name)) :
    Leaves (Outline.Used fixed) (.components resolved) := by
  refine components Outline.Used.gathers (fun entry hentry member hmember => ?_)
    fun entry hentry => ?_
  · exact ⟨used_function ((h entry hentry).1 member hmember)
      (composed_methodBody entry.1 member),
      .of_sheets (sheets_tagOutline _ _)⟩
  · obtain ⟨-, hattach, hdetach⟩ := h entry hentry
    exact ⟨used_dispatcher entry.1 entry.2,
      used_function hattach (.block _ (composed_attachBody fun _ _ => trivial)),
      used_function hdetach (.block _ (composed_detachBody fun _ _ => trivial))⟩

end Plan.Leaves

-- =================================================================== packs

namespace Project

/-- A finished sheet that calls a location is a function that calls it. -/
theorem calls_packOf (project : Project) {outline : Outline} {sheet : Sheet}
    (hsheet : sheet ∈ outline.sheets) {location called : String}
    (hstage : sheet.stage = .closed)
    (hlocation : sheet.location = some location) (hcalls : sheet.Calls called) :
    ∃ caller ∈ (project.packOf outline).functions, caller.Calls called := by
  obtain ⟨entry, hentry, hcommand⟩ := hcalls
  refine ⟨_,
    List.mem_filterMap.2 ⟨sheet, hsheet, Sheet.artifact?_eq hstage hlocation⟩,
    ?_⟩
  refine ⟨entry.context.clauses.drop sheet.base.length, List.mem_map_of_mem ?_⟩
  rw [← hcommand]
  exact List.mem_map_of_mem hentry

/-- What a build rests on that succeeded, of whatever components. -/
theorem stages_of_build {project : Project} {components : List Component}
    {pack : Pack} (h : project.build components = .ok pack) :
    ∃ resolved tree, project.Makes components resolved tree 0
      ∧ tree.Shows 0 [0] (.single (.project project.packDescription)
          (project.outcome resolved).written.below)
      ∧ pack = project.packOf (project.outcome resolved).written.below
      ∧ Name.isValidNamespace project.space = true
      ∧ ∀ entry ∈ resolved, entry.1.space = project.space
          ∧ ∃ lineage, entry.2 = entry.1.membersAlong lineage := by
  -- every stage of the build that fails contradicts its success
  rw [build_eq] at h
  rcases Registry.registerAll_cases components Registry.holds_empty
      ⟨fun c hc => (nomatch hc), .nil⟩ with
    ⟨registry, hok, hholds, -⟩
      | ⟨before, component, after, defect, -, -, -, herror⟩
  · rw [List.nil_append] at hholds
    rw [hok] at h
    dsimp only at h
    split at h
    · cases h
    · next hvalid =>
      rcases resolveAll_cases registry
        (registry.componentsOf project.space) with
        ⟨resolved, hresolved, hmap, hmembers⟩
          | ⟨before, component, after, defect, hsplit, hbefore, hdefect⟩
      · rw [hresolved] at h
        dsimp only at h
        obtain ⟨state, hrun, hshows⟩ := project.buildTree_runs resolved
        split at h
        · cases h
        · next hresult =>
          cases h
          rw [hresult] at hrun
          refine ⟨resolved, state.tree,
            ⟨⟨registry, hok, hresolved⟩, state, hrun, rfl⟩, hshows,
            rfl, by simpa using hvalid, fun entry hentry => ?_⟩
          have hmem : entry.1 ∈ registry.componentsOf project.space :=
            hmap ▸ List.mem_map_of_mem hentry
          refine ⟨(hholds.mem_componentsOf.1 hmem).2, ?_⟩
          have hentries := hmembers entry hentry
          rw [Registry.members_eq] at hentries
          cases hlineage : registry.lineage entry.1 with
          | error defect =>
              rw [hlineage] at hentries
              cases hentries
          | ok lineage =>
              rw [hlineage] at hentries
              exact ⟨lineage, (Except.ok.inj hentries).symm⟩
      · rw [hsplit, resolveAll_error registry after hdefect hbefore] at h
        cases h
  · rw [herror] at h
    cases h

/-- Whatever a build writes at a generated location is used. -/
theorem used_outcome {project : Project}
    {resolved : List (Component × List Member)}
    (hspace : Name.isValidNamespace project.space = true)
    (h : ∀ entry ∈ resolved, entry.1.space = project.space
      ∧ ∃ lineage, entry.2 = entry.1.membersAlong lineage) :
    (project.outcome resolved).written.below.Used
      fun location => Location.isGenerated project.space location = false := by
  have hbrace : '\x7b' ∉ project.space.toList :=
    Name.notMem_of_isValidNamespace hspace (by decide)
  have hfixed : ∀ place : FunctionPlace, place.component?.isSome →
      Location.isGenerated project.space (place.location project.space)
        = false := by
    intro place hplace
    rw [FunctionPlace.isGenerated_location hbrace, ← Option.not_isSome, hplace]
    rfl
  refine Plan.Leaves.used_components (fun entry hentry => ?_) _
  obtain ⟨hsame, lineage, hmembers⟩ := h entry hentry
  refine ⟨fun member hmember => ?_, ?_, ?_⟩
  · rw [hmembers] at hmember
    rw [Component.location_eq hmember, hsame]
    exact hfixed _ rfl
  · rw [hsame]
    exact hfixed (.attach entry.1.name) rfl
  · rw [hsame]
    exact hfixed (.detach entry.1.name) rfl

/-- A generated function of a pack is called by a function of the pack, or
listed in a tag of the game, or else a function called it that was given
up. -/
theorem generated_used (project : Project) (components : List Component)
    {pack : Pack} (h : project.build components = .ok pack) :
    ∃ resolved tree root, project.Makes components resolved tree root
      ∧ pack = project.collect tree root
      ∧ ∀ function ∈ pack.functions,
          Location.isGenerated project.space function.location = true →
          (∃ caller ∈ pack.functions, caller.Calls function.location)
          ∨ (∃ tag ∈ pack.tags,
            tag.location ∈ ["minecraft:tick", "minecraft:load"]
              ∧ function.location ∈ tag.members)
          ∨ ∃ draft ∈ tree.drafts root, draft.stage = .discarded
              ∧ draft.Calls function.location := by
  obtain ⟨resolved, tree, hmakes, hshows, rfl, hspace, hresolved⟩ :=
    stages_of_build h
  have hused := used_outcome hspace hresolved
  refine ⟨resolved, tree, 0, hmakes, (collect_eq _ hshows).symm,
    fun function hfunction hgen => ?_⟩
  obtain ⟨sheet, hsheet, hartifact⟩ := List.mem_filterMap.1 hfunction
  have hlocation : sheet.location = some function.location := by
    unfold Sheet.artifact? Draft.artifact? at hartifact
    split at hartifact
    · obtain ⟨location, hsome, rfl⟩ := Option.map_eq_some_iff.1 hartifact
      exact hsome
    · cases hartifact
  -- its location is not fixed, so it is called or listed; the caller may have
  -- been given up
  rcases hused.used function.location
    (List.mem_filterMap.2 ⟨sheet, hsheet, hlocation⟩) with
    hfixed | ⟨caller, hcaller, hcalls⟩ | ⟨tag, htag, hpiece⟩
  · rw [hgen] at hfixed
    cases hfixed
  · rcases hused.settled caller hcaller with hdiscarded | ⟨hclosed, hplaced⟩
    · refine .inr (.inr ⟨caller.draft, ?_, hdiscarded, ?_⟩)
      · rw [BuildTree.drafts_eq hshows]
        exact List.mem_map_of_mem hcaller
      · obtain ⟨entry, hentry, hcommand⟩ := hcalls
        exact ⟨entry.context,
          List.mem_map.2 ⟨entry, hentry, by rw [← hcommand]; rfl⟩⟩
    · obtain ⟨place, hplace⟩ := Option.isSome_iff_exists.1 hplaced
      exact .inl (project.calls_packOf hcaller hclosed hplace hcalls)
  · obtain ⟨found, hfound, hsame, hmem⟩ :=
      project.mem_packOf_of_listed hpiece (List.mem_singleton_self _)
    exact .inr (.inl ⟨found, hfound, hsame ▸ htag, hmem⟩)

end Project

-- =============================================================== a leftover

/-- A line ends with its last token. -/
theorem Command.suffix_render (last : String) : ∀ tokens : List String,
    (Command.renderToken last).toList
      <:+ (⟨tokens ++ [last]⟩ : Command).render.toList
  | [] => by simp [Command.render]
  | token :: rest => by
      have ih := suffix_render last rest
      unfold Command.render at ih ⊢
      rw [String.toList_intercalate, List.map_map] at ih ⊢
      refine ih.trans ?_
      rw [List.cons_append, List.map_cons,
        List.intercalate_cons_of_ne_nil (by simp)]
      exact List.suffix_append_of_suffix List.suffix_rfl

namespace Leftover

def project : Project := { name := "Demo", space := "demo" }

/-- A block is finished inside a block that fails, and the failure is
caught. -/
def component : Component where
  space := "demo"
  name := "c"
  methods :=
    [{ name := "go"
       body :=
         [.attempt
            [.execute [⟨["as", "@a"]⟩]
              [.execute [⟨["at", "@s"]⟩]
                [.perform (.say "one"), .perform (.say "two")],
               .fail (.foreign "boom")]]] }]

def pack : Pack where
  name := "Demo"
  space := "demo"
  description := "An endermite project\n\nVersion 0.1.0\nBy N/A"
  functions :=
    [⟨"demo:component/c/go", ["say caught boom"]⟩,
     ⟨"demo:generated/00000000", ["say one", "say two"]⟩,
     ⟨"demo:attach/c",
      ["execute unless entity @s[tag=demo.component.c] run tag @s add demo.component.c"]⟩,
     ⟨"demo:detach/c",
      ["execute if entity @s[tag=demo.component.c] run tag @s remove demo.component.c"]⟩]
  tags := []

set_option maxRecDepth 100000 in
private theorem build : project.build [component] = .ok pack := by
  decide +kernel

/-- No line ends with the location of the function that was left. -/
theorem not_called :
    ∀ caller ∈ pack.functions, ¬ caller.Calls "demo:generated/00000000" := by
  rintro caller hcaller ⟨clauses, hline⟩
  have hsuffix := Command.suffix_render "demo:generated/00000000"
    (Clause.wrapper clauses ++ ["function"])
  have hnone : ∀ function ∈ pack.functions, ∀ line ∈ function.commands,
      ¬ (Command.renderToken "demo:generated/00000000").toList
        <:+ line.toList := by
    decide +kernel
  refine hnone caller hcaller _ hline ?_
  rwa [List.append_assoc] at hsuffix

end Leftover

/-- The function is in the pack because the block that called it was given
up. -/
theorem Project.leftover_discarded :
    ∃ resolved tree root,
      Leftover.project.Makes [Leftover.component] resolved tree root
      ∧ ∃ draft ∈ tree.drafts root,
          draft.stage = .discarded ∧ draft.Calls "demo:generated/00000000" := by
  obtain ⟨resolved, tree, root, hmakes, -, hused⟩ :=
    Leftover.project.generated_used [Leftover.component] Leftover.build
  refine ⟨resolved, tree, root, hmakes, ?_⟩
  have hmem :
      (⟨"demo:generated/00000000", ["say one", "say two"]⟩ : PackFunction)
      ∈ Leftover.pack.functions := by decide
  rcases hused _ hmem
    (by decide) with ⟨caller, hcaller, hcalls⟩ | ⟨tag, htag, -⟩ | hdraft
  · exact absurd hcalls (Leftover.not_called caller hcaller)
  · cases htag
  · exact hdraft

/-- A pack can have a generated function that nothing in it calls or
lists. -/
theorem Project.generated_unused :
    ∃ pack, Leftover.project.build [Leftover.component] = .ok pack
      ∧ ∃ function ∈ pack.functions,
          Location.isGenerated Leftover.project.space function.location = true
          ∧ (∀ caller ∈ pack.functions, ¬ caller.Calls function.location)
          ∧ ∀ tag ∈ pack.tags, function.location ∉ tag.members :=
  ⟨Leftover.pack, Leftover.build,
    ⟨"demo:generated/00000000", ["say one", "say two"]⟩,
    by decide, by decide, Leftover.not_called, fun _ htag => (nomatch htag)⟩

end Datapack
