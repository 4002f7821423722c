/-
Adding a component behind the others.

Components are built in the order of their names, from one stream of
generated names and one call table. A component whose name comes after all
others is built last, so it takes its names after theirs, and it can disturb
them only through the table. The table grows by its entry alone.

A plan is `Steady` if it does not notice when the table grows, as long as it
ends well. It is the end that matters: a call that leads nowhere may lead
somewhere in a larger table, but a build that ends well has no such call.
All plans of statements are steady. So the old components come to what they
came to before, and the new one writes behind it
(`ProjectManifest.addition_extends`).
-/
import Datapack.Proofs.Agreement
import Datapack.Proofs.Extension
import Datapack.Proofs.Failures
import Datapack.Proofs.Independence
import Datapack.Proofs.Tags

namespace Datapack

namespace Plan

-- ================================================================== steady

/-- The plan comes to the same with a larger call table, if it ends well. -/
def Steady (plan : Plan) : Prop :=
  ∀ (site : Site) (calls : CallTable),
    site.calls.PartOf calls → (plan site).result = .ok () →
      plan { site with calls := calls } = plan site

/-- A block ends well only if its body does. -/
theorem result_of_block {clauses : List Clause} {body : Plan} {site : Site}
    (h : (body.block clauses site).result = .ok ()) :
    (body { site with context := site.context.enter clauses }).result
      = .ok () := by
  rcases block_cases clauses body site with heq | ⟨failure, -, heq⟩
    | ⟨hok, -, -⟩
  · rwa [heq] at h
  · rw [heq] at h
    cases h
  · exact hok

namespace Steady

variable {plan next : Plan}

private theorem done : Steady .done := fun _ _ _ _ => rfl

/-- Entries are steady that do not depend on the table. -/
theorem enter {entries : Site → List SheetEntry}
    (h : ∀ (site : Site) calls,
      entries { site with calls := calls } = entries site) :
    Steady (.enter entries) := by
  intro site calls _ _
  unfold Plan.enter
  rw [h]

private theorem tag (value location : String) : Steady (.tag value location) :=
  fun _ _ _ _ => rfl

/-- A call leads where it led. -/
theorem leaf (statement : Statement) : Steady (.leaf statement) := by
  intro site calls hpart hres
  unfold Plan.leaf at hres ⊢
  cases hcommand : statement.command site.toGround with
  | error defect =>
      rw [hcommand] at hres
      cases hres
  | ok command =>
      have hgrown : statement.command ⟨site.space, calls, site.component⟩
          = .ok command :=
        hpart.command hcommand
      simp only [hgrown]

/-- Steps in a row are steady: the first ends well too, and leaves the same
site behind. -/
private theorem andThen (h : Steady plan) (h' : Steady next) :
    Steady (plan.andThen next) := by
  intro site calls hpart hres
  obtain ⟨hok, hok', -⟩ := andThen_ok hres
  have hfirst := h site calls hpart hok
  have hsecond := h' (site.after (plan site).written) calls hpart hok'
  unfold Plan.andThen
  simp only [hfirst, hok]
  exact congrArg (fun outcome : Outcome =>
    (⟨(plan site).written ++ outcome.written, outcome.result⟩ : Outcome))
    hsecond

private theorem each {α : Type} {plan : α → Plan} {list : List α}
    (h : ∀ a ∈ list, Steady (plan a)) :
    Steady (Plan.each plan list) := by
  induction list with
  | nil => exact done
  | cons a rest ih =>
      exact (h a List.mem_cons_self).andThen
        (ih fun b hb => h b (List.mem_cons_of_mem a hb))

private theorem labelled (label : String) (h : Steady plan) :
    Steady (plan.labelled label) := by
  intro site calls hpart hres
  have hsame := h site calls hpart (result_of_labelled hres)
  unfold Plan.labelled
  simp only [hsame]

private theorem withTag {plan : String → Plan} (h : ∀ tag, Steady (plan tag)) :
    Steady (Plan.withTag plan) := by
  intro site calls hpart hres
  have hsame := h site.tags.head (site.after { tags := 1 }) calls hpart hres
  exact congrArg (fun outcome : Outcome =>
    (⟨{ tags := 1 } ++ outcome.written, outcome.result⟩ : Outcome)) hsame

/-- The name of a function comes from its stream, so the table has no
part in it. -/
private theorem withFunction {plan : String → Plan}
    (h : ∀ location, Steady (plan location)) :
    Steady (Plan.withFunction plan) := by
  intro site calls hpart hres
  have hsame :=
    h site.functions.head (site.after { functions := 1 }) calls hpart hres
  exact congrArg (fun outcome : Outcome =>
    (⟨{ functions := 1 } ++ outcome.written, outcome.result⟩ : Outcome)) hsame

/-- A block is given up after looking at its body only, and the body is
steady. -/
private theorem block (clauses : List Clause) (h : Steady plan) :
    Steady (plan.block clauses) := by
  intro site calls hpart hres
  have hsame :=
    h { site with context := site.context.enter clauses } calls hpart
      (result_of_block hres)
  unfold Plan.block
  simp only [hsame]

private theorem function (location : String) (h : Steady plan) :
    Steady (.function location plan) := by
  intro site calls hpart hres
  have hsame := h { site with context := .empty } calls hpart hres
  unfold Plan.function
  simp only [hsame]

/-- What is hung below a piece is what was written before. -/
private theorem beneath (piece : Piece) (h : Steady plan) :
    Steady (plan.beneath piece) := by
  intro site calls hpart hres
  unfold Plan.beneath
  rw [h site calls hpart hres]

private theorem within (component : String) (h : Steady plan) :
    Steady (plan.within component) :=
  fun site calls hpart hres =>
    h { site with component := component } calls hpart hres

/-- A guard adds lines that name its tag, and looks up none of them. -/
private theorem guarded (component key : String) (h : Steady plan) :
    Steady (.guarded component key plan) := by
  refine withTag fun tag => (enter fun _ _ => rfl).andThen (block _ ?_)
  exact (enter fun _ _ => rfl).andThen
    ((h.block _).andThen (enter fun _ _ => rfl))

end Steady

end Plan

-- ================================================================== bodies

mutual

/-- Every statement is steady. The recursion is over the blocks in it. -/
theorem Statement.steady : ∀ statement : Statement, Plan.Steady statement.plan
  | .execute clauses body => by
      rw [Statement.plan]
      exact .block clauses (Statement.steadyAll body)
  | .run .. | .say .. | .log .. | .error .. | .addTag .. | .removeTag ..
  | .function .. | .functionTag .. | .invoke .. | .call .. | .attach ..
  | .detach .. => by
      rw [Statement.plan]
      · exact .leaf _
      all_goals exact fun _ _ h => by cases h

/-- A body of statements is steady. -/
private theorem Statement.steadyAll : ∀ body : List Statement,
  Plan.Steady (Statement.planAll body)
  | [] => by
      rw [Statement.planAll]
      exact .done
  | statement :: rest => by
      rw [Statement.planAll]
      exact .andThen statement.steady (Statement.steadyAll rest)

end

namespace Plan

/-- A method is steady whether it is guarded or not. -/
private theorem steady_methodBody (component : Component) {member : Member}
    (h : member.method.IsStatements) :
    Steady (methodBody component member) := by
  obtain ⟨body, hbody⟩ := h
  have hsteady : Steady (Action.planAll member.method.body) := by
    rw [hbody, Action.planAll_perform]
    exact Statement.steadyAll body
  unfold methodBody
  split
  · exact hsteady.guarded _ _
  · exact hsteady

/-- The lines of a hook call tags, not methods. -/
private theorem steady_runHook (component : Component) (members : List Member)
    (hook : Hook) :
    Steady (runHook component members hook) := by
  unfold runHook
  split
  · exact .enter fun _ _ => rfl
  · exact .done

private theorem steady_dispatcher (component : Component)
    (members : List Member) (hook : Hook) :
    Steady (dispatcher component members hook) := by
  unfold dispatcher
  split
  · exact .done
  · split
    · exact .withFunction fun location =>
        .andThen (.function location (.enter fun _ _ => rfl)) (.tag location _)
    · exact .done

/-- The entry points look up nothing in the table. -/
private theorem steady_entryPoints (component : Component)
    (members : List Member) :
    Steady (entryPoints component members) := by
  unfold entryPoints
  split
  · exact .done
  · refine .andThen
      (.each fun hook _ => steady_dispatcher component members hook)
      (.andThen ?_ ?_)
    · exact .function _
        (.block _ (.andThen (.enter fun _ _ => rfl) (steady_runHook _ _ _)))
    · exact .function _
        (.block _ (.andThen (steady_runHook _ _ _) (.enter fun _ _ => rfl)))

/-- All components of a project are steady together, since their
methods are. -/
private theorem steady_components {resolved : List (Component × List Member)}
    (h : ∀ entry ∈ resolved, ∀ member ∈ entry.2, member.method.IsStatements) :
    Steady (components resolved) := by
  refine .each
    fun entry hentry => .labelled _ (.within _ (.beneath _ (.andThen ?_ ?_)))
  · refine .each fun member hmember => .labelled _ (.beneath _ (.andThen ?_ ?_))
    · exact .function _
        (steady_methodBody entry.1 (h entry hentry member hmember))
    · exact .each fun location _ => .tag _ location
  · exact steady_entryPoints entry.1 entry.2

/-- A list in two parts is built in two steps. -/
private theorem each_append {α : Type} (plan : α → Plan)
    (first second : List α) :
    each plan (first ++ second)
      = (each plan first).andThen (each plan second) := by
  induction first with
  | nil => exact (done_andThen _).symm
  | cons a rest ih => rw [List.cons_append, each, each, ih, andThen_assoc]

end Plan

-- =============================================================== components

/-- A component with a name behind all others is resolved behind them, and
they are resolved as they were. -/
theorem Resolution.eq_append {space : String}
    {components whole : List Component}
    {resolved resolved' : List (Component × List Member)} {added : Component}
    (h : Resolution components resolved) (h' : Resolution whole resolved')
    (hhouse : Household space whole) (hwhole : whole.Perm (added :: components))
    (hlast : ∀ component ∈ components, component.name < added.name) :
    ∃ members, resolved' = resolved ++ [(added, members)] := by
  have hsub : components ⊆ whole :=
    fun c hc => hwhole.mem_iff.2 (List.mem_cons_of_mem added hc)
  obtain ⟨members, hentry⟩ :=
    h'.exists_entry (hwhole.mem_iff.2 List.mem_cons_self)
  refine ⟨members, h'.unique hhouse ⟨?_, ?_, ?_⟩⟩
  · rw [List.map_append]
    exact List.perm_append_comm.trans ((h.perm.cons added).trans hwhole.symm)
  · rw [List.map_append]
    refine List.pairwise_append.2 ⟨h.sorted, List.pairwise_singleton .., ?_⟩
    intro component hcomponent last hmem
    rw [List.mem_singleton.1 hmem]
    exact hlast component (h.perm.mem_iff.1 hcomponent)
  · intro entry hmem
    rcases List.mem_append.1 hmem with hold | hnew
    · obtain ⟨lineage, hwalk, hmembers⟩ := h.members entry hold
      exact ⟨lineage, hwalk.mono hsub rfl, hmembers⟩
    · rw [List.mem_singleton.1 hnew]
      exact h'.members _ hentry

namespace Project

/-- What the components come to that were there is written first, as it was,
if they can be built without the one that is added. -/
theorem below_append (project : Project)
    {resolved : List (Component × List Member)}
    {entry : Component × List Member}
    (hbodies : ∀ entry ∈ resolved,
      ∀ member ∈ entry.2, member.method.IsStatements)
      (hnodup : ((resolved ++ [entry]).map fun entry => entry.1.name).Nodup)
    (hok : (project.outcome resolved).result = .ok ()) :
    ∃ added, (project.outcome (resolved ++ [entry])).written.below
      = (project.outcome resolved).written.below ++ added := by
  let calls := CallTable.ofComponents (resolved ++ [entry])
  have hpart : (CallTable.ofComponents resolved).PartOf calls :=
    CallTable.partOf_ofComponents hnodup (List.subset_append_left ..)
  have hsame : Plan.components resolved (.initial project.space calls)
      = project.outcome resolved :=
    Plan.steady_components hbodies
      (.initial project.space (.ofComponents resolved)) calls hpart hok
  have hwritten : (project.outcome (resolved ++ [entry])).written
      = (project.outcome resolved).written
        ++ (Plan.components [entry] ((Site.initial project.space calls).after
            (project.outcome resolved).written)).written := by
    show (Plan.components (resolved ++ [entry])
      (.initial project.space calls)).written = _
    unfold Plan.components at hsame ⊢
    rw [Plan.each_append]
    unfold Plan.andThen
    rw [hsame, hok]
  exact ⟨_, (congrArg Written.below hwritten).trans (Written.below_append ..)⟩

variable (project : Project) (outline added : Outline)

/-- What is written behind an outline comes behind its functions in
the pack. -/
private theorem functions_prefix :
    (project.packOf outline).functions
      <+: (project.packOf (outline ++ added)).functions := by
  refine ⟨added.artifacts, ?_⟩
  show outline.artifacts ++ added.artifacts = (outline ++ added).artifacts
  unfold Outline.artifacts
  rw [Outline.sheets_append, List.filterMap_append]

/-- What is listed later in a tag comes behind what it has. -/
theorem tags_prefix {tag : PackTag} (h : tag ∈ (project.packOf outline).tags) :
    ∃ tag' ∈ (project.packOf (outline ++ added)).tags,
      tag'.location = tag.location
      ∧ tag.members <+: tag'.members := by
  obtain ⟨hlisted, hmembers⟩ := mem_tags_packOf.1 h
  refine ⟨⟨tag.location,
    ((outline ++ added).listed tag.location).flatten.eraseDups⟩,
    mem_tags_packOf.2 ⟨?_, rfl⟩, rfl, ?_⟩
  · rw [Outline.listed_append]
    exact List.append_ne_nil_of_left_ne_nil hlisted _
  · rw [hmembers, Outline.listed_append, List.flatten_append,
      List.eraseDups_append]
    exact List.prefix_append ..

end Project

/-- A component with a name behind those of all others, added anywhere to a
project that builds, leaves the pack as it was and adds to it: functions
behind the others, members behind the others in a tag, and nothing to the
description. -/
theorem ProjectManifest.addition_extends (manifest : ProjectManifest)
    (files : List (String × ComponentManifest)) {pack : Pack}
    (h : manifest.toProject.build (manifest.components files) = .ok pack)
    (file : String) (added : ComponentManifest)
    (hlast : ∀ component ∈ manifest.components files,
      component.name < (added.toComponent manifest.space file).name)
    {files' : List (String × ComponentManifest)}
    (hperm : files'.Perm ((file, added) :: files)) {pack' : Pack}
    (h' : manifest.toProject.build (manifest.components files') = .ok pack') :
    pack.functions <+: pack'.functions
      ∧ (∀ tag ∈ pack.tags, ∃ tag' ∈ pack'.tags,
          tag'.location = tag.location ∧ tag.members <+: tag'.members)
      ∧ pack'.description = pack.description := by
  obtain ⟨resolved, hbuilt⟩ := built_of_build h
  obtain ⟨resolved', hbuilt'⟩ := built_of_build h'
  have hhouse : Household manifest.space (manifest.components files') :=
    ⟨hbuilt'.registrable, manifest.space_components files'⟩
  obtain ⟨members, rfl⟩ :=
    hbuilt.resolution.eq_append hbuilt'.resolution hhouse (hperm.map _) hlast
  have hbodies := hbuilt.resolution.isStatements
    fun component hmem => (manifest.described files component hmem).bodies
  obtain ⟨below, hbelow⟩ := manifest.toProject.below_append hbodies
    hbuilt'.resolution.nodup_names hbuilt.result
  rw [hbuilt.pack, hbuilt'.pack, hbelow]
  exact ⟨Project.functions_prefix ..,
    fun tag htag => Project.tags_prefix _ _ _ htag, rfl⟩

-- =============================================================== an example

namespace Chimes

def manifest : ProjectManifest := { name := "Demo", space := "demo" }

/-- Two components with a generated function each, listed in one tag. -/
def files : List (String × ComponentManifest) :=
  [("Bell",
    { methods :=
        [{ name := "ring", hooks := { tick := true }, tags := .ofList ["sounds"]
           body := [.execute [⟨["as", "@a"]⟩] [.say "ding", .say "dong"]] }] }),
   ("Anvil",
    { methods :=
        [{ name := "hit", tags := .ofList ["sounds"]
           body := [.execute [⟨["as", "@p"]⟩]
             [.say "clang", .call "Bell" "ring"]] }] })]

/-- A bell with a method of its own. -/
def gong : ComponentManifest where
  base := some "Bell"
  methods :=
    [{ name := "hum", hooks := { tick := true }, tags := .ofList ["sounds"] }]

/-- The gong is declared between the two. -/
def more : List (String × ComponentManifest) :=
  files.take 1 ++ ("Gong", gong) :: files.drop 1

set_option maxRecDepth 100000 in
private theorem build_files : ∃ pack,
  manifest.toProject.build (manifest.components files) = .ok pack :=
  exists_of_isOk (by decide +kernel)

set_option maxRecDepth 100000 in
private theorem build_more : ∃ pack,
  manifest.toProject.build (manifest.components more) = .ok pack :=
  exists_of_isOk (by decide +kernel)

private theorem gong_last : ∀ component ∈ manifest.components files,
    component.name < (gong.toComponent "demo" "Gong").name := by
  decide +kernel

end Chimes

/-- The gong is declared between the others and built behind them. -/
theorem ProjectManifest.gong_extends :
    ∃ pack pack',
      Chimes.manifest.toProject.build (Chimes.manifest.components Chimes.files)
        = .ok pack
      ∧ Chimes.manifest.toProject.build (Chimes.manifest.components Chimes.more)
        = .ok pack'
      ∧ pack.functions <+: pack'.functions
      ∧ (∀ tag ∈ pack.tags, ∃ tag' ∈ pack'.tags,
          tag'.location = tag.location ∧ tag.members <+: tag'.members)
      ∧ pack'.description = pack.description := by
  obtain ⟨pack, hbuild⟩ := Chimes.build_files
  obtain ⟨pack', hbuild'⟩ := Chimes.build_more
  exact ⟨pack, pack', hbuild, hbuild',
    addition_extends Chimes.manifest Chimes.files hbuild "Gong" Chimes.gong
      Chimes.gong_last (.swap ..) hbuild'⟩

end Datapack
