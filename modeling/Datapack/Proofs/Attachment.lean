/-
Attaching and detaching components.

The marker of a component is a tag that the entities have that the component
is attached to. The functions that attach and detach read it and set it, so
that calls of them, in any number and order, behave like a switch with two
positions (`ProjectManifest.attachment_switches`):

- after a call the marker is there if and only if the call was to attach;
- the call that turns the switch on runs the `init` methods, after the
  marker was put on, and the one that turns it off runs the `destroy`
  methods, before the marker is taken off;
- a call that finds the switch in its position does nothing.

# Shapes

What the functions do under the test of the marker is a block, so it stands
in their line if it is one command, and in a generated function otherwise.
`Pack.Guards` says both in one, and `World.run_guards` that it makes no
difference to a run.
-/
import Datapack.Proofs.Entity
import Datapack.Proofs.References
import Mathlib.Data.List.Nodup

namespace Datapack

-- ================================================================= shapes

/-- The function at the location does the operations under the clause: one
in its line, and more in a generated function that its line calls. -/
inductive Pack.Guards (pack : Pack) (location : String) (clause : Clause) :
    List Operation → Prop
  | inlined {operation : Operation} :
      ⟨location,
        [(operation.command.behind (Clause.wrapper [clause])).render]⟩
        ∈ pack.functions →
      Guards pack location clause [operation]
  | moved {number : Nat} {operations : List Operation} :
      ⟨location,
        [((Operation.function
          (NameStream.nameAt (Location.functionTemplate pack.space)
            number)).command.behind (Clause.wrapper [clause])).render]⟩
            ∈ pack.functions →
      ⟨NameStream.nameAt (Location.functionTemplate pack.space) number,
        operations.map fun operation => operation.command.render⟩
        ∈ pack.functions →
      Guards pack location clause operations

/-- An operation as it is entered under a clause. -/
def Operation.entry (clause : Clause) (cause : Operation → Cause)
    (operation : Operation) :
    SheetEntry :=
  ⟨⟨[clause]⟩, operation.command, cause operation⟩

/-- A function that consists of a block under a clause guards what the block
enters. -/
theorem Project.guards_packOf {project : Project} {outline : Outline}
    {location : String} {clause : Clause} (hclause : clause.isEmpty = false)
    {body : Plan} {site : Site}
    (hnames : site.functions.template = Location.functionTemplate project.space)
    {operations : List Operation} {cause : Operation → Cause}
    (hne : operations ≠ []) (hbody : body { site with context := ⟨[clause]⟩ }
      = ⟨{ entries := operations.map (Operation.entry clause cause) }, .ok ()⟩)
    (hpieces :
      (Plan.function location (.block [clause] body) site).written.below.pieces
      ⊆ outline.pieces) :
    (project.packOf outline).Guards location clause operations := by
  have hcontext : ExecutionContext.empty.enter [clause] = ⟨[clause]⟩ := by
    simp [ExecutionContext.enter, ExecutionContext.empty, hclause]
  have hfunction : ∀ {location : String} {base : ExecutionContext}
      {entries : List SheetEntry},
      Piece.function ⟨some location, base, .closed, entries⟩ ∈ outline.pieces →
        (⟨location, (entries.map (SheetEntry.line base)).map Command.render⟩ :
          PackFunction)
        ∈ (project.packOf outline).functions := fun hpiece =>
    List.mem_filterMap.2
      ⟨_, Outline.mem_sheets.2 hpiece, Sheet.artifact?_eq rfl rfl⟩
  unfold Plan.function Plan.block at hpieces
  dsimp only at hpieces
  rw [hcontext, if_neg (by simp [ExecutionContext.empty]), hbody] at hpieces
  dsimp only at hpieces
  -- a single operation stands in the function itself, several are moved to
  -- one of their own
  match operations, hne with
  | [operation], _ =>
      exact .inlined (hfunction (hpieces List.mem_cons_self))
  | first :: second :: rest, _ =>
      rw [if_neg (by simp)] at hpieces
      have hlocation : (site.functions.drop 0).head
          = NameStream.nameAt (Location.functionTemplate project.space)
            site.functions.position := by
        rw [← hnames]
        rfl
      have hlines :
          ((first :: second :: rest).map (Operation.entry clause cause)).map
            (fun entry => (entry.line ⟨[clause]⟩).render)
          = (first :: second :: rest).map
            fun operation => operation.command.render := by
        rw [List.map_map]
        rfl
      have houter := hfunction (hpieces List.mem_cons_self)
      have hinner :=
        hfunction (hpieces (List.mem_cons_of_mem _ List.mem_cons_self))
      rw [hlocation] at houter hinner
      rw [List.map_map] at hinner
      exact .moved houter (hlines ▸ hinner)

-- ============================================================ entry points

namespace Build

/-- The operations that run the methods of a hook, if there are any. -/
def hookOperations (component : Component) (members : List Member)
    (hook : Hook) :
    List Operation :=
  if anyHooked members hook then
    [.functionTag (Location.callbackTag component.space hook component.name)]
  else []

def attachOperations (component : Component) (members : List Member) :
    List Operation :=
  .addTag (Location.marker component.space component.name)
    :: hookOperations component members .init

def detachOperations (component : Component) (members : List Member) :
    List Operation :=
  hookOperations component members .destroy
    ++ [.removeTag (Location.marker component.space component.name)]

end Build

namespace Plan

/-- The cause of an operation of an entry point. -/
def causeOf : Operation → Cause
  | .functionTag _ => .hook
  | _ => .mark

/-- The body of the function that attaches comes to the operations listed
for it, under the clause of the function. -/
private theorem attachBody_eq (component : Component) (members : List Member)
    (clause : Clause) (site : Site) :
    attachBody component members { site with context := ⟨[clause]⟩ }
      = ⟨{ entries := (Build.attachOperations component members).map
            (Operation.entry clause causeOf) }, .ok ()⟩ := by
  unfold attachBody runHook Build.attachOperations Build.hookOperations
  split
  · rfl
  · rfl

/-- The body of the function that detaches comes to the operations listed
for it, under the clause of the function. -/
private theorem detachBody_eq (component : Component) (members : List Member)
    (clause : Clause) (site : Site) :
    detachBody component members { site with context := ⟨[clause]⟩ }
      = ⟨{ entries := (Build.detachOperations component members).map
            (Operation.entry clause causeOf) }, .ok ()⟩ := by
  unfold detachBody runHook Build.detachOperations Build.hookOperations
  split
  · rfl
  · rfl

/-- What two steps leave is part of what they leave together. -/
theorem andThen_contains {first second : Plan} {site : Site}
    (h : (first.andThen second site).result = .ok ()) :
    (first site).written.below.pieces
      ⊆ (first.andThen second site).written.below.pieces
      ∧ ∃ next : Site, next.functions.template = site.functions.template
        ∧ (second next).result = .ok ()
        ∧ (second next).written.below.pieces
            ⊆ (first.andThen second site).written.below.pieces := by
  obtain ⟨-, hok, hwritten⟩ := andThen_ok h
  rw [hwritten, Written.below_append, Outline.pieces_append]
  exact ⟨List.subset_append_left .., site.after (first site).written, rfl, hok,
    List.subset_append_right ..⟩

/-- What the functions leave that attach and detach a component is part of
what the project leaves. -/
theorem entryPoints_contain {resolved : List (Component × List Member)}
    {component : Component} {members : List Member}
    (hentry : (component, members) ∈ resolved)
    (habstract : component.isAbstract = false) {site : Site}
    (hres : (components resolved site).result = .ok ()) :
    ∃ first second : Site, first.functions.template = site.functions.template
      ∧ second.functions.template = site.functions.template
      ∧ (attachFunction component members first).written.below.pieces
          ⊆ (components resolved site).written.below.pieces
      ∧ (detachFunction component members second).written.below.pieces
          ⊆ (components resolved site).written.below.pieces := by
  obtain ⟨here, -, hnames, hok, hsub⟩ := each_contains hentry hres
  have hlabel := result_of_labelled hok
  obtain ⟨-, points, hpoints, hok, hsub'⟩ := andThen_contains hlabel
  -- the pieces of the component are its node and those of its parts
  have hcomponent :
      (((each (method component) members).andThen
        (entryPoints component members))
        { here with component := component.name }).written.below.pieces
      ⊆ (Plan.component component members here).written.below.pieces := by
    unfold Plan.component
    rw [labelled_written]
    unfold within Plan.beneath Outcome.beneath
    rw [Outline.pieces_single]
    exact List.subset_cons_self ..
  have hplan : entryPoints component members
      = (each (dispatcher component members) Hook.all).andThen
        ((attachFunction component members).andThen
          (detachFunction component members)) := by
    unfold entryPoints
    rw [habstract]
    rfl
  rw [hplan] at hok hsub' hcomponent
  obtain ⟨-, first, hfirst, hok, hsub''⟩ := andThen_contains hok
  obtain ⟨hattach, second, hsecond, -, hdetach⟩ := andThen_contains hok
  have hall := List.Subset.trans (List.Subset.trans hsub'' hsub')
    (List.Subset.trans hcomponent hsub)
  exact ⟨first, second, hfirst.trans (hpoints.trans hnames),
    hsecond.trans (hfirst.trans (hpoints.trans hnames)),
    List.Subset.trans hattach hall, List.Subset.trans hdetach hall⟩

end Plan

-- ================================================================== tags

/-- The members of the tag of a location; there are none without a tag. -/
def Pack.membersOf (pack : Pack) (location : String) : List String :=
  ((pack.tag? location).map PackTag.members).getD []

namespace Project

variable {project : Project} {outline : Outline}

/-- A tag of the pack is found under its location. -/
private theorem membersOf_eq {tag : PackTag}
    (htag : tag ∈ (project.packOf outline).tags) :
    (project.packOf outline).tag? tag.location = some tag
      ∧ (project.packOf outline).membersOf tag.location = tag.members := by
  have hfound : (project.packOf outline).tag? tag.location = some tag :=
    World.find?_key nodup_tags htag
  refine ⟨hfound, ?_⟩
  unfold Pack.membersOf
  rw [hfound]
  rfl

/-- A function that a tag of the pack names was entered there by a piece of
the outline. -/
private theorem listed_of_membersOf {location value : String}
    (h : value ∈ (project.packOf outline).membersOf location) :
    ∃ listed, Piece.tag location listed ∈ outline.pieces ∧ value ∈ listed := by
  unfold Pack.membersOf at h
  cases hfound : (project.packOf outline).tag? location with
  | none =>
      rw [hfound] at h
      cases h
  | some tag =>
      rw [hfound] at h
      have hlocation : tag.location = location := by
        simpa using List.find?_some hfound
      rw [← hlocation]
      exact listed_of_packOf (List.mem_of_find?_eq_some hfound) h

end Project

/-- What is listed in other tags than those of the game are methods. -/
def Outline.ListsMethods (methods : String → Prop) (outline : Outline) : Prop :=
  ∀ location listed,
    Piece.tag location listed ∈ outline.pieces →
      location ∉ Hook.gameTags → ∀ value ∈ listed, methods value

namespace Outline.ListsMethods

variable {methods : String → Prop}

private theorem gathers : Outline.Gathers (ListsMethods methods) where
  nil location listed hpiece := by cases hpiece
  append h h' location listed hpiece := by
    rw [Outline.pieces_append, List.mem_append] at hpiece
    exact hpiece.elim (h location listed) (h' location listed)
  single hnode h location listed hpiece := by
    rw [Outline.pieces_single, List.mem_cons] at hpiece
    rcases hpiece with hpiece | hpiece
    · rcases hnode with rfl | rfl <;> cases hpiece
    · exact h location listed hpiece

/-- Functions have no tags in them. -/
theorem function {location : String} {body : Plan}
    (h : body.Composed fun _ => True) :
    Plan.Leaves (ListsMethods methods) (.function location body) := by
  intro site tag listed hpiece
  unfold Plan.function Outcome.asFunction at hpiece
  rw [Outline.pieces_single, List.mem_cons] at hpiece
  rcases hpiece with hpiece | hpiece
  · cases hpiece
  · obtain ⟨sheet, hsheet⟩ :=
      (h.sound { site with context := .empty }).pieces _ hpiece
    cases hsheet

/-- A dispatcher enters methods in the tag of its hook, and itself in tags
of the game only. -/
private theorem dispatcher (component : Component) (members : List Member)
    (hook : Hook) :
    Plan.Leaves (ListsMethods methods)
      (.dispatcher component members hook) := by
  unfold Plan.dispatcher
  cases hgame : hook.gameTag? with
  | none => exact fun _ => gathers.nil
  | some gameTag =>
      dsimp only
      split
      · intro site location listed hpiece hother
        rcases List.mem_cons.1 hpiece with hpiece | hpiece
        · cases hpiece
        · cases List.mem_singleton.1 hpiece
          exact absurd (Hook.mem_gameTags hgame) hother
      · exact fun _ => gathers.nil

/-- The callback tags of a project list methods of its components and
nothing else. -/
private theorem components (resolved : List (Component × List Member)) :
    Plan.Leaves (ListsMethods fun value =>
        ∃ entry ∈ resolved, ∃ member ∈ entry.2, value = member.location)
      (.components resolved) := by
  refine .components gathers (fun entry hentry member hmember => ?_)
    fun entry hentry => ?_
  · refine ⟨function (Plan.composed_methodBody entry.1 member),
      fun location listed hpiece _ => ?_⟩
    rw [Plan.pieces_tagOutline, List.mem_map] at hpiece
    obtain ⟨_, -, heq⟩ := hpiece
    cases heq
    exact fun value hvalue =>
      ⟨entry, hentry, member, hmember, List.mem_singleton.1 hvalue⟩
  · exact ⟨dispatcher entry.1 entry.2,
      function (.block _ (Plan.composed_attachBody fun _ _ => trivial)),
      function (.block _ (Plan.composed_detachBody fun _ _ => trivial))⟩

end Outline.ListsMethods

/-- A callback tag is none of the tags of the game: those have no path of
several segments. -/
theorem Location.callbackTag_notMem_gameTags (space : String) (hook : Hook)
    (component : String) :
    callbackTag space hook component ∉ Hook.gameTags := by
  have hslash : '/' ∈ (callbackTag space hook component).toList := by
    have htext : callbackTag space hook component
        = space ++ ":component/callback/" ++ hook.word ++ "/" ++ component :=
      rfl
    rw [htext]
    simp
  have hgame : ∀ tag ∈ Hook.gameTags, '/' ∉ tag.toList := by decide
  exact fun hmem => hgame _ hmem hslash

-- =================================================================== runs

namespace World

variable {world : World}

/-- Lines that are read as operations do what the operations do, one after
the other. -/
private theorem foldlM_lines (call : Entity → String → Option Entity) :
    ∀ {operations : List Operation} {entity : Entity},
      (∀ operation ∈ operations,
        Instruction.Reads operation.command operation) →
      (operations.map fun operation => operation.command.render).foldlM
        (world.runLine call) entity
        = operations.foldlM (world.perform call) entity
  | [], _, _ => rfl
  | operation :: rest, entity, h => by
      rw [List.map_cons, List.foldlM_cons, List.foldlM_cons,
        runLine_reads (h operation List.mem_cons_self)]
      exact bind_congr fun next =>
        foldlM_lines call
          fun other hother => h other (List.mem_cons_of_mem _ hother)

/-- A function that guards operations does them if the test holds, wherever
they stand. -/
theorem run_guards (world : World)
    (hspace : Name.isValidNamespace world.pack.space = true)
    (hdistinct : (world.pack.functions.map PackFunction.location).Nodup)
    {location condition tag : String} {present : Bool}
    {operations : List Operation}
    (hguards : world.pack.Guards location (Build.markerClause condition tag)
      operations) (hcondition : Text.IsWord condition)
      (htag : ∀ c ∈ tag.toList, Text.isBlank c = false)
      (htest : TagTest.ofWords? condition s!"@s[tag={tag}]"
        = some ⟨tag, present⟩)
    (hlocation : location ∉ world.callbacks)
    (hgenerated : ∀ n,
      NameStream.nameAt (Location.functionTemplate world.pack.space) n
      ∉ world.callbacks)
    (hreads : ∀ operation ∈ operations,
      Instruction.Reads operation.command operation)
    (depth : Nat) :
    ∃ inner, depth ≤ inner ∧ ∀ entity, world.run (depth + 2) entity location
      = if TagTest.holds ⟨tag, present⟩ entity.tags
        then operations.foldlM (world.perform (world.run inner)) entity
        else some entity := by
  -- a line behind the test does its operation if the test holds
  have hline : ∀ (call : Entity → String → Option Entity)
      {operation : Operation},
      Instruction.Reads operation.command operation →
        ∀ entity, world.runLine call entity
          (operation.command.behind
            (Clause.wrapper [Build.markerClause condition tag])).render
        = if TagTest.holds ⟨tag, present⟩ entity.tags
          then world.perform call entity operation else some entity := by
    intro call operation hread entity
    have hof := hread.ofLine?_behind hcondition htag htest
    unfold runLine Build.markerClause
    rw [hof]
    simp [Instruction.applies]
  cases hguards with
  | @inlined operation hmem =>
      refine ⟨depth + 1, Nat.le_succ depth, fun entity => ?_⟩
      rw [run_function hdistinct hmem hlocation, List.foldlM_cons,
        hline _ (hreads operation List.mem_cons_self)]
      split
      · simp [List.foldlM_cons]
      · rfl
  | @moved number _ hmem hmoved =>
      refine ⟨depth, Nat.le_refl depth, fun entity => ?_⟩
      have hname : Instruction.Reads _ _ :=
        .function (NameStream.isWord_nameAt hspace number)
          (NameStream.sign_notMem_nameAt hspace number)
      have hinner : world.run (depth + 1) entity _ = _ :=
        run_function hdistinct hmoved (hgenerated number) depth entity
      rw [foldlM_lines _ hreads] at hinner
      rw [run_function hdistinct hmem hlocation, List.foldlM_cons,
        hline _ hname, ← hinner]
      split
      · simp [World.perform]
      · rfl

end World

-- ============================================================== switching

/-- A call of a function that attaches or detaches a component. -/
inductive EntryCall where
  | attach
  | detach
  deriving DecidableEq

def EntryCall.location (component : Component) : EntryCall → String
  | .attach => Location.ofAttach component.space component.name
  | .detach => Location.ofDetach component.space component.name

namespace Component

/-- The pack for an entity to run in, where the members of the component's
callback tags are not looked into. -/
def world (component : Component) (pack : Pack)
    (effect : String → Entity → Finset String) :
    World where
  pack := pack
  callbacks := Hook.all.flatMap fun hook =>
    pack.membersOf (Location.callbackTag component.space hook component.name)
  effect := effect

/-- The entity tag of the component. -/
def marker (component : Component) : String :=
  Location.marker component.space component.name

/-- The members of the callback tag of a hook that some method has. -/
def hooked (component : Component) (pack : Pack) (members : List Member)
    (hook : Hook) :
    List String :=
  if Build.anyHooked members hook then
    pack.membersOf (Location.callbackTag component.space hook component.name)
  else []

/-- The methods of a hook are callbacks. -/
theorem hooked_subset {component : Component} {pack : Pack}
    {members : List Member} {effect : String → Entity → Finset String}
    (hook : Hook) :
    component.hooked pack members hook
      ⊆ (component.world pack effect).callbacks := by
  intro location hlocation
  unfold hooked at hlocation
  split at hlocation
  · exact List.mem_flatMap.2 ⟨hook, by cases hook <;> decide, hlocation⟩
  · cases hlocation

/-- What a call runs for an entity that has the marker or does not have
it. -/
def runs (component : Component) (pack : Pack) (members : List Member)
    (marked : Prop) [Decidable marked] : EntryCall → List String
  | .attach => if marked then [] else component.hooked pack members .init
  | .detach => if marked then component.hooked pack members .destroy else []

end Component

/-- What the functions of a component need that attach and detach it. -/
structure Pack.HasSwitch (pack : Pack) (component : Component)
    (members : List Member) : Prop where
  space : Name.isValidNamespace pack.space = true
  name : Name.isValid component.name = true
  same : component.space = pack.space
  distinct : (pack.functions.map PackFunction.location).Nodup
  attach : pack.Guards (EntryCall.attach.location component)
    (Build.markerClause "unless" component.marker)
    (Build.attachOperations component members)
  detach : pack.Guards (EntryCall.detach.location component)
    (Build.markerClause "if" component.marker)
    (Build.detachOperations component members)
  tags : ∀ hook, Build.anyHooked members hook = true → ∃ tag,
    pack.tag? (Location.callbackTag component.space hook component.name)
      = some tag
  methods : ∀ hook, ∀ value ∈ pack.membersOf
      (Location.callbackTag component.space hook component.name),
    Location.isGenerated pack.space value = false
      ∧ ∀ call : EntryCall, value ≠ call.location component

namespace Pack.HasSwitch

variable {pack : Pack} {component : Component} {members : List Member}
  (h : pack.HasSwitch component members)
  {effect : String → Entity → Finset String}

include h

/-- A callback is a method, so it is neither generated nor an entry point. -/
private theorem callback_fixed {value : String}
    (hvalue : value ∈ (component.world pack effect).callbacks) :
    Location.isGenerated pack.space value = false
      ∧ ∀ call : EntryCall, value ≠ call.location component := by
  obtain ⟨hook, -, hmem⟩ := List.mem_flatMap.1 hvalue
  exact h.methods hook value hmem

/-- The marker of a component is one word on a line. -/
private theorem isWord_marker : Text.IsWord component.marker := by
  unfold Component.marker
  rw [h.same]
  exact Location.isWord_marker h.space h.name

/-- The lines of a hook are read as the operations they were written for. -/
private theorem reads_hook (hook : Hook) :
    ∀ operation ∈ Build.hookOperations component members hook,
      Instruction.Reads operation.command operation := by
  intro operation hoperation
  unfold Build.hookOperations at hoperation
  split at hoperation
  · rw [List.mem_singleton.1 hoperation, h.same]
    exact .functionTag (Location.isWord_callbackTag h.space hook h.name).2
  · cases hoperation

/-- Running the methods of a hook notifies them in order. -/
theorem run_hook (hook : Hook) (inner : Nat) (entity : Entity) :
    (Build.hookOperations component members hook).foldlM
        ((component.world pack effect).perform
          ((component.world pack effect).run (inner + 1))) entity
      = some ((component.hooked pack members hook).foldl
        (component.world pack effect).notify
          entity) := by
  unfold Build.hookOperations Component.hooked
  split
  · next hany =>
    obtain ⟨tag, htag⟩ := h.tags hook hany
    have hmembers : pack.membersOf
        (Location.callbackTag component.space hook component.name)
        = tag.members := by
      unfold Pack.membersOf
      rw [htag]
      rfl
    have hcallbacks : ∀ location ∈ tag.members,
        location ∈ (component.world pack effect).callbacks :=
      fun location hlocation => List.mem_flatMap.2
        ⟨hook, by cases hook <;> decide, hmembers ▸ hlocation⟩
    rw [hmembers, List.foldlM_cons]
    show ((pack.tag? _).bind fun tag => tag.members.foldlM _ entity).bind _ = _
    rw [htag, Option.bind_some,
      World.foldlM_run_callbacks inner entity hcallbacks]
    rfl
  · rfl

/-- No generated function is a callback. -/
private theorem generated_notMem (n : Nat) :
    NameStream.nameAt (Location.functionTemplate pack.space) n
    ∉ (component.world pack effect).callbacks := by
  intro hmem
  have hfixed := (h.callback_fixed hmem).1
  have hgenerated : Location.isGenerated pack.space
      (NameStream.nameAt (Location.functionTemplate pack.space) n) = true :=
    FunctionPlace.isGenerated_location
      (Name.notMem_of_isValidNamespace h.space (by decide)) (.generated n)
  rw [hfixed] at hgenerated
  cases hgenerated

/-- The function of a call does its operations if the test holds, and there
is depth left for the methods of hooks. -/
theorem run_call (call : EntryCall) {condition : String}
    (hcondition : Text.IsWord condition) {present : Bool}
    {operations : List Operation}
    (hguards : pack.Guards (call.location component)
      (Build.markerClause condition component.marker) operations)
    (htest : TagTest.ofWords? condition s!"@s[tag={component.marker}]"
      = some ⟨component.marker, present⟩)
    (hreads : ∀ operation ∈ operations,
      Instruction.Reads operation.command operation)
    (depth : Nat) :
    ∃ inner, ∀ entity,
      (component.world pack effect).run (depth + 3) entity
        (call.location component)
        = if TagTest.holds ⟨component.marker, present⟩ entity.tags
          then operations.foldlM ((component.world pack effect).perform
            ((component.world pack effect).run (inner + 1))) entity
          else some entity := by
  obtain ⟨inner, hinner, hrun⟩ :=
    (component.world pack effect).run_guards h.space h.distinct hguards
      hcondition h.isWord_marker.2 htest
      (fun hmem => (h.callback_fixed hmem).2 call rfl)
    h.generated_notMem hreads (depth + 1)
  obtain ⟨inner, rfl⟩ :=
    Nat.exists_eq_add_of_le' (Nat.le_trans (Nat.le_add_left 1 depth) hinner)
  exact ⟨inner, hrun⟩

/-- An entity without the marker gets it and then runs the `init` methods. -/
theorem run_attach (depth : Nat) (entity : Entity) :
    (component.world pack effect).run (depth + 3) entity
      (EntryCall.attach.location component)
      = some (if component.marker ∈ entity.tags then entity
          else (component.hooked pack members .init).foldl
            (component.world pack effect).notify
            { entity with tags := insert component.marker entity.tags }) := by
  have hreads : ∀ operation ∈ Build.attachOperations component members,
      Instruction.Reads operation.command operation := by
    intro operation hoperation
    rcases List.mem_cons.1 hoperation with rfl | hoperation
    · exact .addTag h.isWord_marker
    · exact h.reads_hook .init operation hoperation
  obtain ⟨inner, hrun⟩ :=
    h.run_call .attach
      (by decide) h.attach (TagTest.ofWords?_unless _) hreads depth
  rw [hrun entity]
  by_cases hmarked : component.marker ∈ entity.tags
  · simp [TagTest.holds, hmarked]
  · rw [if_pos (by simp [TagTest.holds, hmarked]), if_neg hmarked]
    exact h.run_hook .init inner
      { entity with tags := insert component.marker entity.tags }

/-- An entity with the marker runs the `destroy` methods and then loses it. -/
theorem run_detach (depth : Nat) (entity : Entity) :
    (component.world pack effect).run (depth + 3) entity
      (EntryCall.detach.location component)
      = some (if component.marker ∈ entity.tags then
          let last := (component.hooked pack members .destroy).foldl
            (component.world pack effect).notify entity
          { last with tags := last.tags.erase component.marker }
        else entity) := by
  have hreads : ∀ operation ∈ Build.detachOperations component members,
      Instruction.Reads operation.command operation := by
    intro operation hoperation
    rcases List.mem_append.1 hoperation with hoperation | hoperation
    · exact h.reads_hook .destroy operation hoperation
    · rw [List.mem_singleton.1 hoperation]
      exact .removeTag h.isWord_marker
  obtain ⟨inner, hrun⟩ :=
    h.run_call .detach (by decide) h.detach (TagTest.ofWords?_if _) hreads depth
  rw [hrun entity]
  by_cases hmarked : component.marker ∈ entity.tags
  · rw [if_pos (by simp [TagTest.holds, hmarked]), if_pos hmarked]
    unfold Build.detachOperations
    rw [List.foldlM_append, h.run_hook .destroy inner entity]
    rfl
  · simp [TagTest.holds, hmarked]

/-- One call: it has a result, it leaves the marker as it says, and it logs
what it is to run, while the marker is there. -/
theorem call (heffect : ∀ location ∈ (component.world pack effect).callbacks,
    ∀ entity,
      component.marker ∈ effect location entity
        ↔ component.marker ∈ entity.tags)
    (depth : Nat) (call : EntryCall) (before : Entity) :
    ∃ after,
      (component.world pack effect).run (depth + 3) before
        (call.location component) = some after
      ∧ (component.marker ∈ after.tags ↔ call = .attach)
      ∧ ∃ events, after.log = before.log ++ events
        ∧ events.map Prod.fst
          = component.runs pack members (component.marker ∈ before.tags) call
        ∧ ∀ event ∈ events, component.marker ∈ event.2 := by
  have hkept : ∀ hook,
      ∀ location ∈ component.hooked pack members hook,
        ∀ entity,
          component.marker ∈ (component.world pack effect).effect
            location entity
        ↔ component.marker ∈ entity.tags :=
    fun hook location hlocation =>
      heffect location (Component.hooked_subset hook hlocation)
  -- attaching what is attached and detaching what is not runs nothing
  by_cases hmarked : component.marker ∈ before.tags
  · cases call with
    | attach =>
        refine ⟨before,
          ?_, by simp [hmarked], [], (List.append_nil _).symm, ?_, by simp⟩
        · rw [h.run_attach, if_pos hmarked]
        · simp [Component.runs, hmarked]
    | detach =>
        obtain ⟨-, events, hlog, hmap, hevents⟩ :=
          World.foldl_notify before (hkept .destroy)
        refine ⟨_,
          (h.run_detach depth before).trans (congrArg some (if_pos hmarked)),
          by simp, events, hlog, ?_,
          fun event hevent => (hevents event hevent).2 hmarked⟩
        simp [Component.runs, hmarked, hmap]
  · cases call with
    | attach =>
        obtain ⟨htags, events, hlog, hmap, hevents⟩ := World.foldl_notify
          { before with tags := insert component.marker before.tags }
          (hkept .init)
        refine ⟨_,
          (h.run_attach depth before).trans (congrArg some (if_neg hmarked)),
          ?_, events, hlog, ?_,
          fun event hevent => (hevents event hevent).2 (by simp)⟩
        · simp [htags]
        · simp [Component.runs, hmarked, hmap]
    | detach =>
        refine ⟨before,
          ?_, by simp [hmarked], [], (List.append_nil _).symm, ?_, by simp⟩
        · rw [h.run_detach, if_neg hmarked]
        · simp [Component.runs, hmarked]

end Pack.HasSwitch

/-- Calls one after the other. -/
def Component.callAll (component : Component) (world : World) (depth : Nat)
    (calls : List EntryCall) (entity : Entity) : Option Entity :=
  calls.foldlM
    (fun entity call => world.run depth entity (call.location component)) entity

/-- One more call comes after the calls before it. -/
private theorem Component.callAll_concat {component : Component} {world : World}
    {depth : Nat} {calls : List EntryCall} {start before : Entity}
    (h : component.callAll world depth calls start = some before)
    (call : EntryCall) :
    component.callAll world depth (calls ++ [call]) start
      = world.run depth before (call.location component) := by
  unfold callAll at h ⊢
  rw [List.foldlM_append, h]
  exact bind_pure (world.run depth before (call.location component))

/-- After any calls the marker is where the last one left it. -/
theorem Pack.HasSwitch.calls {pack : Pack} {component : Component}
    {members : List Member} (h : pack.HasSwitch component members)
    {effect : String → Entity → Finset String}
    (heffect : ∀ location ∈ (component.world pack effect).callbacks, ∀ entity,
      component.marker ∈ effect location entity
        ↔ component.marker ∈ entity.tags)
    (depth : Nat) {start : Entity} (hstart : component.marker ∉ start.tags)
    (calls : List EntryCall) :
    ∃ entity,
      component.callAll (component.world pack effect) (depth + 3) calls start
        = some entity
      ∧ (component.marker ∈ entity.tags ↔ calls.getLast? = some .attach) := by
  -- on the calls from the last one; the others only need to have a result
  induction calls using List.reverseRecOn with
  | nil => exact ⟨start, rfl, by simp [hstart]⟩
  | append_singleton calls call ih =>
      obtain ⟨before, hbefore, -⟩ := ih
      obtain ⟨after, hafter, hmarked, -⟩ := h.call heffect depth call before
      exact ⟨after, (Component.callAll_concat hbefore call).trans hafter,
        by rw [List.getLast?_concat, hmarked, Option.some.injEq]⟩

-- =============================================================== projects

namespace Project.Built

variable {project : Project} {components : List Component}
  {resolved : List (Component × List Member)} {pack : Pack}

/-- The members of a callback tag are functions of methods. -/
theorem callback_method (h : project.Built components resolved pack)
    (hdescribed : ∀ component ∈ components, component.Described project.space)
    {space component value : String} {hook : Hook}
    (hvalue :
      value ∈ pack.membersOf (Location.callbackTag space hook component)) :
    ∃ name origin visibility method,
      FunctionPlace.method name origin visibility method
          ∈ resolved.flatMap (fun entry => entry.1.places entry.2)
        ∧ value = (FunctionPlace.method name origin visibility method).location
          project.space := by
  rw [h.pack] at hvalue
  obtain ⟨listed, hpiece, hmem⟩ := listed_of_membersOf hvalue
  obtain ⟨entry, hentry, member, hmember, rfl⟩ :=
    Outline.ListsMethods.components resolved _ _ listed hpiece
      (Location.callbackTag_notMem_gameTags space hook component) value hmem
  obtain ⟨bases, hmembers, hcomponent, -, -⟩ := h.resolution.lineage hentry
  refine ⟨_, _, _, _, List.mem_flatMap.2 ⟨entry, hentry,
    Component.mem_places.2 (.inl ⟨member, hmember, rfl⟩)⟩, ?_⟩
  rw [hmembers] at hmember
  rw [Component.location_eq hmember, (hdescribed _ hcomponent).space]
  rfl

/-- The pack of a project holds the entry points of every component that
can be attached, and their lines come to the operations listed for them. -/
private theorem hasSwitch (h : project.Built components resolved pack)
    (hdescribed : ∀ component ∈ components, component.Described project.space)
    {component : Component} {members : List Member}
    (hentry : (component, members) ∈ resolved)
    (habstract : component.isAbstract = false) :
    pack.HasSwitch component members := by
  have hmem := h.resolution.mem hentry
  have hspace : component.space = project.space :=
    (hdescribed component hmem).space
  have hpack : pack.space = project.space := by rw [h.pack]; rfl
  have hbrace : '\x7b' ∉ project.space.toList :=
    Name.notMem_of_isValidNamespace h.space (by decide)
  obtain ⟨first, second, hfirst, hsecond, hattach, hdetach⟩ :=
    Plan.entryPoints_contain hentry habstract h.result
  refine ⟨hpack ▸ h.space, (h.registrable.valid component hmem).name,
    hspace.trans hpack.symm, ?_, ?_, ?_, fun hook hany => ?_,
    fun hook value hvalue => ?_⟩
  · rw [h.map_location_functions]
    exact (h.locations_distinct hdescribed).1
  · rw [h.pack]
    exact guards_packOf rfl hfirst (by simp [Build.attachOperations])
      (Plan.attachBody_eq component members _ first) hattach
  · rw [h.pack]
    exact guards_packOf rfl hsecond (by simp [Build.detachOperations])
      (Plan.detachBody_eq component members _ second) hdetach
  · obtain ⟨tag, htag, hlocation⟩ :=
      h.hook_listed ⟨_, hentry, habstract, hook, hany, rfl⟩
    rw [h.pack] at htag ⊢
    exact ⟨tag, hlocation ▸ (membersOf_eq htag).1⟩
  · obtain ⟨name, origin, visibility, method, hplace, rfl⟩ :=
      h.callback_method hdescribed hvalue
    constructor
    · rw [hpack, FunctionPlace.isGenerated_location hbrace]
      rfl
    · -- methods and what attaches and detaches have different places
      intro call heq
      have hpoint : ∀ place ∈ component.places members,
          (FunctionPlace.method name origin visibility method).location
            project.space
            = place.location project.space →
          FunctionPlace.method name origin visibility method = place :=
        fun place hin => FunctionPlace.location_injective hbrace
          (h.readable_places hdescribed _ hplace)
          (h.readable_places hdescribed _ (List.mem_flatMap.2 ⟨_, hentry, hin⟩))
      unfold EntryCall.location at heq
      rw [hspace] at heq
      cases call with
      | attach =>
          exact absurd (hpoint (.attach component.name)
            (Component.mem_places.2 (.inr ⟨habstract, .inl rfl⟩)) heq) (by simp)
      | detach =>
          exact absurd (hpoint (.detach component.name)
            (Component.mem_places.2 (.inr ⟨habstract, .inr rfl⟩)) heq) (by simp)

end Project.Built

/-- Calls that attach and detach a component, in any number and order, are a
switch with two positions for an entity that starts without the marker. All
of them have a result. After each call the marker is there if and only if
the call was to attach. A call that turns the switch logs the members of the
callback tag of its hook, if some method has the hook, each once and in
order and all of them with the marker on the entity; every other call logs
nothing. -/
theorem ProjectManifest.attachment_switches (manifest : ProjectManifest)
    (files : List (String × ComponentManifest)) {pack : Pack}
    (h : manifest.toProject.build (manifest.components files) = .ok pack) :
    ∃ resolved tree root,
      manifest.toProject.Makes (manifest.components files) resolved tree root
      ∧ pack = manifest.toProject.collect tree root
      ∧ (∀ component ∈ manifest.components files,
        ∃ members, (component, members) ∈ resolved)
      ∧ (∀ tag ∈ pack.tags, tag.members.Nodup)
      ∧ ∀ component members,
        (component, members) ∈ resolved → component.isAbstract = false →
          (∀ hook, Build.anyHooked members hook = true → ∃ tag ∈ pack.tags,
            tag.location
              = Location.callbackTag component.space hook component.name)
          ∧ ∀ effect : String → Entity → Finset String,
            (∀ location ∈ (component.world pack effect).callbacks, ∀ entity,
              component.marker ∈ effect location entity
                ↔ component.marker ∈ entity.tags) →
            ∀ depth ≥ 3, ∀ start : Entity, component.marker ∉ start.tags →
            ∀ (calls : List EntryCall) (call : EntryCall), ∃ before after,
              component.callAll (component.world pack effect) depth calls start
                = some before
              ∧ component.callAll (component.world pack effect) depth
                (calls ++ [call]) start
                  = some after
              ∧ (component.marker ∈ before.tags ↔ calls.getLast? = some .attach)
              ∧ (component.marker ∈ after.tags ↔ call = .attach)
              ∧ ∃ events, after.log = before.log ++ events
                ∧ events.map Prod.fst
                    = component.runs pack members
                      (component.marker ∈ before.tags) call
                ∧ ∀ event ∈ events, component.marker ∈ event.2 := by
  have hdescribed := manifest.described files
  obtain ⟨resolved, hbuilt⟩ := built_of_build h
  obtain ⟨tree, hmakes, hshows⟩ :=
    hbuilt.makes (manifest.space_components files)
  refine ⟨resolved, tree, 0, hmakes,
    hbuilt.pack.trans (Project.collect_eq _ hshows).symm,
    fun component hmem => ?_, fun tag htag => ?_,
    fun component members hentry habstract =>
      ⟨fun hook hany =>
        hbuilt.hook_listed ⟨_, hentry, habstract, hook, hany, rfl⟩, ?_⟩⟩
  · obtain ⟨entry, hentry, rfl⟩ :=
      List.mem_map.1 (hbuilt.resolution.perm.mem_iff.2 hmem)
    exact ⟨entry.2, hentry⟩
  · rw [hbuilt.pack] at htag
    exact Project.nodup_members htag
  · -- all calls but the last by induction, and then the last from where they
    -- end
    intro effect heffect depth hdepth start hstart calls call
    have hswitch := hbuilt.hasSwitch hdescribed hentry habstract
    obtain ⟨depth, rfl⟩ := Nat.exists_eq_add_of_le' hdepth
    obtain ⟨before, hbefore, hmarked⟩ :=
      hswitch.calls heffect depth hstart calls
    obtain ⟨after, hafter, hturned, hlogged⟩ :=
      hswitch.call heffect depth call before
    exact ⟨before, after, hbefore,
      (Component.callAll_concat hbefore call).trans hafter, hmarked,
      hturned, hlogged⟩

namespace Counter

def manifest : ProjectManifest := { name := "Demo", space := "demo" }

/-- A component with a method for each end of its life. -/
def counterManifest : ComponentManifest where
  methods :=
    [{ name := "setup", hooks := { init := true }, body := [.say "init"] },
     { name := "teardown", hooks := { destroy := true },
       body := [.say "destroy"] }]

def files : List (String × ComponentManifest) := [("Counter", counterManifest)]

def counter : Component := counterManifest.toComponent "demo" "Counter"

def pack : Pack where
  name := "Demo"
  space := "demo"
  description := "An endermite project\n\nVersion 0.1.0\nBy N/A"
  functions :=
    [⟨"demo:component/counter/setup", ["say init"]⟩,
     ⟨"demo:component/counter/teardown", ["say destroy"]⟩,
     ⟨"demo:attach/counter",
      ["execute unless entity @s[tag=demo.component.counter] run function demo:generated/00000000"]⟩,
     ⟨"demo:generated/00000000",
      ["tag @s add demo.component.counter",
        "function #demo:component/callback/init/counter"]⟩,
     ⟨"demo:detach/counter",
      ["execute if entity @s[tag=demo.component.counter] run function demo:generated/00000001"]⟩,
     ⟨"demo:generated/00000001",
      ["function #demo:component/callback/destroy/counter",
       "tag @s remove demo.component.counter"]⟩]
  tags :=
    [⟨"demo:component/callback/destroy/counter",
      ["demo:component/counter/teardown"]⟩,
     ⟨"demo:component/callback/init/counter", ["demo:component/counter/setup"]⟩]

set_option maxRecDepth 100000 in
private theorem build : manifest.toProject.build (manifest.components files)
  = .ok pack := by
  decide +kernel

private theorem prepared :
    manifest.toProject.Prepared (manifest.components files)
      [(counter, counter.membersAlong [counter])] := by
  refine ⟨⟨fun component hmem => ?_, List.pairwise_singleton _ _⟩,
    by decide, .refl _, List.pairwise_singleton _ _, fun entry hentry => ?_⟩
  · rw [List.mem_singleton.1 hmem]
    exact ⟨by decide, by decide, by decide, by decide⟩
  · rw [List.mem_singleton.1 hentry]
    exact ⟨[counter], .root rfl, rfl⟩

/-- The methods leave tags of their own on the entity. -/
def world : World :=
  counter.world pack fun location entity => insert location entity.tags

set_option maxRecDepth 100000 in
/-- Calls that find the switch in its position log nothing. -/
example :
  (counter.callAll world 3 [.attach, .attach, .detach, .detach] ⟨∅, []⟩).map
      (fun entity => entity.log.map Prod.fst)
    = some ["demo:component/counter/setup",
      "demo:component/counter/teardown"] := by
  decide +kernel

end Counter

/-- The counter is attached twice and then detached: that runs its `destroy`
method, with the marker still there. -/
theorem ProjectManifest.counter_switches :
    Counter.manifest.toProject.build (Counter.manifest.components Counter.files)
        = .ok Counter.pack
      ∧ ∃ before after,
        Counter.counter.callAll Counter.world 3 [.attach, .attach] ⟨∅, []⟩
          = some before
        ∧ Counter.counter.callAll Counter.world 3 [.attach, .attach, .detach]
          ⟨∅, []⟩ = some after
        ∧ Counter.counter.marker ∈ before.tags
          ∧ Counter.counter.marker ∉ after.tags
        ∧ ∃ events, after.log = before.log ++ events
          ∧ events.map Prod.fst = ["demo:component/counter/teardown"]
          ∧ ∀ event ∈ events, Counter.counter.marker ∈ event.2 := by
  obtain ⟨resolved, tree, root, hmakes, -, -, -, hswitch⟩ :=
    Counter.manifest.attachment_switches Counter.files Counter.build
  obtain rfl :=
    hmakes.resolved_eq (Counter.manifest.space_components Counter.files)
      Counter.prepared
  -- callbacks that leave a tag of their own behind do not touch the marker
  have hcallbacks : ∀ location ∈ Counter.world.callbacks,
      location ≠ Counter.counter.marker := by
    decide +kernel
  obtain ⟨before, after, hbefore, hafter, hmarked, hturned, events, hlog,
    hevents, hpresent⟩ :=
    (hswitch Counter.counter _ List.mem_cons_self rfl).2
      (fun location entity => insert location entity.tags)
      (fun location hlocation entity => by
        rw [Finset.mem_insert]
        exact or_iff_right (hcallbacks location hlocation).symm)
      3 (Nat.le_refl 3) ⟨∅, []⟩ (Finset.notMem_empty _)
      [.attach, .attach] .detach
  have hon : Counter.counter.marker ∈ before.tags := hmarked.2 rfl
  have hrun : Counter.counter.hooked Counter.pack
      (Counter.counter.membersAlong [Counter.counter]) .destroy
        = ["demo:component/counter/teardown"] := by decide +kernel
  refine ⟨Counter.build, before, after, hbefore, hafter, hon, fun hoff => ?_,
    events, hlog, ?_, hpresent⟩
  · cases hturned.1 hoff
  · rw [hevents, ← hrun]
    exact if_pos hon

end Datapack
