/-
Which functions the tags of a pack list.

Functions are listed in tags for three reasons. A method is listed in the
tag of each hook that it has in force, unless its component is abstract; it
is listed in the tags that its declaration names; and the functions that
dispatch the hooks of the game are listed in the game's own tags.
`memberships` puts all of this down in the order in which it is built, from
the resolved methods alone. Only the dispatchers have locations that are
not known before the build, so these are given to it.

Tags are exactly that (`ProjectManifest.tags_list_memberships`): there is a
tag where something is listed, and it has what is listed in it, each
function where it is listed first. Bodies add nothing, since what they leave
is functions only.
-/
import Datapack.Proofs.Agreement
import Datapack.Proofs.Entity
import Datapack.Proofs.References

namespace Datapack

-- ============================================================ memberships

namespace Component

/-- The tags that list a method of the component, with its function. -/
def methodMemberships (component : Component) (member : Member) :
    List (String × String) :=
  let hooks :=
    if component.isAbstract then [] else Hook.all.filter member.hooks.has
  (hooks.map fun hook =>
      (Location.callbackTag component.space hook component.name,
        member.location))
    ++ member.method.tags.keys.map fun tag =>
      (Location.qualify component.space tag, member.location)

/-- The tags of the game that list the component's dispatchers. There is one
for a hook that some method has in force. -/
def gameMemberships (component : Component) (members : List Member)
    (dispatcher : Hook → String) : List (String × String) :=
  let listing (hook : Hook) (tag : String) :=
    if members.any fun member => member.hooks.has hook then
      [(tag, dispatcher hook)]
    else []
  if component.isAbstract then []
  else listing .tick "minecraft:tick" ++ listing .load "minecraft:load"

/-- All tags that list functions of the component, with what they list. -/
def memberships (component : Component) (members : List Member)
    (dispatcher : Hook → String) : List (String × String) :=
  members.flatMap component.methodMemberships
    ++ component.gameMemberships members dispatcher

/-- The line that runs the methods of a hook on all entities that the
component is attached to. -/
def dispatchLine (component : Component) (hook : Hook) : String :=
  " ".intercalate ["execute", "as",
    s!"@e[tag={Location.marker component.space component.name}]", "run",
    "function", s!"#{Location.callbackTag component.space hook component.name}"]

end Component

/-- The memberships of all components, the dispatchers of which are given by
the components' names. -/
def memberships (resolved : List (Component × List Member))
    (dispatcher : String → Hook → String) : List (String × String) :=
  resolved.flatMap
    fun entry => entry.1.memberships entry.2 (dispatcher entry.1.name)

/-- What is listed in the tag of a location. -/
def listedAt (location : String) (memberships : List (String × String)) :
    List String :=
  (memberships.filter fun membership => membership.1 = location).map Prod.snd

/-- What is listed at a location, in two parts. -/
private theorem listedAt_append (location : String)
    (first second : List (String × String)) :
    listedAt location (first ++ second)
      = listedAt location first ++ listedAt location second := by
  unfold listedAt
  rw [List.filter_append, List.map_append]

private theorem listedAt_eq_nil {location : String}
    {memberships : List (String × String)} :
    listedAt location memberships = []
      ↔ ¬∃ value, (location, value) ∈ memberships := by
  unfold listedAt
  rw [List.map_eq_nil_iff, List.filter_eq_nil_iff]
  constructor
  · rintro h ⟨value, hmem⟩
    exact h _ hmem (decide_eq_true rfl)
  · rintro h ⟨tag, value⟩ hmem hsame
    exact h ⟨value, of_decide_eq_true hsame ▸ hmem⟩

-- =============================================================== outlines

/-- The outline lists the memberships, one by one and in order. -/
def Outline.Lists (outline : Outline) (memberships : List (String × String)) :
    Prop :=
  ∀ location, outline.listed location
    = (listedAt location memberships).map fun value => [value]

namespace Outline.Lists

variable {outline other : Outline} {memberships others : List (String × String)}

private theorem append (h : outline.Lists memberships)
    (h' : other.Lists others) :
    (outline ++ other).Lists (memberships ++ others) := by
  intro location
  rw [listed_append, h location, h' location, listedAt_append, List.map_append]

/-- Functions are listed nowhere by themselves. -/
theorem of_functions
    (h : ∀ piece ∈ outline.pieces, ∃ sheet, piece = .function sheet) :
    outline.Lists [] := by
  intro location
  refine List.filterMap_eq_nil_iff.2 fun piece hpiece => ?_
  obtain ⟨sheet, rfl⟩ := h piece hpiece
  rfl

/-- Nodes of components and methods list nothing themselves. -/
private theorem single {piece : Piece}
    (hpiece : piece = .component ∨ piece = .method)
    (h : outline.Lists memberships) :
    (Outline.single piece outline).Lists memberships := by
  intro location
  rw [← h location]
  unfold listed
  rw [pieces_single,
    List.filterMap_cons_none (by rcases hpiece with rfl | rfl <;> rfl)]

/-- Entering a value in tags lists it once in each. -/
private theorem tagOutline (value : String) : ∀ locations : List String,
    (Plan.tagOutline value locations).Lists
      (locations.map fun location => (location, value))
  | [] => fun _ => rfl
  | location :: rest => by
      have hfirst : (Outline.single (.tag location [value]) .nil).Lists
          [(location, value)] := by
        intro other
        unfold listed listedAt
        by_cases hsame : location = other <;> simp [Piece.listed?, hsame]
      exact hfirst.append (tagOutline value rest)

end Outline.Lists

-- ================================================================== plans

namespace Plan

variable {component : Component} {members : List Member} {site : Site}

/-- A function of its own, whatever its body does, is listed nowhere. -/
theorem lists_function {body : Plan} (h : body.Composed fun _ => True)
    (location : String) (site : Site) :
    (function location body site).written.below.Lists [] := by
  refine .of_functions fun piece hpiece => ?_
  unfold function Outcome.asFunction at hpiece
  rw [Outline.pieces_single] at hpiece
  rcases List.mem_cons.1 hpiece with rfl | hbelow
  · exact ⟨_, rfl⟩
  · exact (h.sound { site with context := .empty }).pieces piece hbelow

/-- The tags that a method is entered in are those of its memberships. -/
private theorem map_tagsOf (component : Component) (member : Member) :
    (Build.tagsOf component member).map (fun tag => (tag, member.location))
      = component.methodMemberships member := by
  unfold Build.tagsOf Component.methodMemberships HookSet.toList
  cases component.isAbstract <;> simp [Function.comp_def]

/-- A method lists its own function and nothing else, since the functions
of its blocks are in no tag. -/
private theorem lists_method {member : Member}
    (hres : (method component member site).result = .ok ()) :
    (method component member site).written.below.Lists
      (component.methodMemberships member) := by
  have hlabel := result_of_labelled hres
  obtain ⟨-, -, hwritten⟩ := andThen_ok hlabel
  unfold method
  rw [labelled_written]
  refine .single (.inr rfl) ?_
  rw [hwritten, each_tag, Written.below_append, ← map_tagsOf]
  exact (lists_function (composed_methodBody component member) _ _).append
    (.tagOutline _ _)

/-- The methods of a component list their memberships in order. -/
private theorem lists_methods (component : Component) :
    ∀ (members : List Member) (site : Site),
      (each (method component) members site).result = .ok () →
        (each (method component) members site).written.below.Lists
          (members.flatMap component.methodMemberships)
  | [], _, _ => fun _ => rfl
  | member :: rest, site, hres => by
      obtain ⟨hok, hok', hwritten⟩ := andThen_ok hres
      rw [each, hwritten, Written.below_append, List.flatMap_cons]
      exact (lists_method hok).append (lists_methods component rest _ hok')

/-- The outline has the dispatcher of a hook at the location. -/
structure Dispatches (component : Component) (hook : Hook)
    (template location : String) (outline : Outline) : Prop where
  named : ∃ number, location = NameStream.nameAt template number
  function : Piece.function ⟨some location, .empty, .closed,
    [⟨⟨[⟨["as",
      s!"@e[tag={Location.marker component.space component.name}]"]⟩]⟩,
      .functionTag (Location.callbackTag component.space hook component.name),
      .hook⟩]⟩
    ∈ outline.pieces

private theorem Dispatches.mono {hook : Hook} {template location : String}
    {outline outline' : Outline}
    (h : Dispatches component hook template location outline)
    (hsub : outline.pieces ⊆ outline'.pieces) :
    Dispatches component hook template location outline' :=
  ⟨h.named, hsub h.function⟩

/-- A dispatcher is listed in the tag of the game if some method has the
hook in force, and is not built otherwise. -/
private theorem lists_dispatcher (component : Component) (members : List Member)
    {hook : Hook} {gameTag : String} (hgame : hook.gameTag? = some gameTag)
    (site : Site) :
    (dispatcher component members hook site).written.below.Lists
        (if members.any fun member => member.hooks.has hook then
          [(gameTag, site.functions.head)]
        else [])
      ∧ ((members.any fun member => member.hooks.has hook) = true →
        Dispatches component hook site.functions.template site.functions.head
          (dispatcher component members hook site).written.below) := by
  unfold dispatcher Build.anyHooked
  rw [hgame]
  dsimp only
  cases members.any fun member => member.hooks.has hook with
  | false => exact ⟨fun _ => rfl, fun h => (nomatch h)⟩
  | true =>
      have hbody : Composed (fun _ => True) (enter fun site =>
          [⟨site.context.enter
              [⟨["as",
                s!"@e[tag={Location.marker component.space component.name}]"]⟩],
            .functionTag
              (Location.callbackTag component.space hook component.name),
              .hook⟩]) :=
        .enterUnder _ fun _ => ⟨_, trivial, rfl⟩
      have hfunction :=
        lists_function hbody site.functions.head (site.after { functions := 1 })
      exact ⟨hfunction.append (.tagOutline site.functions.head [gameTag]),
        fun _ => ⟨⟨site.functions.position, rfl⟩, List.mem_cons_self⟩⟩

/-- The outline has all dispatchers that the component needs. -/
def HasDispatchers (component : Component) (members : List Member)
    (dispatcher : Hook → String) (template : String)
    (outline : Outline) : Prop :=
  component.isAbstract = false → ∀ hook : Hook, hook.gameTag?.isSome = true →
    (members.any fun member => member.hooks.has hook) = true →
    Dispatches component hook template (dispatcher hook) outline

private theorem HasDispatchers.mono {dispatcher : Hook → String}
    {template : String} {outline outline' : Outline}
    (h : HasDispatchers component members dispatcher template outline)
    (hsub : outline.pieces ⊆ outline'.pieces) :
    HasDispatchers component members dispatcher template outline' :=
  fun habstract hook hgame hany => (h habstract hook hgame hany).mono hsub

/-- Only the hooks that the game drives have dispatchers. -/
theorem each_dispatcher (component : Component) (members : List Member) :
    each (dispatcher component members) Hook.all
      = (dispatcher component members .tick).andThen
        (dispatcher component members .load) := by
  show done.andThen (done.andThen (Plan.andThen _ (Plan.andThen _ done))) = _
  rw [done_andThen, done_andThen, andThen_done]

/-- All dispatchers of a component, each listed in the tag of its hook. -/
private theorem lists_dispatchers
    (hres : (each (dispatcher component members) Hook.all site).result = .ok ())
    (habstract : component.isAbstract = false) :
    ∃ names : Hook → String,
      (each (dispatcher component members) Hook.all site).written.below.Lists
        (component.gameMemberships members names)
      ∧ HasDispatchers component members names site.functions.template
          (each (dispatcher component members) Hook.all
            site).written.below := by
  rw [each_dispatcher] at hres ⊢
  obtain ⟨-, -, hwritten⟩ := andThen_ok hres
  let next := site.after (dispatcher component members .tick site).written
  obtain ⟨htick, hhastick⟩ := lists_dispatcher component members
    (rfl : Hook.tick.gameTag? = some "minecraft:tick") site
  obtain ⟨hload, hhasload⟩ := lists_dispatcher component members
    (rfl : Hook.load.gameTag? = some "minecraft:load") next
  refine ⟨fun hook =>
    if hook = .load then next.functions.head else site.functions.head, ?_, ?_⟩
  · unfold Component.gameMemberships
    rw [hwritten, habstract]
    exact htick.append hload
  · rw [hwritten, Written.below_append]
    intro _ hook hgame hany
    cases hook with
    | tick => exact (hhastick hany).mono (by simp)
    | load => exact (hhasload hany).mono (by simp [next])
    | init => cases hgame
    | destroy => cases hgame

private theorem lists_attachFunction (component : Component)
    (members : List Member) (site : Site) :
    (attachFunction component members site).written.below.Lists [] :=
  lists_function (.block _ (composed_attachBody fun _ _ => trivial)) _ site

private theorem lists_detachFunction (component : Component)
    (members : List Member) (site : Site) :
    (detachFunction component members site).written.below.Lists [] :=
  lists_function (.block _ (composed_detachBody fun _ _ => trivial)) _ site

/-- The entry points list the dispatchers only. -/
private theorem lists_entryPoints
    (hres : (entryPoints component members site).result = .ok ()) :
    ∃ names : Hook → String,
      (entryPoints component members site).written.below.Lists
        (component.gameMemberships members names)
      ∧ HasDispatchers component members names site.functions.template
          (entryPoints component members site).written.below := by
  cases habstract : component.isAbstract with
  | true =>
      refine ⟨fun _ => "", ?_,
        fun h => absurd (habstract.symm.trans h) (by decide)⟩
      unfold entryPoints Component.gameMemberships
      rw [habstract]
      exact fun _ => rfl
  | false =>
      -- attaching and detaching list nothing, so the dispatchers decide
      have hplan : entryPoints component members
          = (each (dispatcher component members) Hook.all).andThen
            ((attachFunction component members).andThen
              (detachFunction component members)) := by
        unfold entryPoints
        rw [habstract]
        rfl
      rw [hplan] at hres ⊢
      obtain ⟨hok, hok', hwritten⟩ := andThen_ok hres
      obtain ⟨-, -, hwritten'⟩ := andThen_ok hok'
      obtain ⟨names, hlists, hhas⟩ := lists_dispatchers hok habstract
      rw [hwritten, hwritten', Written.below_append, Written.below_append]
      refine ⟨names, ?_, hhas.mono (by simp)⟩
      rw [← List.append_nil (component.gameMemberships members names)]
      exact hlists.append ((lists_attachFunction component members _).append
        (lists_detachFunction component members _))

/-- A component lists its memberships, for some locations of its
dispatchers. -/
private theorem lists_component
    (hres : (Plan.component component members site).result = .ok ()) :
    ∃ names : Hook → String,
      (Plan.component component members site).written.below.Lists
        (component.memberships members names)
      ∧ HasDispatchers component members names site.functions.template
          (Plan.component component members site).written.below := by
  have hlabel := result_of_labelled hres
  obtain ⟨hok, hok', hwritten⟩ := andThen_ok hlabel
  obtain ⟨names, hlists, hhas⟩ := lists_entryPoints hok'
  refine ⟨names, ?_, ?_⟩
  · unfold Plan.component
    rw [labelled_written]
    refine .single (.inl rfl) ?_
    rw [hwritten]
    exact (lists_methods component members _ hok).append hlists
  · refine hhas.mono ?_
    unfold Plan.component
    rw [labelled_written]
    unfold within Plan.beneath Outcome.beneath
    rw [hwritten, Outline.pieces_single, Written.below_append,
      Outline.pieces_append]
    exact List.subset_cons_of_subset _ (List.subset_append_right ..)

/-- The components of a project list their memberships. The names of
dispatchers are found component by component, and put together here since
components have different names. -/
theorem lists_components :
    ∀ (resolved : List (Component × List Member)) (site : Site),
      (resolved.map Prod.fst).Pairwise (fun a b => a.name < b.name) →
    (components resolved site).result = .ok () →
    ∃ names : String → Hook → String,
      (components resolved site).written.below.Lists
        (memberships resolved names)
      ∧ ∀ entry ∈ resolved, HasDispatchers entry.1 entry.2 (names entry.1.name)
          site.functions.template (components resolved site).written.below
  | [], _, _, _ => ⟨fun _ _ => "", fun _ => rfl, fun _ h => (nomatch h)⟩
  | (component, members) :: rest, site, hsorted, hres => by
      obtain ⟨hok, hok', hwritten⟩ := andThen_ok hres
      rw [List.map_cons, List.pairwise_cons] at hsorted
      obtain ⟨first, hlists, hhas⟩ := lists_component hok
      obtain ⟨others, hlists', hhas'⟩ := lists_components rest _ hsorted.2 hok'
      have hne : ∀ entry ∈ rest, entry.1.name ≠ component.name :=
        fun entry hentry => Ne.symm <|
          String.ne_of_lt (hsorted.1 entry.1 (List.mem_map_of_mem hentry))
      -- names of components differ, so the dispatchers of the first can be
      -- added to those of the others
      let names :=
        fun name => if name = component.name then first else others name
      have hfirst : names component.name = first := if_pos rfl
      have hothers : ∀ entry ∈ rest, names entry.1.name = others entry.1.name :=
        fun entry hentry => if_neg (hne entry hentry)
      have hrest : memberships rest names = memberships rest others :=
        List.flatMap_congr fun entry hentry => by rw [hothers entry hentry]
      rw [components, each, hwritten, Written.below_append]
      refine ⟨names, ?_, fun entry hentry => ?_⟩
      · unfold memberships at hrest ⊢
        rw [List.flatMap_cons, hrest, hfirst]
        exact hlists.append hlists'
      · rcases List.mem_cons.1 hentry with rfl | hentry
        · rw [hfirst]
          exact hhas.mono (by simp)
        · rw [hothers entry hentry]
          refine (hhas' entry hentry).mono ?_
          rw [Outline.pieces_append]
          exact List.subset_append_right ..

end Plan

-- ================================================================== packs

/-- The function at the location is generated, and runs the methods of a hook
on all entities that the component is attached to. -/
structure Pack.Dispatches (pack : Pack) (component : Component) (hook : Hook)
    (location : String) : Prop where
  generated : Location.isGenerated pack.space location = true
  function : ⟨location, [component.dispatchLine hook]⟩ ∈ pack.functions

/-- The line of a dispatcher, as a text. -/
private theorem Component.render_dispatch {component : Component}
    (hvalid : component.Valid) (hook : Hook) :
    ((Command.functionTag
      (Location.callbackTag component.space hook component.name)).behind
        (Clause.wrapper
          [⟨["as",
            s!"@e[tag={Location.marker component.space component.name}]"]⟩])).render
      = component.dispatchLine hook := by
  have hselector : Text.IsWord
      s!"@e[tag={Location.marker component.space component.name}]" :=
    ((by decide : Text.IsWord "@e[tag=").append
      (Location.isWord_marker hvalid.space hvalid.name).2).append
      (by decide : Text.IsWord "]").2
  have htag : Text.IsWord
      s!"#{Location.callbackTag component.space hook component.name}" :=
    (by decide : Text.IsWord "#").append
      (Location.isWord_callbackTag hvalid.space hook hvalid.name).2
  have htokens : ((Command.functionTag
        (Location.callbackTag component.space hook component.name)).behind
        (Clause.wrapper
          [⟨["as",
            s!"@e[tag={Location.marker component.space component.name}]"]⟩])).tokens
      = ["execute", "as",
        s!"@e[tag={Location.marker component.space component.name}]", "run",
        "function",
        s!"#{Location.callbackTag component.space hook component.name}"] := rfl
  rw [Command.render_eq, htokens]
  · rfl
  · rw [htokens]
    simp only [List.forall_mem_cons]
    exact ⟨by decide, by decide, hselector, by decide, by decide, htag,
      List.forall_mem_nil _⟩

/-- The tags of a pack are what its outline lists. -/
theorem Outline.Lists.mem_tags {outline : Outline}
    {memberships : List (String × String)} (h : outline.Lists memberships)
    (project : Project) {tag : PackTag} :
    tag ∈ (project.packOf outline).tags
      ↔ (∃ value, (tag.location, value) ∈ memberships)
        ∧ tag.members = (listedAt tag.location memberships).eraseDups := by
  have hflatten :
      ((listedAt tag.location memberships).map fun value => [value]).flatten
      = listedAt tag.location memberships := by
    rw [← List.flatMap_def, List.flatMap_singleton']
  rw [Project.mem_tags_packOf, h tag.location, hflatten, ne_eq,
    List.map_eq_nil_iff, listedAt_eq_nil, not_not]

namespace Project.Built

variable {project : Project} {components : List Component}
  {resolved : List (Component × List Member)} {pack : Pack}

/-- The dispatchers of an outline are functions of the pack. -/
private theorem dispatches (h : project.Built components resolved pack)
    {entry : Component × List Member} (hentry : entry ∈ resolved) {hook : Hook}
    {location : String}
    (hdispatches : Plan.Dispatches entry.1 hook
      (Location.functionTemplate project.space) location
      (project.outcome resolved).written.below) :
      pack.Dispatches entry.1 hook location := by
  have hvalid := h.registrable.valid entry.1 (h.resolution.mem hentry)
  rw [h.pack]
  refine ⟨?_, ?_⟩
  · obtain ⟨number, rfl⟩ := hdispatches.named
    exact FunctionPlace.isGenerated_location
      (Name.notMem_of_isValidNamespace h.space (by decide)) (.generated number)
  · have hfunction :
        (⟨location, _⟩ : PackFunction) ∈ (project.packOf _).functions :=
      List.mem_filterMap.2
        ⟨_, Outline.mem_sheets.2 hdispatches.function,
          Sheet.artifact?_eq rfl rfl⟩
    rw [← entry.1.render_dispatch hvalid hook]
    exact hfunction

end Project.Built

/-- The tags of a pack are sorted, and they are exactly the declared
memberships: a tag has the functions that are listed in it, each where it is
listed first, and there is no tag that nothing is listed in. -/
theorem ProjectManifest.tags_list_memberships (manifest : ProjectManifest)
    (files : List (String × ComponentManifest)) {pack : Pack}
    (h : manifest.toProject.build (manifest.components files) = .ok pack) :
    ∃ resolved, ∃ dispatcher : String → Hook → String,
      Resolution (manifest.components files) resolved
      ∧ (∀ entry ∈ resolved,
        entry.1.isAbstract = false → ∀ hook ∈ [Hook.tick, .load],
          (∃ member ∈ entry.2, member.hooks.has hook = true) →
          pack.Dispatches entry.1 hook (dispatcher entry.1.name hook))
      ∧ (pack.tags.map PackTag.location).Pairwise (· < ·)
      ∧ (∀ tag ∈ pack.tags, tag.members
          = (listedAt tag.location (memberships resolved dispatcher)).eraseDups)
      ∧ ∀ location, location ∈ pack.tags.map PackTag.location
          ↔ ∃ value, (location, value) ∈ memberships resolved dispatcher := by
  obtain ⟨resolved, hbuilt⟩ := built_of_build h
  obtain ⟨dispatcher, hlists, hhas⟩ :=
    Plan.lists_components resolved _ hbuilt.resolution.sorted hbuilt.result
  have htags : ∀ tag, tag ∈ pack.tags
      ↔ (∃ value, (tag.location, value) ∈ memberships resolved dispatcher)
        ∧ tag.members
          = (listedAt tag.location
            (memberships resolved dispatcher)).eraseDups := by
    intro tag
    rw [hbuilt.pack]
    exact hlists.mem_tags manifest.toProject
  refine ⟨resolved, dispatcher, hbuilt.resolution, ?_, ?_,
    fun tag htag => ((htags tag).1 htag).2, ?_⟩
  · intro entry hentry habstract hook hhook hmember
    -- only hooks of the game have dispatchers
    have hgame : hook.gameTag?.isSome = true := by
      revert hhook
      cases hook <;> decide
    exact hbuilt.dispatches hentry
      (hhas entry hentry habstract hook hgame (List.any_eq_true.2 hmember))
  · rw [hbuilt.pack]
    exact Project.sorted_tags
  · intro location
    rw [List.mem_map]
    constructor
    · rintro ⟨tag, htag, rfl⟩
      exact ((htags tag).1 htag).1
    · intro hlisted
      exact ⟨⟨location,
        (listedAt location (memberships resolved dispatcher)).eraseDups⟩,
        (htags _).2 ⟨hlisted, rfl⟩, rfl⟩

namespace Beacons

def manifest : ProjectManifest := { name := "Demo", space := "demo" }

/-- An abstract component, and one that overrides its method. Both methods are
listed in a tag of the project, and one of them in a tag of the game. -/
def files : List (String × ComponentManifest) :=
  [("Base",
    { isAbstract := true
      methods :=
        [{ name := "pulse", hooks := { tick := true },
           tags := .ofList ["pulses"] }] }),
   ("Tower",
    { base := some "Base"
      methods :=
        [{ name := "pulse", hooks := { init := true }
           tags := .ofList ["minecraft:tick", "pulses"] },
         { name := "glow", hooks := { tick := true } }] })]

def tags : List PackTag :=
  [⟨"demo:component/callback/init/tower", ["demo:component/tower/pulse"]⟩,
   ⟨"demo:component/callback/tick/tower", ["demo:component/tower/glow"]⟩,
   ⟨"demo:pulses", ["demo:component/base/pulse", "demo:component/tower/pulse",
     "demo:component/tower/base/pulse"]⟩,
   ⟨"minecraft:tick",
     ["demo:component/tower/pulse", "demo:generated/00000000"]⟩]

set_option maxRecDepth 100000 in
/-- The pack of the beacons has these tags. -/
theorem build : ∃ pack,
  manifest.toProject.build (manifest.components files) = .ok pack
    ∧ pack.tags = tags := by
  have htags :
      (manifest.toProject.build (manifest.components files)).toOption.map
        Pack.tags
      = some tags := by decide +kernel
  cases hbuild : manifest.toProject.build (manifest.components files) with
  | error failure =>
      rw [hbuild] at htags
      cases htags
  | ok pack =>
      rw [hbuild] at htags
      exact ⟨pack, rfl, Option.some.inj htags⟩

end Beacons

/-- In the tag of the game the dispatcher stands behind the method that names
the tag itself. -/
theorem ProjectManifest.beacons_memberships :
    ∃ pack, Beacons.manifest.toProject.build
      (Beacons.manifest.components Beacons.files) = .ok pack
      ∧ pack.tags = Beacons.tags
      ∧ ∃ resolved, ∃ dispatcher : String → Hook → String,
          Resolution (Beacons.manifest.components Beacons.files) resolved
          ∧ (listedAt "minecraft:tick"
            (memberships resolved dispatcher)).eraseDups
            = ["demo:component/tower/pulse", "demo:generated/00000000"] := by
  obtain ⟨pack, hbuild, htags⟩ := Beacons.build
  obtain ⟨resolved, dispatcher, hresolution, -, -, hmembers, -⟩ :=
    tags_list_memberships Beacons.manifest Beacons.files hbuild
  have htick :
      (⟨"minecraft:tick", ["demo:component/tower/pulse",
        "demo:generated/00000000"]⟩ : PackTag) ∈ pack.tags := by
    rw [htags]
    decide
  exact ⟨pack, hbuild, htags, resolved, dispatcher, hresolution,
    (hmembers _ htick).symm⟩

end Datapack
