/-
The parts of components, put together.

`Plan.Assembled` lists the ways in which the functions and tags of
components are put together, and with them the locations that are fixed
before the build starts: those of methods and those of the functions that
attach and detach. What bodies leave behind carries over to what a whole
project leaves behind, as long as the build ends well:

- `Assembled.names`: the functions have the fixed locations and the
  generated ones that were taken;
- `Assembled.wellBuilt`: the functions are sound, each for the component it
  was built for, and what a tag lists is a function that was built.

`components_contain` goes the other way: what the plan of a method leaves
is part of what the project leaves. `Leaves.components` is for properties
of what is left that hold also when the build fails.
-/
import Datapack.Proofs.Sheets

namespace Datapack

namespace Plan

-- =================================================================== tags

/-- The outline of tags that all list one function. -/
def tagOutline (value : String) : List String → Outline
  | [] => .nil
  | location :: rest =>
    .single (.tag location [value]) .nil ++ tagOutline value rest

/-- Listing a function in tags writes just these tags. -/
theorem each_tag (value : String) :
    ∀ (locations : List String) (site : Site),
      each (tag value) locations site
        = ⟨{ below := tagOutline value locations }, .ok ()⟩
  | [], _ => rfl
  | _ :: rest, site => by
      rw [each]
      rcases andThen_cases (tag value _) (each (tag value) rest) site with
        ⟨_, h, -⟩ | ⟨-, h⟩
      · cases h
      · rw [h, each_tag value rest]
        rfl

/-- Entering a value in tags leaves one piece for each tag. -/
theorem pieces_tagOutline (value : String) : ∀ locations : List String,
    (tagOutline value locations).pieces
      = locations.map fun location => .tag location [value]
  | [] => rfl
  | location :: rest => by
      rw [tagOutline, Outline.pieces_append, pieces_tagOutline value rest]
      rfl

/-- Entering a value in tags opens no function. -/
@[simp] theorem sheets_tagOutline (value : String) (locations : List String) :
    (tagOutline value locations).sheets = [] := by
  unfold Outline.sheets
  rw [pieces_tagOutline, List.filterMap_map, List.filterMap_eq_nil_iff]
  exact fun _ _ => rfl

-- ============================================================= assembling

/-- The plan is put together from parts of components, which have the
locations `fixed` besides generated ones. -/
inductive Assembled (tags : String → Prop) : List String → Plan → Prop
  | done : Assembled tags [] .done
  | function (location : String) {body : Plan} :
      body.Composed tags → Assembled tags [location] (.function location body)
  | listed (location : String) {body : Plan} (locations : List String) :
      body.Composed tags → Assembled tags [location]
        ((function location body).andThen (each (tag location) locations))
  | withFunction {plan : String → Plan} :
      (∀ location, Assembled tags [location] (plan location)) →
        Assembled tags [] (.withFunction plan)
  | andThen {fixed others : List String} {first second : Plan} :
      Assembled tags fixed first → Assembled tags others second →
        Assembled tags (fixed ++ others) (first.andThen second)
  | labelled (label : String) {fixed : List String} {plan : Plan} :
      Assembled tags fixed plan → Assembled tags fixed (plan.labelled label)
  | beneath {piece : Piece} {fixed : List String} {plan : Plan} :
      piece = .component ∨ piece = .method → Assembled tags fixed plan →
        Assembled tags fixed (plan.beneath piece)
  | within (component : String) {fixed : List String} {plan : Plan} :
      Assembled tags fixed plan → Assembled tags fixed (plan.within component)

variable {tags : String → Prop}

/-- A list of assembled steps is assembled, and its fixed locations are
those of the steps in order. -/
private theorem Assembled.each {α : Type} {plan : α → Plan}
    {fixed : α → List String} :
    ∀ {list : List α}, (∀ a ∈ list, Assembled tags (fixed a) (plan a)) →
      Assembled tags (list.flatMap fixed) (Plan.each plan list)
  | [], _ => .done
  | a :: rest, h => by
      rw [List.flatMap_cons]
      exact .andThen (h a List.mem_cons_self)
        (Assembled.each fun b hb => h b (List.mem_cons_of_mem a hb))

-- ================================================================== names

/-- The functions that were built have the fixed locations and the names
that were taken. -/
theorem Assembled.names {fixed : List String} {plan : Plan}
    (h : Assembled tags fixed plan) :
    ∀ site, (plan site).result = .ok () →
      Names fixed site (plan site).written := by
  -- the function has its own location, and what is below it those that its
  -- body took
  have hfunction : ∀ {location : String} {body : Plan}, body.Composed tags →
      ∀ site, Names [location] site
        (Plan.function location body site).written := by
    intro location body hbody site
    unfold Names Plan.function Outcome.asFunction
    rw [Outline.locations_single_function]
    exact List.Perm.cons location (hbody.names { site with context := .empty })
  induction h with
  | done => exact fun site _ => .nil
  | function location hbody => exact fun site _ => hfunction hbody site
  | @listed location body locations hbody =>
      intro site hres
      obtain ⟨-, -, hwritten⟩ := andThen_ok hres
      have hnone : Names []
          (site.after (Plan.function location body site).written)
          { below := tagOutline location locations } := by
        unfold Names Outline.locations
        rw [sheets_tagOutline]
        exact .nil
      rw [hwritten, each_tag]
      exact (hfunction hbody site).append hnone
  | @withFunction plan _ ih =>
      intro site hres
      -- the first name of the stream is fixed for the part and taken for the
      -- whole
      have hrest := ih site.functions.head (site.after { functions := 1 }) hres
      unfold Names at hrest ⊢
      unfold Plan.withFunction
      rw [Written.below_append, Outline.nil_append, Written.functions_append,
        NameStream.take_add]
      exact hrest
  | @andThen _ _ first second _ _ ih ih' =>
      intro site hres
      obtain ⟨hok, hok', hwritten⟩ := andThen_ok hres
      rw [hwritten]
      exact (ih site hok).append (ih' _ hok')
  | labelled label _ ih =>
      intro site hres
      rw [labelled_written]
      exact ih site (result_of_labelled hres)
  | @beneath piece _ plan hpiece _ ih =>
      intro site hres
      have hrest := ih site hres
      unfold Names Outline.locations at hrest ⊢
      unfold Plan.beneath Outcome.beneath
      rw [Outline.sheets_single_other (by rcases hpiece with rfl | rfl <;> rfl)]
      exact hrest
  | within component _ ih =>
      exact fun site hres => ih { site with component := component } hres

end Plan

-- ============================================================== soundness

/-- The functions fit together, and tags list nothing else. -/
structure Outline.WellBuilt (space : String) (calls : CallTable)
    (tags : String → Prop) (outline : Outline) : Prop where
  sound : ∀ sheet ∈ outline.sheets, ∃ component,
    sheet.Sound ⟨space, calls, component⟩ tags outline.sheets
  listed : ∀ location members, Piece.tag location members ∈ outline.pieces →
    ∀ member ∈ members, member ∈ outline.locations

namespace Outline.WellBuilt

variable {space : String} {calls : CallTable} {tags : String → Prop}

private theorem nil : (Outline.nil).WellBuilt space calls tags where
  sound sheet hsheet := by cases hsheet
  listed location members hpiece := by cases hpiece

private theorem append {first second : Outline}
    (h : first.WellBuilt space calls tags)
    (h' : second.WellBuilt space calls tags) :
    (first ++ second).WellBuilt space calls tags where
  sound sheet hsheet := by
    rw [Outline.sheets_append] at hsheet ⊢
    rcases List.mem_append.1 hsheet with hsheet | hsheet
    · obtain ⟨component, hsound⟩ := h.sound sheet hsheet
      exact ⟨component, hsound.mono (List.subset_append_left ..)⟩
    · obtain ⟨component, hsound⟩ := h'.sound sheet hsheet
      exact ⟨component, hsound.mono (List.subset_append_right ..)⟩
  listed location members hpiece member hmember := by
    rw [Outline.locations_append, List.mem_append]
    rw [Outline.pieces_append, List.mem_append] at hpiece
    rcases hpiece with hpiece | hpiece
    · exact .inl (h.listed location members hpiece member hmember)
    · exact .inr (h'.listed location members hpiece member hmember)

/-- A node that is neither a function nor a tag changes nothing. -/
theorem single {piece : Piece} (hpiece : piece = .component ∨ piece = .method)
    {below : Outline} (h : below.WellBuilt space calls tags) :
    (Outline.single piece below).WellBuilt space calls tags := by
  have hsheets : (Outline.single piece below).sheets = below.sheets :=
    Outline.sheets_single_other (by rcases hpiece with rfl | rfl <;> rfl) below
  refine ⟨?_, ?_⟩
  · rw [hsheets]
    exact h.sound
  · intro location members hmem
    unfold Outline.locations
    rw [hsheets]
    rw [Outline.pieces_single, List.mem_cons] at hmem
    rcases hmem with hmem | hmem
    · rcases hpiece with rfl | rfl <;> cases hmem
    · exact h.listed location members hmem

end Outline.WellBuilt

namespace Plan

variable {tags : String → Prop}

/-- A function of its own, with the tags that list it. -/
theorem Composed.wellBuilt_function {body : Plan} (h : body.Composed tags)
    (location : String) {site : Site}
    (hres : (function location body site).result = .ok ())
    (locations : List String) :
    ((function location body site).written.below
      ++ tagOutline location locations).WellBuilt
      site.space site.calls tags := by
  have hinner := h.sound { site with context := .empty }
  have hinside := h.inside { site with context := .empty }
  have hsound : (function location body site).written.Sound
      site.toGround tags :=
    hinner.asFunction (fun _ => hres) hinside
  -- tags are no functions
  have hsheets : ((function location body site).written.below
      ++ tagOutline location locations).sheets
        = (function location body site).written.below.sheets := by
    rw [Outline.sheets_append, sheets_tagOutline, List.append_nil]
  refine ⟨fun sheet hsheet => ?_, fun tag members htag member hmember => ?_⟩
  · rw [hsheets] at hsheet ⊢
    exact ⟨site.component, hsound.sheets sheet hsheet⟩
  · rw [Outline.pieces_append, List.mem_append] at htag
    rcases htag with htag | htag
    · obtain ⟨sheet, hsheet⟩ := hsound.pieces _ htag
      cases hsheet
    · rw [pieces_tagOutline, List.mem_map] at htag
      obtain ⟨_, -, htag⟩ := htag
      cases htag
      rw [List.mem_singleton.1 hmember]
      unfold Outline.locations
      rw [hsheets]
      unfold function Outcome.asFunction
      rw [Outline.sheets_single_function]
      exact List.mem_cons_self

/-- What an assembled plan leaves is well built, if the plan ends well. The
induction is over the way it was assembled. -/
theorem Assembled.wellBuilt {fixed : List String} {plan : Plan}
    (h : Assembled tags fixed plan) :
    ∀ site, (plan site).result = .ok () →
      (plan site).written.below.WellBuilt site.space site.calls tags := by
  induction h with
  | done => exact fun site _ => .nil
  | function location hbody =>
      intro site hres
      have h := hbody.wellBuilt_function location hres []
      rwa [tagOutline, Outline.append_nil] at h
  | listed location locations hbody =>
      intro site hres
      obtain ⟨hok, -, hwritten⟩ := andThen_ok hres
      rw [hwritten, each_tag]
      exact hbody.wellBuilt_function location hok locations
  | withFunction _ ih =>
      intro site hres
      exact ih _ (site.after { functions := 1 }) hres
  | andThen _ _ ih ih' =>
      intro site hres
      obtain ⟨hok, hok', hwritten⟩ := andThen_ok hres
      rw [hwritten]
      exact (ih site hok).append (ih' (site.after _) hok')
  | labelled label _ ih =>
      intro site hres
      rw [labelled_written]
      exact ih site (result_of_labelled hres)
  | beneath hpiece _ ih => exact fun site hres => (ih site hres).single hpiece
  | within component _ ih =>
      exact fun site hres => ih { site with component := component } hres

-- ================================================================ projects

/-- The locations of a component's functions that are not generated. -/
def fixedLocations (component : Component) (members : List Member) :
    List String :=
  members.map Member.location
    ++ if component.isAbstract then []
      else [Location.ofAttach component.space component.name,
        Location.ofDetach component.space component.name]

/-- The entry points are assembled. An abstract component has none. -/
private theorem assembled_entryPoints {component : Component}
    {members : List Member}
    (h : component.isAbstract = false →
      ∀ moment, Build.anyHooked members moment = true →
        tags (Location.callbackTag component.space moment component.name)) :
    Assembled tags
      (if component.isAbstract then []
        else [Location.ofAttach component.space component.name,
          Location.ofDetach component.space component.name])
      (entryPoints component members) := by
  unfold entryPoints
  cases habstract : component.isAbstract with
  | true => exact .done
  | false =>
      have hhooks := h habstract
      have hdispatchers : Assembled tags (Hook.all.flatMap fun _ => [])
          (Plan.each (dispatcher component members) Hook.all) := by
        refine .each fun hook _ => ?_
        unfold dispatcher
        cases hook.gameTag? with
        | none => exact .done
        | some gameTag =>
            dsimp only
            split
            · next hany =>
              refine .withFunction fun location => .listed location [gameTag] ?_
              exact .enterUnder _ fun _ => ⟨_, hhooks hook hany, rfl⟩
            · exact .done
      exact .andThen hdispatchers
        (.andThen (.function _ (.block _ (composed_attachBody hhooks)))
          (.function _ (.block _ (composed_detachBody hhooks))))

/-- A component is assembled from its methods and its entry points. -/
private theorem assembled_component {component : Component}
    {members : List Member}
    (h : component.isAbstract = false →
      ∀ moment, Build.anyHooked members moment = true →
        tags (Location.callbackTag component.space moment component.name)) :
    Assembled tags (fixedLocations component members)
      (Plan.component component members) := by
  have hmethods : Assembled tags
      (members.flatMap fun member => [member.location])
      (Plan.each (method component) members) :=
    .each fun member _ => .labelled _ (.beneath (.inr rfl)
      (.listed _ _ (composed_methodBody component member)))
  rw [← List.map_eq_flatMap] at hmethods
  exact .labelled _ (.within _ (.beneath (.inl rfl)
    (.andThen hmethods (assembled_entryPoints h))))

/-- The tags of hooks that some method of the project has. -/
def hookTags (resolved : List (Component × List Member))
    (tag : String) : Prop :=
  ∃ entry ∈ resolved, entry.1.isAbstract = false ∧ ∃ hook,
    Build.anyHooked entry.2 hook = true
      ∧ tag = Location.callbackTag entry.1.space hook entry.1.name

/-- All components of a project are assembled from their parts, one after
the other. -/
theorem assembled_components (resolved : List (Component × List Member)) :
    Assembled (hookTags resolved)
      (resolved.flatMap fun entry => fixedLocations entry.1 entry.2)
      (components resolved) :=
  .each fun entry hentry => assembled_component fun habstract hook hany =>
    ⟨entry, hentry, habstract, hook, hany, rfl⟩

-- ============================================================== containing

/-- What an element of a list leaves is part of what the list leaves. -/
theorem each_contains {α : Type} {plan : α → Plan} {a : α} :
    ∀ {list : List α} {site : Site},
      a ∈ list → (each plan list site).result = .ok () →
        ∃ here : Site, here.toGround = site.toGround
        ∧ here.functions.template = site.functions.template
          ∧ (plan a here).result = .ok ()
        ∧ (plan a here).written.below.pieces
          ⊆ (each plan list site).written.below.pieces
  | first :: rest, site, hmem, hres => by
      obtain ⟨hok, hok', hwritten⟩ := andThen_ok hres
      have hpieces : (each plan (first :: rest) site).written.below.pieces
          = (plan first site).written.below.pieces
            ++ (each plan rest
              (site.after (plan first site).written)).written.below.pieces := by
        rw [each, hwritten, Written.below_append, Outline.pieces_append]
      rw [hpieces]
      rcases List.mem_cons.1 hmem with rfl | hmem
      · exact ⟨site, rfl, rfl, hok, List.subset_append_left ..⟩
      · obtain ⟨here, hground, hnames, hhere, hsub⟩ := each_contains hmem hok'
        exact ⟨here, hground, hnames, hhere,
          List.subset_append_of_subset_right _ hsub⟩

/-- What a method leaves: its function, what is below it, and the tags that
list it. -/
structure MethodBuilt (component : Component) (member : Member) (site : Site)
    (outline : Outline) : Prop where
  context : site.context = .empty
  result : (methodBody component member site).result = .ok ()
  function : Piece.function ⟨some member.location, .empty, .closed,
    (methodBody component member site).written.entries⟩ ∈ outline.pieces
  below : (methodBody component member site).written.below.pieces
    ⊆ outline.pieces
  tags : ∀ tag ∈ Build.tagsOf component member,
    Piece.tag tag [member.location] ∈ outline.pieces

/-- A method that ends well has left its function and what is below it. -/
theorem method_contains {component : Component} {member : Member} {site : Site}
    (hres : (method component member site).result = .ok ()) :
    MethodBuilt component member { site with context := .empty }
      (method component member site).written.below := by
  have hlabel := result_of_labelled hres
  obtain ⟨hok, -, hwritten⟩ := andThen_ok hlabel
  have hpieces : (method component member site).written.below.pieces
      = .method :: ((Plan.function member.location (methodBody component member)
          site).written.below.pieces
        ++ (tagOutline member.location
          (Build.tagsOf component member)).pieces) := by
    unfold method
    rw [labelled_written]
    unfold Plan.beneath Outcome.beneath
    rw [hwritten, each_tag, Outline.pieces_single, Written.below_append,
      Outline.pieces_append]
  -- the function is closed, since the body ends well
  have hfunction : (Plan.function member.location (methodBody component member)
      site).written.below.pieces
      = .function ⟨some member.location, .empty, .closed,
          (methodBody component member
            { site with context := .empty }).written.entries⟩
        :: (methodBody component member
          { site with context := .empty }).written.below.pieces := by
    have hstage :
        (methodBody component member { site with context := .empty }).stage
        = .closed := Outcome.stage_of_ok hok
    unfold Plan.function Outcome.asFunction
    rw [Outline.pieces_single, hstage]
  refine ⟨rfl, hok, ?_, ?_, ?_⟩
  · rw [hpieces, hfunction]
    simp
  · rw [hpieces, hfunction]
    intro piece hpiece
    simp [hpiece]
  · intro tag htag
    rw [hpieces, pieces_tagOutline]
    simp [htag]

/-- Every method of every component is built somewhere, with the ground of
its component. -/
theorem components_contain {resolved : List (Component × List Member)}
    {component : Component} {members : List Member} {member : Member}
    (hentry : (component, members) ∈ resolved) (hmember : member ∈ members)
    {site : Site} (hres : (components resolved site).result = .ok ()) :
    ∃ here : Site, here.toGround = ⟨site.space, site.calls, component.name⟩
      ∧ here.functions.template = site.functions.template
      ∧ MethodBuilt component member here
        (components resolved site).written.below := by
  obtain ⟨here, hground, hnames, hok, hsub⟩ := each_contains hentry hres
  have hlabel := result_of_labelled hok
  obtain ⟨hmethods, -, hwritten⟩ := andThen_ok hlabel
  obtain ⟨inner, hinner, hnames', hmethod, hsub'⟩ :=
    each_contains hmember hmethods
  have hbuilt := method_contains hmethod
  -- what the method leaves is part of what its component leaves, and that of
  -- the whole
  have hall : (method component member inner).written.below.pieces
      ⊆ (components resolved site).written.below.pieces := by
    refine List.Subset.trans (List.Subset.trans hsub' fun piece hpiece => ?_)
      hsub
    unfold Plan.component
    rw [labelled_written]
    unfold within Plan.beneath Outcome.beneath
    rw [hwritten, Outline.pieces_single, Written.below_append,
      Outline.pieces_append]
    exact List.mem_cons_of_mem _ (List.mem_append_left _ hpiece)
  refine ⟨{ inner with context := .empty }, ?_, hnames'.trans hnames,
    hbuilt.context, hbuilt.result, hall hbuilt.function,
    List.Subset.trans hbuilt.below hall,
    fun tag htag => hall (hbuilt.tags tag htag)⟩
  rw [show ({ inner with context := .empty } : Site).toGround
    = inner.toGround from rfl, hinner]
  rw [← hground]

end Plan

-- ================================================================= leaving

/-- The tags that the game itself calls. -/
def Hook.gameTags : List String := ["minecraft:tick", "minecraft:load"]

/-- A hook that the game calls by itself is listed in one of the tags of
the game. -/
theorem Hook.mem_gameTags {hook : Hook} {tag : String}
    (h : hook.gameTag? = some tag) :
    tag ∈ Hook.gameTags := by
  cases hook with
  | tick => cases h; exact List.mem_cons_self
  | load => cases h; exact List.mem_cons_of_mem _ List.mem_cons_self
  | init => cases h
  | destroy => cases h

/-- The property holds of nothing, of outlines that stand next to each other
and of what stands below a component or a method. -/
structure Outline.Gathers (P : Outline → Prop) : Prop where
  nil : P .nil
  append : ∀ {first second : Outline}, P first → P second → P (first ++ second)
  single : ∀ {piece : Piece} {below : Outline},
    piece = .component ∨ piece = .method → P below → P (.single piece below)

namespace Plan

/-- What the plan leaves has the property, however it ends. -/
def Leaves (P : Outline → Prop) (plan : Plan) : Prop :=
  ∀ site, P (plan site).written.below

namespace Leaves

variable {P : Outline → Prop} (hP : Outline.Gathers P)

include hP

/-- What is true of all that two steps leave is true of what they
leave in a row. -/
private theorem andThen {plan next : Plan} (h : Leaves P plan)
    (h' : Leaves P next) :
    Leaves P (plan.andThen next) := by
  intro site
  rcases andThen_cases plan next site with ⟨_, -, heq⟩ | ⟨-, heq⟩
  · rw [heq]
    exact h site
  · rw [heq]
    exact hP.append (h site) (h' _)

private theorem each {α : Type} {plan : α → Plan} {list : List α}
    (h : ∀ a ∈ list, Leaves P (plan a)) : Leaves P (Plan.each plan list) := by
  induction list with
  | nil => exact fun _ => hP.nil
  | cons a rest ih =>
      exact andThen hP (h a List.mem_cons_self)
        (ih fun b hb => h b (List.mem_cons_of_mem a hb))

omit hP in
private theorem labelled {label : String} {plan : Plan} (h : Leaves P plan) :
    Leaves P (plan.labelled label) := by
  intro site
  rw [labelled_written]
  exact h site

/-- It is enough to look at the parts of components. -/
theorem components {resolved : List (Component × List Member)}
    (hmethods : ∀ entry ∈ resolved, ∀ member ∈ entry.2,
      Leaves P (.function member.location (methodBody entry.1 member))
        ∧ P (tagOutline member.location (Build.tagsOf entry.1 member)))
    (hentryPoints : ∀ entry ∈ resolved,
      (∀ hook, Leaves P (dispatcher entry.1 entry.2 hook))
        ∧ Leaves P (attachFunction entry.1 entry.2)
          ∧ Leaves P (detachFunction entry.1 entry.2)) :
    Leaves P (.components resolved) := by
  refine each hP
    fun entry hentry => labelled fun site => hP.single (.inl rfl) ?_
  refine andThen hP (each hP fun member hmember => ?_) ?_
    { site with component := entry.1.name }
  · obtain ⟨hfunction, htags⟩ := hmethods entry hentry member hmember
    refine labelled
      fun site =>
        hP.single (.inr rfl) (andThen hP hfunction (fun inner => ?_) site)
    rw [each_tag]
    exact htags
  · obtain ⟨hdispatchers, hattach, hdetach⟩ := hentryPoints entry hentry
    unfold entryPoints
    split
    · exact fun _ => hP.nil
    · exact andThen hP (each hP fun hook _ => hdispatchers hook)
        (andThen hP hattach hdetach)

end Leaves

end Plan

end Datapack
