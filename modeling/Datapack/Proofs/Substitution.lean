/-
Bodies may be replaced.

Nothing is read of a body before it is run. Registration and resolution
look at names, bases, visibilities, hooks and tags, and so do the tables of
calls. Two lists of components that differ in their bodies only, element by
element, are therefore registered and resolved alike: with the same defect,
or with results that again differ in the bodies only. If the bodies agree
as plans, the two projects are built into the same pack or fail with the
same failure (`Project.build_congr`).

The steps up to there are all of one kind. What is made of things that are
alike is alike, for tables, registries, collected methods and members in
turn.
-/
import Datapack.Proofs.Agreement
import Datapack.Proofs.Collection
import Datapack.Proofs.Packs
import Datapack.Proofs.Registration

namespace Datapack

-- ================================================================ results

/-- Both fail with the same error, or both succeed with related values. -/
inductive Paired {ε α β : Type} (related : α → β → Prop) :
    Except ε α → Except ε β → Prop
  | ok {a : α} {b : β} : related a b → Paired related (.ok a) (.ok b)
  | error (e : ε) : Paired related (.error e) (.error e)

private theorem Paired.refl {ε α : Type} (result : Except ε α) :
    Paired Eq result result := by
  cases result with
  | ok value => exact .ok rfl
  | error e => exact .error e

/-- Results that are paired stay so through steps that are. -/
private theorem Paired.bind {ε α β γ δ : Type} {related : α → β → Prop}
    {next : γ → δ → Prop} {first : Except ε α} {first' : Except ε β}
    {second : α → Except ε γ} {second' : β → Except ε δ}
    (h : Paired related first first')
    (h' : ∀ a b, related a b → Paired next (second a) (second' b)) :
    Paired next (first >>= second) (first' >>= second') := by
  cases h with
  | ok hrelated => exact h' _ _ hrelated
  | error e => exact .error e

-- ================================================================= tables

namespace Table

variable {α β : Type} {related : α → β → Prop}

/-- The tables have the same names, and related values under them. -/
def Alike (related : α → β → Prop) (table : Table α) (other : Table β) : Prop :=
  List.Forall₂ (fun a b => a.1 = b.1 ∧ related a.2 b.2) table.entries
    other.entries

/-- Inserting related values keeps tables alike. -/
private theorem Alike.insert {table : Table α} {other : Table β}
    (h : Alike related table other) {value : α} {value' : β}
    (hvalue : related value value') (name : String) :
    Alike related (table.insert name value) (other.insert name value') := by
  obtain ⟨entries, _⟩ := table
  obtain ⟨entries', _⟩ := other
  show List.Forall₂ _ (insertEntry name value entries)
    (insertEntry name value' entries')
  change List.Forall₂ _ entries entries' at h
  induction h with
  | nil => exact .cons ⟨rfl, hvalue⟩ .nil
  | @cons a b rest rest' hab hrest ih =>
      -- the place of the new entry depends on the names only
      simp only [insertEntry, hab.1]
      split
      · exact .cons ⟨rfl, hvalue⟩ (.cons hab hrest)
      · split
        · exact .cons hab
            (ih (List.pairwise_cons.1 ‹_›).2 (List.pairwise_cons.1 ‹_›).2)
        · exact .cons ⟨rfl, hvalue⟩ hrest

/-- A name has related values in both tables, or none in either. -/
theorem Alike.get? {table : Table α} {other : Table β}
    (h : Alike related table other) (name : String) :
    (table.get? name = none ∧ other.get? name = none)
      ∨ ∃ a b,
        table.get? name = some a ∧ other.get? name = some b ∧ related a b := by
  unfold Table.get?
  obtain ⟨entries, _⟩ := table
  obtain ⟨entries', _⟩ := other
  change List.Forall₂ _ entries entries' at h
  dsimp only
  induction h with
  | nil => exact .inl ⟨rfl, rfl⟩
  | @cons a b rest rest' hab _ ih =>
      rw [List.find?_cons, List.find?_cons, hab.1]
      cases b.1 == name with
      | true => exact .inr ⟨a.2, b.2, rfl, rfl, hab.2⟩
      | false =>
          exact ih (List.pairwise_cons.1 ‹_›).2 (List.pairwise_cons.1 ‹_›).2

/-- The values of tables that are alike are related one by one. -/
private theorem Alike.values {table : Table α} {other : Table β}
    (h : Alike related table other) :
    List.Forall₂ related table.values other.values := by
  unfold Table.values
  rw [List.forall₂_map_left_iff, List.forall₂_map_right_iff]
  exact h.imp fun _ _ hab => hab.2

end Table

-- ============================================================= declarations

/-- The methods differ in their bodies at most, and the bodies agree. -/
structure Method.Alike (method other : Method) : Prop where
  name : method.name = other.name
  visibility : method.visibility = other.visibility
  hooks : method.hooks = other.hooks
  tags : method.tags = other.tags
  guarded : method.guarded = other.guarded
  body : (Action.planAll method.body).Agrees (Action.planAll other.body)

/-- The components differ in the bodies of their methods at most, and the
bodies agree. -/
structure Component.Alike (component other : Component) : Prop where
  space : component.space = other.space
  name : component.name = other.name
  base : component.base = other.base
  isAbstract : component.isAbstract = other.isAbstract
  methods : List.Forall₂ Method.Alike component.methods other.methods

/-- A method is alike to itself. -/
theorem Method.Alike.refl (method : Method) : method.Alike method :=
  ⟨rfl, rfl, rfl, rfl, rfl, .refl _⟩

/-- A component is alike to itself. -/
theorem Component.Alike.refl (component : Component) :
    component.Alike component :=
  ⟨rfl, rfl, rfl, rfl, List.forall₂_same.2 fun method _ => .refl method⟩

/-- Components that are alike declare the same names. -/
private theorem Component.Alike.names_eq {component other : Component}
    (h : component.Alike other) :
    component.methods.map Method.name = other.methods.map Method.name := by
  rw [← List.forall₂_eq_eq_eq, List.forall₂_map_left_iff,
    List.forall₂_map_right_iff]
  exact h.methods.imp fun _ _ hmethod => hmethod.name

-- ================================================================ holdings

/-- The definitions differ in the bodies of a component at most, and the
bodies agree. -/
inductive Definition.Alike : Definition → Definition → Prop
  | component {found found' : Component} :
      found.Alike found' → Alike (.component found) (.component found')
  | method (method : Method) : Alike (.method method) (.method method)

/-- The namespaces have components under the same names, and they are
alike. -/
def Holdings.Alike (holdings other : Holdings) : Prop :=
  Table.Alike Definition.Alike (holdings.get .component) (other.get .component)

/-- Namespaces that are alike have components that are alike, one by one. -/
private theorem Holdings.Alike.componentList {holdings other : Holdings}
    (h : holdings.Alike other) :
    List.Forall₂ Component.Alike holdings.componentList
      other.componentList := by
  unfold Holdings.componentList
  have hvalues := Table.Alike.values h
  generalize (holdings.get .component).values = definitions at hvalues
  generalize (other.get .component).values = definitions' at hvalues
  induction hvalues with
  | nil => exact .nil
  | cons hdefinition _ ih =>
      cases hdefinition with
      | component hcomponent => exact .cons hcomponent ih
      | method method => exact ih

-- ============================================================ registration

namespace Registry

/-- The checks of a component do not look at bodies. -/
private theorem validate_congr {component other : Component}
    (h : component.Alike other) :
    validate component = validate other := by
  have hmethods : ∀ {methods methods' : List Method},
      List.Forall₂ Method.Alike methods methods' →
        ∀ seen, validateMethods component seen methods
          = validateMethods other seen methods' := by
    intro methods methods' hall
    induction hall with
    | nil => exact fun _ => rfl
    | cons hmethod _ ih =>
        intro seen
        rw [validateMethods, validateMethods, hmethod.name, h.name, h.space, ih]
  unfold validate
  rw [h.space, h.name, hmethods h.methods]

/-- The registries have the same names, with components under them that are
alike. -/
def Alike (registry other : Registry) : Prop :=
  Table.Alike Holdings.Alike registry.spaces other.spaces

variable {registry other : Registry}

/-- The namespaces of registries that are alike are alike. -/
private theorem Alike.holdings (h : registry.Alike other) (space : String) :
    (registry.holdings space).Alike (other.holdings space) := by
  unfold Registry.holdings
  rcases h.get? space with ⟨hnone, hnone'⟩
    | ⟨names, names', hsome, hsome', hnames⟩
  · rw [hnone, hnone']
    exact List.Forall₂.nil
  · rw [hsome, hsome']
    exact hnames

/-- A name has components that are alike in both registries, or none in
either. -/
theorem Alike.component? (h : registry.Alike other) (space name : String) :
    (registry.component? space name = none ∧ other.component? space name = none)
      ∨ ∃ found found', registry.component? space name = some found
        ∧ other.component? space name = some found' ∧ found.Alike found' := by
  unfold Registry.component?
  rcases Table.Alike.get? (h.holdings space) name with
    ⟨hnone, hnone'⟩ | ⟨_, _, hsome, hsome', hdefinition⟩
  · rw [hnone, hnone']
    exact .inl ⟨rfl, rfl⟩
  · rw [hsome, hsome']
    cases hdefinition with
    | component hcomponent => exact .inr ⟨_, _, rfl, rfl, hcomponent⟩
    | method method => exact .inl ⟨rfl, rfl⟩

/-- Adding components that are alike keeps registries alike. -/
private theorem Alike.add (h : registry.Alike other)
    {component component' : Component}
    (hcomponent : component.Alike component') :
    (registry.add component).Alike (other.add component') := by
  unfold Registry.add
  rw [hcomponent.space, hcomponent.name]
  have htable := Table.Alike.insert (h.holdings component'.space)
    (.component hcomponent : Definition.Alike _ _) component'.name
  exact Table.Alike.insert h (show Holdings.Alike (Holdings.set _ .component _)
    (Holdings.set _ .component _) from htable) component'.space

/-- Components that are alike are registered alike, or refused for the same
defect. -/
private theorem Alike.registerComponent (h : registry.Alike other)
    {component component' : Component}
    (hcomponent : component.Alike component') :
    Paired Alike (registry.registerComponent component)
      (other.registerComponent component') := by
  rw [registerComponent_eq, registerComponent_eq, validate_congr hcomponent]
  refine (Paired.refl _).bind fun _ _ _ => ?_
  rw [hcomponent.space, hcomponent.name, Table.contains_eq, Table.contains_eq]
  -- the name is taken in both registries or in neither
  rcases Table.Alike.get? (h.holdings component'.space) component'.name with
    ⟨hnone, hnone'⟩ | ⟨_, _, hsome, hsome', -⟩
  · rw [hnone, hnone']
    exact .ok (h.add hcomponent)
  · rw [hsome, hsome']
    exact .error _

/-- Lists of components that are alike are registered alike. -/
private theorem Alike.registerAll {components components' : List Component}
    (hall : List.Forall₂ Component.Alike components components')
    (h : registry.Alike other) :
    Paired Alike (registry.registerAll components)
      (other.registerAll components') := by
  induction hall generalizing registry other with
  | nil => exact .ok h
  | cons hcomponent _ ih =>
      rw [registerAll_cons, registerAll_cons]
      exact (h.registerComponent hcomponent).bind fun _ _ hnext => ih hnext

/-- Registries that are alike have as many components, so searches have the
same bound. -/
private theorem Alike.length_allComponents (h : registry.Alike other) :
    registry.allComponents.length = other.allComponents.length := by
  unfold allComponents
  rw [List.length_flatMap, List.length_flatMap]
  refine congrArg List.sum ?_
  rw [← List.forall₂_eq_eq_eq, List.forall₂_map_left_iff,
    List.forall₂_map_right_iff]
  exact h.values.imp fun _ _ hholdings => hholdings.componentList.length_eq

end Registry

-- ============================================================== resolution

/-- The members differ in their bodies at most, and the bodies agree. -/
structure Member.Alike (member other : Member) : Prop where
  key : member.key = other.key
  location : member.location = other.location
  hooks : member.hooks = other.hooks
  method : member.method.Alike other.method

/-- What was collected differs in the bodies at most, and the bodies agree. -/
structure Collected.Alike (collected other : Collected) : Prop where
  origin : collected.origin = other.origin
  hooks : collected.hooks = other.hooks
  method : collected.method.Alike other.method

/-- A method is inherited alike by heirs that are alike. -/
private theorem Collected.Alike.inherit {heir heir' base base' : Component}
    (hheir : heir.Alike heir') (hbase : base.name = base'.name)
    {collected other : Collected} (h : collected.Alike other) :
    (collected.inherit heir base).Alike (other.inherit heir' base') := by
  unfold Collected.inherit
  rw [heir.isSome_method?, heir'.isSome_method?, hheir.names_eq, h.method.name,
    h.origin, hbase]
  split
  · exact ⟨rfl, rfl, h.method⟩
  · exact ⟨rfl, h.hooks, h.method⟩

/-- The own methods of components that are alike are collected alike. -/
private theorem Component.Alike.own {component other : Component}
    (h : component.Alike other) :
    List.Forall₂ Collected.Alike (component.methods.map .own)
      (other.methods.map .own) := by
  rw [List.forall₂_map_left_iff, List.forall₂_map_right_iff]
  exact h.methods.imp fun _ _ hmethod => ⟨rfl, hmethod.hooks, hmethod⟩

/-- One call of the recursion after the other: the chains of names are the
same, so both fail in the same call or in none. -/
theorem Registry.Alike.collect {registry other : Registry}
    (h : registry.Alike other) (fuel : Nat) :
    ∀ (chain : List String) {component component' : Component},
      component.Alike component' →
      Paired (List.Forall₂ Collected.Alike)
        (registry.collect fuel chain component)
        (other.collect fuel chain component') := by
  induction fuel with
  | zero =>
      intro chain component component' hcomponent
      rw [Registry.collect, Registry.collect, hcomponent.name]
      exact .error _
  | succ fuel ih =>
      intro chain component component' hcomponent
      rw [Registry.collect, Registry.collect, hcomponent.base, hcomponent.space,
        hcomponent.name]
      split
      · exact .error _
      · cases component'.base with
        | none => exact .ok hcomponent.own
        | some name =>
            dsimp only
            rcases h.component? component'.space name with
              ⟨hnone, hnone'⟩ | ⟨base, base', hsome, hsome', hbase⟩
            · rw [hnone, hnone']
              exact .error _
            · -- the methods of the base are collected alike, and inherited
              -- alike
              rw [hsome, hsome']
              refine (ih _ hbase).bind fun _ _ hinherited => .ok ?_
              refine List.rel_append hcomponent.own ?_
              rw [List.forall₂_map_left_iff, List.forall₂_map_right_iff]
              exact hinherited.imp fun _ _ hcollected =>
                hcollected.inherit hcomponent hbase.name

/-- What was collected is resolved alike. -/
private theorem Component.Alike.resolve {component other : Component}
    (h : component.Alike other) {collected collected' : Collected}
    (hcollected : collected.Alike collected') :
    (component.resolve collected).Alike (other.resolve collected') := by
  unfold Component.resolve
  dsimp only
  rw [h.space, h.name, hcollected.origin, hcollected.method.name,
    hcollected.method.visibility]
  exact ⟨rfl, rfl, hcollected.hooks, hcollected.method⟩

/-- The members of components that are alike are alike, or cannot be
collected for the same defect. -/
private theorem Registry.Alike.members {registry other : Registry}
    (h : registry.Alike other) {component component' : Component}
    (hcomponent : component.Alike component') :
    Paired (List.Forall₂ Member.Alike) (registry.members component)
      (other.members component') := by
  unfold Registry.members
  rw [h.length_allComponents]
  refine (h.collect _ [] hcomponent).bind fun _ _ hcollected => .ok ?_
  rw [List.forall₂_map_left_iff, List.forall₂_map_right_iff]
  exact hcollected.imp fun _ _ hmethod => hcomponent.resolve hmethod

/-- The components are alike, and so are their members. -/
def AlikeEntries (entry other : Component × List Member) : Prop :=
  entry.1.Alike other.1 ∧ List.Forall₂ Member.Alike entry.2 other.2

/-- All components are resolved alike. -/
private theorem Registry.Alike.resolveAll {registry other : Registry}
    (h : registry.Alike other) {components components' : List Component}
    (hall : List.Forall₂ Component.Alike components components') :
    Paired (List.Forall₂ AlikeEntries) (Project.resolveAll registry components)
      (Project.resolveAll other components') := by
  induction hall with
  | nil => exact .ok .nil
  | @cons component component' _ _ hcomponent _ ih =>
      rw [Project.resolveAll, Project.resolveAll, hcomponent.name]
      have hmembers := h.members hcomponent
      generalize registry.members component = found at hmembers
      generalize other.members component' = found' at hmembers
      cases hmembers with
      | error defect => exact .error _
      | ok hmembers =>
          exact ih.bind
            fun _ _ hrest => .ok (.cons ⟨hcomponent, hmembers⟩ hrest)

-- ================================================================ building

/-- The call table has nothing of the bodies, so it is the same. -/
private theorem CallTable.ofComponents_congr
    {resolved resolved' : List (Component × List Member)}
      (h : List.Forall₂ AlikeEntries resolved resolved') :
    CallTable.ofComponents resolved = CallTable.ofComponents resolved' := by
  have hmembers : ∀ {members members' : List Member},
      List.Forall₂ Member.Alike members members' →
        ∀ methods, members.foldl ComponentCalls.insertMember methods
        = members'.foldl ComponentCalls.insertMember methods := by
    intro members members' hall
    induction hall with
    | nil => exact fun _ => rfl
    | cons hmember _ ih =>
        intro methods
        rw [List.foldl_cons, List.foldl_cons, ComponentCalls.insertMember,
          ComponentCalls.insertMember, hmember.location, hmember.key,
          hmember.method.visibility, hmember.method.name, ih]
  unfold CallTable.ofComponents
  generalize (Table.empty : CallTable) = table
  induction h generalizing table with
  | nil => rfl
  | cons hentry _ ih =>
      rw [List.foldl_cons, List.foldl_cons, CallTable.insertComponent,
        CallTable.insertComponent, ComponentCalls.ofMembers,
        ComponentCalls.ofMembers, hentry.1.name, hentry.1.isAbstract,
        hmembers hentry.2, ih]

/-- The same hooks are in force. -/
private theorem anyHooked_congr {members members' : List Member}
    (h : List.Forall₂ Member.Alike members members') :
    Build.anyHooked members = Build.anyHooked members' := by
  funext hook
  unfold Build.anyHooked
  induction h with
  | nil => rfl
  | cons hmember _ ih => rw [List.any_cons, List.any_cons, hmember.hooks, ih]

namespace Plan

variable {source other : Component}

/-- The bodies of methods that are alike agree, guarded or not. -/
private theorem Agrees.methodBody (h : source.Alike other)
    {member member' : Member} (hmember : member.Alike member') :
    (Plan.methodBody source member).Agrees (Plan.methodBody other member') := by
  unfold Plan.methodBody
  rw [h.name, hmember.key, hmember.method.guarded]
  split
  · exact hmember.method.body.guarded _ _
  · exact hmember.method.body

/-- Methods that are alike are built alike. -/
private theorem Agrees.method (h : source.Alike other) {member member' : Member}
    (hmember : member.Alike member') :
    (Plan.method source member).Agrees (Plan.method other member') := by
  have htags : Build.tagsOf source member = Build.tagsOf other member' := by
    unfold Build.tagsOf
    rw [h.isAbstract, h.space, h.name, hmember.hooks, hmember.method.tags]
  unfold Plan.method
  rw [hmember.key, hmember.location, htags]
  exact .labelled _
    (.beneath _ (.andThen (.function _ (.methodBody h hmember)) (.refl _)))

/-- The functions besides the methods are written without a look at a
body. -/
theorem entryPoints_congr (h : source.Alike other)
    {members members' : List Member}
    (hmembers : List.Forall₂ Member.Alike members members') :
    entryPoints source members = entryPoints other members' := by
  have hhooked := anyHooked_congr hmembers
  have hdispatcher : dispatcher source members = dispatcher other members' := by
    funext hook
    unfold dispatcher
    rw [hhooked, h.space, h.name]
  have hrun : runHook source members = runHook other members' := by
    funext hook
    unfold runHook Plan.hook
    rw [hhooked, h.space, h.name]
  unfold entryPoints attachFunction detachFunction attachBody detachBody
  rw [hdispatcher, hrun, h.isAbstract, h.space, h.name]

/-- Components that are alike are built alike. -/
private theorem Agrees.component (h : source.Alike other)
    {members members' : List Member}
    (hmembers : List.Forall₂ Member.Alike members members') :
    (Plan.component source members).Agrees (Plan.component other members') := by
  unfold Plan.component
  rw [entryPoints_congr h hmembers, h.name]
  refine .labelled _ (.within _ (.beneath _ (.andThen (.each ?_) (.refl _))))
  exact hmembers.imp fun _ _ hmember => .method h hmember

private theorem Agrees.components
    {resolved resolved' : List (Component × List Member)}
      (h : List.Forall₂ AlikeEntries resolved resolved') :
    (Plan.components resolved).Agrees (Plan.components resolved') :=
  .each (h.imp fun _ _ hentry => .component hentry.1 hentry.2)

end Plan

/-- Components that differ in their bodies only, and there in nothing that
shows, are built into the same pack, or fail with the same failure. -/
theorem Project.build_congr (project : Project)
    {components components' : List Component}
    (h : List.Forall₂ Component.Alike components components') :
    project.build components = project.build components' := by
  have hempty : Registry.empty.Alike Registry.empty := List.Forall₂.nil
  have hregister := hempty.registerAll h
  rw [build_eq, build_eq]
  generalize Registry.empty.registerAll components = registered at hregister
  generalize Registry.empty.registerAll components' = registered' at hregister
  cases hregister with
  | error defect => rfl
  | @ok registry registry' hregistry =>
      dsimp only
      have hresolve :=
        hregistry.resolveAll (hregistry.holdings project.space).componentList
      change Paired _
        (resolveAll registry (registry.componentsOf project.space))
        (resolveAll registry' (registry'.componentsOf project.space))
        at hresolve
      generalize resolveAll registry (registry.componentsOf project.space)
        = found at hresolve
      generalize resolveAll registry' (registry'.componentsOf project.space)
        = found' at hresolve
      cases hresolve with
      | error failure => rfl
      | @ok resolved resolved' hresolved =>
          -- the call tables are equal, so the same plans run at the same site
          have hagrees : (project.outcome resolved).Agrees
              (project.outcome resolved') := by
            unfold Project.outcome
            rw [CallTable.ofComponents_congr hresolved]
            exact Plan.Agrees.components hresolved _
          rcases hagrees with heq | ⟨failure, hfail, hfail'⟩
          · simp only [heq]
          · simp only [hfail, hfail']

end Datapack
