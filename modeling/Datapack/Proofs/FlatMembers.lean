/-
The methods of a component, read off the chain of its bases.

A chain that ends has each component once: a component that came up again
would go on as it did the first time, and the chain would not end
(`BaseChain.nodup_names`). So the search for the bases goes through all of it,
and the methods are those of the components of the chain, one after the other.
`Component.flatMember` says what becomes of one of them, from its position in
the chain alone. The recursion that collects the methods counts no positions:
every component of the chain changes what it takes over from its base. What
that comes to is known from the names that nearer components declare
(`Registry.members_eq`), and those are the names before the position
(`inheritedMembers_eq_flat`).
-/
import Datapack.Proofs.BaseChains

namespace Datapack

-- ============================================================= base chains

/-- The component and its bases, up to one that has no base. -/
inductive Registry.BaseChain (registry : Registry) :
    Component → List Component → Prop
  | root {component : Component} (hbase : component.base = none) :
      BaseChain registry component [component]
  | climb {component base : Component} {name : String} {bases : List Component}
      (hbase : component.base = some name)
      (hfound : registry.component? component.space name = some base)
      (h : BaseChain registry base bases) :
        BaseChain registry component (component :: bases)

namespace Registry.BaseChain

variable {registry : Registry} {component : Component} {chain : List Component}

/-- A component has one chain of bases at most. -/
theorem unique (h : registry.BaseChain component chain) :
    ∀ {other : List Component},
      registry.BaseChain component other → chain = other := by
  induction h with
  | root hbase =>
      intro other hother
      cases hother with
      | root => rfl
      | climb hbase' =>
          rw [hbase] at hbase'
          cases hbase'
  | climb hbase hfound _ ih =>
      intro other hother
      cases hother with
      | root hbase' =>
          rw [hbase] at hbase'
          cases hbase'
      | climb hbase' hfound' hrest =>
          rw [hbase] at hbase'
          cases hbase'
          rw [hfound] at hfound'
          cases hfound'
          rw [ih hrest]

/-- A chain starts with the component it belongs to. -/
theorem exists_cons (h : registry.BaseChain component chain) :
    ∃ bases, chain = component :: bases := by
  cases h with
  | root => exact ⟨[], rfl⟩
  | climb => exact ⟨_, rfl⟩

/-- Each component of a chain starts the rest of it. -/
theorem suffix (h : registry.BaseChain component chain)
    {front rest : List Component} {inner : Component}
    (hchain : chain = front ++ inner :: rest) :
    registry.BaseChain inner (inner :: rest) := by
  induction h generalizing front with
  | root hbase =>
      rcases List.cons_eq_append_iff.1 hchain with ⟨-, hinner⟩ | ⟨_, -, hempty⟩
      · cases hinner
        exact .root hbase
      · exact absurd hempty (by simp)
  | climb hbase hfound h ih =>
      rcases List.cons_eq_append_iff.1 hchain with ⟨-, hinner⟩
        | ⟨front, -, hrest⟩
      · cases hinner
        exact .climb hbase hfound h
      · exact ih hrest

/-- Every component of the chain is found under its name. -/
theorem found (hbuilt : registry.Built) (h : registry.BaseChain component chain)
    (hcomponent : registry.component? component.space component.name
      = some component) :
    ∀ inner ∈ chain,
      registry.component? component.space inner.name = some inner := by
  induction h with
  | root hbase =>
      intro inner hinner
      rw [List.mem_singleton.1 hinner]
      exact hcomponent
  | @climb component base name bases hbase hfound _ ih =>
      intro inner hinner
      rcases List.mem_cons.1 hinner with rfl | hinner
      · exact hcomponent
      · obtain ⟨hspace, rfl⟩ := hbuilt.found hfound
        rw [← hspace] at hfound ⊢
        exact ih hfound inner hinner

/-- No component is in the chain of its own base. -/
theorem name_notMem {bases : List Component} (hbuilt : registry.Built)
    (h : registry.BaseChain component (component :: bases))
    (hcomponent : registry.component? component.space component.name
      = some component) :
    component.name ∉ bases.map Component.name := by
  intro hmem
  obtain ⟨again, hagain, hname⟩ := List.mem_map.1 hmem
  have hsame := h.found hbuilt hcomponent again (List.mem_cons_of_mem _ hagain)
  rw [hname, hcomponent] at hsame
  cases hsame
  -- it would start a part of the chain that is as long as the whole
  obtain ⟨front, rest, rfl⟩ := List.append_of_mem hagain
  have hpart := h.suffix (List.cons_append).symm
  have hlength := congrArg List.length (h.unique hpart)
  simp only [List.length_cons, List.length_append] at hlength
  omega

/-- No name comes twice in a chain, since a chain ends. -/
theorem nodup_names (hbuilt : registry.Built)
    (h : registry.BaseChain component chain)
    (hcomponent : registry.component? component.space component.name
      = some component) :
    (chain.map Component.name).Nodup := by
  induction h with
  | root => exact List.nodup_singleton _
  | @climb component base name bases hbase hfound hchain ih =>
      have hnew :=
        (BaseChain.climb hbase hfound hchain).name_notMem hbuilt hcomponent
      obtain ⟨hspace, rfl⟩ := hbuilt.found hfound
      rw [← hspace] at hfound
      rw [List.map_cons]
      exact List.nodup_cons.2 ⟨hnew, ih hfound⟩

/-- A search along a chain whose names are all new comes to the chain. -/
theorem climbs (h : registry.BaseChain component chain) :
    ∀ {walked : List String}, (walked ++ chain.map Component.name).Nodup →
      registry.Climbs walked component (.ok chain) := by
  induction h with
  | root hbase =>
      intro walked hnodup
      refine .root (fun hmet => ?_) hbase
      exact (List.nodup_append.1 hnodup).2.2 _ hmet _ List.mem_cons_self rfl
  | @climb component base name bases hbase hfound _ ih =>
      intro walked hnodup
      have hnew : component.name ∉ walked := fun hmet =>
        (List.nodup_append.1 hnodup).2.2 _ hmet _ List.mem_cons_self rfl
      rw [List.map_cons, List.append_cons] at hnodup
      exact .climb hnew hbase hfound (ih hnodup)

/-- The lineage of a component is its chain of bases, if it has one. -/
theorem lineage_eq (hbuilt : registry.Built)
    (h : registry.BaseChain component chain)
    (hcomponent : registry.component? component.space component.name
      = some component) :
    registry.lineage component = .ok chain :=
  Registry.lineage_of_climbs
    (h.climbs (by simpa using h.nodup_names hbuilt hcomponent))

end Registry.BaseChain

-- ================================================================= members

namespace Component

/-- A method that the component at a position of the chain declares, as the
component has it from which the chain starts. -/
def flatMember (component : Component) (chain : List Component) (position : Nat)
    (declarer : Component) (method : Method) : Member :=
  let origin := if position = 0 then none else some declarer.name
  let overridden : Bool := decide (∃ nearer ∈ chain.take position,
    ∃ other ∈ nearer.methods, other.name = method.name)
  { key := if position = 0 then method.name
      else s!"{declarer.name}/{method.name}"
    origin := origin
    location :=
      Location.ofMethod component.space component.name origin method.visibility
        method.name
    hooks := if overridden then .none else method.hooks
    overridden := overridden
    method := method }

/-- The methods of all components of a chain, as the component has them from
which it starts. -/
def flatMembers (component : Component) (chain : List Component) :
    List Member :=
  chain.zipIdx.flatMap fun entry =>
    entry.1.methods.map (component.flatMember chain entry.2 entry.1)

variable {component declarer : Component} {front rest : List Component}
  {method : Method}

/-- A name is among those of nearer methods just if a nearer component
declares it. -/
private theorem contains_names_eq (components : List Component)
    (name : String) :
    ((components.flatMap Component.methods).map Method.name).contains name
      = decide (∃ nearer ∈ components,
        ∃ other ∈ nearer.methods, other.name = name) := by
  rw [List.contains_eq_mem]
  refine decide_eq_decide.2 ?_
  simp only [List.mem_map, List.mem_flatMap]
  constructor
  · rintro ⟨other, ⟨nearer, hnearer, hother⟩, hname⟩
    exact ⟨nearer, hnearer, other, hother, hname⟩
  · rintro ⟨nearer, hnearer, other, hother, hname⟩
    exact ⟨other, ⟨nearer, hnearer, hother⟩, hname⟩

/-- Behind nearer components, a method is inherited from its declarer. -/
theorem member_eq_flatMember (hfront : front ≠ []) (method : Method) :
    component.member (some declarer.name)
        ((front.flatMap Component.methods).map Method.name) method
      = component.flatMember (front ++ rest) front.length declarer method := by
  have hposition : front.length ≠ 0 :=
    fun hzero => hfront (List.length_eq_zero_iff.1 hzero)
  unfold member flatMember
  rw [List.take_left, contains_names_eq]
  simp only [hposition, if_false]

/-- An own method is the member at position zero, whatever the chain. -/
private theorem member_eq_flatMember_zero (chain : List Component)
    (method : Method) :
    component.member none [] method
      = component.flatMember chain 0 declarer method := by
  unfold member flatMember
  simp

/-- The names that were carried along are those of the nearer components. -/
theorem inheritedMembers_eq_flat (component : Component)
    {bases front : List Component} (hfront : front ≠ []) :
    component.inheritedMembers
      ((front.flatMap Component.methods).map Method.name) bases
      = (bases.zipIdx front.length).flatMap fun entry =>
          entry.1.methods.map
            (component.flatMember (front ++ bases) entry.2 entry.1) := by
  induction bases generalizing front with
  | nil => rfl
  | cons base rest ih =>
      have hnames : (front.flatMap Component.methods).map Method.name
            ++ base.methods.map Method.name
          = ((front ++ [base]).flatMap Component.methods).map Method.name := by
        rw [List.flatMap_append, List.map_append, List.flatMap_singleton]
      -- the base is nearer than the rest of the chain
      have hrest :=
        ih (List.append_ne_nil_of_right_ne_nil front (List.cons_ne_nil base []))
      rw [List.length_append, List.length_singleton, List.append_assoc,
        List.singleton_append] at hrest
      rw [inheritedMembers, hnames, hrest, List.zipIdx_cons, List.flatMap_cons]
      congr 1
      exact List.map_congr_left
        fun method _ => member_eq_flatMember hfront method

/-- The members along a lineage are those read off the chain position by
position. -/
theorem membersAlong_eq_flat (component : Component) (bases : List Component) :
    component.membersAlong (component :: bases)
      = component.flatMembers (component :: bases) := by
  have hown : component.methods.map (component.member none [])
      = component.methods.map
        (component.flatMember (component :: bases) 0 component) :=
    List.map_congr_left fun method _ => member_eq_flatMember_zero _ method
  have hinherited :
      component.inheritedMembers (([component].flatMap Component.methods).map
        Method.name) bases = _ :=
    component.inheritedMembers_eq_flat (List.cons_ne_nil component [])
  rw [List.flatMap_singleton] at hinherited
  unfold membersAlong flatMembers
  rw [List.zipIdx_cons, List.flatMap_cons, hown, List.tail_cons, hinherited]
  rfl

end Component

/-- The methods of a registered component whose chain of bases ends are those
of the components of the chain, in the order of the chain and of their
declarations. The first component's are its own, and all others are inherited
from their declarers. A method is overridden, and loses its hooks, exactly if
a component nearer in the chain declares one of the same name. -/
theorem Registry.members_read_off_chain {registry : Registry}
    (hbuilt : registry.Built) {space name : String} {component : Component}
    {chain : List Component}
    (hfound : registry.component? space name = some component)
    (hchain : registry.BaseChain component chain) :
    registry.members component = .ok (component.flatMembers chain) := by
  obtain ⟨rfl, rfl⟩ := hbuilt.found hfound
  obtain ⟨bases, rfl⟩ := hchain.exists_cons
  rw [registry.members_eq, hchain.lineage_eq hbuilt hfound,
    ← component.membersAlong_eq_flat bases]
  rfl

namespace Kennel

def animal : Component where
  space := "k"
  name := "animal"
  methods :=
    [{ name := "speak", hooks := { tick := true } },
      { name := "eat", visibility := .owner }]

def dog : Component where
  space := "k"
  name := "dog"
  base := some "animal"
  methods := [{ name := "speak" }]

/-- A component that declares no method itself. -/
def puppy : Component where
  space := "k"
  name := "puppy"
  base := some "dog"

def components : List Component := [animal, dog, puppy]

/-- The three components can be registered. -/
theorem registrable : Registrable components where
  valid component hcomponent := by
    simp only [components, List.mem_cons, List.not_mem_nil,
      or_false] at hcomponent
    rcases hcomponent with rfl | rfl | rfl <;>
      exact ⟨by decide +kernel, by decide +kernel, by decide +kernel,
        by decide +kernel⟩
  distinct := by decide +kernel

end Kennel

/-- A method that is overridden between its declarer and the component. -/
theorem Registry.puppy_members : ∃ registry members,
    empty.registerAll Kennel.components = .ok registry
      ∧ registry.members Kennel.puppy = .ok members
      ∧ members.map
        (fun member => (member.key, member.location, member.overridden))
        = [("dog/speak", "k:component/puppy/dog/speak", false),
          ("animal/speak", "k:component/puppy/animal/speak", true),
          ("animal/eat", "k:component/puppy/animal/_private/eat", false)]
      ∧ members.map Member.hooks = [.none, .none, .none] := by
  obtain ⟨registry, hok, hholds⟩ := registerAll_ok Kennel.registrable
  have hfound : ∀ component ∈ Kennel.components, component.space = "k" →
      registry.component? "k" component.name = some component :=
    fun component hcomponent hspace =>
      (hholds.found _ _ _).2 ⟨hcomponent, hspace, rfl⟩
  have hchain : registry.BaseChain Kennel.puppy
      [Kennel.puppy, Kennel.dog, Kennel.animal] :=
    .climb rfl (hfound Kennel.dog (by simp [Kennel.components]) rfl)
      (.climb rfl (hfound Kennel.animal
        (by simp [Kennel.components]) rfl) (.root rfl))
  have hmembers := members_read_off_chain (.registerAll .empty hok)
    (hfound Kennel.puppy (by simp [Kennel.components]) rfl) hchain
  exact ⟨registry, _, hok, hmembers, by decide +kernel, by decide +kernel⟩

end Datapack
