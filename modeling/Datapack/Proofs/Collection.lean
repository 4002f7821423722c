/-
What the methods of a component are collected from.

A component takes over what its base has collected and changes it: it puts
in the origin where there is none yet, and what it overrides loses its
hooks. So a method is changed once by every component between its declarer
and the one that is resolved. Nothing of that is needed to say what the
methods are in the end. `Registry.lineage` is the chain of components that
is climbed, or the reason why the climb fails, and `Component.membersAlong`
reads the methods off that chain from the near end to the far one, with the
names that nearer components declare. The two agree
(`Registry.members_eq`): what the components of a chain do to a method, one
after the other, comes to one comparison of its name with all of theirs
(`Collected.along_eq`).
-/
import Datapack.Resolution

namespace Datapack

-- ============================================================ base chains

/-- The component and its bases, nearest first, after the names `walked`,
the last of which is the component's own. -/
def Registry.lineageFrom (registry : Registry) :
    Nat → List String → Component → Except Defect (List Component)
  | fuel, walked, component =>
    match component.base with
    | none => .ok [component]
    | some baseName =>
      match registry.component? component.space baseName with
      | none => .error (.unknownBase component.name baseName)
      | some base =>
        match fuel, walked.contains base.name with
        | fuel + 1, false => do
          let bases ← lineageFrom registry fuel (walked ++ [base.name]) base
          return component :: bases
        | _, _ => .error (.inheritanceCycle (walked ++ [base.name]))

/-- The component and its bases, nearest first. -/
def Registry.lineage (registry : Registry) (component : Component) :
    Except Defect (List Component) :=
  registry.lineageFrom registry.allComponents.length [component.name] component

/-- The lineage of a component without a base is itself. -/
theorem Registry.lineageFrom_root (registry : Registry) (fuel : Nat)
    (walked : List String) {component : Component}
    (hbase : component.base = none) :
    registry.lineageFrom fuel walked component = .ok [component] := by
  unfold Registry.lineageFrom
  rw [hbase]

/-- A lineage starts with the component it belongs to. -/
private theorem Registry.lineageFrom_head (registry : Registry) {fuel : Nat}
    {walked : List String} {component : Component} {lineage : List Component}
    (hok : registry.lineageFrom fuel walked component = .ok lineage) :
    ∃ bases, lineage = component :: bases := by
  unfold Registry.lineageFrom at hok
  cases hbase : component.base with
  | none =>
      rw [hbase] at hok
      exact ⟨[], (Except.ok.inj hok).symm⟩
  | some baseName =>
      rw [hbase] at hok
      dsimp only at hok
      cases hfound : registry.component? component.space baseName with
      | none =>
          rw [hfound] at hok
          cases hok
      | some base =>
          rw [hfound] at hok
          dsimp only at hok
          split at hok
          · next rest _ =>
            cases hbases : registry.lineageFrom rest (walked ++ [base.name])
              base with
            | error defect =>
                rw [hbases] at hok
                cases hok
            | ok bases =>
                rw [hbases] at hok
                exact ⟨bases, (Except.ok.inj hok).symm⟩
          · cases hok

-- ============================================== members along a base chain

/-- The method as declared by an ancestor, or by the component itself when
there is no `origin`, below components that declare the names `nearer`. -/
def Component.member (component : Component) (origin : Option String)
    (nearer : List String) (method : Method) : Member :=
  let overridden := nearer.contains method.name
  { key := match origin with
      | none => method.name
      | some ancestor => s!"{ancestor}/{method.name}"
    origin := origin
    location :=
      Location.ofMethod component.space component.name origin method.visibility
        method.name
    hooks := if overridden then .none else method.hooks
    overridden := overridden
    method := method }

/-- The methods of a component that its `bases` declare, below components
that declare the names `nearer`. -/
def Component.inheritedMembers (component : Component) :
    List String → List Component → List Member
  | _, [] => []
  | nearer, base :: rest =>
    base.methods.map (component.member (some base.name) nearer)
      ++ component.inheritedMembers (nearer ++ base.methods.map Method.name)
        rest

/-- The methods of a component along its lineage. -/
def Component.membersAlong (component : Component) (lineage : List Component) :
    List Member :=
  component.methods.map (component.member none [])
    ++ component.inheritedMembers (component.methods.map Method.name)
      lineage.tail

-- =========================================== what the components do to it

/-- A component declares a method just if the name is among those of its
methods. -/
theorem Component.isSome_method? (component : Component) (name : String) :
    (component.method? name).isSome
      = (component.methods.map Method.name).contains name := by
  unfold Component.method?
  rw [List.isSome_find?, List.contains_eq_any_beq, List.any_map]
  refine congrArg component.methods.any (funext fun method => ?_)
  exact BEq.comm

namespace Collected

/-- A method that an ancestor declares, below components that declare the
names `nearer`. -/
def below (nearer : List String) (ancestor : Component) (method : Method) :
    Collected :=
  let overridden := nearer.contains method.name
  { origin := some ancestor.name
    hooks := if overridden then .none else method.hooks
    overridden := overridden
    method := method }

/-- An own method of the base is overridden in the heir if the heir
declares its name. -/
private theorem inherit_own (heir base : Component) (method : Method) :
    (own method).inherit heir base
      = below (heir.methods.map Method.name) base method := by
  unfold inherit below
  rw [heir.isSome_method?]
  cases hnamed : (heir.methods.map Method.name).contains method.name <;>
    simp only [own, hnamed] <;> rfl

/-- A further heir adds its names to those that are nearer. -/
theorem inherit_below (heir base : Component) (nearer : List String)
    (ancestor : Component) (method : Method) :
    (below nearer ancestor method).inherit heir base
      = below (heir.methods.map Method.name ++ nearer) ancestor method := by
  unfold inherit
  rw [heir.isSome_method?]
  unfold below
  dsimp only [Option.getD_some]
  rw [List.contains_append]
  cases (heir.methods.map Method.name).contains method.name <;> rfl

/-- The methods that `bases` declare, below components that declare the names
`nearer`. -/
def allBelow : List String → List Component → List Collected
  | _, [] => []
  | nearer, base :: rest =>
    base.methods.map (below nearer base)
      ++ allBelow (nearer ++ base.methods.map Method.name) rest

/-- Inheriting from the bases below a base adds the names of the heir to
those that are nearer. -/
private theorem map_inherit_allBelow (heir base : Component) :
    ∀ (bases : List Component) (nearer : List String),
      (allBelow nearer bases).map (inherit heir base)
        = allBelow (heir.methods.map Method.name ++ nearer) bases
  | [], _ => rfl
  | ancestor :: rest, nearer => by
      rw [allBelow, allBelow, List.map_append,
        map_inherit_allBelow heir base rest, List.map_map, List.append_assoc]
      congr 1
      exact List.map_congr_left fun method _ =>
        inherit_below heir base nearer ancestor method

/-- What is collected along a lineage: each component takes over what its
base has. -/
def along : List Component → List Collected
  | [] => []
  | [root] => root.methods.map own
  | heir :: base :: rest =>
    heir.methods.map own ++ (along (base :: rest)).map (inherit heir base)

/-- All that the components of a lineage do to a method comes to one
comparison of its name with the names that are nearer. -/
theorem along_eq (component : Component) (bases : List Component) :
    along (component :: bases)
      = component.methods.map own
        ++ allBelow (component.methods.map Method.name) bases := by
  -- on the bases, since a component changes what its base has been through
  induction bases generalizing component with
  | nil => rw [along, allBelow, List.append_nil]
  | cons base rest ih =>
      rw [along, ih base, List.map_append, map_inherit_allBelow, List.map_map,
        allBelow]
      congr 2
      exact List.map_congr_left
        fun method _ => inherit_own component base method

end Collected

/-- The collected methods of the bases are resolved to the inherited
members. -/
private theorem Component.map_resolve_allBelow (component : Component) :
    ∀ (bases : List Component) (nearer : List String),
      (Collected.allBelow nearer bases).map component.resolve
        = component.inheritedMembers nearer bases
  | [], _ => rfl
  | base :: rest, nearer => by
      rw [Collected.allBelow, Component.inheritedMembers, List.map_append,
        List.map_map, component.map_resolve_allBelow rest]
      rfl

/-- The collected methods of a lineage are resolved to the members
along it. -/
private theorem Component.map_resolve_along (component : Component)
    (bases : List Component) :
    (Collected.along (component :: bases)).map component.resolve
      = component.membersAlong (component :: bases) := by
  rw [Collected.along_eq, List.map_append, component.map_resolve_allBelow,
    List.map_map]
  rfl

-- ============================================================ the recursion

namespace Registry

variable (registry : Registry)

/-- A name that comes up again is reported where it does. -/
theorem collect_met (fuel : Nat) {chain : List String} {component : Component}
    (hmet : component.name ∈ chain) :
    registry.collect fuel chain component
      = .error (.inheritanceCycle (chain ++ [component.name])) := by
  cases fuel with
  | zero => rfl
  | succ fuel => rw [collect, if_pos (List.contains_iff_mem.2 hmet)]

/-- The recursion collects along the lineage, and it fails where there is
none. -/
theorem collect_eq (fuel : Nat) :
    ∀ {chain : List String} {component : Component}, component.name ∉ chain →
      registry.collect (fuel + 1) chain component
        = (registry.lineageFrom fuel (chain ++ [component.name]) component).map
            Collected.along := by
  induction fuel using Nat.strongRecOn with
  | ind fuel ih =>
      intro chain component hnew
      rw [collect, if_neg (fun hmet => hnew (List.contains_iff_mem.1 hmet))]
      unfold lineageFrom
      cases component.base with
      | none => rfl
      | some baseName =>
          dsimp only
          cases registry.component? component.space baseName with
          | none => rfl
          | some base =>
              dsimp only
              rw [List.contains_eq_mem]
              -- the recursion notices a cycle when it enters the base, the
              -- walk before it does
              by_cases hmet : base.name ∈ chain ++ [component.name]
              · rw [registry.collect_met fuel hmet, decide_eq_true hmet]
                cases fuel <;> rfl
              · rw [decide_eq_false hmet]
                cases fuel with
                | zero => rfl
                | succ fuel =>
                    rw [ih fuel (Nat.lt_succ_self fuel) hmet]
                    dsimp only
                    cases hbases : registry.lineageFrom fuel _ base with
                    | error defect => rfl
                    | ok bases =>
                        obtain ⟨rest, rfl⟩ := registry.lineageFrom_head hbases
                        rfl

/-- The members that the recursion collects are those read off the lineage,
and it fails just where the lineage does. -/
theorem members_eq (component : Component) :
    registry.members component
      = (registry.lineage component).map component.membersAlong := by
  unfold members lineage
  rw [registry.collect_eq _ List.not_mem_nil, List.nil_append]
  cases hlineage : registry.lineageFrom _ [component.name] component with
  | error defect => rfl
  | ok lineage =>
      obtain ⟨bases, rfl⟩ := registry.lineageFrom_head hlineage
      exact congrArg Except.ok (component.map_resolve_along bases)

end Registry

end Datapack
