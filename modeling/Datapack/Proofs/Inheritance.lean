/-
Walking the bases of a component.

The methods that a component has depend on its bases, and resolving them
is a walk: from the component to its base, to the base of that, and so on.
`BaseWalk` is the walk on the list of components that were declared. It
ends at a component without a base, at a base that is not there, or at a
base that was met before. The lineage in the registry is found with a
bound on the number of steps; a walk that goes on meets a new name in
every step, so a bound by the number of components never cuts it short
(`Household.lineage_eq_iff`).

That the chain of bases ends is said without a walk by `BaseChainEnds`. The
two agree: a chain that ends never comes back to a component, since it
would go on from there as it did before (`Household.no_return`).
-/
import Mathlib.Data.List.Nodup
import Mathlib.Data.List.Perm.Subperm
import Mathlib.Logic.Relation
import Datapack.Proofs.Collection
import Datapack.Proofs.Registration

namespace Datapack

-- ============================================================== the walk

/-- The walk along the bases, after the names `walked`: the component and
its bases, or why there is no end. -/
inductive BaseWalk (components : List Component) :
    List String → Component → Except Defect (List Component) → Prop
  | root {walked : List String} {component : Component} :
      component.base = none →
        BaseWalk components walked component (.ok [component])
  | missing {walked : List String} {component : Component} {name : String} :
      component.base = some name → (∀ other ∈ components, other.name ≠ name) →
      BaseWalk components walked component
        (.error (.unknownBase component.name name))
  | cycle {walked : List String} {component base : Component} :
      component.base = some base.name → base ∈ components → base.name ∈ walked →
      BaseWalk components walked component
        (.error (.inheritanceCycle (walked ++ [base.name])))
  | climb {walked : List String} {component base : Component}
      {bases : List Component} :
      component.base = some base.name → base ∈ components → base.name ∉ walked →
      BaseWalk components (walked ++ [base.name]) base (.ok bases) →
      BaseWalk components walked component (.ok (component :: bases))
  | stop {walked : List String} {component base : Component} {defect : Defect} :
      component.base = some base.name → base ∈ components → base.name ∉ walked →
      BaseWalk components (walked ++ [base.name]) base (.error defect) →
      BaseWalk components walked component (.error defect)

/-- The chain of bases ends at a component without one. -/
inductive BaseChainEnds (components : List Component) : Component → Prop
  | root {component : Component} :
      component.base = none → BaseChainEnds components component
  | climb {component base : Component} :
      component.base = some base.name → base ∈ components →
        BaseChainEnds components base → BaseChainEnds components component

/-- The components of one project: their names are different, and they share
the namespace. -/
structure Household (space : String) (components : List Component) : Prop where
  registrable : Registrable components
  space : ∀ component ∈ components, component.space = space

namespace Household

variable {space : String} {components : List Component}
  (h : Household space components)

include h

/-- The components of a household have different names. -/
theorem nodup_names : (components.map Component.name).Nodup := by
  rw [List.Nodup, List.pairwise_map]
  refine h.registrable.distinct.imp_of_mem
    fun {a b} ha hb hne heq => hne ⟨?_, heq⟩
  rw [h.space a ha, h.space b hb]

/-- A name stands for one component of a household. -/
theorem eq_of_name {a b : Component} (ha : a ∈ components) (hb : b ∈ components)
    (heq : a.name = b.name) : a = b :=
  List.inj_on_of_nodup_map h.nodup_names ha hb heq

/-- The components found in the registry are those of the household. -/
private theorem component?_eq_some {registry : Registry}
    (hholds : registry.Holds components) {name : String}
    {component : Component} :
    registry.component? space name = some component
      ↔ component ∈ components ∧ component.name = name := by
  rw [hholds.found]
  exact ⟨fun hfound => ⟨hfound.1, hfound.2.2⟩,
    fun hfound => ⟨hfound.1, h.space component hfound.1, hfound.2⟩⟩

/-- The registry lists the components in the order of their names. -/
theorem perm_componentsOf {registry : Registry}
    (hholds : registry.Holds components) :
    (registry.componentsOf space).Perm components := by
  have hnodup : (registry.componentsOf space).Nodup :=
    (hholds.sorted_componentsOf space).imp fun {a b} hlt heq => by
      rw [heq] at hlt
      exact String.lt_irrefl _ hlt
  rw [List.perm_ext_iff_of_nodup hnodup (List.Nodup.of_map _ h.nodup_names)]
  intro component
  rw [hholds.mem_componentsOf]
  exact ⟨fun hmem => hmem.1, fun hmem => ⟨hmem, h.space component hmem⟩⟩

/-- There is one order of names. -/
theorem eq_componentsOf {registry : Registry}
    (hholds : registry.Holds components) {list : List Component}
    (hperm : list.Perm components)
    (hsorted : list.Pairwise fun a b => a.name < b.name) :
    list = registry.componentsOf space := by
  refine List.Perm.eq_of_pairwise (fun a b _ _ hab hba => ?_) hsorted
    (hholds.sorted_componentsOf space)
    (hperm.trans (h.perm_componentsOf hholds).symm)
  exact absurd (String.lt_trans hab hba) (String.lt_irrefl _)

end Household

-- ============================================================ the search

/-- The names walked are different names of components, and the bound is
enough for the others. -/
structure Walkable (components : List Component) (fuel : Nat)
    (walked : List String) : Prop where
  nodup : walked.Nodup
  known : walked ⊆ components.map Component.name
  enough : components.length ≤ walked.length + fuel

/-- A new name is met only while the bound is not used up. -/
theorem Walkable.step {components : List Component} {fuel : Nat}
    {walked : List String} (h : Walkable components fuel walked)
    {base : Component} (hbase : base ∈ components) (hnew : base.name ∉ walked) :
    ∃ rest, fuel = rest + 1
      ∧ Walkable components rest (walked ++ [base.name]) := by
  have hnodup : (walked ++ [base.name]).Nodup := by
    rw [← List.concat_eq_append, List.nodup_concat]
    exact ⟨hnew, h.nodup⟩
  have hknown : walked ++ [base.name] ⊆ components.map Component.name := by
    refine List.append_subset.2 ⟨h.known, ?_⟩
    exact List.cons_subset.2 ⟨List.mem_map_of_mem hbase, List.nil_subset _⟩
  -- different names among those of the components are no more than these
  have hlength := (hnodup.subperm hknown).length_le
  have henough := h.enough
  rw [List.length_append, List.length_singleton, List.length_map] at hlength
  refine ⟨fuel - 1, by omega, hnodup, hknown, ?_⟩
  rw [List.length_append, List.length_singleton]
  omega

section Search

variable {space : String} {components : List Component} {registry : Registry}
  (h : Household space components) (hholds : registry.Holds components)

include h hholds

/-- A base that no component has ends the search. -/
private theorem Household.lineageFrom_missing {fuel : Nat}
    {walked : List String} {component : Component} {name : String}
    (hmem : component ∈ components) (hbase : component.base = some name)
    (hnone : ∀ other ∈ components, other.name ≠ name) :
    registry.lineageFrom fuel walked component
      = .error (.unknownBase component.name name) := by
  have hfound : registry.component? component.space name = none := by
    rw [h.space component hmem]
    cases hfound : registry.component? space name with
    | none => rfl
    | some other =>
        obtain ⟨hother, hname⟩ := (h.component?_eq_some hholds).1 hfound
        exact absurd hname (hnone other hother)
  unfold Registry.lineageFrom
  rw [hbase]
  dsimp only
  rw [hfound]

/-- One step of the search, as long as the bound is not used up. -/
theorem Household.lineageFrom_climb {fuel : Nat} {walked : List String}
    {component base : Component} (hmem : component ∈ components)
    (hwalkable : Walkable components fuel walked)
    (hbase : component.base = some base.name) (hbaseMem : base ∈ components) :
    registry.lineageFrom fuel walked component
      = if base.name ∈ walked then
          .error (.inheritanceCycle (walked ++ [base.name]))
        else
          (registry.lineageFrom (fuel - 1) (walked ++ [base.name]) base).map
            (component :: ·) := by
  have hfound : registry.component? component.space base.name = some base := by
    rw [h.space component hmem]
    exact (h.component?_eq_some hholds).2 ⟨hbaseMem, rfl⟩
  have hcontains : walked.contains base.name = decide (base.name ∈ walked) :=
    List.contains_eq_mem ..
  rw [Registry.lineageFrom, hbase]
  dsimp only
  rw [hfound]
  dsimp only
  rw [hcontains]
  by_cases hnew : base.name ∈ walked
  · rw [if_pos hnew]
    simp only [hnew, decide_true]
  · obtain ⟨rest, rfl, -⟩ := hwalkable.step hbaseMem hnew
    rw [if_neg hnew]
    simp only [hnew, decide_false, Nat.add_sub_cancel]
    cases registry.lineageFrom rest (walked ++ [base.name]) base <;> rfl

/-- With a bound that is enough, the search is the walk along the bases. -/
private theorem Household.lineageFrom_walk {fuel : Nat} :
    ∀ {walked : List String} {component : Component},
      Walkable components fuel walked → component ∈ components →
      BaseWalk components walked component
        (registry.lineageFrom fuel walked component) := by
  -- on the bound, which each new name uses up by one
  induction fuel using Nat.strongRecOn with
  | ind fuel ih =>
      intro walked component hwalkable hmem
      cases hbase : component.base with
      | none =>
          rw [registry.lineageFrom_root fuel walked hbase]
          exact .root hbase
      | some name =>
          by_cases hknown : ∃ base ∈ components, base.name = name
          · obtain ⟨base, hbaseMem, rfl⟩ := hknown
            rw [h.lineageFrom_climb hholds hmem hwalkable hbase hbaseMem]
            split
            · next hwalked => exact .cycle hbase hbaseMem hwalked
            · next hnew =>
              obtain ⟨rest, rfl, hnext⟩ := hwalkable.step hbaseMem hnew
              have hrec := ih rest (Nat.lt_succ_self rest) hnext hbaseMem
              rw [Nat.add_sub_cancel]
              cases hres : registry.lineageFrom rest (walked ++ [base.name])
                base with
              | ok bases => exact .climb hbase hbaseMem hnew (hres ▸ hrec)
              | error defect => exact .stop hbase hbaseMem hnew (hres ▸ hrec)
          · have hnone : ∀ other ∈ components, other.name ≠ name :=
              fun other hother hname => hknown ⟨other, hother, hname⟩
            rw [h.lineageFrom_missing hholds hmem hbase hnone]
            exact .missing hbase hnone

/-- Whatever walk there is, the search finds it. -/
theorem Household.lineageFrom_eq {walked : List String} {component : Component}
    {result : Except Defect (List Component)}
    (hwalk : BaseWalk components walked component result) :
    ∀ {fuel : Nat}, Walkable components fuel walked → component ∈ components →
      registry.lineageFrom fuel walked component = result := by
  induction hwalk with
  | root hbase => exact fun _ _ => registry.lineageFrom_root _ _ hbase
  | missing hbase hnone =>
      exact fun _ hmem => h.lineageFrom_missing hholds hmem hbase hnone
  | cycle hbase hbaseMem hwalked =>
      intro fuel hwalkable hmem
      rw [h.lineageFrom_climb hholds hmem hwalkable hbase hbaseMem,
        if_pos hwalked]
  | climb hbase hbaseMem hnew _ ih =>
      intro fuel hwalkable hmem
      obtain ⟨rest, rfl, hnext⟩ := hwalkable.step hbaseMem hnew
      rw [h.lineageFrom_climb hholds hmem hwalkable hbase hbaseMem, if_neg hnew,
        Nat.add_sub_cancel, ih hnext hbaseMem]
      rfl
  | stop hbase hbaseMem hnew _ ih =>
      intro fuel hwalkable hmem
      obtain ⟨rest, rfl, hnext⟩ := hwalkable.step hbaseMem hnew
      rw [h.lineageFrom_climb hholds hmem hwalkable hbase hbaseMem, if_neg hnew,
        Nat.add_sub_cancel, ih hnext hbaseMem]
      rfl

/-- The search ends as the walk from the component does. The bound it
starts with is enough for all components. -/
theorem Household.lineage_eq_iff {component : Component}
    (hmem : component ∈ components) {result : Except Defect (List Component)} :
    registry.lineage component = result
      ↔ BaseWalk components [component.name] component result := by
  have hwalkable : Walkable components registry.allComponents.length
      [component.name] := by
    refine ⟨List.nodup_singleton _, ?_, ?_⟩
    · exact List.cons_subset.2 ⟨List.mem_map_of_mem hmem, List.nil_subset _⟩
    -- the registry may hold other namespaces too, which only adds to the bound
    · have hle := registry.length_componentsOf_le space
      rw [(h.perm_componentsOf hholds).length_eq] at hle
      omega
  constructor
  · rintro rfl
    exact h.lineageFrom_walk hholds hwalkable hmem
  · exact fun hwalk => h.lineageFrom_eq hholds hwalk hwalkable hmem

end Search

-- ===================================================== chains that end

/-- A walk that finds a lineage has come to an end of the chain. -/
theorem BaseWalk.ends {components : List Component} {walked : List String}
    {component : Component} {result : Except Defect (List Component)}
    (h : BaseWalk components walked component result) {lineage : List Component}
    (hok : result = .ok lineage) : BaseChainEnds components component := by
  induction h generalizing lineage with
  | root hbase => exact .root hbase
  | climb hbase hmem _ _ ih => exact .climb hbase hmem (ih rfl)
  | _ => cases hok

/-- What a walk that ends has met: the component and then bases with new and
different names. -/
theorem BaseWalk.lineage_eq {components : List Component} {walked : List String}
    {component : Component} {result : Except Defect (List Component)}
    (h : BaseWalk components walked component result) (hnodup : walked.Nodup)
    {lineage : List Component} (hok : result = .ok lineage) :
    ∃ bases, lineage = component :: bases ∧ bases ⊆ components
      ∧ (walked ++ bases.map Component.name).Nodup := by
  induction h generalizing lineage with
  | root hbase =>
      cases hok
      exact ⟨[], rfl, List.nil_subset _, by simpa using hnodup⟩
  | @climb walked component base bases hbase hmem hnew _ ih =>
      cases hok
      have hnodup' : (walked ++ [base.name]).Nodup := by
        rw [← List.concat_eq_append, List.nodup_concat]
        exact ⟨hnew, hnodup⟩
      obtain ⟨rest, rfl, hsub, hnames⟩ := ih hnodup' rfl
      exact ⟨base :: rest, rfl, List.cons_subset.2 ⟨hmem, hsub⟩,
        by simpa using hnames⟩
  | _ => cases hok

def BaseOf (components : List Component) (component base : Component) : Prop :=
  component.base = some base.name ∧ base ∈ components

namespace Household

variable {space : String} {components : List Component}
  (h : Household space components)

include h

/-- A chain that ends does not come back. -/
theorem no_return {component : Component}
    (hends : BaseChainEnds components component) :
    ¬Relation.TransGen (BaseOf components) component component := by
  induction hends with
  | root hbase =>
      intro hreturn
      obtain ⟨base, ⟨hsome, -⟩, -⟩ := Relation.TransGen.head'_iff.1 hreturn
      rw [hbase] at hsome
      cases hsome
  | @climb component base hbase hmem _ ih =>
      intro hreturn
      -- a return to the component passes its base, so it is one to the base
      -- as well
      obtain ⟨other, ⟨hother, hmem'⟩, hback⟩ :=
        Relation.TransGen.head'_iff.1 hreturn
      rw [hbase] at hother
      obtain rfl := h.eq_of_name hmem hmem' (Option.some.inj hother)
      exact ih (.tail' hback ⟨hbase, hmem⟩)

/-- A walk along a chain that ends does not fail: every name walked leads
here, so meeting it again would be a return. -/
theorem walk_ok {walked : List String} {component : Component}
    {result : Except Defect (List Component)}
    (hwalk : BaseWalk components walked component result)
    (hends : BaseChainEnds components component)
    (hwalked : ∀ name ∈ walked, ∃ earlier ∈ components, earlier.name = name
      ∧ Relation.ReflTransGen (BaseOf components) earlier component) :
    ∃ lineage, result = .ok lineage := by
  induction hwalk with
  | root => exact ⟨_, rfl⟩
  | climb => exact ⟨_, rfl⟩
  | missing hbase hnone =>
      cases hends with
      | root hroot => rw [hbase] at hroot; cases hroot
      | climb hbase' hmem =>
          rw [hbase] at hbase'
          exact absurd (Option.some.inj hbase').symm (hnone _ hmem)
  | @cycle walked component base hbase hmem hmet =>
      -- the base was met before and leads here: the chain returns
      obtain ⟨earlier, hearlier, hname, hreach⟩ := hwalked _ hmet
      obtain rfl := h.eq_of_name hmem hearlier hname.symm
      exact absurd (.head' ⟨hbase, hmem⟩ hreach) (h.no_return hends)
  | @stop walked component base defect hbase hmem hnew hrest ih =>
      cases hends with
      | root hroot => rw [hbase] at hroot; cases hroot
      | @climb _ base' hbase' hmem' hends =>
          rw [hbase] at hbase'
          obtain rfl := h.eq_of_name hmem hmem' (Option.some.inj hbase')
          refine ih hends fun name hname => ?_
          rcases List.mem_append.1 hname with hname | hname
          · obtain ⟨earlier, hearlier, heq, hreach⟩ := hwalked name hname
            exact ⟨earlier, hearlier, heq, hreach.tail ⟨hbase, hmem⟩⟩
          · exact ⟨base, hmem, (List.mem_singleton.1 hname).symm, .refl⟩

/-- The chain of bases ends exactly when the walk does. -/
theorem ends_iff {registry : Registry} (hholds : registry.Holds components)
    {component : Component} (hmem : component ∈ components) :
    BaseChainEnds components component
      ↔ ∃ lineage,
        BaseWalk components [component.name] component (.ok lineage) := by
  constructor
  · intro hends
    have hwalk := (h.lineage_eq_iff hholds hmem).1 rfl
    obtain ⟨lineage, hok⟩ := h.walk_ok hwalk hends fun name hname =>
      ⟨component, hmem, (List.mem_singleton.1 hname).symm, .refl⟩
    exact ⟨lineage, hok ▸ hwalk⟩
  · rintro ⟨lineage, hwalk⟩
    exact hwalk.ends rfl

end Household

-- ================================================================ members

namespace Component

variable {component : Component} {member : Member}

/-- An inherited member is a method that one of the bases declares. -/
private theorem mem_inheritedMembers :
    ∀ {bases : List Component} {nearer : List String},
      member ∈ component.inheritedMembers nearer bases →
        ∃ base ∈ bases, ∃ method ∈ base.methods,
          ∃ names, member = component.member (some base.name) names method
  | base :: rest, nearer, h => by
      rw [inheritedMembers, List.mem_append] at h
      rcases h with h | h
      · obtain ⟨method, hmethod, rfl⟩ := List.mem_map.1 h
        exact ⟨base, List.mem_cons_self, method, hmethod, nearer, rfl⟩
      · obtain ⟨other, hother, rest⟩ := mem_inheritedMembers h
        exact ⟨other, List.mem_cons_of_mem base hother, rest⟩

/-- A method of a component is its own or one of its bases'. -/
theorem mem_membersAlong {lineage : List Component}
    (h : member ∈ component.membersAlong lineage) :
    (∃ method ∈ component.methods, member = component.member none [] method)
    ∨ ∃ base ∈ lineage.tail, ∃ method ∈ base.methods, ∃ names,
        member = component.member (some base.name) names method := by
  unfold membersAlong at h
  rw [List.mem_append] at h
  rcases h with h | h
  · obtain ⟨method, hmethod, rfl⟩ := List.mem_map.1 h
    exact .inl ⟨method, hmethod, rfl⟩
  · exact .inr (mem_inheritedMembers h)

end Component

end Datapack
