/-
The resolved methods of a project.

All methods are resolved before any body is built. `Resolution` says what
the result is without the registry: each component once, in the order of
the names, with the methods along its bases. What the registry resolves to
is this result and no other, and there is one if all chains of bases end
(`Household.exists_resolution`).

Projects that are described by manifests keep house: their components are
all in the namespace of the project, under names in snake case, and the
bodies of their methods are statements.
-/
import Datapack.Proofs.Inheritance
import Datapack.Proofs.Places
import Datapack.Manifest

namespace Datapack

-- ============================================================== resolving

/-- The methods of all components, in the order of their names. -/
structure Resolution (components : List Component)
    (resolved : List (Component × List Member)) : Prop where
  perm : (resolved.map Prod.fst).Perm components
  sorted : (resolved.map Prod.fst).Pairwise fun a b => a.name < b.name
  members : ∀ entry ∈ resolved, ∃ lineage,
    BaseWalk components [entry.1.name] entry.1 (.ok lineage)
      ∧ entry.2 = entry.1.membersAlong lineage

/-- The components of a resolution are those of the project. -/
theorem Resolution.mem {components : List Component}
    {resolved : List (Component × List Member)}
    (h : Resolution components resolved) {entry : Component × List Member}
    (hentry : entry ∈ resolved) : entry.1 ∈ components :=
  h.perm.mem_iff.1 (List.mem_map_of_mem hentry)

/-- A resolved component, its bases and its methods. -/
theorem Resolution.lineage {components : List Component}
    {resolved : List (Component × List Member)}
    (h : Resolution components resolved) {entry : Component × List Member}
    (hentry : entry ∈ resolved) :
    ∃ bases, entry.2 = entry.1.membersAlong (entry.1 :: bases)
      ∧ entry.1 ∈ components
      ∧ bases ⊆ components
        ∧ (entry.1.name :: bases.map Component.name).Nodup := by
  obtain ⟨lineage, hwalk, hmembers⟩ := h.members entry hentry
  obtain ⟨bases, rfl, hsub, hnodup⟩ :=
    hwalk.lineage_eq (List.nodup_singleton _) rfl
  exact ⟨bases, hmembers, h.mem hentry, hsub, hnodup⟩

/-- A resolved method is declared by some component. -/
theorem Resolution.declared {components : List Component}
    {resolved : List (Component × List Member)}
    (h : Resolution components resolved) {entry : Component × List Member}
    (hentry : entry ∈ resolved) {member : Member} (hmember : member ∈ entry.2) :
    ∃ component ∈ components, member.method ∈ component.methods := by
  obtain ⟨bases, hmembers, hmem, hsub, -⟩ := h.lineage hentry
  rw [hmembers] at hmember
  rcases Component.mem_membersAlong hmember with
    ⟨method, hmethod, rfl⟩ | ⟨base, hbase, method, hmethod, names, rfl⟩
  · exact ⟨entry.1, hmem, hmethod⟩
  · exact ⟨base, hsub hbase, hmethod⟩

namespace Project

/-- All components are resolved if each of them is. -/
private theorem resolveAll_ok (registry : Registry) :
    ∀ {resolved : List (Component × List Member)},
      (∀ entry ∈ resolved, registry.members entry.1 = .ok entry.2) →
      resolveAll registry (resolved.map Prod.fst) = .ok resolved
  | [], _ => rfl
  | entry :: rest, h => by
      rw [List.map_cons, resolveAll, h entry List.mem_cons_self]
      dsimp only
      rw [resolveAll_ok registry
        fun other hother => h other (List.mem_cons_of_mem entry hother)]
      rfl

/-- The first component whose methods cannot be resolved ends the
resolution. -/
theorem resolveAll_error (registry : Registry) {component : Component}
    {defect : Defect} (after : List Component)
    (h : registry.members component = .error defect) :
    ∀ {before : List Component},
      (∀ earlier ∈ before, ∃ members, registry.members earlier = .ok members) →
      resolveAll registry (before ++ component :: after)
        = .error (.step s!"component \"{component.name}\"" (.defect defect))
  | [], _ => by rw [List.nil_append, resolveAll, h]
  | earlier :: rest, hbefore => by
      obtain ⟨members, hmembers⟩ := hbefore earlier List.mem_cons_self
      rw [List.cons_append, resolveAll, hmembers]
      dsimp only
      rw [resolveAll_error registry after h fun other hother =>
        hbefore other (List.mem_cons_of_mem earlier hother)]
      rfl

/-- Resolving succeeds for all components, or ends at the first whose
members cannot be collected. -/
theorem resolveAll_cases (registry : Registry) : ∀ components : List Component,
    (∃ resolved, resolveAll registry components = .ok resolved
      ∧ resolved.map Prod.fst = components
      ∧ ∀ entry ∈ resolved, registry.members entry.1 = .ok entry.2)
    ∨ ∃ before component after defect, components = before ++ component :: after
        ∧ (∀ earlier ∈ before,
          ∃ members, registry.members earlier = .ok members)
        ∧ registry.members component = .error defect
  | [] => .inl ⟨[], rfl, rfl, fun _ h => (nomatch h)⟩
  | component :: rest => by
      -- the first component that fails decides, so the rest is asked only
      -- after it
      cases hmembers : registry.members component with
      | error defect =>
          exact .inr ⟨[], component, rest, defect, rfl, fun _ h => (nomatch h),
            hmembers⟩
      | ok members =>
          rcases resolveAll_cases registry rest with
            ⟨resolved, -, rfl, hall⟩
              | ⟨before, found, after, defect, rfl, hbefore, hfound⟩
          · have hall' : ∀ entry ∈ (component, members) :: resolved,
                registry.members entry.1 = .ok entry.2 := fun entry hentry =>
              (List.mem_cons.1 hentry).elim (fun h => h ▸ hmembers) (hall entry)
            exact .inl ⟨(component, members) :: resolved,
              resolveAll_ok registry hall', rfl, hall'⟩
          · refine .inr ⟨component :: before, found, after, defect, rfl,
              ?_, hfound⟩
            exact fun earlier hearlier =>
              (List.mem_cons.1 hearlier).elim (fun h => h ▸ ⟨members, hmembers⟩)
                (hbefore earlier)

end Project

section Household

variable {space : String} {components : List Component} {registry : Registry}
  (h : Household space components) (hholds : registry.Holds components)

include h hholds

/-- The members of a component are those along the bases that a walk meets. -/
theorem Household.members_ok_iff {component : Component}
    (hmem : component ∈ components) {members : List Member} :
    registry.members component = .ok members
      ↔ ∃ lineage, BaseWalk components [component.name] component (.ok lineage)
          ∧ members = component.membersAlong lineage := by
  rw [registry.members_eq]
  constructor
  · intro hmembers
    cases hlineage : registry.lineage component with
    | error defect =>
        rw [hlineage] at hmembers
        cases hmembers
    | ok lineage =>
        rw [hlineage] at hmembers
        cases hmembers
        exact ⟨lineage, (h.lineage_eq_iff hholds hmem).1 hlineage, rfl⟩
  · rintro ⟨lineage, hwalk, rfl⟩
    rw [(h.lineage_eq_iff hholds hmem).2 hwalk]
    rfl

/-- The methods of a component can be resolved if its chain of bases
ends. -/
theorem Household.resolvable_iff {component : Component}
    (hmem : component ∈ components) :
    (∃ members, registry.members component = .ok members)
      ↔ BaseChainEnds components component := by
  rw [h.ends_iff hholds hmem]
  constructor
  · rintro ⟨members, hmembers⟩
    obtain ⟨lineage, hwalk, -⟩ := (h.members_ok_iff hholds hmem).1 hmembers
    exact ⟨lineage, hwalk⟩
  · rintro ⟨lineage, hwalk⟩
    exact ⟨_, (h.members_ok_iff hholds hmem).2 ⟨lineage, hwalk, rfl⟩⟩

/-- The methods of a component cannot be resolved if the walk along its
bases fails. -/
theorem Household.members_error_iff {component : Component}
    (hmem : component ∈ components) {defect : Defect} :
    registry.members component = .error defect
      ↔ BaseWalk components [component.name] component (.error defect) := by
  rw [registry.members_eq, ← h.lineage_eq_iff hholds hmem]
  cases registry.lineage component with
  | error other =>
      constructor
      · intro heq
        cases heq
        rfl
      · intro heq
        cases heq
        rfl
  | ok lineage =>
      constructor
      · intro heq
        cases heq
      · intro heq
        cases heq

/-- What the registry resolves to is the resolution of the components. -/
theorem Household.resolution_of_resolveAll
    {resolved : List (Component × List Member)}
      (hmap : resolved.map Prod.fst = registry.componentsOf space)
    (hall : ∀ entry ∈ resolved, registry.members entry.1 = .ok entry.2) :
    Resolution components resolved := by
  have hperm := h.perm_componentsOf hholds
  refine ⟨hmap ▸ hperm, hmap ▸ hholds.sorted_componentsOf space,
    fun entry hentry => ?_⟩
  have hmem : entry.1 ∈ components := by
    rw [← hperm.mem_iff, ← hmap]
    exact List.mem_map_of_mem hentry
  exact (h.members_ok_iff hholds hmem).1 (hall entry hentry)

/-- Components whose chains of bases end are resolved. -/
theorem Household.exists_resolution
    (hends : ∀ component ∈ components, BaseChainEnds components component) :
    ∃ resolved, Resolution components resolved := by
  rcases Project.resolveAll_cases registry (registry.componentsOf space) with
    ⟨resolved, -, hmap, hall⟩
      | ⟨before, component, after, defect, hsplit, -, hdefect⟩
  · exact ⟨resolved, h.resolution_of_resolveAll hholds hmap hall⟩
  · have hmem : component ∈ components := by
      rw [← (h.perm_componentsOf hholds).mem_iff, hsplit]
      simp
    obtain ⟨members, hmembers⟩ :=
      (h.resolvable_iff hholds hmem).2 (hends component hmem)
    rw [hdefect] at hmembers
    cases hmembers

/-- The registry resolves to every resolution there is, so there is
one at most. -/
theorem Household.resolveAll_of_resolution
    {resolved : List (Component × List Member)}
      (hres : Resolution components resolved) :
    Project.resolveAll registry (registry.componentsOf space)
      = .ok resolved := by
  rw [← h.eq_componentsOf hholds hres.perm hres.sorted]
  refine Project.resolveAll_ok registry fun entry hentry => ?_
  exact (h.members_ok_iff hholds (hres.mem hentry)).2
    (hres.members entry hentry)

end Household

-- =============================================================== manifests

/-- The components that manifests describe, each with its file. -/
def ProjectManifest.components (manifest : ProjectManifest)
    (files : List (String × ComponentManifest)) : List Component :=
  files.map fun file => file.2.toComponent manifest.space file.1

/-- What a component of manifests is like. -/
structure Component.Described (space : String) (component : Component) :
    Prop where
  space : component.space = space
  name : ∃ declared, component.name = Name.snakeCase declared
  bodies : ∀ method ∈ component.methods, ∃ body : List Statement,
    method.body = body.map .perform

/-- Components of manifests keep house. -/
theorem ProjectManifest.described (manifest : ProjectManifest)
    (files : List (String × ComponentManifest)) :
    ∀ component ∈ manifest.components files,
      component.Described manifest.space := by
  intro component hmem
  obtain ⟨file, -, rfl⟩ := List.mem_map.1 hmem
  refine ⟨rfl, ⟨_, rfl⟩, fun method hmethod => ?_⟩
  obtain ⟨described, -, rfl⟩ := List.mem_map.1 hmethod
  exact ⟨described.body, rfl⟩

end Datapack
