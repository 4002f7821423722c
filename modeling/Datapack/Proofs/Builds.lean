/-
What a build comes to.

Before any body is built, a project registers its components, checks its
namespace and resolves the methods of every component. `Project.Unprepared`
says how this can fail, in the order in which it is done, and
`Project.Prepared` what there is when it does not; one of the two holds of
any components. Of a prepared project the plan of all components decides
the rest, and the pack is what the plan wrote.

`Project.Built` collects what a successful build rests on. What the pack is
like follows from there: `Project.build_ok_iff` is all that is said about
how such a build goes on its way.
-/
import Datapack.Proofs.Assembly
import Datapack.Proofs.Packs
import Datapack.Proofs.Resolved

namespace Datapack

-- ============================================================ preparation

/-- A project whose components are registered and resolved. -/
structure Project.Prepared (project : Project) (components : List Component)
    (resolved : List (Component × List Member)) : Prop where
  registrable : Registrable components
  space : Name.isValidNamespace project.space = true
  resolution : Resolution components resolved

/-- How a project fails before any body is built. -/
inductive Project.Unprepared (project : Project) (components : List Component) :
    Failure → Prop
  /-- A component cannot be registered, and those before it can. -/
  | registration {before after : List Component} {component : Component}
    {defect : Defect} :
      components = before ++ component :: after → Registrable before →
      RegistrationDefect before component defect →
      Unprepared project components (.defect defect)
  /-- The namespace is not valid. -/
  | space :
    Registrable components → Name.isValidNamespace project.space = false →
      Unprepared project components
        (.step s!"project \"{project.name}\""
          (.defect (.invalidNamespace project.space)))
  /-- A chain of bases does not end, and those of the components before it
  in the order of names do. -/
  | bases {before after : List Component} {component : Component}
    {defect : Defect} :
      Registrable components → Name.isValidNamespace project.space = true →
      (before ++ component :: after).Perm components →
      ((before ++ component :: after).Pairwise fun a b => a.name < b.name) →
      (∀ earlier ∈ before, BaseChainEnds components earlier) →
      BaseWalk components [component.name] component (.error defect) →
      Unprepared project components
        (.step s!"project \"{project.name}\""
          (.step s!"component \"{component.name}\"" (.defect defect)))

/-- A build that succeeded, with the resolved methods of its components. -/
structure Project.Built (project : Project) (components : List Component)
    (resolved : List (Component × List Member)) (pack : Pack) : Prop extends
    project.Prepared components resolved where
  result : (project.outcome resolved).result = .ok ()
  pack : pack = project.packOf (project.outcome resolved).written.below

/-- The tree that a build makes of the components: they are registered, all
their methods are resolved, and everything is built. -/
structure Project.Makes (project : Project) (components : List Component)
    (resolved : List (Component × List Member)) (tree : BuildTree)
    (root : NodeId) : Prop where
  methods : ∃ registry, Registry.empty.registerAll components = .ok registry
    ∧ resolveAll registry (registry.componentsOf project.space) = .ok resolved
  built : ∃ state, project.buildTree resolved
      (.initial project.space (CallTable.ofComponents resolved))
      = .ok root state
    ∧ state.tree = tree

namespace Project

variable {project : Project} {components : List Component}
  (hspace : ∀ component ∈ components, component.space = project.space)

include hspace

/-- A project is prepared, or fails before any body is built. -/
theorem prepared_or_unprepared :
    (∃ resolved, project.Prepared components resolved)
      ∨ ∃ failure, project.Unprepared components failure := by
  rcases Registry.registerAll_cases components Registry.holds_empty
      ⟨fun c hc => (nomatch hc), .nil⟩ with
    ⟨registry, -, hholds, hreg⟩
      | ⟨before, component, after, defect, hsplit, hreg, hdefect, -⟩
  · rw [List.nil_append] at hholds hreg
    have hhouse : Household project.space components := ⟨hreg, hspace⟩
    cases hvalid : Name.isValidNamespace project.space with
    | false => exact .inr ⟨_, .space hreg hvalid⟩
    | true =>
        rcases resolveAll_cases registry
          (registry.componentsOf project.space) with
          ⟨resolved, -, hmap, hall⟩
            | ⟨before, component, after, defect, hsplit, hbefore, hdefect⟩
        · exact .inl ⟨resolved, hreg, hvalid,
            hhouse.resolution_of_resolveAll hholds hmap hall⟩
        · have hperm := hhouse.perm_componentsOf hholds
          have hsorted := hholds.sorted_componentsOf project.space
          -- the resolution stops at the first component in the order of names
          -- that has no end
          rw [hsplit] at hperm hsorted
          refine .inr
            ⟨_, .bases hreg hvalid hperm hsorted (fun earlier hearlier => ?_)
              ((hhouse.members_error_iff hholds
                (hperm.mem_iff.1 (by simp))).1 hdefect)⟩
          have hmem : earlier ∈ components :=
            hperm.mem_iff.1 (by simp [hearlier])
          exact (hhouse.resolvable_iff hholds hmem).1 (hbefore earlier hearlier)
  · rw [List.nil_append] at hreg hdefect
    exact .inr ⟨_, .registration hsplit hreg hdefect⟩

/-- A prepared project is decided by the plan of its components. -/
theorem Prepared.build_eq {resolved : List (Component × List Member)}
    (h : project.Prepared components resolved) :
    project.build components
      = match (project.outcome resolved).result with
        | .error failure =>
          .error (.step s!"project \"{project.name}\"" failure)
        | .ok _ =>
          .ok (project.packOf (project.outcome resolved).written.below) := by
  have hhouse : Household project.space components := ⟨h.registrable, hspace⟩
  obtain ⟨registry, hok, hholds⟩ := Registry.registerAll_ok h.registrable
  have hbuild := Project.build_eq project components
  rw [hok] at hbuild
  dsimp only at hbuild
  rw [if_neg
    (by simp [h.space]), hhouse.resolveAll_of_resolution hholds h.resolution]
    at hbuild
  exact hbuild

/-- A project that cannot be prepared fails for the reason found. -/
theorem Unprepared.build_eq {failure : Failure}
    (h : project.Unprepared components failure) :
    project.build components = .error failure := by
  rw [Project.build_eq]
  cases h with
  | registration hsplit hreg hdefect =>
      rw [hsplit, Registry.registerAll_error hreg hdefect]
  | space hreg hvalid =>
      obtain ⟨registry, hok, -⟩ := Registry.registerAll_ok hreg
      rw [hok]
      dsimp only
      rw [if_pos (by simp [hvalid])]
  | @bases before after component defect hreg hvalid hperm hsorted
      hbefore hwalk =>
      have hhouse : Household project.space components := ⟨hreg, hspace⟩
      obtain ⟨registry, hok, hholds⟩ := Registry.registerAll_ok hreg
      have hsame : before ++ component :: after
          = registry.componentsOf project.space :=
        hhouse.eq_componentsOf hholds hperm hsorted
      have hdefect :=
        (hhouse.members_error_iff hholds (hperm.mem_iff.1 (by simp))).2 hwalk
      rw [hok]
      dsimp only
      rw [if_neg
        (by simp [hvalid]), ← hsame, resolveAll_error registry after hdefect]
      intro earlier hearlier
      have hmem : earlier ∈ components := hperm.mem_iff.1 (by simp [hearlier])
      exact (hhouse.resolvable_iff hholds hmem).2 (hbefore earlier hearlier)

/-- A project builds to a pack just if it can be prepared, its components
end well and the pack is what they wrote. -/
theorem build_ok_iff {pack : Pack} :
    project.build components = .ok pack
      ↔ ∃ resolved, project.Built components resolved pack := by
  constructor
  · intro h
    rcases prepared_or_unprepared hspace with ⟨resolved, hprepared⟩
      | ⟨failure, hunprepared⟩
    · rw [hprepared.build_eq hspace] at h
      split at h
      · cases h
      · next hresult =>
        cases h
        exact ⟨resolved, hprepared, hresult, rfl⟩
    · rw [hunprepared.build_eq hspace] at h
      cases h
  · rintro ⟨resolved, hbuilt⟩
    rw [hbuilt.toPrepared.build_eq hspace, hbuilt.result, hbuilt.pack]

/-- The tree of a build shows what the components wrote below the project. -/
theorem Built.makes {resolved : List (Component × List Member)} {pack : Pack}
    (h : project.Built components resolved pack) :
    ∃ tree, project.Makes components resolved tree 0
      ∧ tree.Shows 0 [0] (.single (.project project.packDescription)
          (project.outcome resolved).written.below) := by
  have hhouse : Household project.space components := ⟨h.registrable, hspace⟩
  obtain ⟨registry, hok, hholds⟩ := Registry.registerAll_ok h.registrable
  obtain ⟨state, hrun, hshows⟩ := project.buildTree_runs resolved
  rw [h.result] at hrun
  exact ⟨state.tree,
    ⟨⟨registry, hok, hhouse.resolveAll_of_resolution hholds h.resolution⟩,
      state, hrun, rfl⟩, hshows⟩

/-- What is built is the resolution of the components. -/
theorem Makes.resolved_eq {resolved other : List (Component × List Member)}
    {tree : BuildTree} {root : NodeId}
    (h : project.Makes components resolved tree root)
    (hprepared : project.Prepared components other) : resolved = other := by
  have hhouse : Household project.space components :=
    ⟨hprepared.registrable, hspace⟩
  obtain ⟨registry, hok, hholds⟩ :=
    Registry.registerAll_ok hprepared.registrable
  obtain ⟨found, hfound, hresolved⟩ := h.methods
  obtain rfl : registry = found := Except.ok.inj (hok.symm.trans hfound)
  exact Except.ok.inj (hresolved.symm.trans
    (hhouse.resolveAll_of_resolution hholds hprepared.resolution))

end Project

/-- The components of a manifest are in the namespace of the project. -/
theorem ProjectManifest.space_components (manifest : ProjectManifest)
    (files : List (String × ComponentManifest)) :
    ∀ component ∈ manifest.components files,
      component.space = manifest.toProject.space :=
  fun component hmem => (manifest.described files component hmem).space

/-- What a build of manifests rests on that succeeded. -/
theorem ProjectManifest.built_of_build {manifest : ProjectManifest}
    {files : List (String × ComponentManifest)} {pack : Pack}
    (h : manifest.toProject.build (manifest.components files) = .ok pack) :
    ∃ resolved,
      manifest.toProject.Built (manifest.components files) resolved pack :=
  (Project.build_ok_iff (manifest.space_components files)).1 h

end Datapack
