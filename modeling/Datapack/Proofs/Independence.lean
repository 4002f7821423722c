/-
What a build does not depend on.

A session keeps its registry from one build to the next, and a registry is
filled in the order in which components are declared. Neither shows. The
registry is cleared around every build, so builds that follow each other
come to what each would come to alone. And a registry is a table of tables,
sorted by names: two ways of filling it that leave the same components
under the same names leave the same registry (`Registry.add_comm`). All
later phases see the components through the registry only, so the order of
declarations is gone before the first of them starts.

Which defect a registration stops at does depend on the order, but not
whether there is one: `Registrable` speaks of all components at once.
-/
import Datapack.Proofs.Packs
import Datapack.Proofs.Registration
import Mathlib.Data.List.Pairwise
import Mathlib.Data.List.Perm.Subperm

namespace Datapack

-- ============================================================ registration

namespace Registry

/-- Tables of different namespaces can be put in place in either order. -/
theorem setTable_comm (registry : Registry) {space other : String}
    (h : space ≠ other) (kind kind' : ResourceKind)
    (table next : Table Definition) :
    (registry.setTable space kind table).setTable other kind' next
      = (registry.setTable other kind' next).setTable space kind table := by
  show Registry.mk
    (Table.insert (registry.setTable space kind table).spaces other
      (((registry.setTable space kind table).holdings other).set kind' next))
    = Registry.mk
      (Table.insert (registry.setTable other kind' next).spaces space
        (((registry.setTable other kind' next).holdings space).set kind table))
  rw [holdings_setTable, holdings_setTable, if_neg (Ne.symm h), if_neg h]
  exact congrArg Registry.mk (Table.insert_comm _ h _ _)

/-- Components with different names can be added in either order. -/
theorem add_comm (registry : Registry) {first second : Component}
    (h : ¬(first.space = second.space ∧ first.name = second.name)) :
    (registry.add first).add second = (registry.add second).add first := by
  unfold add put
  rw [get_setTable, get_setTable]
  by_cases hspace : first.space = second.space
  · -- both go into one table, under different names
    rw [hspace, if_pos ⟨rfl, rfl⟩, if_pos ⟨rfl, rfl⟩, setTable_setTable,
      setTable_setTable, Table.insert_comm _ fun hname => h ⟨hspace, hname⟩]
  · rw [if_neg fun hsame => hspace hsame.1.symm,
      if_neg fun hsame => hspace hsame.1, setTable_comm _ hspace]

/-- Components that can be registered are added one after the other. -/
theorem registerAll_eq_foldl :
    ∀ (components : List Component) {registry : Registry}
      {earlier : List Component},
      registry.Holds earlier → Registrable (earlier ++ components) →
        registry.registerAll components = .ok (components.foldl add registry)
  | [], _, _, _, _ => rfl
  | component :: rest, registry, earlier, hholds, hreg => by
      rw [List.append_cons] at hreg
      have hnext : Registrable (earlier ++ [component]) := by
        refine ⟨fun c hc => hreg.valid c (List.mem_append_left _ hc), ?_⟩
        exact (List.pairwise_append.1 hreg.distinct).1
      obtain ⟨-, hvalid, hfresh⟩ := registrable_append_singleton.1 hnext
      have hrest := registerAll_eq_foldl rest (hholds.add hfresh) hreg
      rw [registerAll_cons, registerComponent_ok hholds hvalid hfresh]
      exact hrest

end Registry

/-- Whether components can be registered does not depend on their order. -/
theorem Registrable.perm {components others : List Component}
    (hperm : components.Perm others) (h : Registrable components) :
    Registrable others := by
  refine ⟨fun component hmem => h.valid component (hperm.mem_iff.2 hmem), ?_⟩
  exact (hperm.pairwise_iff fun hne hsame => hne ⟨hsame.1.symm, hsame.2.symm⟩).1
    h.distinct

/-- No two components that can be registered have one namespace and
one name. -/
private theorem Registrable.not_same {components : List Component}
    (h : Registrable components) {a b : Component} (ha : a ∈ components)
    (hb : b ∈ components) (hne : a ≠ b) :
    ¬(a.space = b.space ∧ a.name = b.name) := by
  have : Std.Symm
      fun a b : Component => ¬(a.space = b.space ∧ a.name = b.name) :=
    ⟨fun a b hab hba => hab ⟨hba.1.symm, hba.2.symm⟩⟩
  exact h.distinct.forall ha hb hne

/-- Components that can be registered are registered alike in any order. -/
theorem Registry.registerAll_perm {components others : List Component}
    (hperm : components.Perm others) (h : Registrable components) :
    ∃ registry, empty.registerAll components = .ok registry
      ∧ empty.registerAll others = .ok registry := by
  refine ⟨components.foldl add empty,
    registerAll_eq_foldl components holds_empty h, ?_⟩
  rw [registerAll_eq_foldl others holds_empty (h.perm hperm)]
  refine congrArg Except.ok
    (hperm.symm.foldl_eq' (fun a ha b hb registry => ?_) empty)
  by_cases hsame : a = b
  · rw [hsame]
  · exact registry.add_comm ((h.perm hperm).not_same ha hb hsame)

/-- A registration that fails does so in any order. -/
theorem Registry.registerAll_error_of_not_registrable
    {components : List Component} (h : ¬Registrable components) :
    ∃ defect, empty.registerAll components = .error defect := by
  rcases registerAll_cases components holds_empty
    ⟨fun c hc => (nomatch hc), .nil⟩ with
    ⟨registry, -, -, hreg⟩ | ⟨-, -, -, defect, -, -, -, herror⟩
  · exact absurd hreg h
  · exact ⟨defect, herror⟩

-- ================================================================ sessions

namespace Session

/-- A build in a session comes to what it does in a new one, and leaves
nothing registered. -/
theorem build_eq (session : Session) (project : Project)
    (components : List Component) :
    session.build project components = (project.build components, {}) := rfl

/-- Runs builds one after the other, each in the session that the one before
it left. -/
def buildAll :
    Session →
      List (Project × List Component) → List (Except Failure Pack × Session)
  | _, [] => []
  | session, (project, components) :: rest =>
    let built := session.build project components
    built :: built.2.buildAll rest

/-- A session builds every project as a new session would, and is left as
it was. -/
private theorem buildAll_eq :
    ∀ (builds : List (Project × List Component)) (session : Session),
      session.buildAll builds = builds.map fun next => (next.1.build next.2, {})
  | [], _ => rfl
  | (project, components) :: rest, session => by
      show session.build project components
        :: (session.build project components).2.buildAll rest
        = _
      rw [build_eq, buildAll_eq rest, List.map_cons]

end Session

-- ================================================================= orders

namespace Project

variable {components others : List Component}

/-- A project is built alike of the same components in another order, if
they can be registered. -/
theorem build_perm (project : Project) (hperm : components.Perm others)
    (h : Registrable components) :
    project.build components = project.build others := by
  obtain ⟨registry, hfirst, hsecond⟩ := Registry.registerAll_perm hperm h
  rw [build_eq, build_eq, hfirst, hsecond]

/-- What a build comes to depends on the project and its components only:
not on what was built before in the session, and not on the order in which
the components are declared, unless they cannot be registered in any. -/
theorem build_independent :
    (∀ (session : Session) (builds : List (Project × List Component)),
      (session.buildAll builds).map Prod.fst
        = builds.map (fun next => next.1.build next.2)
      ∧ ∀ built ∈ session.buildAll builds, built.2.registry.isEmpty = true)
    ∧ ∀ (project : Project) (components others : List Component),
      components.Perm others →
        ((∃ defect, Registry.empty.registerAll components = .error defect)
        ∧ ∃ defect, Registry.empty.registerAll others = .error defect)
      ∨ ((∃ registry, Registry.empty.registerAll components = .ok registry
          ∧ Registry.empty.registerAll others = .ok registry)
        ∧ project.build components = project.build others) := by
  refine ⟨fun session builds => ?_, fun project components others hperm => ?_⟩
  · rw [Session.buildAll_eq]
    refine ⟨by rw [List.map_map]; rfl, fun built hmem => ?_⟩
    obtain ⟨next, -, rfl⟩ := List.mem_map.1 hmem
    rfl
  · by_cases h : Registrable components
    · exact .inr ⟨Registry.registerAll_perm hperm h, project.build_perm hperm h⟩
    · have h' : ¬Registrable others :=
        fun hothers => h (hothers.perm hperm.symm)
      exact .inl ⟨Registry.registerAll_error_of_not_registrable h,
        Registry.registerAll_error_of_not_registrable h'⟩

end Project

/-- A result that passes the test is there. -/
theorem exists_of_isOk {ε α : Type} {result : Except ε α}
    (h : result.isOk = true) :
    ∃ value, result = .ok value := by
  cases result with
  | error failure => cases h
  | ok value => exact ⟨value, rfl⟩

namespace Lamps

def project : Project := { name := "Demo", space := "demo" }

def lamp : Component where
  space := "demo"
  name := "lamp"
  methods := [{ name := "light", body := [.perform (.say "on")] }]

/-- A component that inherits from the lamp and calls it. -/
def switch : Component where
  space := "demo"
  name := "switch"
  base := some "lamp"
  methods := [{ name := "press", body := [.perform (.call "Lamp" "light")] }]

set_option maxRecDepth 100000 in
private theorem build : ∃ pack, project.build [lamp, switch] = .ok pack :=
  exists_of_isOk (by decide +kernel)

end Lamps

/-- The heir can be declared first. -/
theorem Project.lamps_independent :
    [Lamps.lamp, Lamps.switch].Perm [Lamps.switch, Lamps.lamp]
      ∧ ∃ pack, Lamps.project.build [Lamps.lamp, Lamps.switch] = .ok pack
        ∧ Lamps.project.build [Lamps.switch, Lamps.lamp] = .ok pack := by
  have hperm : [Lamps.lamp, Lamps.switch].Perm [Lamps.switch, Lamps.lamp] :=
    .swap ..
  refine ⟨hperm, ?_⟩
  obtain ⟨pack, hbuild⟩ := Lamps.build
  rcases build_independent.2 Lamps.project _ _ hperm with ⟨⟨defect, herror⟩, -⟩
    | ⟨-, hsame⟩
  · rw [Project.build_eq, herror] at hbuild
    cases hbuild
  · exact ⟨pack, hbuild, hsame ▸ hbuild⟩

end Datapack
