/-
When a project can be built, and with which failure it ends otherwise.

`Buildable` is the condition, said without a build: names that are valid
and different, chains of bases that end, and calls that lead somewhere in
every method of every component, with that component as the caller.
`FirstFailure` is the failure, in the order in which the build looks at
things: the components in the order given, the namespace, the bases of the
components in the order of their names, and then the bodies, component by
component, method by method and leaf by leaf. Each of its cases asks that
everything before it in this order is fine.

Nothing else decides a build: it succeeds on the condition, and fails with
the failure.
-/
import Datapack.Proofs.Builds
import Datapack.Proofs.Results

namespace Datapack

-- ============================================================= conditions

/-- What the calls in the body of a component's method depend on. -/
def Project.groundOf (project : Project)
    (resolved : List (Component × List Member)) (component : Component) :
    Ground :=
  ⟨project.space, CallTable.ofComponents resolved, component.name⟩

/-- Every leaf of the method is a command, at any depth of blocks. -/
def Member.Resolves (ground : Ground) (member : Member) : Prop :=
  ∀ leaf ∈ member.method.leaves, ∃ command, leaf.2.command ground = .ok command

/-- The project can be built of the components. -/
structure Project.Buildable (project : Project) (components : List Component) :
    Prop where
  space : Name.isValidNamespace project.space = true
  names : ∀ component ∈ components, Name.isValid component.name = true
  methods : ∀ component ∈ components, ∀ method ∈ component.methods,
    Name.isValid method.name = true
  distinctMethods : ∀ component ∈ components,
    (component.methods.map Method.name).Nodup
  distinct : (components.map Component.name).Nodup
  bases : ∀ component ∈ components, BaseChainEnds components component
  calls : ∀ resolved, Resolution components resolved → ∀ entry ∈ resolved,
    ∀ member ∈ entry.2, member.Resolves (project.groundOf resolved entry.1)

/-- The first leaf of a method that is a call that leads nowhere; the
leaves, the methods and the components before it are fine. -/
inductive Project.BodyFailure (project : Project)
    (resolved : List (Component × List Member)) :
    Failure → Prop
  | leaf {before after : List (Component × List Member)} {component : Component}
      {earlier later : List Member} {member : Member}
      {leaves others : List (List Clause × Statement)}
      {leaf : List Clause × Statement} {defect : Defect} :
      resolved = before ++ (component, earlier ++ member :: later) :: after →
      (∀ entry ∈ before,
        ∀ other ∈ entry.2, other.Resolves (project.groundOf resolved entry.1)) →
      (∀ other ∈ earlier,
        other.Resolves (project.groundOf resolved component)) →
      member.method.leaves = leaves ++ leaf :: others →
      (∀ other ∈ leaves, ∃ command,
        other.2.command (project.groundOf resolved component) = .ok command) →
      leaf.2.command (project.groundOf resolved component) = .error defect →
      BodyFailure project resolved
        (.step s!"component \"{component.name}\""
          (.step s!"component method \"{member.key}\"" (.defect defect)))

/-- The first failure of a build of the components: one before any body is
built, or else one in a body. -/
inductive Project.FirstFailure (project : Project)
    (components : List Component) :
    Failure → Prop
  | unprepared {failure : Failure} : project.Unprepared components failure →
      FirstFailure project components failure
  | body {resolved : List (Component × List Member)} {failure : Failure} :
      project.Prepared components resolved →
        project.BodyFailure resolved failure →
      FirstFailure project components
        (.step s!"project \"{project.name}\"" failure)

-- ================================================================= bodies

/-- A statement has no defect just if it comes to a command. -/
private theorem Statement.defect?_eq_none {ground : Ground}
    {statement : Statement} :
    statement.defect? ground = none
      ↔ ∃ command, statement.command ground = .ok command := by
  unfold Statement.defect?
  cases statement.command ground <;> simp

/-- The defect of a statement is the one its command fails with. -/
private theorem Statement.defect?_eq_some {ground : Ground}
    {statement : Statement} {defect : Defect} :
    statement.defect? ground = some defect
      ↔ statement.command ground = .error defect := by
  unfold Statement.defect?
  cases statement.command ground <;> simp

namespace Plan

/-- A method has no failure just if all its leaves come to commands. -/
private theorem memberFailure?_eq_none {ground : Ground} {member : Member} :
    memberFailure? ground member = none ↔ member.Resolves ground := by
  unfold memberFailure? Statement.firstDefect? Member.Resolves
  rw [Option.map_eq_none_iff, List.findSome?_eq_none_iff]
  exact forall₂_congr fun leaf _ => Statement.defect?_eq_none

/-- The failure of a method is that of its first leaf that does not come to
a command. -/
private theorem memberFailure?_eq_some {ground : Ground} {member : Member}
    {failure : Failure} :
    memberFailure? ground member = some failure
      ↔ ∃ leaves leaf others defect,
        member.method.leaves = leaves ++ leaf :: others
          ∧ (∀ other ∈ leaves, ∃ command, other.2.command ground = .ok command)
          ∧ leaf.2.command ground = .error defect
          ∧ failure
            = .step s!"component method \"{member.key}\"" (.defect defect) := by
  unfold memberFailure? Statement.firstDefect?
  rw [Option.map_eq_some_iff]
  constructor
  · rintro ⟨defect, hfound, rfl⟩
    obtain ⟨leaves, leaf, others, hsplit, hleaf, hbefore⟩ :=
      List.findSome?_eq_some_iff.1 hfound
    exact ⟨leaves, leaf, others, defect, hsplit,
      fun other hother => Statement.defect?_eq_none.1 (hbefore other hother),
      Statement.defect?_eq_some.1 hleaf, rfl⟩
  · rintro ⟨leaves, leaf, others, defect, hsplit, hbefore, hleaf, rfl⟩
    refine ⟨defect,
      List.findSome?_eq_some_iff.2 ⟨leaves, leaf, others, hsplit, ?_, ?_⟩, rfl⟩
    · exact Statement.defect?_eq_some.2 hleaf
    · exact fun other hother =>
        Statement.defect?_eq_none.2 (hbefore other hother)

/-- A component has no failure just if its methods have none. -/
private theorem componentFailure?_eq_none {ground : Ground}
    {entry : Component × List Member} :
    componentFailure? ground entry = none
      ↔ ∀ member ∈ entry.2,
        member.Resolves { ground with component := entry.1.name } := by
  unfold componentFailure?
  rw [Option.map_eq_none_iff, List.findSome?_eq_none_iff]
  exact forall₂_congr fun member _ => memberFailure?_eq_none

/-- The failure of a component is that of its first method that has one. -/
private theorem componentFailure?_eq_some {ground : Ground}
    {entry : Component × List Member} {failure : Failure} :
    componentFailure? ground entry = some failure
      ↔ ∃ earlier member later inner, entry.2 = earlier ++ member :: later
          ∧ (∀ other ∈ earlier,
            other.Resolves { ground with component := entry.1.name })
          ∧ memberFailure?
            { ground with component := entry.1.name } member = some inner
          ∧ failure = .step s!"component \"{entry.1.name}\"" inner := by
  unfold componentFailure?
  rw [Option.map_eq_some_iff]
  constructor
  · rintro ⟨inner, hfound, rfl⟩
    obtain ⟨earlier, member, later, hsplit, hmember, hbefore⟩ :=
      List.findSome?_eq_some_iff.1 hfound
    exact ⟨earlier, member, later, inner, hsplit,
      fun other hother => memberFailure?_eq_none.1 (hbefore other hother),
      hmember, rfl⟩
  · rintro ⟨earlier, member, later, inner, hsplit, hbefore, hmember, rfl⟩
    refine ⟨inner,
      List.findSome?_eq_some_iff.2 ⟨earlier, member, later, hsplit, hmember,
        ?_⟩, rfl⟩
    exact fun other hother => memberFailure?_eq_none.2 (hbefore other hother)

end Plan

/-- Inherited methods are statements too: some component declares them. -/
theorem Resolution.isStatements {components : List Component}
    {resolved : List (Component × List Member)}
    (h : Resolution components resolved)
    (hbodies : ∀ component ∈ components,
      ∀ method ∈ component.methods, method.IsStatements) :
    ∀ entry ∈ resolved, ∀ member ∈ entry.2, member.method.IsStatements := by
  intro entry hentry member hmember
  obtain ⟨component, hcomponent, hmethod⟩ := h.declared hentry hmember
  exact hbodies component hcomponent member.method hmethod

namespace Project

variable {project : Project} {components : List Component}
  {resolved : List (Component × List Member)}

/-- The plan of a project ends with the first failure of its bodies. -/
theorem Prepared.result_eq (h : project.Prepared components resolved)
    (hbodies : ∀ component ∈ components,
      ∀ method ∈ component.methods, method.IsStatements) :
    (project.outcome resolved).result
      = Outcome.resultOf (resolved.findSome? (Plan.componentFailure?
          ⟨project.space, CallTable.ofComponents resolved, ""⟩)) :=
  Plan.ends_components (h.resolution.isStatements hbodies)
    (Site.initial _ _) rfl

variable (hbodies : ∀ component ∈ components,
  ∀ method ∈ component.methods, method.IsStatements)

include hbodies

/-- All bodies are built when every call in them leads somewhere. -/
theorem Prepared.result_ok_iff (h : project.Prepared components resolved) :
    (project.outcome resolved).result = .ok ()
      ↔ ∀ entry ∈ resolved, ∀ member ∈ entry.2,
          member.Resolves (project.groundOf resolved entry.1) := by
  rw [h.result_eq hbodies, Outcome.resultOf_eq_ok, List.findSome?_eq_none_iff]
  exact forall₂_congr fun entry _ => Plan.componentFailure?_eq_none

/-- The first call that leads nowhere is the failure. -/
theorem Prepared.result_error_iff (h : project.Prepared components resolved)
    {failure : Failure} :
    (project.outcome resolved).result = .error failure
      ↔ project.BodyFailure resolved failure := by
  rw [h.result_eq hbodies, Outcome.resultOf_eq_error,
    List.findSome?_eq_some_iff]
  constructor
  · rintro ⟨before, ⟨component, members⟩, after, hsplit, hfailure, hbefore⟩
    obtain ⟨earlier, member, later, inner, rfl, hearlier, hmember, rfl⟩ :=
      Plan.componentFailure?_eq_some.1 hfailure
    obtain ⟨leaves, leaf, others, defect, hleaves, hfine, hdefect, rfl⟩ :=
      Plan.memberFailure?_eq_some.1 hmember
    exact .leaf hsplit
      (fun entry hentry =>
        Plan.componentFailure?_eq_none.1 (hbefore entry hentry))
      hearlier hleaves hfine hdefect
  · rintro ⟨hsplit, hbefore, hearlier, hleaves, hfine, hdefect⟩
    refine ⟨_, _, _, hsplit, Plan.componentFailure?_eq_some.2
      ⟨_, _, _, _, rfl, hearlier, Plan.memberFailure?_eq_some.2
        ⟨_, _, _, _, hleaves, hfine, hdefect, rfl⟩, rfl⟩, ?_⟩
    exact fun entry hentry =>
      Plan.componentFailure?_eq_none.2 (hbefore entry hentry)

variable (hspace : ∀ component ∈ components, component.space = project.space)

include hspace

/-- A prepared project is built when every call in its bodies leads
somewhere. -/
theorem Prepared.build_iff (h : project.Prepared components resolved) :
    (∃ pack, project.build components = .ok pack)
      ↔ ∀ entry ∈ resolved, ∀ member ∈ entry.2,
          member.Resolves (project.groundOf resolved entry.1) := by
  rw [← h.result_ok_iff hbodies, h.build_eq hspace]
  cases (project.outcome resolved).result <;> simp

/-- A project that was built could be built. -/
private theorem buildable_of_build {pack : Pack}
    (h : project.build components = .ok pack) :
    project.Buildable components := by
  obtain ⟨resolved, hbuilt⟩ := (build_ok_iff hspace).1 h
  have hhouse : Household project.space components :=
    ⟨hbuilt.registrable, hspace⟩
  refine ⟨hbuilt.space, fun c hc => (hbuilt.registrable.valid c hc).name,
    fun c hc => (hbuilt.registrable.valid c hc).methods,
    fun c hc => (hbuilt.registrable.valid c hc).distinct,
    hhouse.nodup_names, ?_, ?_⟩
  · intro component hmem
    obtain ⟨entry, hentry, rfl⟩ :=
      List.mem_map.1 (hbuilt.resolution.perm.mem_iff.2 hmem)
    obtain ⟨lineage, hwalk, -⟩ := hbuilt.resolution.members entry hentry
    exact hwalk.ends rfl
  · intro other hother
    -- whichever resolution is given, the build is decided by its plan
    have hprepared : project.Prepared components other :=
      ⟨hbuilt.registrable, hbuilt.space, hother⟩
    rw [← hprepared.result_ok_iff hbodies]
    rw [hprepared.build_eq hspace] at h
    split at h
    · cases h
    · assumption

private theorem Buildable.build (h : project.Buildable components) :
    ∃ pack, project.build components = .ok pack := by
  have hreg : Registrable components := by
    refine ⟨fun c hc =>
      ⟨?_, h.names c hc, h.methods c hc, h.distinctMethods c hc⟩, ?_⟩
    · rw [hspace c hc]
      exact h.space
    · exact (List.pairwise_map.1 h.distinct).imp fun hne hsame => hne hsame.2
  obtain ⟨registry, -, hholds⟩ := Registry.registerAll_ok hreg
  have hhouse : Household project.space components := ⟨hreg, hspace⟩
  obtain ⟨resolved, hresolution⟩ := hhouse.exists_resolution hholds h.bases
  have hprepared : project.Prepared components resolved :=
    ⟨hreg, h.space, hresolution⟩
  rw [hprepared.build_eq hspace,
    (hprepared.result_ok_iff hbodies).2 (h.calls resolved hresolution)]
  exact ⟨_, rfl⟩

/-- The first failure ends the build. -/
theorem FirstFailure.build_eq {failure : Failure}
    (h : project.FirstFailure components failure) :
    project.build components = .error failure := by
  cases h with
  | unprepared hunprepared => exact hunprepared.build_eq hspace
  | body hprepared hfailure =>
      rw [hprepared.build_eq hspace,
        (hprepared.result_error_iff hbodies).2 hfailure]

/-- The failure of a build is the first there is. -/
theorem firstFailure_of_build {failure : Failure}
    (h : project.build components = .error failure) :
    project.FirstFailure components failure := by
  rcases prepared_or_unprepared hspace with ⟨resolved, hprepared⟩
    | ⟨other, hunprepared⟩
  · rw [hprepared.build_eq hspace] at h
    split at h
    · next inner hresult =>
      cases h
      exact .body hprepared ((hprepared.result_error_iff hbodies).1 hresult)
    · cases h
  · rw [hunprepared.build_eq hspace] at h
    cases h
    exact .unprepared hunprepared

end Project

/-- A build of manifests succeeds exactly when the project can be built of
their components, and fails otherwise with the first failure. -/
theorem ProjectManifest.build_outcome (manifest : ProjectManifest)
    (files : List (String × ComponentManifest)) :
    ((∃ pack, manifest.toProject.build (manifest.components files) = .ok pack)
        ↔ manifest.toProject.Buildable (manifest.components files))
      ∧ ∀ failure,
        manifest.toProject.build (manifest.components files) = .error failure
          ↔ manifest.toProject.FirstFailure (manifest.components files)
            failure := by
  have hspace := manifest.space_components files
  have hbodies : ∀ component ∈ manifest.components files,
      ∀ method ∈ component.methods, method.IsStatements :=
    fun component hmem => (manifest.described files component hmem).bodies
  refine ⟨⟨?_, fun h => h.build hbodies hspace⟩, fun failure => ⟨?_, ?_⟩⟩
  · rintro ⟨pack, h⟩
    exact Project.buildable_of_build hbodies hspace h
  · exact Project.firstFailure_of_build hbodies hspace
  · exact Project.FirstFailure.build_eq hbodies hspace

-- ================================================================ an example

namespace Sample

def manifest : ProjectManifest := { name := "Demo", space := "demo" }

/-- A component with blocks in blocks, a call and a hook. -/
def doorManifest : ComponentManifest where
  methods :=
    [{ name := "open"
       hooks := { tick := true }
       body :=
         [.say "open",
          .execute [⟨["as", "@a"]⟩]
            [.invoke "knock",
              .execute [⟨["at", "@s"]⟩] [.say "one", .say "two"]]] },
     { name := "knock", body := [.say "knock"] }]

def files : List (String × ComponentManifest) := [("Door", doorManifest)]

def door : Component := doorManifest.toComponent "demo" "Door"

def resolved : List (Component × List Member) :=
  [(door, door.membersAlong [door])]

private theorem components_eq : manifest.components files = [door] := rfl

/-- The door passes everything that comes before its bodies. -/
theorem prepared :
    manifest.toProject.Prepared (manifest.components files) resolved := by
  rw [components_eq]
  refine ⟨⟨fun component hmem => ?_, List.pairwise_singleton _ _⟩,
    by decide, .refl _, List.pairwise_singleton _ _, fun entry hentry => ?_⟩
  · rw [List.mem_singleton.1 hmem]
    exact ⟨by decide, by decide, by decide, by decide⟩
  · rw [List.mem_singleton.1 hentry]
    exact ⟨[door], .root rfl, rfl⟩

/-- The project of the door can be built: all its calls lead somewhere. -/
theorem build :
    ∃ pack, manifest.toProject.build (manifest.components files)
      = .ok pack := by
  have hbodies : ∀ component ∈ manifest.components files,
      ∀ method ∈ component.methods, method.IsStatements :=
    fun component hmem => (manifest.described files component hmem).bodies
  have hcalls : ∀ entry ∈ resolved, ∀ member ∈ entry.2,
      member.Resolves (manifest.toProject.groundOf resolved entry.1) := by
    intro entry hentry member hmember
    rw [List.mem_singleton.1 hentry] at hmember ⊢
    rcases List.mem_cons.1 hmember with rfl | hmember
    · intro leaf hleaf
      change leaf ∈ [(_, Statement.say "open"), (_, .invoke "knock"),
        (_, .say "one"), (_, .say "two")] at hleaf
      simp only [List.mem_cons, List.not_mem_nil, or_false] at hleaf
      rcases hleaf with rfl | rfl | rfl | rfl
      · exact ⟨_, rfl⟩
      · exact ⟨_, rfl⟩
      · exact ⟨_, rfl⟩
      · exact ⟨_, rfl⟩
    · rw [List.mem_singleton.1 hmember]
      intro leaf hleaf
      rw [List.mem_singleton.1 hleaf]
      exact ⟨_, rfl⟩
  rw [prepared.build_eq (manifest.space_components files),
    (prepared.result_ok_iff hbodies).2 hcalls]
  exact ⟨_, rfl⟩

end Sample

end Datapack
