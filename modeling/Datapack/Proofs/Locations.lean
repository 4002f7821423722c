/-
Where the functions of a pack are.

A pack has a function for every place: every method of every component,
inherited and overridden ones included, the functions that attach and
detach the components that entities can have, and as many generated ones
as names were taken. The functions are at the locations of these places in
some order, and the places are different, so no two functions share a
location.
-/
import Datapack.Proofs.Failures

namespace Datapack

-- ============================================================== members

def Component.place (component : Component) (member : Member) : FunctionPlace :=
  .method component.name member.origin member.method.visibility
    member.method.name

namespace Component

variable {component : Component} {member : Member}

/-- The location of a member is that of its place. -/
theorem location_eq {lineage : List Component}
    (h : member ∈ component.membersAlong lineage) :
    member.location = (component.place member).location component.space := by
  rcases mem_membersAlong h with ⟨method, -, rfl⟩
    | ⟨base, -, method, -, names, rfl⟩
  · rfl
  · rfl

/-- The places of inherited methods do not depend on what is nearer. -/
theorem map_place_inheritedMembers :
    ∀ (bases : List Component) (nearer : List String),
      (component.inheritedMembers nearer bases).map component.place
      = bases.flatMap fun base => base.methods.map fun method =>
          .method component.name (some base.name) method.visibility method.name
  | [], _ => rfl
  | base :: rest, nearer => by
      rw [inheritedMembers, List.map_append, map_place_inheritedMembers rest,
        List.map_map, List.flatMap_cons]
      rfl

/-- The methods of a component have different places: own ones have
different names, and so have those of a base, and bases have different
names themselves. -/
theorem nodup_places {bases : List Component}
    (hown : (component.methods.map Method.name).Nodup)
    (hbases : ∀ base ∈ bases, (base.methods.map Method.name).Nodup)
    (hnames : (bases.map Component.name).Nodup) :
    ((component.membersAlong (component :: bases)).map
      component.place).Nodup := by
  have hdeclared : ∀ (origin : Option String) (methods : List Method),
      (methods.map Method.name).Nodup → (methods.map fun method =>
        FunctionPlace.method component.name origin method.visibility
          method.name).Nodup := by
    intro origin methods hmethods
    rw [List.Nodup, List.pairwise_map] at hmethods ⊢
    exact hmethods.imp fun hne heq => hne (FunctionPlace.method.inj heq).2.2.2
  unfold membersAlong
  rw [List.map_append, map_place_inheritedMembers, List.map_map,
    List.nodup_append]
  refine ⟨hdeclared none _ hown, ?_, ?_⟩
  · -- methods of one base differ by their names, those of two bases by the
    -- origin
    rw [List.tail_cons, List.nodup_flatMap]
    refine ⟨fun base hbase => hdeclared _ _ (hbases base hbase), ?_⟩
    rw [List.Nodup, List.pairwise_map] at hnames
    refine hnames.imp fun {a b} hne place ha hb => hne ?_
    obtain ⟨method, -, rfl⟩ := List.mem_map.1 ha
    obtain ⟨other, -, heq⟩ := List.mem_map.1 hb
    exact (Option.some.inj (FunctionPlace.method.inj heq).2.1).symm
  · -- only inherited ones have an origin
    intro a ha b hb heq
    obtain ⟨method, -, rfl⟩ := List.mem_map.1 ha
    obtain ⟨base, -, hb⟩ := List.mem_flatMap.1 hb
    obtain ⟨other, -, rfl⟩ := List.mem_map.1 hb
    exact absurd (FunctionPlace.method.inj heq).2.1 (by simp [Component.member])

/-- The places of the functions of a component that are not generated. -/
def places (component : Component) (members : List Member) :
    List FunctionPlace :=
  members.map component.place
    ++ if component.isAbstract then [] else [.attach component.name,
      .detach component.name]

/-- The places of a component: those of its members, and of its entry
points unless it is abstract. -/
theorem mem_places {members : List Member} {place : FunctionPlace} :
    place ∈ component.places members
      ↔ (∃ member ∈ members, component.place member = place)
      ∨ component.isAbstract = false
        ∧ (place = .attach component.name
          ∨ place = .detach component.name) := by
  unfold places
  cases component.isAbstract <;> simp

/-- They are where the plan of the component puts them. -/
theorem map_location_places (lineage : List Component) :
    (component.places (component.membersAlong lineage)).map
      (FunctionPlace.location component.space)
      = Plan.fixedLocations component (component.membersAlong lineage) := by
  unfold places Plan.fixedLocations
  rw [List.map_append, List.map_map]
  refine congr (congrArg _ ?_) ?_
  · exact List.map_congr_left fun member hmember => (location_eq hmember).symm
  · cases component.isAbstract <;> rfl

end Component

/-- The component that a place belongs to, unless it is generated. -/
def FunctionPlace.component? : FunctionPlace → Option String
  | .method component .. | .attach component
  | .detach component => some component
  | .generated _ => none

/-- The places of a component belong to it. -/
private theorem Component.component?_of_mem_places {component : Component}
    {members : List Member} {place : FunctionPlace}
    (h : place ∈ component.places members) :
    place.component? = some component.name := by
  rcases Component.mem_places.1 h with ⟨member, -, rfl⟩ | ⟨-, rfl | rfl⟩
  · rfl
  · rfl
  · rfl

/-- The places of a component differ, as those of its members do. -/
private theorem Component.nodup_places_all {component : Component}
    {members : List Member} (h : (members.map component.place).Nodup) :
    (component.places members).Nodup := by
  unfold Component.places
  rw [List.nodup_append]
  refine ⟨h, ?_, fun a ha b hb heq => ?_⟩
  · cases component.isAbstract <;> simp
  · obtain ⟨member, -, rfl⟩ := List.mem_map.1 ha
    subst heq
    cases habstract : component.isAbstract with
    | true => simp [habstract] at hb
    | false => simp [habstract, Component.place] at hb

/-- The first generated places are at the first names of the stream. -/
theorem FunctionPlace.map_location_generated (space : String) (k : Nat) :
    ((List.range k).map FunctionPlace.generated).map
      (FunctionPlace.location space)
      = (NameStream.ofTemplate (Location.functionTemplate space)).take k := by
  unfold NameStream.take
  rw [List.map_map]
  exact List.map_congr_left
    fun i _ => by simp [NameStream.ofTemplate, FunctionPlace.location]

-- =============================================================== projects

namespace Project.Built

variable {project : Project} {components : List Component}
  {resolved : List (Component × List Member)} {pack : Pack}

section

variable (h : project.Built components resolved pack)
  (hdescribed : ∀ component ∈ components, component.Described project.space)

include h

/-- The places of all components differ. -/
private theorem nodup_places :
    (resolved.flatMap fun entry => entry.1.places entry.2).Nodup := by
  rw [List.nodup_flatMap]
  constructor
  · intro entry hentry
    obtain ⟨bases, hmembers, hmem, hsub, hnodup⟩ := h.resolution.lineage hentry
    rw [hmembers]
    refine Component.nodup_places_all
      (Component.nodup_places ?_ (fun base hbase => ?_) ?_)
    · exact (h.registrable.valid _ hmem).distinct
    · exact (h.registrable.valid _ (hsub hbase)).distinct
    · exact (List.nodup_cons.1 hnodup).2
  · have hsorted := h.resolution.sorted
    rw [List.pairwise_map] at hsorted
    refine hsorted.imp fun {a b} hlt place ha hb => ?_
    have hname := (Component.component?_of_mem_places ha).symm.trans
      (Component.component?_of_mem_places hb)
    rw [Option.some.inj hname] at hlt
    exact String.lt_irrefl _ hlt

omit h in
/-- None of these places is a generated one. -/
theorem component?_places :
    ∀ place ∈ resolved.flatMap fun entry => entry.1.places entry.2,
      place.component?.isSome := by
  intro place hplace
  obtain ⟨entry, -, hplace⟩ := List.mem_flatMap.1 hplace
  rw [Component.component?_of_mem_places hplace]
  rfl

include hdescribed

/-- The places of the functions that are not generated can be read back from
their locations. -/
theorem readable_places :
    ∀ place ∈ resolved.flatMap fun entry => entry.1.places entry.2,
      place.Readable := by
  have hslash : ∀ component ∈ components, '/' ∉ component.name.toList :=
    fun component hmem => Name.notMem_of_isValid
      (h.registrable.valid component hmem).name (by decide)
  intro place hplace
  obtain ⟨entry, hentry, hplace⟩ := List.mem_flatMap.1 hplace
  obtain ⟨bases, hmembers, hmem, hsub, -⟩ := h.resolution.lineage hentry
  have hmethod : ∀ component ∈ components, ∀ method ∈ component.methods,
      '/' ∉ method.name.toList := fun component hmem method hmethod =>
    Name.notMem_of_isValid
      ((h.registrable.valid component hmem).methods method hmethod) (by decide)
  rcases Component.mem_places.1 hplace with ⟨member, hmember, rfl⟩
    | ⟨-, rfl | rfl⟩
  · rw [hmembers] at hmember
    rcases Component.mem_membersAlong hmember with
      ⟨method, hdeclared, rfl⟩ | ⟨base, hbase, method, hdeclared, names, rfl⟩
    · exact ⟨hslash _ hmem, hmethod _ hmem method hdeclared,
        fun ancestor ha => (nomatch ha)⟩
    · refine ⟨hslash _ hmem, hmethod base (hsub hbase) method hdeclared,
        fun ancestor ha => ?_⟩
      cases ha
      refine ⟨hslash base (hsub hbase), ?_⟩
      -- an ancestor named like the mark of private methods would be read as
      -- the mark
      obtain ⟨declared, hname⟩ := (hdescribed base (hsub hbase)).name
      rw [hname]
      exact Name.snakeCase_ne_private declared
  · exact hslash _ hmem
  · exact hslash _ hmem

/-- The functions that a build writes are at the places of its components
and at the generated ones, each once. -/
theorem perm_locations :
    (project.outcome resolved).written.below.locations.Perm
      (((resolved.flatMap fun entry => entry.1.places entry.2)
        ++ (List.range (project.outcome resolved).written.functions).map
          FunctionPlace.generated).map
          (FunctionPlace.location project.space)) := by
  have hnames := (Plan.assembled_components resolved).names _ h.result
  have hfixed :
      (resolved.flatMap fun entry => Plan.fixedLocations entry.1 entry.2)
      = (resolved.flatMap fun entry => entry.1.places entry.2).map
          (FunctionPlace.location project.space) := by
    rw [List.map_flatMap]
    refine List.flatMap_congr fun entry hentry => ?_
    obtain ⟨bases, hmembers, hmem, -, -⟩ := h.resolution.lineage hentry
    rw [← (hdescribed _ hmem).space, hmembers, Component.map_location_places]
  unfold Plan.Names at hnames
  rw [hfixed] at hnames
  rw [List.map_append, FunctionPlace.map_location_generated]
  exact hnames

end

/-- What a build writes is well built. -/
theorem wellBuilt (h : project.Built components resolved pack) :
    (project.outcome resolved).written.below.WellBuilt project.space
      (CallTable.ofComponents resolved) (Plan.hookTags resolved) :=
  (Plan.assembled_components resolved).wellBuilt _ h.result

/-- The functions of a pack are at the locations that were written, in the
same order. -/
theorem map_location_functions (h : project.Built components resolved pack) :
    pack.functions.map PackFunction.location
      = (project.outcome resolved).written.below.locations := by
  have hsheet : ∀ sheet ∈ (project.outcome resolved).written.below.sheets,
      sheet.artifact?.map PackFunction.location = sheet.location := by
    intro sheet hsheet
    obtain ⟨component, hsound⟩ := h.wellBuilt.sound sheet hsheet
    cases hlocation : sheet.location with
    | none => simp [Sheet.artifact?, Draft.artifact?, Sheet.draft, hlocation]
    | some location =>
        rw [Sheet.artifact?_eq
          (hsound.finished (by rw [hlocation]; rfl)) hlocation]
        rfl
  rw [h.pack]
  show (List.filterMap Sheet.artifact? _).map PackFunction.location
    = List.filterMap _ _
  rw [List.map_filterMap]
  exact List.filterMap_congr hsheet

end Project.Built

-- =========================================================== distinctness

/-- The location is one of those that generated functions have. -/
def Location.isGenerated (space location : String) : Bool :=
  (FunctionPlace.generatedText space).isPrefixOf location.toList

/-- The location of a place tells whether the place is a generated one. -/
theorem FunctionPlace.isGenerated_location {space : String}
    (hspace : '\x7b' ∉ space.toList) (place : FunctionPlace) :
    Location.isGenerated space (place.location space)
      = place.component?.isNone := by
  have hiff := FunctionPlace.generated_prefix_iff hspace place
  unfold Location.isGenerated
  rw [Bool.eq_iff_iff, List.isPrefixOf_iff_prefix, hiff]
  cases place <;> simp [FunctionPlace.component?]

/-- Fixed places and generated ones, all of which can be read back, have
different locations, and only the generated ones look generated. -/
theorem FunctionPlace.locations_distinct {space : String}
    (hspace : '\x7b' ∉ space.toList) {fixed : List FunctionPlace}
    (hnodup : fixed.Nodup) (hreadable : ∀ place ∈ fixed, place.Readable)
    (hfixed : ∀ place ∈ fixed, place.component?.isSome) (k : Nat) :
    ((fixed ++ (List.range k).map FunctionPlace.generated).map
      (FunctionPlace.location space)).Nodup
      ∧ ((fixed ++ (List.range k).map FunctionPlace.generated).map
            (FunctionPlace.location space)).filter (Location.isGenerated space)
        = (NameStream.ofTemplate (Location.functionTemplate space)).take k := by
  have hgenerated : ∀ place ∈ (List.range k).map FunctionPlace.generated,
      place.Readable ∧ place.component? = none := by
    intro place hplace
    obtain ⟨n, -, rfl⟩ := List.mem_map.1 hplace
    exact ⟨trivial, rfl⟩
  constructor
  · have hall :
        (fixed ++ (List.range k).map FunctionPlace.generated).Nodup := by
      refine List.nodup_append.2 ⟨hnodup, ?_, fun a ha b hb heq => ?_⟩
      · exact List.nodup_range.map_on
          fun a _ b _ heq => FunctionPlace.generated.inj heq
      · have hsome := hfixed a ha
        rw [heq, (hgenerated b hb).2] at hsome
        cases hsome
    have hread : ∀ place ∈ fixed ++ (List.range k).map FunctionPlace.generated,
        place.Readable :=
      fun place hplace => (List.mem_append.1 hplace).elim (hreadable place)
        fun h => (hgenerated place h).1
    exact hall.map_on fun a ha b hb heq =>
      FunctionPlace.location_injective hspace (hread a ha) (hread b hb) heq
  · rw [List.filter_map, List.filter_append]
    -- of all places, exactly the generated ones pass the filter
    have hnone : fixed.filter
        (Location.isGenerated space ∘ FunctionPlace.location space) = [] := by
      refine List.filter_eq_nil_iff.2 fun place hplace => ?_
      rw [Function.comp_apply, FunctionPlace.isGenerated_location hspace]
      have hsome := hfixed place hplace
      cases hcomponent : place.component? with
      | none =>
          rw [hcomponent] at hsome
          cases hsome
      | some component => simp
    have hkept : ((List.range k).map FunctionPlace.generated).filter
        (Location.isGenerated space ∘ FunctionPlace.location space)
        = (List.range k).map FunctionPlace.generated := by
      refine List.filter_eq_self.2 fun place hplace => ?_
      rw [Function.comp_apply, FunctionPlace.isGenerated_location hspace,
        (hgenerated place hplace).2]
      rfl
    rw [hnone, hkept, List.nil_append, FunctionPlace.map_location_generated]

/-- The functions that were written have different locations, and those that
look generated are at the names that were taken. -/
theorem Project.Built.locations_distinct {project : Project}
    {components : List Component} {resolved : List (Component × List Member)}
    {pack : Pack} (h : project.Built components resolved pack)
    (hdescribed : ∀ component ∈ components, component.Described project.space) :
    (project.outcome resolved).written.below.locations.Nodup
      ∧ ((project.outcome resolved).written.below.locations.filter
            (Location.isGenerated project.space)).Perm
          ((NameStream.ofTemplate
            (Location.functionTemplate project.space)).take
            (project.outcome resolved).written.functions) := by
  have hbrace : '\x7b' ∉ project.space.toList :=
    Name.notMem_of_isValidNamespace h.space (by decide)
  have hperm := h.perm_locations hdescribed
  obtain ⟨hnodup, hfilter⟩ :=
    FunctionPlace.locations_distinct hbrace h.nodup_places
      (h.readable_places hdescribed) component?_places
      (project.outcome resolved).written.functions
  refine ⟨hperm.nodup_iff.2 hnodup, ?_⟩
  rw [← hfilter]
  exact hperm.filter _

/-- No two functions of a pack share a location, and the generated ones are
at the first names of the stream, each of which occurs once. -/
theorem ProjectManifest.function_locations_distinct (manifest : ProjectManifest)
    (files : List (String × ComponentManifest)) {pack : Pack}
    (h : manifest.toProject.build (manifest.components files) = .ok pack) :
    (pack.functions.map PackFunction.location).Nodup
      ∧ ∃ k, ((pack.functions.map PackFunction.location).filter
            (Location.isGenerated manifest.space)).Perm
          ((NameStream.ofTemplate
            (Location.functionTemplate manifest.space)).take k) := by
  obtain ⟨resolved, hbuilt⟩ := built_of_build h
  obtain ⟨hnodup, hnames⟩ :=
    hbuilt.locations_distinct (manifest.described files)
  rw [hbuilt.map_location_functions]
  exact ⟨hnodup, _, hnames⟩

/-- The sample is built, so its functions are at different locations, and the
generated ones have the first names of their stream. -/
theorem ProjectManifest.sample_locations :
    ∃ pack, Sample.manifest.toProject.build
      (Sample.manifest.components Sample.files) = .ok pack
      ∧ (pack.functions.map PackFunction.location).Nodup
      ∧ ∃ k, ((pack.functions.map PackFunction.location).filter
            (Location.isGenerated "demo")).Perm
          ((NameStream.ofTemplate (Location.functionTemplate "demo")).take
            k) := by
  obtain ⟨pack, h⟩ := Sample.build
  exact ⟨pack, h, Sample.manifest.function_locations_distinct Sample.files h⟩

end Datapack
