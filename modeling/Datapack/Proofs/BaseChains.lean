/-
The search for the bases of a component ends, and it reports what is wrong
with their chain.

The search goes from a component to its base as long as it meets new names.
It is followed here without a bound: `Continues` is the step from one search
to the next, and `Climbs` is what a search comes to in the end.

# Why it ends

Each step meets a name for the first time, and all names but the first are
those of registered components. So the names that the search can still meet
become fewer with every step (`unmet_lt`), whatever is registered: cycles,
bases that are missing, and components under names that are not their own. The
bound that the search of the registry is given is never reached before a name
is met again (`lineageFrom_of_climbs`).

# What it reports

`nameAfter` follows the bases by their names alone and does not look back. A
chain of names ends, strays to a name that nobody has, or comes back to a name
that it passed. `Trail` says which, for the names that a search has met.
-/
import Mathlib.Data.Finset.Card
import Mathlib.Data.Finset.Insert
import Mathlib.Data.Finset.SDiff
import Mathlib.Order.WellFounded
import Datapack.Proofs.Inheritance

namespace Datapack.Registry

-- ==================================================== registered components

/-- A registry in which components were registered under their own names, one
after the other, and nothing else was. -/
inductive Built : Registry → Prop
  | empty : Built empty
  | register {registry next : Registry} {component : Component} :
      Built registry →
        registry.registerComponent component = .ok next → Built next

/-- A registry that was built by registering holds some list of components
that can be registered. -/
theorem Built.holds {registry : Registry} (h : registry.Built) :
    ∃ components, registry.Holds components ∧ Registrable components := by
  induction h with
  | empty => exact ⟨[], holds_empty, List.forall_mem_nil _, .nil⟩
  | @register registry next component _ hnext ih =>
      obtain ⟨earlier, hholds, hregistrable⟩ := ih
      rcases registrable_or_defect earlier component with ⟨hvalid, hfresh⟩
        | ⟨defect, hdefect⟩
      · rw [registerComponent_ok hholds hvalid hfresh] at hnext
        cases hnext
        exact ⟨_, hholds.add hfresh,
          registrable_append_singleton.2 ⟨hregistrable, hvalid, hfresh⟩⟩
      · rw [registerComponent_error hholds hdefect] at hnext
        cases hnext

/-- Components are found in their own namespace, under their own names. -/
theorem Built.found {registry : Registry} (h : registry.Built)
    {space name : String} {component : Component}
    (hfound : registry.component? space name = some component) :
    component.space = space ∧ component.name = name := by
  obtain ⟨components, hholds, -⟩ := h.holds
  exact ((hholds.found space name component).1 hfound).2

/-- Registering more components keeps a registry built. -/
theorem Built.registerAll {components : List Component}
    {registry next : Registry} (h : registry.Built)
    (hnext : registry.registerAll components = .ok next) : next.Built := by
  induction components generalizing registry with
  | nil =>
      cases hnext
      exact h
  | cons component rest ih =>
      rw [registerAll_cons] at hnext
      cases hfirst : registry.registerComponent component with
      | error defect =>
          rw [hfirst] at hnext
          cases hnext
      | ok between =>
          rw [hfirst] at hnext
          exact ih (h.register hfirst) hnext

-- ============================================================== the search

/-- A search goes on: its component has a name that was not walked, and a base
that is registered. A search is given by the names walked and the component
that it has come to. -/
def Continues (registry : Registry) (next search : List String × Component) :
    Prop :=
  search.2.name ∉ search.1 ∧ next.1 = search.1 ++ [search.2.name]
    ∧ ∃ base, search.2.base = some base
      ∧ registry.component? search.2.space base = some next.2

/-- The number of names that a search can still meet. -/
def unmet (registry : Registry) (search : List String × Component) : Nat :=
  (insert search.2.name (registry.allComponents.map Component.name).toFinset
    \ search.1.toFinset).card

/-- One step up the bases leaves fewer names to be met. -/
private theorem unmet_lt {registry : Registry}
    {next search : List String × Component}
    (h : registry.Continues next search) :
    registry.unmet next < registry.unmet search := by
  obtain ⟨hnew, hwalked, base, -, hbase⟩ := h
  have hknown :
      next.2.name ∈ (registry.allComponents.map Component.name).toFinset :=
    List.mem_toFinset.2 (List.mem_map_of_mem (mem_allComponents hbase))
  unfold unmet
  rw [Finset.insert_eq_of_mem hknown, hwalked, List.toFinset_append]
  -- the name that was just walked is missing on the left
  refine Finset.card_lt_card
    (Finset.ssubset_iff_of_subset ?_ |>.2 ⟨search.2.name, ?_, ?_⟩)
  · exact Finset.sdiff_subset_sdiff (Finset.subset_insert _ _)
      Finset.subset_union_left
  · simpa using hnew
  · simp

/-- No search goes on forever, whatever is registered. -/
theorem continues_wellFounded (registry : Registry) :
    WellFounded registry.Continues :=
  Subrelation.wf (fun h => unmet_lt h)
    (InvImage.wf registry.unmet Nat.lt_wfRel.wf)

/-- What a search comes to: the component and its bases, or why their chain
does not end. -/
inductive Climbs (registry : Registry) :
    List String → Component → Except Defect (List Component) → Prop
  | again {walked : List String} {component : Component}
      (hmet : component.name ∈ walked) :
      Climbs registry walked component
        (.error (.inheritanceCycle (walked ++ [component.name])))
  | root {walked : List String} {component : Component}
      (hnew : component.name ∉ walked) (hbase : component.base = none) :
        Climbs registry walked component (.ok [component])
  | missing {walked : List String} {component : Component} {name : String}
      (hnew : component.name ∉ walked) (hbase : component.base = some name)
      (hnone : registry.component? component.space name = none) :
      Climbs registry walked component
        (.error (.unknownBase component.name name))
  | climb {walked : List String} {component base : Component} {name : String}
      {result : Except Defect (List Component)} (hnew : component.name ∉ walked)
      (hbase : component.base = some name)
      (hfound : registry.component? component.space name = some base)
      (h : Climbs registry (walked ++ [component.name]) base result) :
      Climbs registry walked component (result.map (component :: ·))

/-- Every search comes to an end. The induction is on the number of names
not met yet. -/
private theorem exists_climbs (registry : Registry)
    (search : List String × Component) :
    ∃ result, registry.Climbs search.1 search.2 result := by
  induction search using registry.continues_wellFounded.induction with
  | _ search ih =>
      by_cases hmet : search.2.name ∈ search.1
      · exact ⟨_, .again hmet⟩
      · cases hbase : search.2.base with
        | none => exact ⟨_, .root hmet hbase⟩
        | some name =>
            cases hfound : registry.component? search.2.space name with
            | none => exact ⟨_, .missing hmet hbase hfound⟩
            | some base =>
                obtain ⟨result, hresult⟩ :=
                  ih (search.1 ++ [search.2.name], base)
                    ⟨hmet, rfl, name, hbase, hfound⟩
                exact ⟨_, .climb hmet hbase hfound hresult⟩

/-- The search of the registry comes to the same, if its bound is enough for
the names that it can still meet. -/
theorem lineageFrom_of_climbs {registry : Registry} {walked : List String}
    {component : Component} {result : Except Defect (List Component)}
    (h : registry.Climbs walked component result) :
    ∀ {fuel : Nat},
      component.name ∉ walked →
        registry.unmet (walked, component) ≤ fuel + 1 →
          registry.lineageFrom fuel (walked ++ [component.name]) component
            = result := by
  induction h with
  | again hmet => exact fun hnew => absurd hmet hnew
  | root _ hbase => exact fun _ _ => registry.lineageFrom_root _ _ hbase
  | missing _ hbase hnone =>
      intro fuel _ _
      rw [lineageFrom, hbase]
      dsimp only
      rw [hnone]
  | @climb walked component base name result hnew hbase hfound hclimbs ih =>
      intro fuel _ henough
      have hless : registry.unmet (walked ++ [component.name], base)
          < registry.unmet (walked, component) :=
        unmet_lt ⟨hnew, rfl, name, hbase, hfound⟩
      rw [lineageFrom, hbase]
      dsimp only
      rw [hfound]
      dsimp only
      rw [List.contains_eq_mem]
      by_cases hmet : base.name ∈ walked ++ [component.name]
      · -- the next search stops at once
        obtain rfl : result
          = .error (.inheritanceCycle (walked ++ [component.name]
            ++ [base.name])) := by
          cases hclimbs with
          | again => rfl
          | root hfresh => exact absurd hmet hfresh
          | missing hfresh => exact absurd hmet hfresh
          | climb hfresh => exact absurd hmet hfresh
        simp only [hmet, decide_true]
        rfl
      · have hleft : 0 < registry.unmet (walked ++ [component.name], base) :=
          Finset.card_pos.2
            ⟨base.name,
              Finset.mem_sdiff.2 ⟨Finset.mem_insert_self _ _,
                fun hmem => hmet (List.mem_toFinset.1 hmem)⟩⟩
        obtain ⟨rest, rfl⟩ : ∃ rest, fuel = rest + 1 := ⟨fuel - 1, by omega⟩
        simp only [hmet, decide_false]
        rw [ih hmet (by omega)]
        cases result <;> rfl

/-- The lineage is what a search from the component itself comes to. -/
theorem lineage_of_climbs {registry : Registry} {component : Component}
    {result : Except Defect (List Component)}
    (h : registry.Climbs [] component result) :
    registry.lineage component = result := by
  refine lineageFrom_of_climbs h List.not_mem_nil ?_
  unfold unmet
  calc (insert component.name
      (registry.allComponents.map Component.name).toFinset
          \ ([] : List String).toFinset).card
      ≤ (registry.allComponents.map Component.name).toFinset.card + 1 :=
        (Finset.card_le_card Finset.sdiff_subset).trans
          (Finset.card_insert_le _ _)
    _ ≤ registry.allComponents.length + 1 := by
        have hle :=
          List.toFinset_card_le (registry.allComponents.map Component.name)
        rw [List.length_map] at hle
        omega

/-- What the registry finds is what the search without a bound comes to. -/
theorem climbs_iff {registry : Registry} {component : Component}
    {result : Except Defect (List Component)} :
    registry.Climbs [] component result
      ↔ result = registry.lineage component := by
  refine ⟨fun h => (lineage_of_climbs h).symm, ?_⟩
  rintro rfl
  obtain ⟨result, hresult⟩ := registry.exists_climbs ([], component)
  rw [lineage_of_climbs hresult]
  exact hresult

-- ======================================================= names along bases

/-- The name that a number of steps from base to base lead to. -/
def nameAfter (registry : Registry) (space name : String) : Nat → Option String
  | 0 => some name
  | steps + 1 => do
    let last ← registry.nameAfter space name steps
    let component ← registry.component? space last
    component.base

/-- The bases lead to a name for the second time. -/
def Returns (registry : Registry) (space name : String) : Prop :=
  ∃ earlier later met,
    earlier < later ∧ registry.nameAfter space name earlier = some met
    ∧ registry.nameAfter space name later = some met

/-- The bases lead to a name under which no component is registered. -/
def Strays (registry : Registry) (space name : String) : Prop :=
  ∃ steps last, registry.nameAfter space name steps = some last
    ∧ registry.component? space last = none

section

variable {registry : Registry} {space name : String}

/-- The name after one step more is the base of the component found there. -/
private theorem nameAfter_succ {steps : Nat} {last : String}
    {component : Component}
    (h : registry.nameAfter space name steps = some last)
    (hfound : registry.component? space last = some component) :
    registry.nameAfter space name (steps + 1) = component.base := by
  rw [nameAfter, h]
  show (registry.component? space last).bind Component.base = _
  rw [hfound]
  rfl

/-- Where no component is found there is no name after it. -/
private theorem nameAfter_succ_of_none {steps : Nat} {last : String}
    (h : registry.nameAfter space name steps = some last)
    (hfound : registry.component? space last = none) :
    registry.nameAfter space name (steps + 1) = none := by
  rw [nameAfter, h]
  show (registry.component? space last).bind Component.base = _
  rw [hfound]
  rfl

/-- Bases that do not lead on do not lead further. -/
theorem nameAfter_none {steps later : Nat}
    (h : registry.nameAfter space name steps = none) (hle : steps ≤ later) :
    registry.nameAfter space name later = none := by
  induction hle with
  | refl => exact h
  | step _ ih =>
      rw [nameAfter, ih]
      rfl

end

/-- The names that the bases lead to first: they are different, and each of
them is registered. -/
structure Trail (registry : Registry) (space name : String)
    (names : List String) : Prop where
  nodup : names.Nodup
  along : ∀ steps,
    steps < names.length → registry.nameAfter space name steps = names[steps]?
  known : ∀ met ∈ names,
    ∃ component, registry.component? space met = some component

namespace Trail

variable {registry : Registry} {space name : String} {names : List String}
  (h : registry.Trail space name names)

include h

/-- A name that was met was met after some number of steps. -/
private theorem index_of_mem {met : String} (hmet : met ∈ names) :
    ∃ steps < names.length, registry.nameAfter space name steps = some met := by
  obtain ⟨steps, hsteps, hget⟩ := List.getElem_of_mem hmet
  exact ⟨steps,
    hsteps, by rw [h.along steps hsteps, List.getElem?_eq_getElem hsteps, hget]⟩

/-- The names after fewer steps than the trail is long were met. -/
private theorem mem_of_nameAfter {steps : Nat} {met : String}
    (hsteps : steps < names.length)
    (hmet : registry.nameAfter space name steps = some met) : met ∈ names := by
  rw [h.along steps hsteps] at hmet
  exact List.mem_of_getElem? hmet

/-- No name is met twice along a trail. -/
private theorem not_returns_within {earlier later : Nat} {met : String}
    (hlt : earlier < later) (hlater : later < names.length)
    (hfirst : registry.nameAfter space name earlier = some met)
    (hsecond : registry.nameAfter space name later = some met) : False := by
  rw [h.along earlier (hlt.trans hlater)] at hfirst
  rw [h.along later hlater] at hsecond
  have hsame := (List.getElem?_inj hlater h.nodup).1 (hsecond.trans hfirst.symm)
  omega

/-- A further name that is new and registered. -/
theorem concat {next : String} {component : Component}
    (hnext : registry.nameAfter space name names.length = some next)
    (hnew : next ∉ names)
    (hfound : registry.component? space next = some component) :
    registry.Trail space name (names ++ [next]) := by
  refine ⟨List.nodup_append.2 ⟨h.nodup, List.nodup_singleton _, ?_⟩,
    fun steps hsteps => ?_, fun met hmet => ?_⟩
  · rintro a ha b hb rfl
    rw [List.mem_singleton.1 hb] at ha
    exact hnew ha
  · rw [List.length_append, List.length_singleton] at hsteps
    rcases Nat.lt_succ_iff_lt_or_eq.1 hsteps with hlt | rfl
    · rw [h.along steps hlt, List.getElem?_append_left hlt]
    · rw [hnext, List.getElem?_concat_length]
  · rcases List.mem_append.1 hmet with hmet | hmet
    · exact h.known met hmet
    · rw [List.mem_singleton.1 hmet]
      exact ⟨component, hfound⟩

-- ------------------------------------------------- what follows the names

/-- Where the bases lead nowhere after the names, there is nothing wrong with
them. -/
theorem ends (hend : registry.nameAfter space name names.length = none) :
    ¬registry.Returns space name ∧ ¬registry.Strays space name := by
  have hwithin : ∀ {steps : Nat} {met : String},
      registry.nameAfter space name steps = some met →
        steps < names.length := by
    intro steps met hmet
    by_contra hge
    rw [nameAfter_none hend (Nat.not_lt.1 hge)] at hmet
    cases hmet
  constructor
  · rintro ⟨earlier, later, met, hlt, hfirst, hsecond⟩
    exact h.not_returns_within hlt (hwithin hsecond) hfirst hsecond
  · rintro ⟨steps, last, hlast, hnone⟩
    obtain ⟨component, hfound⟩ :=
      h.known last (h.mem_of_nameAfter (hwithin hlast) hlast)
    rw [hnone] at hfound
    cases hfound

/-- A trail that ends at an unknown name strays, and never returns. -/
private theorem strays {last : String}
    (hlast : registry.nameAfter space name names.length = some last)
    (hnone : registry.component? space last = none) :
    ¬registry.Returns space name ∧ registry.Strays space name := by
  refine ⟨?_, names.length, last, hlast, hnone⟩
  rintro ⟨earlier, later, met, hlt, hfirst, hsecond⟩
  have hstop := nameAfter_succ_of_none hlast hnone
  have hle : later ≤ names.length := by
    by_contra hgt
    rw [nameAfter_none hstop (Nat.not_le.1 hgt)] at hsecond
    cases hsecond
  rcases Nat.lt_or_eq_of_le hle with hbefore | rfl
  · exact h.not_returns_within hlt hbefore hfirst hsecond
  · -- the name that nobody has is none of those before
    rw [hlast] at hsecond
    cases hsecond
    obtain ⟨component, hfound⟩ := h.known last (h.mem_of_nameAfter hlt hfirst)
    rw [hnone] at hfound
    cases hfound

/-- Names that come back to one of them go on among themselves. -/
theorem mem_of_return {last : String}
    (hlast : registry.nameAfter space name names.length = some last)
    (hmet : last ∈ names) (steps : Nat) :
    ∃ met ∈ names, registry.nameAfter space name steps = some met := by
  induction steps with
  | zero =>
      have hstart : registry.nameAfter space name 0 = some name := rfl
      exact ⟨name, h.mem_of_nameAfter (List.length_pos_of_mem hmet) hstart,
        hstart⟩
  | succ steps ih =>
      obtain ⟨met, hmem, hsteps⟩ := ih
      obtain ⟨component, hfound⟩ := h.known met hmem
      obtain ⟨index, hindex, hthere⟩ := h.index_of_mem hmem
      -- the step from the name is the one that the names took when they
      -- passed it
      have hnext : registry.nameAfter space name (steps + 1)
          = registry.nameAfter space name (index + 1) :=
        (nameAfter_succ hsteps hfound).trans (nameAfter_succ hthere hfound).symm
      rw [hnext]
      rcases Nat.lt_or_eq_of_le (Nat.succ_le_of_lt hindex) with hlt | heq
      · exact ⟨names[index + 1], List.getElem_mem hlt,
          by rw [h.along _ hlt, List.getElem?_eq_getElem hlt]⟩
      · rw [Nat.succ_eq_add_one] at heq
        rw [heq]
        exact ⟨last, hmet, hlast⟩

/-- A trail that ends at a name on it returns, and never strays. -/
private theorem returns {last : String}
    (hlast : registry.nameAfter space name names.length = some last)
    (hmet : last ∈ names) :
    registry.Returns space name ∧ ¬registry.Strays space name := by
  constructor
  · obtain ⟨earlier, hlt, hfirst⟩ := h.index_of_mem hmet
    exact ⟨earlier, names.length, last, hlt, hfirst, hlast⟩
  · rintro ⟨steps, other, hother, hnone⟩
    obtain ⟨met, hmem, hsteps⟩ := h.mem_of_return hlast hmet steps
    rw [hother] at hsteps
    cases hsteps
    obtain ⟨component, hfound⟩ := h.known other hmem
    rw [hnone] at hfound
    cases hfound

end Trail

-- ========================================================== what is found

/-- What a search reports, and where the bases lead after the names that it
has met. -/
inductive Reports (registry : Registry) (space name : String) :
    Except Defect (List Component) → Prop
  | ends {names : List String} {lineage : List Component}
      (htrail : registry.Trail space name names)
      (hend : registry.nameAfter space name names.length = none) :
      Reports registry space name (.ok lineage)
  | strays {names : List String} {last missing : String}
      (htrail : registry.Trail space name names)
      (hlast : registry.nameAfter space name names.length = some missing)
      (hnone : registry.component? space missing = none) :
      Reports registry space name (.error (.unknownBase last missing))
  | returns {names : List String} {last : String}
      (htrail : registry.Trail space name names)
      (hlast : registry.nameAfter space name names.length = some last)
      (hmet : last ∈ names) :
      Reports registry space name (.error (.inheritanceCycle (names ++ [last])))

private theorem Reports.map {registry : Registry} {space name : String}
    {result : Except Defect (List Component)}
    (h : registry.Reports space name result)
    (f : List Component → List Component) :
    registry.Reports space name (result.map f) := by
  cases h with
  | ends htrail hend => exact .ends htrail hend
  | strays htrail hlast hnone => exact .strays htrail hlast hnone
  | returns htrail hlast hmet => exact .returns htrail hlast hmet

/-- A search that has met the names of a trail goes on with the next. -/
theorem Climbs.reports {registry : Registry} (hbuilt : registry.Built)
    {space name : String} {walked : List String} {component : Component}
    {result : Except Defect (List Component)}
    (h : registry.Climbs walked component result)
    (htrail : registry.Trail space name walked)
    (hnext : registry.nameAfter space name walked.length = some component.name)
    (hfound : registry.component? space component.name = some component) :
    registry.Reports space name result := by
  have hspace := (hbuilt.found hfound).1
  induction h with
  | again hmet => exact .returns htrail hnext hmet
  | root hnew hbase =>
      refine .ends (htrail.concat hnext hnew hfound) ?_
      rw [List.length_append, List.length_singleton,
        nameAfter_succ hnext hfound, hbase]
  | missing hnew hbase hnone =>
      rw [hspace] at hnone
      refine .strays (htrail.concat hnext hnew hfound) ?_ hnone
      rw [List.length_append, List.length_singleton,
        nameAfter_succ hnext hfound, hbase]
  | @climb walked component base baseName result hnew hbase hbaseFound _ ih =>
      rw [hspace] at hbaseFound
      obtain ⟨hbaseSpace, rfl⟩ := hbuilt.found hbaseFound
      refine
        (ih (htrail.concat hnext hnew hfound) ?_ hbaseFound hbaseSpace).map _
      rw [List.length_append, List.length_singleton,
        nameAfter_succ hnext hfound, hbase]

/-- The lineage of a registered component reports what becomes of its chain
of bases. -/
private theorem Built.reports {registry : Registry} (h : registry.Built)
    {space name : String} {component : Component}
    (hfound : registry.component? space name = some component) :
    registry.Reports space name (registry.lineage component) := by
  obtain ⟨-, rfl⟩ := h.found hfound
  exact (climbs_iff.2 rfl).reports h
    ⟨.nil, fun _ hlt => absurd hlt (Nat.not_lt_zero _), List.forall_mem_nil _⟩
    rfl hfound

/-- The search for the bases of a component ends, whatever is registered, and
the methods are resolved from what it comes to. In a registry of components,
they are resolved exactly if the bases neither come back to a name nor stray.
If they come back, that is the error, and its message lists the names from the
component on, up to the first that was met before. If they stray, that is the
error. They never do both. -/
theorem resolution_reports_bases (registry : Registry) :
    (WellFounded registry.Continues
      ∧ ∀ component,
        ∃ result, (∀ other, registry.Climbs [] component other ↔ other = result)
        ∧ registry.members component = result.map component.membersAlong)
    ∧ (registry.Built → ∀ space name component,
        registry.component? space name = some component →
        ((∃ defect, registry.members component = .error defect
            ∧ defect.code = "INHERITANCE_CYCLE") ↔ registry.Returns space name)
        ∧ ((∃ defect, registry.members component = .error defect
            ∧ defect.code = "BASE_COMPONENT_NOT_FOUND")
            ↔ registry.Strays space name)
        ∧ ((∃ members, registry.members component = .ok members)
            ↔ ¬registry.Returns space name ∧ ¬registry.Strays space name)
        ∧ ¬(registry.Returns space name ∧ registry.Strays space name)
        ∧ ∀ defect, registry.members component = .error defect →
            defect.code = "INHERITANCE_CYCLE" → ∃ names last,
              defect.message = "INHERITANCE_CYCLE: Inheritance cycle detected: "
                ++ " -> ".intercalate (names ++ [last])
              ∧ names.Nodup ∧ last ∈ names
              ∧ ∀ steps ≤ names.length,
                registry.nameAfter space name steps
                  = (names ++ [last])[steps]?) := by
  refine ⟨⟨registry.continues_wellFounded, fun component =>
    ⟨registry.lineage component, fun _ => climbs_iff,
      registry.members_eq component⟩⟩,
    fun hbuilt space name component hfound => ?_⟩
  have hreports := hbuilt.reports hfound
  rw [registry.members_eq component]
  generalize registry.lineage component = result at hreports ⊢
  -- the three ends of a chain exclude each other, so each code tells its own
  cases hreports with
  | ends htrail hend =>
      obtain ⟨hreturns, hstrays⟩ := htrail.ends hend
      simp [Except.map, hreturns, hstrays]
  | strays htrail hlast hnone =>
      obtain ⟨hreturns, hstrays⟩ := htrail.strays hlast hnone
      simp [Except.map, hreturns, hstrays, Defect.code]
  | @returns names last htrail hlast hmet =>
      obtain ⟨hreturns, hstrays⟩ := htrail.returns hlast hmet
      simp only [Except.map, Except.error.injEq, hreturns, hstrays, Defect.code]
      refine ⟨by simp, by simp, by simp, by simp, ?_⟩
      rintro defect rfl -
      refine ⟨names, last, rfl, htrail.nodup, hmet, fun steps hsteps => ?_⟩
      rcases Nat.lt_or_eq_of_le hsteps with hlt | rfl
      · rw [htrail.along steps hlt, List.getElem?_append_left hlt]
      · rw [hlast, List.getElem?_concat_length]

namespace Spiral

/-- A component whose base is in a cycle that the component is not in. -/
def inward : Component := { space := "k", name := "c", base := some "a" }

def components : List Component :=
  [{ space := "k", name := "a", base := some "b" },
    { space := "k", name := "b", base := some "a" }, inward]

private theorem registrable : Registrable components where
  valid component hcomponent := by
    simp only [components, List.mem_cons, List.not_mem_nil,
      or_false] at hcomponent
    rcases hcomponent with rfl | rfl | rfl <;>
      exact ⟨by decide +kernel, by decide +kernel, List.forall_mem_nil _, .nil⟩
  distinct := by decide +kernel

end Spiral

/-- The bases come back to a name, but not to the one they started from. -/
theorem spiral_reported :
    ∃ registry, empty.registerAll Spiral.components = .ok registry
    ∧ registry.Returns "k" "c"
    ∧ ∃ defect, registry.members Spiral.inward = .error defect
      ∧ defect.code = "INHERITANCE_CYCLE" := by
  obtain ⟨registry, hok, hholds⟩ := registerAll_ok Spiral.registrable
  have hfound : ∀ component ∈ Spiral.components, component.space = "k" →
      registry.component? "k" component.name = some component :=
    fun component hcomponent hspace =>
      (hholds.found _ _ _).2 ⟨hcomponent, hspace, rfl⟩
  have hinward := hfound Spiral.inward (by simp [Spiral.components]) rfl
  have hreturns : registry.Returns "k" "c" := by
    have hfirst : registry.nameAfter "k" "c" 1 = some "a" :=
      nameAfter_succ rfl hinward
    have hsecond : registry.nameAfter "k" "c" 2 = some "b" :=
      nameAfter_succ hfirst (hfound _ List.mem_cons_self rfl)
    have hthird : registry.nameAfter "k" "c" 3 = some "a" :=
      nameAfter_succ hsecond
        (hfound _ (List.mem_cons_of_mem _ List.mem_cons_self) rfl)
    exact ⟨1, 3, "a", by decide, hfirst, hthird⟩
  obtain ⟨hcycle, -⟩ :=
    (resolution_reports_bases registry).2 (.registerAll .empty hok) "k" "c"
      Spiral.inward hinward
  exact ⟨registry, hok, hreturns, hcycle.2 hreturns⟩

example : ((empty.registerAll Spiral.components).toOption.map fun registry =>
    match registry.members Spiral.inward with
    | .ok _ => ""
    | .error defect => defect.sentence)
      = some "Inheritance cycle detected: c -> a -> b -> a" := by
  decide +kernel

end Datapack.Registry
