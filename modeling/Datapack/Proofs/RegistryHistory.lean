/-
The registry over the calls made of it.

There are three calls. One registers a definition under a name, one
registers a component under its own name, and one forgets everything. The
first two share their tables, but they check different things before they
write to them.

A `History` is a registry together with its record, the calls that have
registered something since the registry was last cleared. One call does one
of three things (`Call.effect_step`). It is refused and changes nothing, it
clears the registry, or it stores one definition at a place that was free.
A run of calls therefore keeps the record in step with the registry
(`History.Kept`): the places in the record are all different, and a place
has the definition of the call that is recorded for it. Everything that
`History.Faithful` says of a registry is read off the record.
-/
import Datapack.Proofs.Registration

namespace Datapack

-- ================================================================= tables

/-- A table is empty if nothing is found in it. -/
private theorem Table.isEmpty_iff {α : Type} {table : Table α} :
    table.isEmpty = true ↔ ∀ name, table.get? name = none := by
  unfold Table.isEmpty
  rw [List.isEmpty_iff]
  constructor
  · intro hentries name
    unfold Table.get?
    rw [hentries]
    rfl
  · intro hnone
    apply List.eq_nil_iff_forall_not_mem.2
    intro entry hentry
    have hsome := Table.mem_entries_iff.1 hentry
    rw [hnone] at hsome
    cases hsome

/-- The tables of a namespace are listed by their kinds. -/
private theorem Holdings.mem_toList_iff {holdings : Holdings}
    {kind : ResourceKind} {table : Table Definition} :
    (kind, table) ∈ holdings.toList ↔ holdings.get? kind = some table := by
  unfold Holdings.toList
  cases kind <;> simp

namespace Registry

-- ================================================================= places

/-- A name of a kind in a namespace. -/
@[ext] structure Place where
  space : String
  kind : ResourceKind
  name : String
deriving DecidableEq

/-- The definition at a place. -/
def definition? (registry : Registry) (place : Place) : Option Definition :=
  ((registry.holdings place.space).get place.kind).get? place.name

private theorem definition?_empty (place : Place) :
    empty.definition? place = none := by
  obtain ⟨space, kind, name⟩ := place
  cases kind <;> rfl

/-- Putting a definition at a place changes that place only. -/
private theorem definition?_put (registry : Registry) (place : Place)
    (definition : Definition) (other : Place) :
    (registry.put place.space place.kind place.name definition).definition?
      other
      = if other = place then some definition
        else registry.definition? other := by
  unfold definition?
  rw [get?_put]
  by_cases h : other = place
  · rw [if_pos h, h, if_pos ⟨rfl, rfl, rfl⟩]
  · rw [if_neg h, if_neg]
    intro hsame
    apply h
    exact Place.ext hsame.1 hsame.2.1 hsame.2.2

private theorem contains_eq_isSome (registry : Registry) (place : Place) :
    ((registry.holdings place.space).get place.kind).contains place.name
      = (registry.definition? place).isSome :=
  Table.contains_eq ..

/-- The definition at a place stands in the table of its namespace and
kind. -/
theorem definition?_of_tables {registry : Registry} {space : String}
    {kind : ResourceKind} {holdings : Holdings} {table : Table Definition}
    (hholdings : registry.spaces.get? space = some holdings)
    (htable : holdings.get? kind = some table) (name : String) :
    registry.definition? ⟨space, kind, name⟩ = table.get? name := by
  unfold definition? Registry.holdings Holdings.get
  dsimp only
  rw [hholdings, Option.getD_some, htable, Option.getD_some]

/-- A registry is empty if there is nothing at any place. -/
theorem isEmpty_iff (registry : Registry) :
    registry.isEmpty = true ↔ ∀ place, registry.definition? place = none := by
  unfold isEmpty
  simp only [List.all_eq_true]
  constructor
  · -- nothing is found where there is no namespace, no table or no name
    rintro hall ⟨space, kind, name⟩
    cases hspace : registry.spaces.get? space with
    | none =>
        unfold definition? holdings
        dsimp only
        rw [hspace]
        cases kind <;> rfl
    | some holdings =>
        cases htable : holdings.get? kind with
        | none =>
            unfold definition? Registry.holdings Holdings.get
            dsimp only
            rw [hspace, Option.getD_some, htable]
            rfl
        | some table =>
            rw [definition?_of_tables hspace htable]
            exact Table.isEmpty_iff.1
              (hall holdings (Table.mem_values_of_get? hspace) (kind, table)
                (Holdings.mem_toList_iff.2 htable)) name
  · rintro hnone holdings hholdings ⟨kind, table⟩ htable
    obtain ⟨space, hspace⟩ := Table.mem_values_iff.1 hholdings
    apply Table.isEmpty_iff.2
    intro name
    rw [← definition?_of_tables hspace (Holdings.mem_toList_iff.1 htable)]
    exact hnone ⟨space, kind, name⟩

-- ================================================================== calls

/-- What can be asked of a registry. -/
inductive Call where
  | register (space : String) (kind : ResourceKind) (name : String)
      (definition : Definition)
  | registerComponent (component : Component)
  | clear

namespace Call

/-- What is done when it is asked for. -/
def step : Call → Step Unit
  | register space kind name definition =>
      Step.register space kind name definition
  | registerComponent component => Step.registerComponent component
  | clear => modify Registry.clear

/-- The place that is asked for. -/
def place? : Call → Option Place
  | register space kind name _ => some ⟨space, kind, name⟩
  | registerComponent component =>
      some ⟨component.space, .component, component.name⟩
  | clear => none

/-- The definition that shall stand there. -/
def definition? : Call → Option Definition
  | register _ _ _ definition => some definition
  | registerComponent component => some (.component component)
  | clear => none

/-- The component that shall stand there. -/
def component? (call : Call) : Option Component :=
  call.definition?.bind Definition.component?

/-- The call is right in itself, whatever is registered. -/
def Proper : Call → Prop
  | register _ kind _ definition => definition.kind = kind
  | registerComponent component => component.Valid
  | clear => True

/-- What a call comes to. -/
inductive Effect (registry : Registry) (call : Call) :
    EStateM.Result Defect Registry Unit → Prop
  | refused (defect : Defect) :
      (call.Proper →
        ∃ place, call.place? = some place ∧ registry.definition? place ≠ none) →
      Effect registry call (.error defect registry)
  | cleared : call = .clear → Effect registry call (.ok () empty)
  | stored {place : Place} {definition : Definition} : call.Proper →
      call.place? = some place → call.definition? = some definition →
      registry.definition? place = none →
      Effect registry call
        (.ok () (registry.put place.space place.kind place.name definition))

/-- A proper call for a place stores its definition there, unless the place
is taken. -/
theorem effect_register {registry : Registry} {call : Call} {place : Place}
    {definition : Definition} (hproper : call.Proper)
    (hplace : call.place? = some place)
    (hdefinition : call.definition? = some definition)
    (hkind : definition.kind = place.kind) :
    Effect registry call
      (Step.register place.space place.kind place.name definition
        registry) := by
  have hcontains := registry.contains_eq_isSome place
  cases hfound : registry.definition? place with
  | some other =>
      rw [hfound] at hcontains
      rw [Step.register_taken hkind hcontains]
      refine .refused _ fun _ => ⟨place, hplace, ?_⟩
      rw [hfound]
      exact Option.some_ne_none other
  | none =>
      rw [hfound] at hcontains
      rw [Step.register_free hkind hcontains]
      exact .stored hproper hplace hdefinition hfound

/-- What a call does to a registry is one of its effects. -/
private theorem effect_step (call : Call) (registry : Registry) :
    Effect registry call (call.step registry) := by
  cases call with
  | register space kind name definition =>
      by_cases hkind : definition.kind = kind
      · exact @effect_register registry (.register space kind name definition)
          ⟨space, kind, name⟩ definition hkind rfl rfl hkind
      · show Effect _ _ (Step.register space kind name definition registry)
        rw [Step.register_mismatch hkind]
        exact .refused _ fun hproper => absurd hproper hkind
  | registerComponent component =>
      show Effect _ _ (Step.registerComponent component registry)
      rcases validate_cases component with ⟨hok, hvalid⟩ | ⟨defect, herror, -⟩
      · rw [Step.registerComponent_valid hok]
        exact @effect_register registry (.registerComponent component)
          ⟨component.space, .component, component.name⟩ (.component component)
          hvalid rfl rfl rfl
      · rw [Step.registerComponent_invalid herror]
        refine .refused _ fun hproper => ?_
        rw [validate_ok hproper] at herror
        cases herror
  | clear => exact .cleared rfl

/-- A proper call that is not for clearing asks for a place of the kind that
its definition has. -/
theorem Proper.exists_place {call : Call} (hproper : call.Proper)
    (hclear : call ≠ .clear) :
    ∃ place definition,
      call.place? = some place ∧ call.definition? = some definition
      ∧ definition.kind = place.kind := by
  cases call with
  | register space kind name definition => exact ⟨_, _, rfl, rfl, hproper⟩
  | registerComponent component => exact ⟨_, _, rfl, rfl, rfl⟩
  | clear => exact absurd rfl hclear

/-- The record after a call that succeeded. -/
def recorded (record : List Call) : Call → List Call
  | clear => []
  | call => record ++ [call]

/-- A call for a place goes to the end of the record. -/
private theorem recorded_of_place {call : Call} {place : Place}
    (h : call.place? = some place) (record : List Call) :
    recorded record call = record ++ [call] := by
  cases call with
  | register space kind name definition => rfl
  | registerComponent component => rfl
  | clear => cases h

end Call

-- ============================================================== histories

/-- A registry, and the calls that have registered something in it since it
was last cleared, the earliest first. -/
structure History where
  registry : Registry
  record : List Call

namespace History

def start : History := ⟨empty, []⟩

/-- A call goes on the record if it succeeds. The registry is what the call
leaves, and it leaves one even if it fails. -/
def next (history : History) (call : Call) : History :=
  match call.step history.registry with
  | .ok _ registry => ⟨registry, Call.recorded history.record call⟩
  | .error _ registry => ⟨registry, history.record⟩

/-- What there is after the calls, made one after the other. -/
def after (calls : List Call) : History := calls.foldl next start

/-- The first call on the record for a place. -/
def first? (history : History) (place : Place) : Option Call :=
  history.record.find? fun call => call.place? = some place

/-- The record accounts for the registry. -/
structure Kept (history : History) : Prop where
  proper : ∀ call ∈ history.record, call.Proper ∧ call ≠ .clear
  distinct : history.record.Pairwise fun a b => a.place? ≠ b.place?
  definitions : ∀ place,
    history.registry.definition? place
      = (history.first? place).bind Call.definition?

namespace Kept

variable {history : History}

/-- A definition has come from a proper call for its place. -/
theorem of_definition? (h : history.Kept) {place : Place}
    {definition : Definition}
    (hfound : history.registry.definition? place = some definition) :
    ∃ call ∈ history.record,
      call.place? = some place ∧ call.definition? = some definition := by
  rw [h.definitions, Option.bind_eq_some_iff] at hfound
  obtain ⟨call, hfirst, hdefinition⟩ := hfound
  have hplace := List.find?_some hfirst
  exact ⟨call, List.mem_of_find?_eq_some hfirst, of_decide_eq_true hplace,
    hdefinition⟩

/-- A call on the record is the only one for its place, and what it asked for
is there. -/
theorem definition?_of_mem (h : history.Kept) {call : Call}
    (hmem : call ∈ history.record) {place : Place}
    (hplace : call.place? = some place) :
    history.registry.definition? place = call.definition? := by
  obtain ⟨before, later, hsplit⟩ := List.append_of_mem hmem
  have hfirst : history.first? place = some call := by
    unfold first?
    rw [List.find?_eq_some_iff_append]
    refine ⟨decide_eq_true hplace, before, later, hsplit,
      fun earlier hearlier => ?_⟩
    have hdistinct := h.distinct
    rw [hsplit, List.pairwise_append] at hdistinct
    have hne := hdistinct.2.2 earlier hearlier call List.mem_cons_self
    rw [hplace] at hne
    rw [decide_eq_false hne]
    rfl
  rw [h.definitions, hfirst]
  rfl

/-- A place is free if no call on the record was for it. -/
theorem definition?_eq_none_iff (h : history.Kept) {place : Place} :
    history.registry.definition? place = none
      ↔ ∀ call ∈ history.record, call.place? ≠ some place := by
  constructor
  · intro hnone call hmem hplace
    obtain ⟨hproper, hclear⟩ := h.proper call hmem
    obtain ⟨_, definition, -, hdefinition, -⟩ := hproper.exists_place hclear
    rw [h.definition?_of_mem hmem hplace, hdefinition] at hnone
    cases hnone
  · intro hfree
    cases hfound : history.registry.definition? place with
    | none => rfl
    | some definition =>
        obtain ⟨call, hmem, hplace, -⟩ := h.of_definition? hfound
        exact absurd hplace (hfree call hmem)

private theorem start : Kept History.start where
  proper := List.forall_mem_nil _
  distinct := List.Pairwise.nil
  definitions := definition?_empty

/-- What is stored at a free place goes on the record as the last call. -/
theorem stored (h : history.Kept) {call : Call} {place : Place}
    {definition : Definition} (hproper : call.Proper)
    (hplace : call.place? = some place)
    (hdefinition : call.definition? = some definition)
    (hfree : history.registry.definition? place = none) :
    Kept ⟨history.registry.put place.space place.kind place.name definition,
      history.record ++ [call]⟩ where
  proper other hmem := by
    rcases List.mem_append.1 hmem with hmem | hmem
    · exact h.proper other hmem
    · rw [List.mem_singleton.1 hmem]
      refine ⟨hproper, fun hclear => ?_⟩
      rw [hclear] at hplace
      cases hplace
  distinct := by
    rw [List.pairwise_append]
    refine ⟨h.distinct, List.pairwise_singleton ..,
      fun earlier hearlier other hother => ?_⟩
    rw [List.mem_singleton.1 hother, hplace]
    exact h.definition?_eq_none_iff.1 hfree earlier hearlier
  definitions other := by
    rw [definition?_put]
    unfold first?
    rw [List.find?_append]
    -- the place was free, so the new call is the first that is on record for
    -- it
    by_cases hhere : other = place
    · have hnone : history.record.find? (fun call => call.place? = some other)
          = none := by
        rw [List.find?_eq_none]
        intro earlier hearlier
        rw [hhere, decide_eq_true_iff]
        exact h.definition?_eq_none_iff.1 hfree earlier hearlier
      rw [if_pos hhere, hnone, Option.none_or, List.find?_singleton, hhere,
        if_pos (decide_eq_true hplace), Option.bind_some, hdefinition]
    · have hother : ¬call.place? = some other := by
        rw [hplace]
        exact fun heq => hhere (Option.some.inj heq).symm
      rw [if_neg hhere, List.find?_singleton,
        if_neg (by simpa using hother), Option.or_none]
      exact h.definitions other

/-- A call keeps the record in step with the registry. -/
theorem next (h : history.Kept) (call : Call) : (history.next call).Kept := by
  have heffect := call.effect_step history.registry
  unfold History.next
  generalize call.step history.registry = result at heffect
  cases heffect with
  | refused defect hrefused => exact h
  | cleared hclear =>
      rw [hclear]
      exact Kept.start
  | stored hproper hplace hdefinition hfree =>
      dsimp only
      rw [Call.recorded_of_place hplace]
      exact h.stored hproper hplace hdefinition hfree

/-- After any calls the record accounts for the registry. -/
private theorem after (calls : List Call) : (History.after calls).Kept := by
  unfold History.after
  -- from any history that is kept, along the calls
  suffices hfrom : ∀ {history : History}, history.Kept →
      (calls.foldl History.next history).Kept from hfrom Kept.start
  induction calls with
  | nil => exact id
  | cons call rest ih => exact fun hkept => ih (hkept.next call)

end Kept

-- =========================================================== what is told

/-- The registry does what its callers are told. -/
structure Faithful (history : History) : Prop where
  /-- A call that fails leaves the registry that it found, and so the answer
  to every lookup. -/
  atomic : ∀ (call : Call) defect left,
    call.step history.registry = .error defect left → left = history.registry
  /-- A call succeeds if it is proper and nothing is recorded for its place. -/
  accepted : ∀ call : Call, (∃ next, call.step history.registry = .ok () next)
    ↔ call.Proper ∧ ∀ place, call.place? = some place →
        ∀ earlier ∈ history.record, earlier.place? ≠ some place
  /-- The component of a name is that of the first call recorded for it. -/
  component : ∀ space name, history.registry.component? space name
    = (history.first? ⟨space, .component, name⟩).bind Call.component?
  /-- What stands in the table of a kind is of that kind. -/
  kinds : ∀ space holdings kind table name definition,
    history.registry.spaces.get? space = some holdings →
      holdings.get? kind = some table →
        table.get? name = some definition → definition.kind = kind
  /-- The components of a namespace are listed by the names that they are
  registered under, each name once and in increasing order. -/
  components : ∀ space, ∃ entries : List (String × Component),
    history.registry.componentsOf space = entries.map Prod.snd
      ∧ entries.Pairwise (fun a b => a.1 < b.1)
      ∧ ∀ name component, (name, component) ∈ entries
          ↔ history.registry.component? space name = some component
  /-- The registry is empty if nothing is on record. -/
  isEmpty : history.registry.isEmpty = true ↔ history.record = []
  /-- A component that was registered as such is valid and stands under its
  own name. -/
  valid : ∀ component, Call.registerComponent component ∈ history.record →
    component.Valid
      ∧ history.registry.component? component.space component.name
        = some component

variable {history : History}

/-- A call is accepted if it is proper and no earlier call is on record for
its place. -/
private theorem Kept.accepted_iff (h : history.Kept) (call : Call) :
    (∃ next, call.step history.registry = .ok () next)
      ↔ call.Proper ∧ ∀ place, call.place? = some place →
        ∀ earlier ∈ history.record, earlier.place? ≠ some place := by
  have heffect := call.effect_step history.registry
  generalize call.step history.registry = result at heffect ⊢
  cases heffect with
  | refused defect hrefused =>
      constructor
      · rintro ⟨_, hok⟩
        cases hok
      · rintro ⟨hproper, hfree⟩
        obtain ⟨place, hplace, htaken⟩ := hrefused hproper
        exact absurd (h.definition?_eq_none_iff.2 (hfree place hplace)) htaken
  | cleared hclear =>
      rw [hclear]
      exact ⟨fun _ => ⟨trivial, fun _ hplace => nomatch hplace⟩,
        fun _ => ⟨_, rfl⟩⟩
  | stored hproper hplace hdefinition hfree =>
      refine ⟨fun _ => ⟨hproper, fun place hsame => ?_⟩, fun _ => ⟨_, rfl⟩⟩
      rw [hplace] at hsame
      cases hsame
      exact h.definition?_eq_none_iff.1 hfree

/-- A registry is empty if nothing is on record. -/
private theorem Kept.isEmpty_iff (h : history.Kept) :
    history.registry.isEmpty = true ↔ history.record = [] := by
  rw [Registry.isEmpty_iff, List.eq_nil_iff_forall_not_mem]
  constructor
  · intro hnone call hmem
    obtain ⟨hproper, hclear⟩ := h.proper call hmem
    obtain ⟨place, _, hplace, -, -⟩ := hproper.exists_place hclear
    exact h.definition?_eq_none_iff.1 (hnone place) call hmem hplace
  · intro hrecord place
    exact h.definition?_eq_none_iff.2
      fun call hmem => absurd hmem (hrecord call)

/-- A definition that is found is of the kind that it is found under. -/
private theorem Kept.kind_eq (h : history.Kept) {place : Place}
    {definition : Definition}
    (hfound : history.registry.definition? place = some definition) :
    definition.kind = place.kind := by
  obtain ⟨call, hmem, hplace, hdefinition⟩ := h.of_definition? hfound
  obtain ⟨hproper, hclear⟩ := h.proper call hmem
  obtain ⟨place', definition', hplace', hdefinition', hkind⟩ :=
    hproper.exists_place hclear
  cases hplace.symm.trans hplace'
  cases hdefinition.symm.trans hdefinition'
  exact hkind

/-- Whatever calls are made of a registry, and in whatever order, it does what
its callers are told. -/
theorem faithful_after (calls : List Call) : (after calls).Faithful := by
  have hkept := Kept.after calls
  generalize after calls = history at hkept
  refine ⟨fun call defect left hfail => ?_, hkept.accepted_iff,
    fun space name => ?_,
    fun space holdings kind table name definition hholdings htable hfound => ?_,
    fun space => ?_, hkept.isEmpty_iff, fun component hmem => ?_⟩
  · have heffect := call.effect_step history.registry
    rw [hfail] at heffect
    cases heffect
    rfl
  · show (history.registry.definition? ⟨space, .component, name⟩).bind _ = _
    rw [hkept.definitions, Option.bind_assoc]
    rfl
  · apply @Kept.kind_eq history hkept ⟨space, kind, name⟩ definition
    rw [definition?_of_tables hholdings htable]
    exact hfound
  · exact ⟨history.registry.componentEntries space,
      (map_componentEntries ..).symm, sorted_componentEntries ..,
      fun _ _ => mem_componentEntries_iff⟩
  · refine ⟨(hkept.proper _ hmem).1, ?_⟩
    show (history.registry.definition?
      ⟨component.space, .component, component.name⟩).bind _ = _
    rw [hkept.definition?_of_mem hmem rfl]
    rfl

-- A definition may stand under a name that is not its own. The name is then
-- taken for the component that has it.
example : (after [.registerComponent { space := "zoo", name := "cat" },
      .register "zoo" .method "cat"
        (.component { space := "zoo", name := "cat" }),
      .register "zoo" .component "dog"
        (.component { space := "zoo", name := "cat" }),
      .registerComponent { space := "zoo", name := "dog" }]).registry.lookup?
      "zoo"
    = some [(.component, ["cat", "dog"])] := by
  decide +kernel

end History

end Registry

end Datapack
