/-
When components can be registered, and what a registry holds then.

Registration goes through a list of components and stops at the first that
cannot be registered. `RegistrationDefect` says what is wrong with that
one: it is a relation on the components before it, not on the registry, and
its cases are in the order in which they are checked. A registry itself is
only looked at through `Registry.Holds`, which says that it finds exactly
the components that were registered.

Registering a component is a step on a registry, which puts a table in place
before it looks the name up. On success the table with the new name replaces
it (`setTable_setTable`), and what is left is `Registry.add`. If the name is
taken, the table was there already (`setTable_self`), and nothing has changed.
-/
import Datapack.Proofs.Tables
import Datapack.Registry

namespace Datapack

-- ============================================================= validation

/-- The names of the component can be registered, as far as the component
itself goes. -/
structure Component.Valid (component : Component) : Prop where
  space : Name.isValidNamespace component.space = true
  name : Name.isValid component.name = true
  methods : ∀ method ∈ component.methods, Name.isValid method.name = true
  distinct : (component.methods.map Method.name).Nodup

/-- What is wrong with a component itself. -/
inductive ValidationDefect (component : Component) : Defect → Prop
  | space : Name.isValidNamespace component.space = false →
      ValidationDefect component (.invalidNamespace component.space)
  | name : Name.isValidNamespace component.space = true →
      Name.isValid component.name = false →
      ValidationDefect component (.invalidComponentName component.name)
  /-- A method has no valid name, and the methods before it are fine. -/
  | methodName {before after : List Method} {method : Method} :
      Name.isValidNamespace component.space = true →
        Name.isValid component.name = true →
      component.methods = before ++ method :: after →
      (∀ earlier ∈ before, Name.isValid earlier.name = true) →
      (before.map Method.name).Nodup → Name.isValid method.name = false →
      ValidationDefect component (.invalidMethodName method.name component.name)
  /-- A method has the name of one before it, all of which are fine. -/
  | methodTaken {before after : List Method} {method : Method} :
      Name.isValidNamespace component.space = true →
        Name.isValid component.name = true →
      component.methods = before ++ method :: after →
      (∀ earlier ∈ before, Name.isValid earlier.name = true) →
      (before.map Method.name).Nodup → Name.isValid method.name = true →
      method.name ∈ before.map Method.name →
      ValidationDefect component
        (.duplicate component.space .method s!"{component.name}/{method.name}")

namespace Registry

/-- How the check of methods ends, after those with the names `seen`. -/
theorem validateMethods_cases (component : Component) :
    ∀ (seen : List String) (methods : List Method), seen.Nodup →
      (validateMethods component seen methods = .ok ()
        ∧ (∀ method ∈ methods, Name.isValid method.name = true)
        ∧ (seen ++ methods.map Method.name).Nodup)
      ∨ ∃ before method after, methods = before ++ method :: after
          ∧ (∀ earlier ∈ before, Name.isValid earlier.name = true)
          ∧ (seen ++ before.map Method.name).Nodup
          ∧ ((Name.isValid method.name = false
            ∧ validateMethods component seen methods
                = .error (.invalidMethodName method.name component.name))
            ∨ (Name.isValid method.name = true
              ∧ method.name ∈ seen ++ before.map Method.name
              ∧ validateMethods component seen methods
                = .error (.duplicate component.space .method
                    s!"{component.name}/{method.name}")))
  | seen, [], hseen => .inl ⟨rfl, fun _ h => (nomatch h), by simpa using hseen⟩
  | seen, method :: rest, hseen => by
      by_cases hvalid : Name.isValid method.name = true
      · by_cases htaken : method.name ∈ seen
        -- the name is in use already
        · refine .inr ⟨[], method, rest, rfl,
            fun _ h => (nomatch h), by simpa using hseen, .inr ?_⟩
          exact ⟨hvalid, by simpa using htaken,
            by simp [validateMethods, hvalid, htaken]⟩
        · have hstep : validateMethods component seen (method :: rest)
              = validateMethods component (seen ++ [method.name]) rest := by
            simp [validateMethods, hvalid, htaken]
          have hnext : (seen ++ [method.name]).Nodup := by
            rw [List.nodup_append]
            exact ⟨hseen, by simp, fun a ha b hb heq => htaken (by
              rw [List.mem_singleton.1 hb] at heq
              exact heq ▸ ha)⟩
          rw [hstep]
          rcases validateMethods_cases component (seen ++ [method.name]) rest
            hnext with
            ⟨hok, hall, hnodup⟩
              | ⟨before, found, after, rfl, hall, hnodup, hcase⟩
          · refine .inl ⟨hok, ?_, by simpa using hnodup⟩
            exact fun other hother =>
              (List.mem_cons.1 hother).elim (fun h => h ▸ hvalid) (hall other)
          · refine .inr ⟨method :: before, found, after, rfl,
              ?_, by simpa using hnodup, ?_⟩
            · exact fun other hother =>
                (List.mem_cons.1 hother).elim (fun h => h ▸ hvalid) (hall other)
            · simpa using hcase
      · rw [Bool.not_eq_true] at hvalid
        refine .inr ⟨[], method, rest, rfl,
          fun _ h => (nomatch h), by simpa using hseen, .inl ?_⟩
        exact ⟨hvalid, by simp [validateMethods, hvalid]⟩

/-- Methods that are fine are passed over. -/
theorem validateMethods_append (component : Component) (rest : List Method) :
    ∀ (seen : List String) (before : List Method),
      (∀ earlier ∈ before, Name.isValid earlier.name = true) →
      (seen ++ before.map Method.name).Nodup →
      validateMethods component seen (before ++ rest)
        = validateMethods component (seen ++ before.map Method.name) rest
  | seen, [], _, _ => by simp
  | seen, method :: before, hall, hnodup => by
      have hvalid := hall method List.mem_cons_self
      have hnodup' :
          (seen ++ [method.name] ++ before.map Method.name).Nodup := by
        simpa using hnodup
      have hfresh : method.name ∉ seen := fun hmem =>
        (List.nodup_append.1 (List.nodup_append.1 hnodup').1).2.2 _ hmem _
          (List.mem_singleton_self _) rfl
      have hstep : validateMethods component seen (method :: before ++ rest)
          = validateMethods component (seen ++ [method.name])
            (before ++ rest) := by
        simp [validateMethods, hvalid, hfresh]
      rw [hstep, validateMethods_append component rest _ before
        (fun earlier hearlier =>
          hall earlier (List.mem_cons_of_mem method hearlier)) hnodup']
      simp

/-- A component passes the check if it is valid, and otherwise fails it by
one of its defects. -/
theorem validate_cases (component : Component) :
    (validate component = .ok () ∧ component.Valid)
    ∨ ∃ defect, validate component = .error defect
      ∧ ValidationDefect component defect := by
  unfold validate
  by_cases hspace : Name.isValidNamespace component.space = true
  · by_cases hname : Name.isValid component.name = true
    · simp only [hspace, hname, Bool.not_true, Bool.false_eq_true, if_false]
      rcases validateMethods_cases component [] component.methods .nil with
        ⟨hok, hall, hnodup⟩
          | ⟨before, method, after, hsplit, hall, hnodup, hcase⟩
      · exact .inl ⟨hok, hspace, hname, hall, hnodup⟩
      · rcases hcase with ⟨hinvalid, herror⟩ | ⟨hvalid, htaken, herror⟩
        · exact .inr
            ⟨_, herror, .methodName hspace hname hsplit hall hnodup hinvalid⟩
        · exact .inr ⟨_, herror,
            .methodTaken hspace hname hsplit hall hnodup hvalid htaken⟩
    · rw [Bool.not_eq_true] at hname
      exact .inr ⟨_, by simp [hspace, hname], .name hspace hname⟩
  · rw [Bool.not_eq_true] at hspace
    exact .inr ⟨_, by simp [hspace], .space hspace⟩

/-- A valid component passes the checks. -/
theorem validate_ok {component : Component} (h : component.Valid) :
    validate component = .ok () := by
  unfold validate
  have hmethods := validateMethods_append component [] [] component.methods
    h.methods h.distinct
  rw [List.append_nil] at hmethods
  simp [h.space, h.name, hmethods, validateMethods]

/-- A component fails the checks with the first thing that is wrong
with it. -/
private theorem validate_error {component : Component} {defect : Defect}
    (h : ValidationDefect component defect) :
    validate component = .error defect := by
  unfold validate
  cases h with
  | space hspace => simp [hspace]
  | name hspace hname => simp [hspace, hname]
  | @methodName before after method hspace hname hsplit hall hnodup hinvalid =>
      have hmethods :=
        validateMethods_append component (method :: after) [] before hall hnodup
      simp [hspace, hname, hsplit, hmethods, validateMethods, hinvalid]
  | @methodTaken before after method hspace hname hsplit hall hnodup hvalid
      htaken =>
      have hmethods :=
        validateMethods_append component (method :: after) [] before hall hnodup
      have htaken' := List.mem_map.1 htaken
      simp [hspace, hname, hsplit, hmethods, validateMethods, hvalid, htaken']

end Registry

-- ================================================================= tables

@[simp] theorem Definition.kind_component (component : Component) :
    (Definition.component component).kind = .component := rfl

/-- Setting the table of a kind leaves those of other kinds alone. -/
private theorem Holdings.get_set (holdings : Holdings) (kind : ResourceKind)
    (table : Table Definition) (other : ResourceKind) :
    (holdings.set kind table).get other
      = if other = kind then table else holdings.get other := by
  cases kind <;> cases other <;> rfl

private theorem Holdings.set_set (holdings : Holdings) (kind : ResourceKind)
    (table next : Table Definition) :
    (holdings.set kind table).set kind next = holdings.set kind next := by
  cases kind <;> rfl

/-- Putting the table of a kind in its own place changes nothing. -/
theorem Holdings.set_get {holdings : Holdings} {kind : ResourceKind}
    (h : holdings.get? kind ≠ none) :
    holdings.set kind (holdings.get kind) = holdings := by
  obtain ⟨table, htable⟩ := Option.ne_none_iff_exists'.1 h
  unfold Holdings.get
  rw [htable, Option.getD_some]
  cases kind <;> cases holdings <;> cases htable <;> rfl

namespace Registry

/-- Setting a table changes the holdings of its namespace only. -/
theorem holdings_setTable (registry : Registry) (space : String)
    (kind : ResourceKind) (table : Table Definition) (other : String) :
    (registry.setTable space kind table).holdings other
      = if other = space then (registry.holdings space).set kind table
        else registry.holdings other := by
  unfold holdings setTable
  dsimp only
  rw [Table.get?_insert]
  by_cases h : other = space
  · rw [if_pos h, if_pos h, Option.getD_some]
    rfl
  · rw [if_neg h, if_neg h]

/-- A table that is put in place is found there, and all others as before. -/
theorem get_setTable (registry : Registry) (space : String)
    (kind : ResourceKind) (table : Table Definition) (other : String)
    (kind' : ResourceKind) :
    ((registry.setTable space kind table).holdings other).get kind'
      = if other = space ∧ kind' = kind then table
        else (registry.holdings other).get kind' := by
  rw [holdings_setTable]
  by_cases hspace : other = space
  · rw [if_pos hspace, Holdings.get_set]
    by_cases hkind : kind' = kind
    · rw [if_pos hkind, if_pos ⟨hspace, hkind⟩]
    · rw [if_neg hkind, if_neg fun h => hkind h.2, hspace]
  · rw [if_neg hspace, if_neg fun h => hspace h.1]

/-- A table that is set twice is what it was set to last. -/
theorem setTable_setTable (registry : Registry) (space : String)
    (kind : ResourceKind) (table next : Table Definition) :
    (registry.setTable space kind table).setTable space kind next
      = registry.setTable space kind next := by
  show Registry.mk
    (Table.insert (registry.setTable space kind table).spaces space
      (((registry.setTable space kind table).holdings space).set kind next)) = _
  rw [holdings_setTable, if_pos rfl, Holdings.set_set]
  exact congrArg Registry.mk (Table.insert_insert ..)

/-- A table with a name in it stays what it is when it is put in its own
place. -/
theorem setTable_self {registry : Registry} {space : String}
    {kind : ResourceKind} {name : String}
    (h : ((registry.holdings space).get kind).contains name = true) :
    registry.setTable space kind ((registry.holdings space).get kind)
      = registry := by
  rw [Table.contains_eq] at h
  have hset : (registry.holdings space).set kind
      ((registry.holdings space).get kind)
      = registry.holdings space := by
    apply Holdings.set_get
    intro hnone
    rw [Holdings.get, hnone] at h
    cases h
  have hfound : registry.spaces.get? space
      = some (registry.holdings space) := by
    unfold holdings at h ⊢
    cases hspace : registry.spaces.get? space with
    | none =>
        rw [hspace] at h
        cases kind <;> cases h
    | some holdings => rfl
  unfold setTable
  rw [hset, Table.insert_eq_self hfound]

/-- Puts a definition under a name, whatever stands there. -/
def put (registry : Registry) (space : String) (kind : ResourceKind)
    (name : String) (definition : Definition) : Registry :=
  registry.setTable space kind
    (((registry.holdings space).get kind).insert name definition)

/-- A definition that was put under a name is found there, and all others as
before. -/
theorem get?_put (registry : Registry) (space : String) (kind : ResourceKind)
    (name : String) (definition : Definition) (space' : String)
    (kind' : ResourceKind) (name' : String) :
    (((registry.put space kind name definition).holdings space').get kind').get?
      name'
      = if space' = space ∧ kind' = kind ∧ name' = name then some definition
        else ((registry.holdings space').get kind').get? name' := by
  unfold put
  rw [get_setTable]
  by_cases hplace : space' = space ∧ kind' = kind
  · obtain ⟨rfl, rfl⟩ := hplace
    rw [if_pos ⟨rfl, rfl⟩, Table.get?_insert]
    by_cases hname : name' = name
    · rw [if_pos hname, if_pos ⟨rfl, rfl, hname⟩]
    · rw [if_neg hname, if_neg fun h => hname h.2.2]
  · rw [if_neg hplace, if_neg fun h => hplace ⟨h.1, h.2.1⟩]

-- ================================================================== steps

namespace Step

variable {registry : Registry} {space name : String} {kind : ResourceKind}
  {definition : Definition}

/-- A definition of another kind is refused. -/
theorem register_mismatch (hkind : definition.kind ≠ kind) :
    register space kind name definition registry
      = .error (.kindMismatch definition.kind name kind) registry :=
  if_pos hkind

/-- A name that is taken is refused, and the registry is as it was. -/
theorem register_taken (hkind : definition.kind = kind)
    (htaken : ((registry.holdings space).get kind).contains name = true) :
    register space kind name definition registry
      = .error (.duplicate space kind name) registry := by
  unfold register
  dsimp only
  rw [if_neg (not_not_intro hkind), if_pos htaken, setTable_self htaken]

/-- A name that is free gets the definition. -/
theorem register_free (hkind : definition.kind = kind)
    (hfree : ((registry.holdings space).get kind).contains name = false) :
    register space kind name definition registry
      = .ok () (registry.put space kind name definition) := by
  unfold register
  dsimp only
  rw [if_neg (not_not_intro hkind), if_neg (Bool.eq_false_iff.1 hfree),
    setTable_setTable]
  rfl

/-- A component that fails the checks is refused for it. -/
theorem registerComponent_invalid {component : Component} {defect : Defect}
    (h : validate component = .error defect) :
    registerComponent component registry = .error defect registry := by
  unfold registerComponent
  rw [h]

/-- A component that passes the checks is registered under its own name. -/
theorem registerComponent_valid {component : Component}
    (h : validate component = .ok ()) :
    registerComponent component registry
      = register component.space .component component.name
        (.component component) registry := by
  unfold registerComponent
  rw [h]

end Step

-- ============================================================ registering

/-- The registry finds exactly the components listed, and the tables in which
it finds them have components only. -/
structure Holds (registry : Registry) (components : List Component) : Prop where
  found : ∀ space name component,
    registry.component? space name = some component
    ↔ component ∈ components ∧ component.space = space ∧ component.name = name
  kinds : ∀ space name definition,
    ((registry.holdings space).get .component).get? name = some definition →
      definition.kind = .component

/-- An empty registry holds no components. -/
theorem holds_empty : empty.Holds [] where
  found space name component := by
    simp [component?, holdings, Holdings.get, Holdings.get?, empty]
  kinds space name definition h := by
    simp [holdings, Holdings.get, Holdings.get?, empty] at h

/-- Puts a component under its own name. -/
def add (registry : Registry) (component : Component) : Registry :=
  registry.put component.space .component component.name (.component component)

/-- A component that was added is found, and all others as before. -/
theorem component?_add (registry : Registry) (added : Component)
    (space name : String) :
    (registry.add added).component? space name
      = if space = added.space ∧ name = added.name then some added
        else registry.component? space name := by
  unfold component? add
  rw [get?_put]
  by_cases hhere : space = added.space ∧ name = added.name
  · rw [if_pos hhere, if_pos ⟨hhere.1, rfl, hhere.2⟩]
    rfl
  · rw [if_neg hhere, if_neg fun h => hhere ⟨h.1, h.2.2⟩]

/-- In a registry of components a name is taken if there is a component of
it. -/
theorem Holds.contains_eq {registry : Registry} {components : List Component}
    (h : registry.Holds components) (space name : String) :
    ((registry.holdings space).get .component).contains name
      = (registry.component? space name).isSome := by
  unfold component?
  rw [Table.contains_eq]
  cases hfound : ((registry.holdings space).get .component).get? name with
  | none => rfl
  | some definition =>
      have hkind := h.kinds space name definition hfound
      cases definition with
      | component found => rfl
      | method found => cases hkind

/-- Registering a component comes to its validation and to adding it, unless
its name is taken. -/
theorem registerComponent_eq (registry : Registry) (component : Component) :
    registry.registerComponent component = validate component >>= fun _ =>
      if ((registry.holdings component.space).get .component).contains
        component.name then
        .error (.duplicate component.space .component component.name)
      else .ok (registry.add component) := by
  unfold registerComponent Step.outcome
  cases hvalidate : validate component with
  | error defect =>
      rw [Step.registerComponent_invalid hvalidate]
      rfl
  | ok value =>
      rw [Step.registerComponent_valid hvalidate]
      have hkind := Definition.kind_component component
      cases hname :
          ((registry.holdings component.space).get .component).contains
            component.name with
      | true =>
          rw [Step.register_taken hkind hname]
          rfl
      | false =>
          rw [Step.register_free hkind hname]
          rfl

end Registry

/-- What stops a component from being registered after others. -/
inductive RegistrationDefect (earlier : List Component)
    (component : Component) : Defect → Prop
  | invalid {defect : Defect} :
      ValidationDefect component defect →
        RegistrationDefect earlier component defect
  | taken : component.Valid →
      (∃ other ∈ earlier,
        other.space = component.space ∧ other.name = component.name) →
      RegistrationDefect earlier component
        (.duplicate component.space .component component.name)

/-- Components that can be registered one after the other. -/
structure Registrable (components : List Component) : Prop where
  valid : ∀ component ∈ components, component.Valid
  distinct : components.Pairwise
    fun a b => ¬(a.space = b.space ∧ a.name = b.name)

/-- One component more can be registered if it is valid and its name
is free. -/
theorem registrable_append_singleton {components : List Component}
    {component : Component} :
    Registrable (components ++ [component])
      ↔ Registrable components ∧ component.Valid
      ∧ ∀ other ∈ components,
        ¬(other.space = component.space ∧ other.name = component.name) := by
  constructor
  · rintro ⟨hvalid, hdistinct⟩
    rw [List.pairwise_append] at hdistinct
    exact ⟨⟨fun c hc =>
      hvalid c (by simp [hc]), hdistinct.1⟩, hvalid component (by simp),
      fun other hother =>
        hdistinct.2.2 other hother component (List.mem_singleton_self _)⟩
  · rintro ⟨⟨hvalid, hdistinct⟩, hnew, hfresh⟩
    refine ⟨fun c hc => ?_, ?_⟩
    · rcases List.mem_append.1 hc with hc | hc
      · exact hvalid c hc
      · rw [List.mem_singleton.1 hc]
        exact hnew
    · rw [List.pairwise_append]
      exact ⟨hdistinct, List.pairwise_singleton .., fun other hother c hc => by
        rw [List.mem_singleton.1 hc]
        exact hfresh other hother⟩

namespace Registry

variable {registry : Registry} {earlier : List Component}
  {component : Component}

/-- The component added is the only new one. -/
theorem Holds.add (h : registry.Holds earlier)
    (hfresh : ∀ other ∈ earlier,
      ¬(other.space = component.space ∧ other.name = component.name)) :
    (registry.add component).Holds (earlier ++ [component]) := by
  refine ⟨fun space name found => ?_, fun space name definition hfound => ?_⟩
  · rw [component?_add]
    by_cases hhere : space = component.space ∧ name = component.name
    · rw [if_pos hhere]
      constructor
      · rintro ⟨rfl⟩
        exact ⟨by simp, hhere.1.symm, hhere.2.symm⟩
      · rintro ⟨hmem, hspace, hname⟩
        rcases List.mem_append.1 hmem with hmem | hmem
        · exact absurd ⟨hspace.trans hhere.1, hname.trans hhere.2⟩
            (hfresh found hmem)
        · rw [List.mem_singleton.1 hmem]
    · rw [if_neg hhere, h.found]
      constructor
      · rintro ⟨hmem, hsame⟩
        exact ⟨by simp [hmem], hsame⟩
      · rintro ⟨hmem, hspace, hname⟩
        rcases List.mem_append.1 hmem with hmem | hmem
        · exact ⟨hmem, hspace, hname⟩
        · -- the new one is not looked for
          rw [List.mem_singleton.1 hmem] at hspace hname
          exact absurd ⟨hspace.symm, hname.symm⟩ hhere
  · unfold Registry.add at hfound
    rw [get?_put] at hfound
    by_cases hhere : space = component.space
        ∧ ResourceKind.component = ResourceKind.component
          ∧ name = component.name
    · rw [if_pos hhere] at hfound
      cases hfound
      rfl
    · rw [if_neg hhere] at hfound
      exact h.kinds space name definition hfound

/-- A valid component whose name is free is added. -/
theorem registerComponent_ok (h : registry.Holds earlier)
    (hvalid : component.Valid) (hfresh : ∀ other ∈ earlier,
      ¬(other.space = component.space ∧ other.name = component.name)) :
    registry.registerComponent component = .ok (registry.add component) := by
  have hnone : registry.component? component.space component.name = none := by
    cases hfound : registry.component? component.space component.name with
    | none => rfl
    | some other =>
        obtain ⟨hmem, hsame⟩ := (h.found _ _ _).1 hfound
        exact absurd hsame (hfresh other hmem)
  rw [registerComponent_eq, validate_ok hvalid, h.contains_eq, hnone]
  rfl

/-- A component with a defect is refused for that. -/
theorem registerComponent_error (h : registry.Holds earlier) {defect : Defect}
    (hdefect : RegistrationDefect earlier component defect) :
    registry.registerComponent component = .error defect := by
  rw [registerComponent_eq]
  cases hdefect with
  | invalid hinvalid =>
      rw [validate_error hinvalid]
      rfl
  | taken hvalid hother =>
      obtain ⟨other, hmem, hsame⟩ := hother
      have hfound :=
        (h.found component.space component.name other).2 ⟨hmem, hsame⟩
      rw [validate_ok hvalid, h.contains_eq, hfound]
      rfl

/-- The outcome for several components is that for the first and then that
for the others. -/
theorem registerAll_cons (registry : Registry) (component : Component)
    (rest : List Component) :
    registry.registerAll (component :: rest)
      = registry.registerComponent component
        >>= fun next => next.registerAll rest := by
  show Step.outcome (EStateM.bind (Step.registerComponent component)
    fun _ => Step.registerAll rest) registry = _
  unfold registerComponent Step.outcome EStateM.bind
  cases Step.registerComponent component registry with
  | ok value next => rfl
  | error defect next => rfl

/-- Components are registered in two parts. -/
private theorem registerAll_append (registry : Registry)
    (components others : List Component) :
    registry.registerAll (components ++ others)
      = registry.registerAll components
        >>= fun next => next.registerAll others := by
  induction components generalizing registry with
  | nil => rfl
  | cons component rest ih =>
      rw [List.cons_append, registerAll_cons, registerAll_cons]
      cases registry.registerComponent component with
      | error defect => rfl
      | ok next => exact ih next

/-- A component may be registered after others, or there is a defect that
says why not. -/
theorem registrable_or_defect (earlier : List Component)
    (component : Component) :
    (component.Valid ∧ ∀ other ∈ earlier,
      ¬(other.space = component.space ∧ other.name = component.name))
    ∨ ∃ defect, RegistrationDefect earlier component defect := by
  rcases validate_cases component with ⟨-, hvalid⟩ | ⟨defect, -, hdefect⟩
  · by_cases htaken : ∃ other ∈ earlier,
        other.space = component.space ∧ other.name = component.name
    · exact .inr ⟨_, .taken hvalid htaken⟩
    · exact .inl
        ⟨hvalid, fun other hother hsame => htaken ⟨other, hother, hsame⟩⟩
  · exact .inr ⟨defect, .invalid hdefect⟩

/-- Registering components succeeds with all of them, or ends at the first
that has a defect. -/
theorem registerAll_cases :
    ∀ (components : List Component) {registry : Registry}
      {earlier : List Component},
      registry.Holds earlier → Registrable earlier →
        (∃ registry', registry.registerAll components = .ok registry'
        ∧ registry'.Holds (earlier ++ components)
          ∧ Registrable (earlier ++ components))
      ∨ ∃ before component after defect,
        components = before ++ component :: after
          ∧ Registrable (earlier ++ before)
          ∧ RegistrationDefect (earlier ++ before) component defect
          ∧ registry.registerAll components = .error defect
  | [], registry, earlier, hholds, hreg => by
      refine .inl ⟨registry, rfl, ?_⟩
      rw [List.append_nil]
      exact ⟨hholds, hreg⟩
  | component :: rest, registry, earlier, hholds, hreg => by
      rcases registrable_or_defect earlier component with ⟨hvalid, hfresh⟩
        | ⟨defect, hdefect⟩
      · have hstep := registerComponent_ok hholds hvalid hfresh
        have hholds' := hholds.add hfresh
        have hreg' := registrable_append_singleton.2 ⟨hreg, hvalid, hfresh⟩
        have hall : registry.registerAll (component :: rest)
            = (registry.add component).registerAll rest := by
          rw [registerAll_cons, hstep]
          rfl
        rw [hall]
        -- the first is registered, and the others go on behind it
        rcases registerAll_cases rest hholds' hreg' with
          ⟨registry', hok, hfinal⟩
            | ⟨before, found, after, defect, rfl, hbefore, hdefect, herror⟩
        · exact .inl ⟨registry', hok, by simpa using hfinal⟩
        · exact .inr ⟨component :: before, found, after, defect,
            rfl, by simpa using hbefore, by simpa using hdefect, herror⟩
      · refine .inr ⟨[], component, rest, defect, rfl, by simpa using hreg,
          by simpa using hdefect, ?_⟩
        rw [registerAll_cons, registerComponent_error hholds hdefect]
        rfl

/-- Components that can be registered are all registered. -/
theorem registerAll_ok {components : List Component}
    (h : Registrable components) :
    ∃ registry, empty.registerAll components = .ok registry
      ∧ registry.Holds components := by
  rcases registerAll_cases components holds_empty
    ⟨fun c hc => (nomatch hc), .nil⟩ with
    ⟨registry, hok, hholds, -⟩
      | ⟨before, component, after, defect, rfl, -, hdefect, -⟩
  · exact ⟨registry, hok, hholds⟩
  · have hvalid := h.valid component (by simp)
    rw [List.nil_append] at hdefect
    cases hdefect with
    | invalid hinvalid =>
        have hboth := validate_ok hvalid
        rw [validate_error hinvalid] at hboth
        cases hboth
    | taken _ hother =>
        obtain ⟨other, hother, hsame⟩ := hother
        exact absurd hsame
          ((List.pairwise_append.1 h.distinct).2.2 other hother component
            List.mem_cons_self)

/-- The first component that cannot be registered ends the registration. -/
theorem registerAll_error {before after : List Component} {defect : Defect}
    (h : Registrable before)
    (hdefect : RegistrationDefect before component defect) :
    empty.registerAll (before ++ component :: after) = .error defect := by
  obtain ⟨registry, hok, hholds⟩ := registerAll_ok h
  rw [registerAll_append, hok]
  show registry.registerAll (component :: after) = _
  rw [registerAll_cons, registerComponent_error hholds hdefect]
  rfl

-- ========================================================== what is found

/-- The components of a namespace with the names they are registered under. -/
def componentEntries (registry : Registry) (space : String) :
    List (String × Component) :=
  ((registry.holdings space).get .component).entries.filterMap fun entry =>
    entry.2.component?.map (entry.1, ·)

/-- The components of a namespace, without their names. -/
theorem map_componentEntries (registry : Registry) (space : String) :
    (registry.componentEntries space).map Prod.snd
      = registry.componentsOf space := by
  unfold componentEntries componentsOf Holdings.componentList Table.values
  rw [List.map_filterMap, List.filterMap_map]
  refine List.filterMap_congr fun entry _ => ?_
  rw [Option.map_map]
  exact Option.map_id' ..

/-- The entries of a namespace are what is found under its names. -/
theorem mem_componentEntries_iff {registry : Registry} {space name : String}
    {component : Component} :
    (name, component) ∈ registry.componentEntries space
      ↔ registry.component? space name = some component := by
  unfold componentEntries component?
  rw [List.mem_filterMap, Option.bind_eq_some_iff]
  constructor
  · rintro ⟨⟨key, definition⟩, hmem, heq⟩
    obtain ⟨found, hfound, hsame⟩ := Option.map_eq_some_iff.1 heq
    cases hsame
    exact ⟨definition, Table.mem_entries_iff.1 hmem, hfound⟩
  · rintro ⟨definition, hmem, hfound⟩
    refine ⟨(name, definition), Table.mem_entries_iff.2 hmem, ?_⟩
    dsimp only
    rw [hfound]
    rfl

/-- The names stand in increasing order, each once. -/
theorem sorted_componentEntries (registry : Registry) (space : String) :
    (registry.componentEntries space).Pairwise fun a b => a.1 < b.1 := by
  unfold componentEntries
  rw [List.pairwise_filterMap]
  refine ((registry.holdings space).get .component).sorted.imp
    fun {a b} hlt first hfirst second hsecond => ?_
  obtain ⟨_, -, rfl⟩ := Option.map_eq_some_iff.1 hfirst
  obtain ⟨_, -, rfl⟩ := Option.map_eq_some_iff.1 hsecond
  exact hlt

private theorem mem_componentsOf_iff {registry : Registry} {space : String}
    {component : Component} :
    component ∈ registry.componentsOf space
      ↔ ∃ name, registry.component? space name = some component := by
  rw [← map_componentEntries, List.mem_map]
  constructor
  · rintro ⟨⟨name, found⟩, hmem, rfl⟩
    exact ⟨name, mem_componentEntries_iff.1 hmem⟩
  · rintro ⟨name, hfound⟩
    exact ⟨(name, component), mem_componentEntries_iff.2 hfound, rfl⟩

/-- The components of a namespace are those listed that belong to it. -/
theorem Holds.mem_componentsOf {components : List Component}
    (h : registry.Holds components) {space : String} :
    component ∈ registry.componentsOf space
      ↔ component ∈ components ∧ component.space = space := by
  rw [mem_componentsOf_iff]
  constructor
  · rintro ⟨name, hfound⟩
    obtain ⟨hmem, hspace, -⟩ := (h.found space name component).1 hfound
    exact ⟨hmem, hspace⟩
  · rintro ⟨hmem, hspace⟩
    exact ⟨component.name,
      (h.found space component.name component).2 ⟨hmem, hspace, rfl⟩⟩

/-- The components of a namespace stand in the order of their names. -/
theorem Holds.sorted_componentsOf {components : List Component}
    (h : registry.Holds components) (space : String) :
    (registry.componentsOf space).Pairwise fun a b => a.name < b.name := by
  rw [← map_componentEntries, List.pairwise_map]
  refine (registry.sorted_componentEntries space).imp_of_mem
    fun {a b} ha hb hlt => ?_
  have hname : ∀ entry ∈ registry.componentEntries space,
      entry.2.name = entry.1 :=
    fun entry hentry =>
      ((h.found space entry.1 entry.2).1
        (mem_componentEntries_iff.1 hentry)).2.2
  rw [hname a ha, hname b hb]
  exact hlt

/-- A component that is found is among all components. -/
theorem mem_allComponents {registry : Registry} {space name : String}
    {component : Component}
    (h : registry.component? space name = some component) :
    component ∈ registry.allComponents := by
  have hmem : component ∈ registry.componentsOf space :=
    mem_componentsOf_iff.2 ⟨name, h⟩
  unfold componentsOf holdings at hmem
  cases hfound : registry.spaces.get? space with
  | none =>
      rw [hfound] at hmem
      exact absurd hmem List.not_mem_nil
  | some holdings =>
      rw [hfound] at hmem
      exact List.mem_flatMap.2 ⟨holdings, Table.mem_values_of_get? hfound, hmem⟩

/-- The registry has at least as many components as any of its namespaces. -/
theorem length_componentsOf_le (registry : Registry) (space : String) :
    (registry.componentsOf space).length ≤ registry.allComponents.length := by
  unfold componentsOf allComponents holdings
  cases hfound : registry.spaces.get? space with
  | none => exact Nat.zero_le _
  | some holdings =>
      rw [Option.getD_some, List.flatMap_def]
      exact (List.sublist_flatten_of_mem
        (List.mem_map.2 ⟨holdings, Table.mem_values_of_get? hfound,
          rfl⟩)).length_le

end Registry

end Datapack
