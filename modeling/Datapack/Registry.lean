/-
The registry of declared resources. Names are taken once for each
namespace and kind. A registry is changed by steps, and a step that fails
leaves a registry too: the tables on the way to a name are made before the
name turns out to be taken.
-/
import Datapack.Component
import Datapack.Failure

namespace Datapack

-- ============================================================ definitions

/-- Something that can be registered. -/
inductive Definition where
  | component (component : Component)
  | method (method : Method)

namespace Definition

/-- The kind of a definition. -/
def kind : Definition → ResourceKind
  | .component _ => .component
  | .method _ => .method

/-- The component that is defined. -/
def component? : Definition → Option Component
  | .component found => some found
  | .method _ => none

end Definition

-- =============================================================== holdings

/-- What a namespace has: a table of definitions for each kind, from the time
on that one was needed. -/
structure Holdings where
  components : Option (Table Definition) := none
  methods : Option (Table Definition) := none

namespace Holdings

/-- The table of a kind. -/
def get? (holdings : Holdings) : ResourceKind → Option (Table Definition)
  | .component => holdings.components
  | .method => holdings.methods

/-- The table of a kind, which is empty if there is none. -/
def get (holdings : Holdings) (kind : ResourceKind) : Table Definition :=
  (holdings.get? kind).getD Table.empty

/-- Puts a table in the place of that of a kind. -/
def set (holdings : Holdings) (kind : ResourceKind) (table : Table Definition) :
    Holdings :=
  match kind with
  | .component => { holdings with components := some table }
  | .method => { holdings with methods := some table }

/-- The tables that there are, with their kinds. -/
def toList (holdings : Holdings) : List (ResourceKind × Table Definition) :=
  [ResourceKind.component, .method].filterMap
    fun kind => (holdings.get? kind).map (kind, ·)

/-- The components in increasing order of the names they are registered
under. -/
def componentList (holdings : Holdings) : List Component :=
  (holdings.get .component).values.filterMap Definition.component?

end Holdings

-- =============================================================== registry

/-- What each namespace has. -/
structure Registry where
  spaces : Table Holdings

namespace Registry

/-- Nothing is registered. -/
def empty : Registry := ⟨Table.empty⟩

instance : Inhabited Registry := ⟨empty⟩

/-- What a namespace has, which is nothing if it is new. -/
def holdings (registry : Registry) (space : String) : Holdings :=
  (registry.spaces.get? space).getD {}

/-- The names under which a namespace has definitions of each kind, unless it
is new. -/
def lookup? (registry : Registry) (space : String) :
    Option (List (ResourceKind × List String)) :=
  (registry.spaces.get? space).map fun holdings =>
    holdings.toList.map fun entry => (entry.1, entry.2.keys)

/-- The component registered under a name. -/
def component? (registry : Registry) (space name : String) : Option Component :=
  (((registry.holdings space).get .component).get? name).bind
    Definition.component?

/-- The components of a namespace, in increasing order of their names. -/
def componentsOf (registry : Registry) (space : String) : List Component :=
  (registry.holdings space).componentList

/-- Every component, of whatever namespace. -/
def allComponents (registry : Registry) : List Component :=
  registry.spaces.values.flatMap Holdings.componentList

/-- No table has an entry. -/
def isEmpty (registry : Registry) : Bool :=
  registry.spaces.values.all
    fun holdings => holdings.toList.all fun entry => entry.2.isEmpty

/-- Forgets everything that is registered. -/
def clear (_ : Registry) : Registry := empty

/-- Puts a table in the place of that of a namespace and kind. -/
def setTable (registry : Registry) (space : String) (kind : ResourceKind)
    (table : Table Definition) : Registry :=
  ⟨registry.spaces.insert space ((registry.holdings space).set kind table)⟩

-- ============================================================== validity

/-- The methods are named validly and differently from those `seen` before. -/
def validateMethods (component : Component) :
    List String → List Method → Except Defect Unit
  | _, [] => .ok ()
  | seen, method :: rest =>
    if !Name.isValid method.name then
      .error (.invalidMethodName method.name component.name)
    else if seen.contains method.name then
      .error (.duplicate component.space .method
        s!"{component.name}/{method.name}")
    else validateMethods component (seen ++ [method.name]) rest

/-- The names of a component are valid, those of its methods different. -/
def validate (component : Component) : Except Defect Unit :=
  if !Name.isValidNamespace component.space then
    .error (.invalidNamespace component.space)
  else if !Name.isValid component.name then
    .error (.invalidComponentName component.name)
  else validateMethods component [] component.methods

-- ============================================================ registering

/-- A change of a registry, which can fail. The registry stays changed as far
as the step has come. -/
abbrev Step := EStateM Defect Registry

namespace Step

/-- Registers a definition as one of a kind. -/
def register (space : String) (kind : ResourceKind) (name : String)
    (definition : Definition) : Step Unit := fun registry =>
  if definition.kind ≠ kind then
    .error (.kindMismatch definition.kind name kind) registry
  else
    -- a namespace or a kind that is new gets its table here, even if the step
    -- fails
    let table := (registry.holdings space).get kind
    let opened := registry.setTable space kind table
    if table.contains name then .error (.duplicate space kind name) opened
    else .ok () (opened.setTable space kind (table.insert name definition))

/-- Registers a component under its own name. -/
def registerComponent (component : Component) : Step Unit := fun registry =>
  match validate component with
  | .error defect => .error defect registry
  | .ok _ => register component.space .component component.name
      (.component component) registry

/-- Registers components one after the other, up to the first that cannot
be. -/
def registerAll : List Component → Step Unit
  | [] => pure ()
  | component :: rest => do
    registerComponent component
    registerAll rest

/-- The registry that the step leaves if it succeeds. -/
def outcome (step : Step Unit) (registry : Registry) : Except Defect Registry :=
  match step registry with
  | .ok _ next => .ok next
  | .error defect _ => .error defect

end Step

/-- The registry with a further definition. -/
def register (registry : Registry) (space : String) (kind : ResourceKind)
    (name : String) (definition : Definition) : Except Defect Registry :=
  (Step.register space kind name definition).outcome registry

/-- The registry with a further component. -/
def registerComponent (registry : Registry) (component : Component) :
    Except Defect Registry :=
  (Step.registerComponent component).outcome registry

/-- The registry with further components. -/
def registerAll (registry : Registry) (components : List Component) :
    Except Defect Registry :=
  (Step.registerAll components).outcome registry

end Registry

end Datapack
