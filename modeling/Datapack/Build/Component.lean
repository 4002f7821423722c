/-
Building a component. Each of its methods becomes a function, listed in
the tags of its hooks and in its own. A component that entities can have
also gets a dispatcher for each hook that the game drives, which runs the
hook's methods as every entity with the component's marker, and functions
to attach and detach it. Attaching an attached component and detaching a
detached one do nothing.
-/
import Datapack.Build.Body

namespace Datapack.Build

-- ======================================================== recursion guards

/-- Runs the body of a guarded method. The executing entity carries a fresh
tag while the body runs, and a call during that time only reports itself. -/
def guarded (component key : String) (body : Build Unit) : Build Unit := do
  let tag ← freshTag
  let selector := s!"@e[tag={tag}]"
  emitInside [⟨["if", "entity", selector]⟩]
    (.error s!"Recursive method invocation \"{component}/{key}\"")
  execute [⟨["unless", "entity", selector]⟩] do
    emit (.addTag tag)
    execute [⟨["as", selector]⟩] body
    emit (.removeTag tag)

-- ================================================================= methods

/-- Lists a function in a tag. -/
def addToTag (parent : NodeId) (location value : String) : Build Unit := do
  let _ ← insertNode (some parent) location (.tag location [value])

/-- Lists a function in several tags. -/
def addToTags (parent : NodeId) (value : String) : List String → Build Unit
  | [] => pure ()
  | location :: rest => do
    addToTag parent location value
    addToTags parent value rest

/-- The tags that list a method of a component: those of its hooks, unless
the component is abstract, and its own. -/
def tagsOf (component : Component) (member : Member) : List String :=
  let callbacks := if component.isAbstract then [] else
    member.hooks.toList.map
      fun hook => Location.callbackTag component.space hook component.name
  callbacks ++ member.method.tags.keys.map (Location.qualify component.space)

/-- The step that writes the function of a method. -/
def methodBody (component : Component) (member : Member) : Build Unit :=
  let body := Action.buildAll member.method.body
  if member.method.guarded then guarded component.name member.key body else body

/-- Builds a method of a component. -/
def method (parent : NodeId) (component : Component) (member : Member) :
    Build Unit :=
  labelled s!"component method \"{member.key}\"" do
    let node ← insertNode (some parent) member.key .method
    focused .method node do
      function node member.location (methodBody component member)
      addToTags node member.location (tagsOf component member)

/-- Builds methods of a component one after the other. -/
def methods (parent : NodeId) (component : Component) : List Member → Build Unit
  | [] => pure ()
  | member :: rest => do
    method parent component member
    methods parent component rest

-- ============================================================ entry points

/-- Some method has the hook in force. -/
def anyHooked (members : List Member) (hook : Hook) : Bool :=
  members.any fun member => member.hooks.has hook

/-- Builds the dispatcher of a hook that the game drives, if some method
has the hook. -/
def dispatcher (parent : NodeId) (component : Component) (members : List Member)
    (hook : Hook) : Build Unit := do
  match hook.gameTag? with
  | none => pure ()
  | some gameTag =>
    if anyHooked members hook then
      let location ← freshFunction
      let marker := Location.marker component.space component.name
      function parent location <|
        emitInside [⟨["as", s!"@e[tag={marker}]"]⟩]
          (.functionTag
            (Location.callbackTag component.space hook component.name))
      addToTag parent gameTag location

/-- Builds the dispatchers of hooks one after the other. -/
def dispatchers (parent : NodeId) (component : Component)
    (members : List Member) :
    List Hook → Build Unit
  | [] => pure ()
  | hook :: rest => do
    dispatcher parent component members hook
    dispatchers parent component members rest

/-- Tests whether the executing entity has a marker. -/
def markerClause (condition marker : String) : Clause :=
  ⟨[condition, "entity", s!"@s[tag={marker}]"]⟩

/-- Runs the methods of a hook, if there are any. -/
def runHook (component : Component) (members : List Member) (hook : Hook) :
    Build Unit :=
  if anyHooked members hook then
    emit (.functionTag
      (Location.callbackTag component.space hook component.name))
  else pure ()

/-- Builds the function that attaches a component: an entity without the
marker gets it, and then runs the component's `init` methods. -/
def attachFunction (parent : NodeId) (component : Component)
    (members : List Member) :
    Build Unit :=
  let marker := Location.marker component.space component.name
  function parent (Location.ofAttach component.space component.name) <|
    execute [markerClause "unless" marker] do
      emit (.addTag marker)
      runHook component members .init

/-- Builds the function that detaches a component: an entity with the
marker runs the component's `destroy` methods, and then loses it. -/
def detachFunction (parent : NodeId) (component : Component)
    (members : List Member) :
    Build Unit :=
  let marker := Location.marker component.space component.name
  function parent (Location.ofDetach component.space component.name) <|
    execute [markerClause "if" marker] do
      runHook component members .destroy
      emit (.removeTag marker)

/-- Builds a component with all its methods. -/
def component (parent : NodeId) (component : Component)
    (members : List Member) :
    Build Unit :=
  labelled s!"component \"{component.name}\"" do
    let node ← insertNode (some parent) component.name .component
    focused .component node do
      methods node component members
      if !component.isAbstract then
        dispatchers node component members Hook.all
        attachFunction node component members
        detachFunction node component members

end Datapack.Build
