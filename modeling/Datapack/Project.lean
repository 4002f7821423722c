/-
Projects and how a pack is built of one. Every component that is
registered in the project's namespace is built, in increasing order of the
names. All methods are resolved before any is built, and there is a pack
only if everything was built.
-/
import Datapack.Build.Component

namespace Datapack

/-- A project. -/
structure Project where
  name : String
  space : String
  description : String := "An endermite project"
  author : String := "N/A"
  version : String := "0.1.0"
  deriving DecidableEq, Repr

namespace Project

/-- The description of the project's pack. -/
def packDescription (project : Project) : String :=
  s!"{project.description}\n\nVersion {project.version}\nBy {project.author}"

-- ============================================================== building

/-- Resolves the methods of components one after the other. -/
def resolveAll (registry : Registry) :
    List Component → Except Failure (List (Component × List Member))
  | [] => .ok []
  | component :: rest =>
    match registry.members component with
    | .error defect =>
      .error (.step s!"component \"{component.name}\"" (.defect defect))
    | .ok members => do
      let resolved ← resolveAll registry rest
      return (component, members) :: resolved

/-- Builds components one after the other below the node of the project. -/
def buildComponents (root : NodeId) :
    List (Component × List Member) → Build Unit
  | [] => pure ()
  | (component, members) :: rest => do
    Build.component root component members
    buildComponents root rest

/-- Builds the whole project, and gives the number of its node. -/
def buildTree (project : Project)
    (components : List (Component × List Member)) :
    Build NodeId := do
  let root ← Build.insertNode none project.name
      (.project project.packDescription)
  Build.focused .project root (buildComponents root components)
  return root

-- ============================================================= collecting

/-- The finished function of a node. -/
def functionOf (node : BuildNode) : Option PackFunction :=
  match node.content with
  | .function draft => draft.artifact?
  | _ => none

/-- A list with further elements at its end, each only if it is new. -/
def addNew (known : List String) (others : List String) : List String :=
  others.foldl
    (fun known other =>
      if known.contains other then known else known ++ [other]) known

/-- The tags so far with those of a node. -/
def collectTags (tags : Table (List String)) (node : BuildNode) :
    Table (List String) :=
  match node.content with
  | .tag location members =>
    tags.insert location (addNew ((tags.get? location).getD []) members)
  | _ => tags

/-- The pack of a built tree: its functions in preorder, and its tags in
the order of their locations, with members in the order in which they are
first met. -/
def collect (project : Project) (tree : BuildTree) (root : NodeId) : Pack :=
  let nodes := (tree.preorder root).filterMap tree.node?
  { name := project.name
    space := project.space
    description := project.packDescription
    functions := nodes.filterMap functionOf
    tags := (nodes.foldl collectTags Table.empty).entries.map
      fun entry => ⟨entry.1, entry.2⟩ }

/-- The pack of the components that are registered in the project's
namespace, without the project's own label on failures. -/
def buildUnlabelled (project : Project) (registry : Registry) :
    Except Failure Pack := do
  if !Name.isValidNamespace project.space then
    throw (.defect (.invalidNamespace project.space))
  let components ← resolveAll registry (registry.componentsOf project.space)
  let start :=
    BuildState.initial project.space (CallTable.ofComponents components)
  match project.buildTree components start with
  | .ok root state => return project.collect state.tree root
  | .error failure _ => throw failure

/-- The pack of the components that are registered in the project's
namespace. -/
def buildRegistered (project : Project) (registry : Registry) :
    Except Failure Pack :=
  match project.buildUnlabelled registry with
  | .ok pack => .ok pack
  | .error failure => .error (.step s!"project \"{project.name}\"" failure)

end Project

-- ============================================================== sessions

/-- A sequence of builds that share a registry. -/
structure Session where
  registry : Registry := .empty

namespace Session

/-- Registers the components and builds the project of them. What could be
registered is in the registry afterwards, whatever the build comes to. -/
def registerAndBuild (registry : Registry) (project : Project)
    (components : List Component) :
    Except Failure Pack × Registry :=
  match Registry.Step.registerAll components registry with
  | .error defect registry => (.error (.defect defect), registry)
  | .ok _ registry => (project.buildRegistered registry, registry)

/-- Builds a project of its components. The registry is cleared before and
after, so that nothing registered earlier counts and nothing stays. -/
def build (session : Session) (project : Project)
    (components : List Component) :
    Except Failure Pack × Session :=
  let (result, registry) :=
    registerAndBuild session.registry.clear project components
  (result, { registry := registry.clear })

end Session

/-- Builds a project of its components. -/
def Project.build (project : Project) (components : List Component) :
    Except Failure Pack :=
  (Session.build {} project components).1

end Datapack
