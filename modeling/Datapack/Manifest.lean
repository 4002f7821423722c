/-
Manifests: the descriptions of a project and of its components, as they
are stored in files.
-/
import Datapack.Project

namespace Datapack

-- ============================================================= projects

/-- The description of a project. -/
structure ProjectManifest where
  name : String
  space : String
  description : Option String := none
  author : Option String := none
  version : Option String := none
  deriving DecidableEq, Repr

/-- The project described; what the manifest leaves out has its default. -/
def ProjectManifest.toProject (manifest : ProjectManifest) : Project :=
  let blank : Project := { name := manifest.name, space := manifest.space }
  { blank with
    description := manifest.description.getD blank.description
    author := manifest.author.getD blank.author
    version := manifest.version.getD blank.version }

-- =========================================================== components

/-- The description of a method. -/
structure MethodManifest where
  name : String
  visibility : Visibility := .anyone
  hooks : HookSet := .none
  tags : NameSet := Table.empty
  guarded : Bool := false
  body : List Statement := []

/-- The method described. -/
def MethodManifest.toMethod (manifest : MethodManifest) : Method where
  name := manifest.name
  visibility := manifest.visibility
  hooks := manifest.hooks
  tags := manifest.tags
  guarded := manifest.guarded
  body := manifest.body.map .perform

/-- The description of a component. -/
structure ComponentManifest where
  name : Option String := none
  base : Option String := none
  isAbstract : Bool := false
  methods : List MethodManifest := []

/-- The component described, in a namespace; one without a name has that of
its file. -/
def ComponentManifest.toComponent (manifest : ComponentManifest)
    (space file : String) :
    Component :=
  .declare space (manifest.name.getD file) manifest.base manifest.isAbstract
    (manifest.methods.map MethodManifest.toMethod)

end Datapack
