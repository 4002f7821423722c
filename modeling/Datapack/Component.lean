/-
Components and their methods, as a project declares them.
-/
import Datapack.Body
import Datapack.Lifecycle
import Datapack.Name
import Datapack.Table

namespace Datapack

/-- A method of a component. -/
structure Method where
  name : String
  visibility : Visibility := .anyone
  hooks : HookSet := .none
  /-- Function tags that list the method besides those of its hooks. -/
  tags : NameSet := Table.empty
  /-- The method does not run while it is running. -/
  guarded : Bool := false
  body : List Action := []

/-- A component: a bundle of methods, which may inherit those of a base. An
abstract one is only inherited from. -/
structure Component where
  space : String
  name : String
  base : Option String := none
  isAbstract : Bool := false
  methods : List Method := []

namespace Component

/-- The component of a declaration; its name and that of its base are put in
snake case. -/
def declare (space name : String) (base : Option String) (isAbstract : Bool)
    (methods : List Method) : Component where
  space := space
  name := Name.snakeCase name
  base := base.map Name.snakeCase
  isAbstract := isAbstract
  methods := methods

/-- The component's own method of a name. -/
def method? (component : Component) (name : String) : Option Method :=
  component.methods.find? fun method => method.name == name

end Component

end Datapack
