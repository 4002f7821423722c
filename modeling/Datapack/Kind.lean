/-
The kinds of things that are registered and the kinds of nodes that a
build makes of them.
-/
namespace Datapack

/-- What a name can be registered for. -/
inductive ResourceKind where
  | component
  | method
  deriving DecidableEq, Repr

namespace ResourceKind

/-- The word for a kind in manifests. -/
def word : ResourceKind → String
  | .component => "component"
  | .method => "method"

/-- The kind of a word. -/
def ofWord? (word : String) : Option ResourceKind :=
  [component, method].find? fun kind => kind.word == word

/-- The noun for a kind in messages. -/
def noun : ResourceKind → String
  | .component => "component"
  | .method => "component method"

end ResourceKind

/-- What a node of the build tree stands for. -/
inductive NodeKind where
  | project
  | component
  | method
  | function
  | tag
  deriving DecidableEq, Repr

/-- The noun for a node in messages. -/
def NodeKind.noun : NodeKind → String
  | .project => "Project"
  | .component => "Component"
  | .method => "Method"
  | .function => "Function"
  | .tag => "Tag"

end Datapack
