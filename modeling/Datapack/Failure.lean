/-
Why a build fails. A defect is one cause, found by the build itself; a
failure is a defect, or a text from outside, under any number of layers
that say which step of the build it stopped. The layers of steps carry
labels, which together tell where in the project the defect lies.
-/
import Datapack.Kind

namespace Datapack

-- ============================================================== defects

/-- A cause of failure that the build found itself. -/
inductive Defect where
  /-- A name is taken. -/
  | duplicate (space : String) (kind : ResourceKind) (name : String)
  /-- An abstract component was to be attached or detached. -/
  | abstractComponent (component : String)
  /-- A command was added to a function that is finished. -/
  | closedFunction (label : String)
  /-- A command's execution context is not inside that of its function. -/
  | detachedContext (current base : List (List String))
  /-- A command was emitted while no function was being built. -/
  | noActiveFunction
  /-- A method was invoked outside of a component. -/
  | noActiveComponent (method : String)
  /-- A node that is not a function was used as one. -/
  | notAFunction (node : Nat) (kind : NodeKind)
  /-- A node was used that the tree does not have. -/
  | noSuchNode (node : Nat)
  | invalidNamespace (space : String)
  | invalidComponentName (name : String)
  | invalidMethodName (method component : String)
  /-- A definition was registered as something else. -/
  | kindMismatch (actual : ResourceKind) (name : String)
    (expected : ResourceKind)
  /-- The names walked from a component along its bases, the last of which
  was met before. -/
  | inheritanceCycle (walked : List String)
  | unknownBase (component base : String)
  | unknownComponent (component : String)
  | unknownMethod (component method : String)
  | privateMethod (component method : String)
  /-- A defect with a code and a message of its own. -/
  | custom (code message : String)
  deriving DecidableEq, Repr

namespace Defect

/-- The clauses of an execution context in a message. -/
def clausesText (clauses : List (List String)) : String :=
  ", ".intercalate (clauses.map fun tokens => " ".intercalate tokens)

/-- The code that names the kind of defect. -/
def code : Defect → String
  | duplicate .. => "RESOURCE_DUPLICATE"
  | abstractComponent .. => "COMPONENT_ABSTRACT"
  | closedFunction .. => "BUILDER_CLOSED"
  | detachedContext .. => "EXECUTION_CONTEXT_DETACHED"
  | noActiveFunction => "NO_ACTIVE_FUNCTION"
  | noActiveComponent .. => "NO_ACTIVE_COMPONENT"
  | notAFunction .. | noSuchNode .. => "BUILD_NODE_KIND"
  | invalidNamespace .. => "NAMESPACE_INVALID"
  | invalidComponentName .. => "COMPONENT_NAME_INVALID"
  | invalidMethodName .. => "METHOD_NAME_INVALID"
  | kindMismatch .. => "RESOURCE_KIND_MISMATCH"
  | inheritanceCycle .. => "INHERITANCE_CYCLE"
  | unknownBase .. => "BASE_COMPONENT_NOT_FOUND"
  | unknownComponent .. => "COMPONENT_NOT_FOUND"
  | unknownMethod .. => "METHOD_NOT_FOUND"
  | privateMethod .. => "METHOD_PRIVATE"
  | custom code _ => code

/-- The sentence that describes the defect. -/
def sentence : Defect → String
  | duplicate space kind name =>
    s!"{kind.noun} \"{name}\" already exists in namespace \"{space}\""
  | abstractComponent component =>
    s!"component \"{component}\" is abstract and cannot be attached or detached"
  | closedFunction label =>
    s!"function \"{label}\" is no longer open for commands"
  | detachedContext current base =>
    let own := clausesText current
    let outer := clausesText base
    s!"Execution context [{own}] does not extend the enclosing context [{outer}]."
  | noActiveFunction =>
    "Commands can only be emitted while a function is being built."
  | noActiveComponent method =>
    s!"Cannot invoke \"{method}\" outside of a component."
  | notAFunction node kind =>
    s!"Build node {node} is a {kind.noun}, not a function."
  | noSuchNode node => s!"Build node {node} does not exist."
  | invalidNamespace space => s!"Invalid namespace \"{space}\"."
  | invalidComponentName name => s!"Invalid component name \"{name}\"."
  | invalidMethodName method component =>
    s!"Invalid method name \"{method}\" in component \"{component}\"."
  | kindMismatch actual name expected =>
    s!"Cannot register {actual.noun} \"{name}\" as a {expected.noun}."
  | inheritanceCycle walked =>
    let names := " -> ".intercalate walked
    s!"Inheritance cycle detected: {names}"
  | unknownBase component base =>
    s!"Component \"{component}\" inherits from unknown component \"{base}\"."
  | unknownComponent component => s!"Component \"{component}\" is not declared."
  | unknownMethod component method =>
    s!"Component \"{component}\" has no method \"{method}\"."
  | privateMethod component method =>
    s!"Method \"{method}\" of component \"{component}\" is private."
  | custom _ message => message

/-- The text of the defect: the sentence, behind the code unless the
sentence says as much itself. -/
def message (defect : Defect) : String :=
  match defect with
  | duplicate .. | abstractComponent .. | closedFunction .. => defect.sentence
  | _ => s!"{defect.code}: {defect.sentence}"

end Defect

-- ============================================================= failures

/-- A cause under the layers through which it was passed on. -/
inductive Failure where
  /-- A defect that the build found. -/
  | defect (cause : Defect)
  /-- A text from outside the build. -/
  | foreign (text : String)
  /-- A step of the build, named by its label, that failed. -/
  | step (label : String) (source : Failure)
  /-- A text from outside the build that was put over a failure. -/
  | wrapped (text : String) (source : Failure)
  deriving DecidableEq, Repr

instance : Coe Defect Failure := ⟨Failure.defect⟩

namespace Failure

/-- The code of a failed step. -/
def stepCode : String := "BUILD_FAILED"

/-- The text of the outermost layer. -/
def message : Failure → String
  | defect cause => cause.message
  | foreign text | wrapped text _ => text
  | step label _ => label

/-- The code of the outermost layer, if that is the build's own. -/
def code? : Failure → Option String
  | defect cause => some cause.code
  | step .. => some stepCode
  | foreign .. | wrapped .. => none

/-- The code of the outermost layer. A build ends with a layer of its own,
since every text from outside is passed on inside a step. -/
def code (failure : Failure) : String :=
  failure.code?.getD stepCode

/-- The failure inside the outermost layer. -/
def source? : Failure → Option Failure
  | defect .. | foreign .. => none
  | step _ source | wrapped _ source => some source

/-- The failure and everything inside it, outermost first. -/
def layers : Failure → List Failure
  | f@(defect ..) | f@(foreign ..) => [f]
  | f@(step _ source) | f@(wrapped _ source) => f :: source.layers

/-- The labels of all steps, outermost first. -/
def labels : Failure → List String
  | defect .. | foreign .. => []
  | step label source => label :: source.labels
  | wrapped _ source => source.labels

/-- The failure directly inside the innermost step. -/
def innermost? : Failure → Option Failure
  | defect .. | foreign .. => none
  | step _ source => source.innermost?.or (some source)
  | wrapped _ source => source.innermost?

/-- The innermost layer. -/
def root : Failure → Failure
  | f@(defect ..) | f@(foreign ..) => f
  | step _ source | wrapped _ source => source.root

end Failure

end Datapack
