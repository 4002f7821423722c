/-
Where the parts of a pack are found: the location `namespace:path` of a
function or a tag, the entity tags that mark attached components, the
templates of generated names, and the file that a location is stored in.
-/
import Datapack.Lifecycle

namespace Datapack.Location

-- ========================================================= reading one

/-- The namespace of a location that names none. -/
def defaultNamespace : String := "minecraft"

/-- Namespace and path, divided at the first colon. -/
def split (location : String) : String × String :=
  let text := location.toList
  match text.dropWhile (· != ':') with
  | [] => (defaultNamespace, location)
  | _ :: path => (String.ofList (text.takeWhile (· != ':')), String.ofList path)

/-- The location, in `space` unless it names a namespace itself. -/
def qualify (space location : String) : String :=
  if location.toList.contains ':' then location else s!"{space}:{location}"

-- ==================================================== functions and tags

/-- The function that a method is built into. An inherited method has the
ancestor that declared it in its path, a private one a segment that no
method name can be mistaken for on its own. -/
def ofMethod (space component : String) (origin : Option String)
    (visibility : Visibility) (method : String) : String :=
  let inherited := match origin with
    | none => ""
    | some ancestor => s!"{ancestor}/"
  let hidden := match visibility with
    | .anyone => ""
    | .owner => "_private/"
  s!"{space}:component/{component}/{inherited}{hidden}{method}"

/-- The function that attaches a component to the executing entity. -/
def ofAttach (space component : String) : String :=
  s!"{space}:attach/{component}"

/-- The function that detaches a component from the executing entity. -/
def ofDetach (space component : String) : String :=
  s!"{space}:detach/{component}"

/-- The tag that lists a component's methods with the hook. -/
def callbackTag (space : String) (hook : Hook) (component : String) : String :=
  s!"{space}:component/callback/{hook.word}/{component}"

/-- The entity tag that marks the entities a component is attached to. -/
def marker (space component : String) : String :=
  s!"{space}.component.{component}"

-- ======================================================= generated names

/-- Stands for the number in the template of generated names. -/
def placeholder : String := "\x7bname\x7d"

/-- The template of generated functions. -/
def functionTemplate (space : String) : String :=
  s!"{space}:generated/{placeholder}"

/-- The template of generated entity tags. -/
def tagTemplate (space : String) : String :=
  s!"{space}.generated.{placeholder}"

-- ================================================================ files

/-- The file of a function, relative to the pack. -/
def functionFile (location : String) : String :=
  let (space, path) := split location
  s!"data/{space}/functions/{path}.mcfunction"

/-- The file of a function tag, relative to the pack. -/
def tagFile (location : String) : String :=
  let (space, path) := split location
  s!"data/{space}/tags/functions/{path}.json"

end Datapack.Location
