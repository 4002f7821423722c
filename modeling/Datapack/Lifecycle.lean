/-
When a method runs and who may call it. A method may be hooked to moments
in the life of the entities its component is attached to: `init` and
`destroy` come with attaching and detaching, `tick` and `load` with the
game's own tags.
-/
namespace Datapack

/-- Who may call a method: anyone, or only the component that owns it. -/
inductive Visibility where
  | anyone
  | owner
  deriving DecidableEq, Repr, Inhabited

/-- The word for a visibility in manifests. -/
def Visibility.word : Visibility → String
  | .anyone => "public"
  | .owner => "private"

/-- The visibility of a word. -/
def Visibility.ofWord? (word : String) : Option Visibility :=
  [Visibility.anyone, .owner].find? fun visibility => visibility.word == word

/-- A moment that a method can be hooked to. -/
inductive Hook where
  | init
  | destroy
  | tick
  | load
  deriving DecidableEq, Repr

namespace Hook

/-- Every hook, in the order in which hooks are listed everywhere. -/
def all : List Hook := [.init, .destroy, .tick, .load]

/-- The word for a hook in manifests and locations. -/
def word : Hook → String
  | .init => "init"
  | .destroy => "destroy"
  | .tick => "tick"
  | .load => "load"

/-- The hook of a word. -/
def ofWord? (word : String) : Option Hook :=
  all.find? fun hook => hook.word == word

/-- The game's tag that a hook is run from, for hooks that attaching and
detaching do not drive. -/
def gameTag? : Hook → Option String
  | .tick => some "minecraft:tick"
  | .load => some "minecraft:load"
  | .init | .destroy => none

end Hook

/-- A set of hooks, one flag for each. -/
structure HookSet where
  init : Bool := false
  destroy : Bool := false
  tick : Bool := false
  load : Bool := false
  deriving DecidableEq, Repr, Inhabited

namespace HookSet

/-- No hook. -/
def none : HookSet := {}

/-- The hook is in the set. -/
def has (hooks : HookSet) : Hook → Bool
  | .init => hooks.init
  | .destroy => hooks.destroy
  | .tick => hooks.tick
  | .load => hooks.load

/-- The set with one more hook. -/
def add (hooks : HookSet) : Hook → HookSet
  | .init => { hooks with init := true }
  | .destroy => { hooks with destroy := true }
  | .tick => { hooks with tick := true }
  | .load => { hooks with load := true }

/-- The set of the hooks listed. -/
def ofList (hooks : List Hook) : HookSet :=
  hooks.foldl add none

/-- The hooks of the set, in the order of `Hook.all`. -/
def toList (hooks : HookSet) : List Hook :=
  Hook.all.filter hooks.has

end HookSet

end Datapack
