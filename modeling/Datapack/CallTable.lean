/-
Where calls of methods lead. For each component the table has all its
methods under their keys and, for the nearest declaration of a name, under
the bare name.
-/
import Datapack.Resolution

namespace Datapack

/-- The function that a method was built into, and who may call it. -/
structure CallTarget where
  location : String
  visibility : Visibility
  deriving DecidableEq, Repr

/-- What calls find of a component. -/
structure ComponentCalls where
  isAbstract : Bool
  methods : Table CallTarget

namespace ComponentCalls

/-- Adds a method under its key, and under its name unless a nearer
declaration has that. -/
def insertMember (methods : Table CallTarget) (member : Member) :
    Table CallTarget :=
  let target : CallTarget := ⟨member.location, member.method.visibility⟩
  (methods.insert member.key target).insertNew member.method.name target

/-- The methods of a component, given nearest first. -/
def ofMembers (isAbstract : Bool) (members : List Member) : ComponentCalls :=
  ⟨isAbstract, members.foldl insertMember Table.empty⟩

end ComponentCalls

/-- The components of a project. -/
abbrev CallTable := Table ComponentCalls

namespace CallTable

/-- Adds a component with all its methods. -/
def insertComponent (table : CallTable) (component : Component)
    (members : List Member) : CallTable :=
  table.insert component.name (.ofMembers component.isAbstract members)

/-- The table of components with all their methods. -/
def ofComponents (components : List (Component × List Member)) : CallTable :=
  components.foldl (fun table entry => table.insertComponent entry.1 entry.2)
    Table.empty

/-- The methods of a component. -/
def component? (table : CallTable) (name : String) :
    Except Defect ComponentCalls :=
  match table.get? name with
  | some calls => .ok calls
  | none => .error (.unknownComponent name)

/-- The function that a call leads to, made from inside a component or from
elsewhere. A private method is called from inside its component only. -/
def resolve (table : CallTable) (caller : Option String)
    (component method : String) :
    Except Defect CallTarget := do
  let calls ← table.component? component
  match calls.methods.get? method with
  | none => .error (.unknownMethod component method)
  | some target =>
    if target.visibility = .owner && caller != some component then
      .error (.privateMethod component method)
    else .ok target

end CallTable

end Datapack
