/-
The methods of a component, those inherited from its bases included. Own
methods come first, then those of the nearest base, and so on. A method is
overridden when a component nearer to the one resolved declares a method
of the same name; it can still be called by its ancestor's name, but its
hooks are void.
-/
import Datapack.Location
import Datapack.Registry

namespace Datapack

-- ============================================================= collection

/-- A method on its way from the component that declares it to the one that
is resolved. -/
structure Collected where
  /-- The ancestor that declared the method. -/
  origin : Option String
  /-- The hooks that are in force. -/
  hooks : HookSet
  overridden : Bool
  method : Method

namespace Collected

/-- A method where it is declared. -/
def own (method : Method) : Collected where
  origin := none
  hooks := method.hooks
  overridden := false
  method := method

/-- A method of `base` as `heir` has it. It is from `base` unless that has
inherited it too, and a method of the same name in `heir` overrides it. -/
def inherit (heir base : Component) (collected : Collected) : Collected :=
  let origin := some (collected.origin.getD base.name)
  if (heir.method? collected.method.name).isSome then
    { collected with origin := origin, hooks := .none, overridden := true }
  else
    { collected with origin := origin }

end Collected

/-- The methods of a component, which is reached by the `chain` of names: its
own, and then those of its base. Each step finds another registered
component, so `fuel` for all of them runs out only where a name has come up
twice: both cases are a cycle. -/
def Registry.collect (registry : Registry) :
    Nat → List String → Component → Except Defect (List Collected)
  | 0, chain, component =>
    .error (.inheritanceCycle (chain ++ [component.name]))
  | fuel + 1, chain, component =>
    if chain.contains component.name then
      .error (.inheritanceCycle (chain ++ [component.name]))
    else
      let own := component.methods.map Collected.own
      match component.base with
      | none => .ok own
      | some baseName =>
        match registry.component? component.space baseName with
        | none => .error (.unknownBase component.name baseName)
        | some base => do
          let inherited ← collect registry fuel (chain ++ [component.name]) base
          return own ++ inherited.map (.inherit component base)

-- ================================================================ members

/-- A method as a component has it. -/
structure Member where
  /-- The name, behind that of the ancestor it is inherited from. -/
  key : String
  /-- The ancestor that declared the method. -/
  origin : Option String
  location : String
  /-- The hooks that are in force. -/
  hooks : HookSet
  overridden : Bool
  method : Method

/-- A method that was collected for a component. -/
def Component.resolve (component : Component) (collected : Collected) :
    Member :=
  let method := collected.method
  { key := match collected.origin with
      | none => method.name
      | some ancestor => s!"{ancestor}/{method.name}"
    origin := collected.origin
    location := Location.ofMethod component.space component.name
      collected.origin method.visibility method.name
    hooks := collected.hooks
    overridden := collected.overridden
    method := method }

/-- All methods of a component. -/
def Registry.members (registry : Registry) (component : Component) :
    Except Defect (List Member) := do
  let collected ←
    registry.collect (registry.allComponents.length + 1) [] component
  return collected.map component.resolve

end Datapack
