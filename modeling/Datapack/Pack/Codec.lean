/-
Artifacts as JSON, tagged with their kind.
-/
import Datapack.Json.Decoder
import Datapack.Pack

namespace Datapack.Artifact

/-- An artifact as JSON. -/
def toJson : Artifact → Json
  | .function f => Json.ofTagged "function"
    [("location", .ofString f.location), ("commands", .ofStrings f.commands)]
  | .tag t => Json.ofTagged "tag"
    [("location", .ofString t.location), ("members", .ofStrings t.members)]

/-- The artifact that a value describes. -/
def ofJson? (json : Json) : Option Artifact := do
  if !json.fits Json.maxHeight then none
  let (kind, rest) ← json.tagged?
  match ← Json.tagWord? false [] kind with
  | "function" =>
    let [location, commands] ← rest.fields? ["location", "commands"] | none
    return .function ⟨← Json.required Json.asString? location,
      ← Json.required Json.asStrings? commands⟩
  | "tag" =>
    let [location, members] ← rest.fields? ["location", "members"] | none
    return .tag ⟨← Json.required Json.asString? location,
      ← Json.required Json.asStrings? members⟩
  | _ => none

end Datapack.Artifact
