/-
Manifests as JSON. Writing gives objects with every field, in a fixed
order; reading also takes what the formats of records and tagged values
allow besides.
-/
import Datapack.Body.Codec
import Datapack.Manifest

namespace Datapack

-- ============================================================== methods

namespace MethodManifest

/-- A method's manifest as JSON. -/
def toJson (manifest : MethodManifest) : Json :=
  .ofMembers
    [("name", .ofString manifest.name),
      ("visibility", .ofString manifest.visibility.word),
      ("hooks", .ofStrings (manifest.hooks.toList.map Hook.word)),
      ("tags", .ofStrings manifest.tags.keys),
      ("guarded", .bool manifest.guarded),
      ("body", .array (Statement.toJsons manifest.body))]

/-- The method's manifest in a value, which lies inside `depth` arrays and
objects; its statements lie inside two more. -/
def ofJson? (depth : Nat) (json : Json) : Option MethodManifest := do
  let [name, visibility, hooks, tags, guarded, body] ←
    json.fields? ["name", "visibility", "hooks", "tags", "guarded", "body"]
    | none
  return {
    name := ← Json.required Json.asString? name
    visibility :=
      ← Json.defaulted .anyone (Json.asWord? Visibility.ofWord?) visibility
    hooks := ← Json.defaulted .none
      (fun json =>
        (json.asList? (Json.asWord? Hook.ofWord?)).map HookSet.ofList) hooks
    tags := ← Json.defaulted Table.empty
      (fun json => json.asStrings?.map NameSet.ofList) tags
    guarded := ← Json.defaulted false Json.asBool? guarded
    body := ← Json.defaulted []
      (Json.asList? (Statement.ofJson? (Json.maxHeight - depth - 2))) body }

end MethodManifest

-- ============================================================ components

namespace ComponentManifest

/-- A component's manifest as JSON. -/
def toJson (manifest : ComponentManifest) : Json :=
  .ofMembers
    [("name", .ofOption manifest.name),
      ("base", .ofOption manifest.base),
      ("abstract", .bool manifest.isAbstract),
      ("methods", .array (manifest.methods.map MethodManifest.toJson))]

/-- The component's manifest in a value; its methods lie inside two arrays
and objects. -/
def ofJson? (json : Json) : Option ComponentManifest := do
  let [name, base, isAbstract, methods] ←
    json.fields? ["name", "base", "abstract", "methods"] | none
  return {
    name := ← Json.optional Json.asString? name
    base := ← Json.optional Json.asString? base
    isAbstract := ← Json.defaulted false Json.asBool? isAbstract
    methods :=
      ← Json.defaulted [] (Json.asList? (MethodManifest.ofJson? 2)) methods }

end ComponentManifest

-- ============================================================== projects

namespace ProjectManifest

/-- A project's manifest as JSON. -/
def toJson (manifest : ProjectManifest) : Json :=
  .ofMembers
    [("name", .ofString manifest.name),
      ("namespace", .ofString manifest.space),
      ("description", .ofOption manifest.description),
      ("author", .ofOption manifest.author),
      ("version", .ofOption manifest.version)]

/-- The project's manifest in a value. -/
def ofJson? (json : Json) : Option ProjectManifest := do
  let [name, space, description, author, version] ←
    json.fields? ["name", "namespace", "description", "author", "version"]
    | none
  return {
    name := ← Json.required Json.asString? name
    space := ← Json.required Json.asString? space
    description := ← Json.optional Json.asString? description
    author := ← Json.optional Json.asString? author
    version := ← Json.optional Json.asString? version }

end ProjectManifest

end Datapack
