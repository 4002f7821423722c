/-
Statements, commands and clauses as JSON. A statement is tagged with its
kind; a command or a clause is the list of its tokens.
-/
import Datapack.Body
import Datapack.Json.Decoder

namespace Datapack

-- ============================================================== commands

/-- A command as JSON. -/
def Command.toJson (command : Command) : Json := .ofStrings command.tokens

/-- The command that a value describes. -/
def Command.ofJson? (json : Json) : Option Command :=
  json.asStrings?.map Command.mk

/-- A clause as JSON. -/
def Clause.toJson (clause : Clause) : Json := .ofStrings clause.tokens

/-- The clause that a value describes. -/
def Clause.ofJson? (json : Json) : Option Clause :=
  json.asStrings?.map Clause.mk

-- ============================================================ statements

namespace Statement

/-- The kinds of statements, in their order. -/
def kinds : List String :=
  ["run", "say", "log", "error", "addTag", "removeTag", "function",
    "functionTag", "invoke", "call", "attach", "detach", "execute"]

mutual

/-- A statement as JSON. -/
def toJson : Statement → Json
  | .run tokens => Json.ofTagged "run" [("tokens", .ofStrings tokens)]
  | .say message => Json.ofTagged "say" [("message", .ofString message)]
  | .log message => Json.ofTagged "log" [("message", .ofString message)]
  | .error message => Json.ofTagged "error" [("message", .ofString message)]
  | .addTag tag => Json.ofTagged "addTag" [("tag", .ofString tag)]
  | .removeTag tag => Json.ofTagged "removeTag" [("tag", .ofString tag)]
  | .function location =>
    Json.ofTagged "function" [("location", .ofString location)]
  | .functionTag location =>
    Json.ofTagged "functionTag" [("location", .ofString location)]
  | .invoke method => Json.ofTagged "invoke" [("method", .ofString method)]
  | .call component method =>
    Json.ofTagged "call" [("component", .ofString component),
      ("method", .ofString method)]
  | .attach component =>
    Json.ofTagged "attach" [("component", .ofString component)]
  | .detach component =>
    Json.ofTagged "detach" [("component", .ofString component)]
  | .execute clauses body =>
    Json.ofTagged "execute"
      [("clauses", .array (clauses.map Clause.toJson)),
        ("body", .array (toJsons body))]

/-- Statements as JSON. -/
def toJsons : List Statement → List Json
  | [] => []
  | statement :: rest => statement.toJson :: toJsons rest

end

/-- A statement with a single text. -/
def ofText? (make : String → Statement) (field : String) (rest : Json) :
    Option Statement := do
  let [text] ← rest.fields? [field] | none
  return make (← Json.required Json.asString? text)

/-- A statement that is definite, with blocks nested at most as deep as
`depth`. -/
def ofDefinite? : (depth : Nat) → (nested : Bool) → Json → Option Statement
  | 0, _, _ => none
  | depth + 1, nested, json => do
    let (tag, rest) ← json.tagged?
    match ← Json.tagWord? nested kinds tag with
    | "run" =>
      let [tokens] ← rest.fields? ["tokens"] | none
      return .run (← Json.required Json.asStrings? tokens)
    | "say" => ofText? .say "message" rest
    | "log" => ofText? .log "message" rest
    | "error" => ofText? .error "message" rest
    | "addTag" => ofText? .addTag "tag" rest
    | "removeTag" => ofText? .removeTag "tag" rest
    | "function" => ofText? .function "location" rest
    | "functionTag" => ofText? .functionTag "location" rest
    | "invoke" => ofText? .invoke "method" rest
    | "call" =>
      let [component, method] ← rest.fields? ["component", "method"] | none
      return .call (← Json.required Json.asString? component)
        (← Json.required Json.asString? method)
    | "attach" => ofText? .attach "component" rest
    | "detach" => ofText? .detach "component" rest
    | "execute" =>
      let [clauses, body] ← rest.fields? ["clauses", "body"] | none
      return .execute (← Json.required (Json.asList? Clause.ofJson?) clauses)
        (← Json.defaulted [] (Json.asList? (ofDefinite? depth true)) body)
    | _ => none

/-- The statement that a value with `room` for nesting describes. -/
def ofJson? (room : Nat) (json : Json) : Option Statement :=
  if json.fits room then ofDefinite? (json.height + 1) false json else none

end Statement

end Datapack
