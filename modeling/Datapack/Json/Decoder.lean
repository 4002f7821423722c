/-
Looking at JSON values. A record may be written as an object, in which
unknown members are passed over and known ones occur once, or as an array
of its fields in their order. A value that is tagged with its kind is read
whole before its kind is known, so every part of it has to stand for
something, and it may not be nested too deeply.
-/
import Datapack.Json.Reader

namespace Datapack.Json

/-- The greatest depth to which arrays and objects may be nested. -/
def maxHeight : Nat := 127

-- ============================================================== leaves

/-- A string. -/
def asString? : Json → Option String
  | .string text => text
  | _ => none

/-- A truth value. -/
def asBool? : Json → Option Bool
  | .bool value => some value
  | _ => none

/-- The items of an array, each looked at in the same way. -/
def asList? {α : Type} (item? : Json → Option α) : Json → Option (List α)
  | .array items => items.mapM item?
  | _ => none

/-- A list of strings. -/
def asStrings? : Json → Option (List String) :=
  asList? asString?

/-- A word for one of several things: a string, or an object with the word
as the name of its only member, which is null. -/
def asWord? {α : Type} (ofWord? : String → Option α) : Json → Option α
  | .string (some word) => ofWord? word
  | .object [(some word, .null)] => ofWord? word
  | _ => none

-- ============================================================= records

/-- The values of an object's member of a name, of which there is one at
most; `none` if there are more. -/
def member? (members : List (Json.Text × Json)) (name : String) :
    Option (Option Json) :=
  match members.filter fun member => member.1 == some name with
  | [] => some none
  | [member] => some (some member.2)
  | _ => none

/-- The fields of a record from the members of an object. -/
def fieldsOfMembers? (names : List String) (members : List (Json.Text × Json)) :
    Option (List (Option Json)) :=
  if members.all fun member => member.1.isSome then names.mapM (member? members)
    else none

/-- The fields of a record from an array, which may end early. -/
def fieldsOfItems? : List String → List Json → Option (List (Option Json))
  | [], [] => some []
  | [], _ :: _ => none
  | _ :: names, [] => (fieldsOfItems? names []).map (none :: ·)
  | _ :: names, item :: items =>
    (fieldsOfItems? names items).map (some item :: ·)

/-- The fields of a record. -/
def fields? (names : List String) : Json → Option (List (Option Json))
  | .object members => fieldsOfMembers? names members
  | .array items => fieldsOfItems? names items
  | _ => none

/-- A field that has to be there. -/
def required {α : Type} (look? : Json → Option α) (field : Option Json) :
    Option α :=
  field.bind look?

/-- A field that may be left out, for a default. -/
def defaulted {α : Type} (default : α) (look? : Json → Option α) :
    Option Json → Option α
  | none => some default
  | some json => look? json

/-- A field that may be left out or null. -/
def optional {α : Type} (look? : Json → Option α) :
    Option Json → Option (Option α)
  | none | some .null => some none
  | some json => (look? json).map some

-- ======================================================== tagged values

/-- The tag of a value, and the rest of it: the members besides the tag, or
the items after it. -/
def tagged? : Json → Option (Json × Json)
  | .object members =>
    match member? members tagName with
    | some (some tag) =>
      some (tag,
        .object (members.filter fun member => member.1 != some tagName))
    | _ => none
  | .array (tag :: items) => some (tag, .array items)
  | _ => none

/-- The value is definite and not nested deeper than `room`. -/
def fits (room : Nat) (json : Json) : Bool :=
  json.height ≤ room && json.isDefinite

/-- A tag as a string, or, inside a tagged value, also as the position of
its kind in the list of all kinds. -/
def tagWord? (nested : Bool) (kinds : List String) : Json → Option String
  | .string text => text
  | .number n => if nested then n.position?.bind fun i => kinds[i]? else none
  | _ => none

-- ================================================================ texts

/-- What a text describes, if it is JSON that describes something. -/
def decode? {α : Type} (look? : Json → Option α) (text : String) : Option α :=
  (Json.read text.toList).bind look?

end Datapack.Json
