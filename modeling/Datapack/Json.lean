/-
JSON values as they are written. A text may be written with a surrogate
escape that has no partner; such a text stands for no string, which
matters only to a reader that looks at it, so values keep the fact.
Numbers keep their digits for the same reason: most readers pass over
them, and only some need to know that they stand for a finite quantity.
-/
namespace Datapack

namespace Json

/-- A number by its digits: sign, digits before the point, digits after it
and an exponent, negative if flagged. -/
structure Number where
  negative : Bool
  whole : List Char
  fraction : List Char
  exponent : Option (Bool × List Char)
  deriving DecidableEq, Repr

/-- A text, or nothing for one with a surrogate that has no partner. -/
abbrev Text := Option String

end Json

/-- A JSON value. The members of an object keep their order, and names may
repeat. -/
inductive Json where
  | null
  | bool (value : Bool)
  | number (value : Json.Number)
  | string (text : Json.Text)
  | array (items : List Json)
  | object (members : List (Json.Text × Json))
  deriving Inhabited

namespace Json

-- ============================================================== numbers

namespace Number

/-- A natural number. -/
def ofNat (n : Nat) : Number := ⟨false, Nat.toDigits 10 n, [], none⟩

/-- The value of decimal digits. -/
def value (digits : List Char) : Nat :=
  digits.foldl (fun n c => 10 * n + (c.toNat - '0'.toNat)) 0

/-- The number as a position: written without sign, point and exponent, and
below 2⁶⁴. -/
def position? (n : Number) : Option Nat :=
  if n.negative || !n.fraction.isEmpty || n.exponent.isSome then none
  else if value n.whole < Nat.pow 2 64 then some (value n.whole)
  else none

/-- The least magnitude that is too large for a double: half a unit above
the largest one. -/
def overflow : Nat := Nat.pow 2 1024 - Nat.pow 2 970

/-- The number is small enough for a double. The number of its digits
settles all but a narrow band, in which powers of ten are compared. -/
def isFinite (n : Number) : Bool :=
  let significand := value (n.whole ++ n.fraction)
  let exponent : Int := match n.exponent with
    | none => 0
    | some (true, digits) => - (value digits : Int)
    | some (false, digits) => value digits
  let scale : Int := exponent - n.fraction.length
  let magnitude : Int := (Nat.toDigits 10 significand).length + scale
  if significand = 0 || magnitude < 300 then true
  else if 400 < magnitude then false
  else if 0 ≤ scale then significand * Nat.pow 10 scale.toNat < overflow
  else significand < overflow * Nat.pow 10 (-scale).toNat

end Number

/-- A natural number as a value. -/
def ofNat (n : Nat) : Json := .number (.ofNat n)

/-- A string as a value. -/
def ofString (s : String) : Json := .string (some s)

/-- An object with these members. -/
def ofMembers (members : List (String × Json)) : Json :=
  .object (members.map fun member => (some member.1, member.2))

/-- The member that names the kind of a tagged value. -/
def tagName : String := "kind"

/-- A value tagged with its kind. -/
def ofTagged (kind : String) (members : List (String × Json)) : Json :=
  .ofMembers ((tagName, .ofString kind) :: members)

/-- An optional string as a value. -/
def ofOption : Option String → Json
  | none => .null
  | some s => .ofString s

/-- A list of strings as a value. -/
def ofStrings (strings : List String) : Json :=
  .array (strings.map ofString)

-- ============================================================== measures

mutual

/-- How deep arrays and objects are nested: 0 for a value that is neither. -/
def height : Json → Nat
  | .null | .bool _ | .number _ | .string _ => 0
  | .array items => 1 + itemsHeight items
  | .object members => 1 + membersHeight members

/-- The greatest height of an item. -/
def itemsHeight : List Json → Nat
  | [] => 0
  | item :: rest => max item.height (itemsHeight rest)

/-- The greatest height of a member. -/
def membersHeight : List (Json.Text × Json) → Nat
  | [] => 0
  | (_, value) :: rest => max value.height (membersHeight rest)

end

mutual

/-- Every text in the value stands for a string and every number for a
finite quantity. -/
def isDefinite : Json → Bool
  | .null | .bool _ => true
  | .number n => n.isFinite
  | .string text => text.isSome
  | .array items => itemsDefinite items
  | .object members => membersDefinite members

/-- Every item is definite. -/
def itemsDefinite : List Json → Bool
  | [] => true
  | item :: rest => item.isDefinite && itemsDefinite rest

/-- Every member is definite, its name included. -/
def membersDefinite : List (Json.Text × Json) → Bool
  | [] => true
  | (name, value) :: rest =>
    name.isSome && value.isDefinite && membersDefinite rest

end

end Json

end Datapack
