/-
Writing JSON, compactly on one line or over several lines with an indent
of two spaces. Both write a character as itself unless JSON demands an
escape, and take the short escape where there is one.
-/
import Datapack.Json

namespace Datapack.Json

-- ================================================================ texts

/-- One hexadecimal digit. -/
def hexDigit (n : Nat) : Char :=
  if n < 10 then Char.ofNat ('0'.toNat + n)
    else Char.ofNat ('a'.toNat + (n - 10))

/-- A character inside a text. -/
def escape (c : Char) : List Char :=
  if c = '"' then ['\\', '"']
  else if c = '\\' then ['\\', '\\']
  else if c = '\x08' then ['\\', 'b']
  else if c = '\x0c' then ['\\', 'f']
  else if c = '\n' then ['\\', 'n']
  else if c = '\r' then ['\\', 'r']
  else if c = '\t' then ['\\', 't']
  else if c.toNat < 0x20 then
    ['\\', 'u', '0', '0', hexDigit (c.toNat / 16), hexDigit (c.toNat % 16)]
  else [c]

/-- A text in quotes. -/
def quote (text : List Char) : List Char :=
  '"' :: text.flatMap escape ++ ['"']

/-- A text in quotes, or a lone surrogate for one that is no string. -/
def textChars : Json.Text → List Char
  | some text => quote text.toList
  | none => ['"', '\\', 'u', 'd', '8', '0', '0', '"']

/-- A string as a JSON text. -/
def quoted (s : String) : String :=
  String.ofList (quote s.toList)

-- ============================================================== numbers

/-- The digits of a number. -/
def Number.chars (n : Number) : List Char :=
  let sign := if n.negative then ['-'] else []
  let fraction := if n.fraction.isEmpty then [] else '.' :: n.fraction
  let exponent := match n.exponent with
    | none => []
    | some (negative, digits) =>
      'e' :: (if negative then '-' :: digits else digits)
  sign ++ n.whole ++ fraction ++ exponent

-- ========================================================== one line

mutual

/-- The value on one line, without blanks. -/
def chars : Json → List Char
  | .null => ['n', 'u', 'l', 'l']
  | .bool true => ['t', 'r', 'u', 'e']
  | .bool false => ['f', 'a', 'l', 's', 'e']
  | .number n => n.chars
  | .string text => textChars text
  | .array items => '[' :: itemsChars items
  | .object members => '\x7b' :: membersChars members

/-- The items with their commas, and the closing bracket. -/
def itemsChars : List Json → List Char
  | [] => [']']
  | [item] => item.chars ++ [']']
  | item :: rest => item.chars ++ ',' :: itemsChars rest

/-- The members with their commas, and the closing brace. -/
def membersChars : List (Json.Text × Json) → List Char
  | [] => ['\x7d']
  | [(name, value)] => textChars name ++ ':' :: value.chars ++ ['\x7d']
  | (name, value) :: rest =>
      textChars name ++ ':' :: value.chars ++ ',' :: membersChars rest

end

/-- The value on one line. -/
def render (json : Json) : String :=
  String.ofList json.chars

-- ====================================================== several lines

/-- A new line with an indent. -/
def newline (indent : Nat) : List Char :=
  '\n' :: List.replicate (2 * indent) ' '

mutual

/-- The value over several lines, at an indent. -/
def prettyChars (indent : Nat) : Json → List Char
  | .null => ['n', 'u', 'l', 'l']
  | .bool true => ['t', 'r', 'u', 'e']
  | .bool false => ['f', 'a', 'l', 's', 'e']
  | .number n => n.chars
  | .string text => textChars text
  | .array items =>
    if items.isEmpty then ['[', ']'] else '[' :: prettyItems indent items
  | .object members =>
    if members.isEmpty then ['\x7b', '\x7d']
      else '\x7b' :: prettyMembers indent members

/-- The items, each on lines of its own, and the closing bracket. -/
def prettyItems (indent : Nat) : List Json → List Char
  | [] => newline indent ++ [']']
  | item :: rest =>
    newline (indent + 1) ++ prettyChars (indent + 1) item
      ++ (if rest.isEmpty then [] else [',']) ++ prettyItems indent rest

/-- The members, each on lines of its own, and the closing brace. -/
def prettyMembers (indent : Nat) : List (Json.Text × Json) → List Char
  | [] => newline indent ++ ['\x7d']
  | (name, value) :: rest =>
    newline (indent + 1) ++ textChars name ++ [':', ' ']
      ++ prettyChars (indent + 1) value
      ++ (if rest.isEmpty then [] else [',']) ++ prettyMembers indent rest

end

/-- The value over several lines, without a final line feed. -/
def pretty (json : Json) : String :=
  String.ofList (prettyChars 0 json)

end Datapack.Json
