/-
One-line summaries of methods, for people who look into a definition.
-/
import Datapack.Component

namespace Datapack.Method

/-- A character inside a quoted text: quotes, backslashes and control
characters are escaped. -/
def summaryChar (c : Char) : List Char :=
  if c = '"' || c = '\\' then ['\\', c]
  else if c = '\n' then ['\\', 'n']
  else if c = '\r' then ['\\', 'r']
  else if c = '\t' then ['\\', 't']
  else if c = '\x00' then ['\\', '0']
  else if c.toNat < 0x20 || (0x7F ≤ c.toNat && c.toNat < 0xA0) then
    ['\\', 'u', '\x7b'] ++ Nat.toDigits 16 c.toNat ++ ['\x7d']
  else [c]

/-- A text in quotes. -/
def summaryText (text : String) : String :=
  String.ofList ('"' :: text.toList.flatMap summaryChar ++ ['"'])

/-- A set by its members. -/
def summarySet (members : List String) : String :=
  let listed := ", ".intercalate members
  s!"\x7b{listed}\x7d"

/-- The word for a visibility in summaries. -/
def summaryVisibility : Visibility → String
  | .anyone => "Public"
  | .owner => "Private"

/-- The word for a hook in summaries. -/
def summaryHook : Hook → String
  | .init => "Init"
  | .destroy => "Destroy"
  | .tick => "Tick"
  | .load => "Load"

/-- Everything about a method but its body. -/
def summary (method : Method) : String :=
  let fields := ", ".intercalate
    [s!"name: {summaryText method.name}",
      s!"visibility: {summaryVisibility method.visibility}",
      s!"hooks: {summarySet (method.hooks.toList.map summaryHook)}",
      s!"tags: {summarySet (method.tags.keys.map summaryText)}",
      s!"recursion_guard: {method.guarded}"]
  s!"MethodDefinition \x7b {fields}, .. \x7d"

end Datapack.Method
