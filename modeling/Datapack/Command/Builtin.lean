/-
The game's commands that statements and components are compiled to.
-/
import Datapack.Command
import Datapack.Json.Printer

namespace Datapack.Command

/-- Says a message in the chat. -/
def say (message : String) : Command := ⟨["say", message]⟩

/-- Shows everyone a message in a colour, behind a heading. -/
def announce (message color heading : String) : Command :=
  let payload := Json.ofMembers
    [("color", .ofString color), ("text", .ofString s!"{heading} {message}")]
  ⟨["tellraw", "@a", payload.render]⟩

/-- Shows everyone a message of the log. -/
def log (message : String) : Command := announce message "gray" "[LOG]"

/-- Shows everyone an error. -/
def error (message : String) : Command := announce message "red" "[ERR]"

/-- Puts an entity tag on the executing entity. -/
def addTag (tag : String) : Command := ⟨["tag", "@s", "add", tag]⟩

/-- Takes an entity tag off the executing entity. -/
def removeTag (tag : String) : Command := ⟨["tag", "@s", "remove", tag]⟩

/-- Calls a function. -/
def function (location : String) : Command := ⟨["function", location]⟩

/-- Calls every function of a tag. -/
def functionTag (location : String) : Command := ⟨["function", s!"#{location}"]⟩

end Datapack.Command
