/-
Commands of the game. A command is a list of tokens; it is written on one
line, so a line feed inside a token becomes a space and the blanks around
a token go.
-/
import Datapack.Text.Blank

namespace Datapack

/-- The tokens of one command. -/
structure Command where
  tokens : List String
  deriving DecidableEq, Repr, Inhabited

namespace Command

/-- The command has no tokens. -/
def isEmpty (command : Command) : Bool :=
  command.tokens.isEmpty

/-- The command behind the tokens of a wrapper. -/
def behind (wrapper : List String) (command : Command) : Command :=
  ⟨wrapper ++ command.tokens⟩

/-- A token on one line: line feeds are spaces, the blanks around it go. -/
def renderToken (token : String) : String :=
  String.ofList
    (Text.trim (token.toList.map fun c => if c = '\n' then ' ' else c))

/-- The line of the command, its tokens divided by single spaces. -/
def render (command : Command) : String :=
  " ".intercalate (command.tokens.map renderToken)

end Command

end Datapack
