/-
What the body of a method consists of. A manifest's body is a list of
statements: commands, calls of methods, and blocks that run under the
clauses of an `execute` chain. A body that a program puts together has
actions, which are statements and, beyond them, ways to emit under clauses
without a block, to ask for fresh names, and to fail or to catch failures.
-/
import Datapack.ExecutionContext

namespace Datapack

/-- A statement of a manifest. -/
inductive Statement where
  /-- Any command. -/
  | run (tokens : List String)
  | say (message : String)
  | log (message : String)
  | error (message : String)
  | addTag (tag : String)
  | removeTag (tag : String)
  /-- Calls a function, of the project's namespace unless it names one. -/
  | function (location : String)
  /-- Calls a tag's functions, of the project's namespace unless it names
  one. -/
  | functionTag (location : String)
  /-- Calls a method of the component being built. -/
  | invoke (method : String)
  /-- Calls a method of some component. -/
  | call (component method : String)
  /-- Attaches a component to the executing entity. -/
  | attach (component : String)
  /-- Detaches a component from the executing entity. -/
  | detach (component : String)
  /-- Runs a block under clauses. -/
  | execute (clauses : List Clause) (body : List Statement)
  deriving Inhabited

/-- An action of a method's body. -/
inductive Action where
  | perform (statement : Statement)
  /-- Runs a block under clauses. -/
  | execute (clauses : List Clause) (body : List Action)
  /-- Emits commands under clauses, each on its own. -/
  | inline (clauses : List Clause) (commands : List Command)
  /-- Emits a command as it is. -/
  | direct (command : Command)
  /-- Takes a fresh entity tag, and puts it on the executing entity if
  asked to. -/
  | freshTag (emit : Bool)
  /-- Says which component is being built, and in which namespace. -/
  | whoami
  | fail (failure : Failure)
  /-- Runs a block and says what it failed with, if it fails. -/
  | attempt (body : List Action)
  /-- Runs a block as a step with a label. -/
  | labelled (label : String) (body : List Action)
  /-- Runs a block a number of times. -/
  | iterate (times : Nat) (body : List Action)
  deriving Inhabited

end Datapack
