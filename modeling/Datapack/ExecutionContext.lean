/-
Execution contexts. A command can run under the clauses of an `execute`
chain, such as `as @a`; the context of a command is the list of all
clauses around it. A command that stands in a function is wrapped only in
the clauses that the function's own context does not have yet.
-/
import Datapack.Command
import Datapack.Failure

namespace Datapack

/-- One clause of an `execute` chain, such as `as @e[tag=x]`. -/
structure Clause where
  tokens : List String
  deriving DecidableEq, Repr, Inhabited

/-- The clause has no tokens, so it says nothing. -/
def Clause.isEmpty (clause : Clause) : Bool :=
  clause.tokens.isEmpty

/-- The tokens that put a command under the clauses: none for no clauses. -/
def Clause.wrapper (clauses : List Clause) : List String :=
  if clauses.isEmpty then []
  else "execute" :: clauses.flatMap Clause.tokens ++ ["run"]

/-- The clauses that are in force, outermost first. -/
structure ExecutionContext where
  clauses : List Clause
  deriving DecidableEq, Repr, Inhabited

namespace ExecutionContext

/-- The context of a function that was called without clauses. -/
def empty : ExecutionContext := ⟨[]⟩

/-- No clause is in force. -/
def isEmpty (context : ExecutionContext) : Bool :=
  context.clauses.isEmpty

/-- The number of clauses in force. -/
def length (context : ExecutionContext) : Nat :=
  context.clauses.length

/-- The context inside further clauses; empty ones add nothing. -/
def enter (context : ExecutionContext) (clauses : List Clause) :
    ExecutionContext :=
  ⟨context.clauses ++ clauses.filter fun clause => !clause.isEmpty⟩

/-- The context is `base` or lies inside it. -/
def extends? (context base : ExecutionContext) : Bool :=
  base.clauses.isPrefixOf context.clauses

/-- The clauses in force here and not in `base`. -/
def beyond? (context base : ExecutionContext) : Option (List Clause) :=
  if context.extends? base then some (context.clauses.drop base.length)
    else none

/-- The tokens that bring a command from `base` into this context. -/
def wrapperFrom (context base : ExecutionContext) :
    Except Defect (List String) :=
  match context.beyond? base with
  | some clauses => .ok (Clause.wrapper clauses)
  | none =>
    .error (.detachedContext (context.clauses.map Clause.tokens)
      (base.clauses.map Clause.tokens))

end ExecutionContext

end Datapack
