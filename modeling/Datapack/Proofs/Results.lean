/-
How plans end.

Nothing fails in a build of statements but calls that lead nowhere. The
leaves of a body are its statements in the order in which they run, each
with the clauses of all blocks around it; blocks have no part in how the
body ends. So the body ends with the defect of the first leaf that has one
(`Plan.ends_methodBody`), whatever was written before and whatever names
were taken, and the components end with the first failure in the order of
components, methods and leaves (`Plan.ends_components`).
-/
import Datapack.Proofs.Bodies

namespace Datapack

-- ================================================================= leaves

mutual

/-- The statements inside a statement that are not blocks, in order, each
with the clauses it runs under; empty clauses are left out. -/
def Statement.leaves
  (clauses : List Clause) : Statement → List (List Clause × Statement)
  | .execute more body =>
    Statement.leavesAll (clauses ++ more.filter fun clause => !clause.isEmpty)
      body
  | statement => [(clauses, statement)]

def Statement.leavesAll
  (clauses : List Clause) : List Statement → List (List Clause × Statement)
  | [] => []
  | statement :: rest =>
    statement.leaves clauses ++ Statement.leavesAll clauses rest

end

/-- What is wrong with a statement that is not a block. -/
def Statement.defect? (ground : Ground) (statement : Statement) :
    Option Defect :=
  match statement.command ground with
  | .ok _ => none
  | .error defect => some defect

/-- The defect of the first leaf that has one. -/
def Statement.firstDefect? (ground : Ground)
    (leaves : List (List Clause × Statement)) :
    Option Defect :=
  leaves.findSome? fun leaf => leaf.2.defect? ground

-- ================================================================ results

namespace Outcome

/-- Ends with the failure, or well if there is none. -/
def resultOf : Option Failure → Except Failure Unit
  | none => .ok ()
  | some failure => .error failure

/-- A step ends well if it has no failure. -/
theorem resultOf_eq_ok {failure? : Option Failure} :
    resultOf failure? = .ok () ↔ failure? = none := by
  cases failure? <;> simp [resultOf]

/-- A step ends with the failure that it has. -/
theorem resultOf_eq_error {failure? : Option Failure} {failure : Failure} :
    resultOf failure? = .error failure ↔ failure? = some failure := by
  cases failure? <;> simp [resultOf]

end Outcome

namespace Plan

open Outcome

/-- At every site of the ground, the plan ends with the failure, or well if
there is none. -/
def Ends (ground : Ground) (plan : Plan) (failure? : Option Failure) : Prop :=
  ∀ site : Site, site.toGround = ground → (plan site).result = resultOf failure?

variable {ground : Ground} {plan first second : Plan}
  {failure? other? : Option Failure}

namespace Ends

private theorem done : Ends ground .done none := fun _ _ => rfl

private theorem enter (entries : Site → List SheetEntry) :
    Ends ground (.enter entries) none :=
  fun _ _ => rfl

private theorem emit (cause : Cause) (command : Command) :
    Ends ground (.emit cause command) none :=
  fun _ _ => rfl

/-- A leaf ends with the defect of its call. -/
private theorem leaf (statement : Statement) :
    Ends ground (.leaf statement) ((statement.defect? ground).map .defect) := by
  intro site hground
  unfold Plan.leaf Statement.defect?
  rw [hground]
  cases statement.command ground <;> rfl

/-- The first of two steps that fails is how they end. -/
theorem andThen (h : Ends ground first failure?)
    (h' : Ends ground second other?) :
    Ends ground (first.andThen second) (failure?.or other?) := by
  intro site hground
  have hfirst := h site hground
  rcases andThen_cases first second site with ⟨failure, hfail, heq⟩ | ⟨hok, heq⟩
  · rw [hfail] at hfirst
    rw [heq, hfail, resultOf_eq_error.1 hfirst.symm]
    rfl
  · rw [hok] at hfirst
    rw [heq, resultOf_eq_ok.1 hfirst.symm]
    exact h' _ hground

/-- After a step that ends well the second decides. -/
private theorem after (h : Ends ground first none)
    (h' : Ends ground second other?) :
    Ends ground (first.andThen second) other? :=
  h.andThen h'

/-- Before a step that ends well the first decides. -/
private theorem before (h : Ends ground first failure?)
    (h' : Ends ground second none) :
    Ends ground (first.andThen second) failure? := by
  have hboth := h.andThen h'
  rwa [Option.or_none] at hboth

private theorem labelled (label : String) (h : Ends ground plan failure?) :
    Ends ground (plan.labelled label) (failure?.map (.step label)) := by
  intro site hground
  have hplan := h site hground
  unfold Plan.labelled
  cases failure? with
  | none =>
      rw [hplan]
      exact hplan
  | some failure => rw [hplan]; rfl

private theorem withTag {plan : String → Plan}
    (h : ∀ tag, Ends ground (plan tag) failure?) :
    Ends ground (.withTag plan) failure? :=
  fun site hground => h _ (site.after { tags := 1 }) hground

private theorem withFunction {plan : String → Plan}
    (h : ∀ location, Ends ground (plan location) failure?) :
    Ends ground (.withFunction plan) failure? :=
  fun site hground => h _ (site.after { functions := 1 }) hground

/-- A block ends as its body does. -/
theorem block (clauses : List Clause) (h : Ends ground plan failure?) :
    Ends ground (plan.block clauses) failure? := by
  intro site hground
  have hinner := h { site with context := site.context.enter clauses } hground
  rcases block_cases clauses plan site with heq | ⟨failure, hfail, heq⟩
    | ⟨hok, -, heq⟩
  · rw [heq]
    exact hinner
  · rw [heq, ← hinner, hfail]
  · rw [heq, ← hinner, hok]

private theorem function (location : String) (h : Ends ground plan failure?) :
    Ends ground (.function location plan) failure? :=
  fun site hground => h { site with context := .empty } hground

private theorem tag (value location : String) :
    Ends ground (.tag value location) none := fun _ _ => rfl

private theorem beneath (piece : Piece) (h : Ends ground plan failure?) :
    Ends ground (plan.beneath piece) failure? :=
  h

/-- How a plan ends inside a component depends on that component as the
caller. -/
private theorem within (component : String)
    (h : Ends { ground with component := component } plan failure?) :
    Ends ground (plan.within component) failure? := by
  intro site hground
  refine h { site with component := component } ?_
  rw [← hground]

/-- The first element of a list that fails is how the list ends. -/
theorem each {α : Type} {plan : α → Plan} {failure? : α → Option Failure} :
    ∀ {list : List α}, (∀ a ∈ list, Ends ground (plan a) (failure? a)) →
      Ends ground (.each plan list) (list.findSome? failure?)
  | [], _ => done
  | a :: rest, h => by
      have hrest := each fun b hb => h b (List.mem_cons_of_mem a hb)
      have hall := (h a List.mem_cons_self).andThen hrest
      rw [List.findSome?_cons]
      cases hfirst : failure? a with
      | none =>
          rw [hfirst] at hall
          exact hall
      | some failure =>
          rw [hfirst] at hall
          exact hall

/-- A list of steps that end well ends well. -/
private theorem eachWell {α : Type} {plan : α → Plan} {list : List α}
    (h : ∀ a ∈ list, Ends ground (plan a) none) :
    Ends ground (.each plan list) none := by
  have hall := each h
  rwa [List.findSome?_eq_none_iff.2 fun _ _ => rfl] at hall

end Ends

end Plan

-- ================================================================= bodies

mutual

/-- A statement ends with the first defect among its leaves. Blocks put
clauses around leaves, which no call depends on. -/
theorem Statement.ends
  (ground : Ground) : ∀ (statement : Statement) (clauses : List Clause),
    statement.plan.Ends ground
      ((Statement.firstDefect? ground (statement.leaves clauses)).map .defect)
  | .execute more body, clauses => by
      rw [Statement.plan, Statement.leaves]
      exact .block more (Statement.endsAll ground body _)
  | .run .., _ | .say .., _ | .log .., _ | .error .., _ | .addTag .., _
  | .removeTag .., _ | .function .., _ | .functionTag .., _ | .invoke .., _
  | .call .., _ | .attach .., _ | .detach .., _ => by
      rw [Statement.plan, Statement.leaves, Statement.firstDefect?,
        List.findSome?_singleton]
      · exact .leaf _
      all_goals exact fun _ _ h => by cases h

private theorem Statement.endsAll
  (ground : Ground) : ∀ (body : List Statement) (clauses : List Clause),
    (Statement.planAll body).Ends ground
      ((Statement.firstDefect? ground (Statement.leavesAll clauses body)).map
        .defect)
  | [], _ => by
      rw [Statement.planAll, Statement.leavesAll]
      exact .done
  | statement :: rest, clauses => by
      rw [Statement.planAll, Statement.leavesAll, Statement.firstDefect?,
        List.findSome?_append, Option.map_or]
      exact .andThen (statement.ends ground clauses)
        (Statement.endsAll ground rest clauses)

end

/-- Statements are planned as actions as they are by themselves. -/
theorem Action.planAll_perform (body : List Statement) :
    Action.planAll (body.map .perform) = Statement.planAll body := by
  induction body with
  | nil => rw [List.map_nil, Action.planAll, Statement.planAll]
  | cons statement rest ih =>
      rw [List.map_cons, Action.planAll, Statement.planAll, Action.plan, ih]

/-- The leaves of the statements of a method. -/
def Method.leaves (method : Method) : List (List Clause × Statement) :=
  method.body.flatMap fun
    | .perform statement => statement.leaves []
    | _ => []

/-- The leaves of a method are those of its statements. -/
theorem Method.leaves_eq {method : Method} {body : List Statement}
    (h : method.body = body.map .perform) :
    method.leaves = Statement.leavesAll [] body := by
  unfold Method.leaves
  rw [h]
  clear h
  induction body with
  | nil => rw [List.map_nil, List.flatMap_nil, Statement.leavesAll]
  | cons statement rest ih =>
      rw [List.map_cons, List.flatMap_cons, ih, Statement.leavesAll]

/-- The body of the method is a list of statements. -/
def Method.IsStatements (method : Method) : Prop :=
  ∃ body : List Statement, method.body = body.map .perform

namespace Plan

variable {ground : Ground}

/-- A method ends with its first defect, guarded or not. -/
private theorem ends_methodBody (component : Component) {member : Member}
    (h : member.method.IsStatements) :
    (methodBody component member).Ends ground
      ((Statement.firstDefect? ground member.method.leaves).map .defect) := by
  obtain ⟨body, hbody⟩ := h
  have hplan : (Action.planAll member.method.body).Ends ground
      ((Statement.firstDefect? ground member.method.leaves).map .defect) := by
    rw [Method.leaves_eq hbody, hbody, Action.planAll_perform]
    exact Statement.endsAll ground body []
  unfold methodBody
  split
  · -- a guard adds nothing that fails
    refine .withTag fun tag => .after (.enter _) (.block _ ?_)
    exact .after (.emit _ _) (.before (.block _ hplan) (.emit _ _))
  · exact hplan

-- ============================================================= components

def memberFailure? (ground : Ground) (member : Member) : Option Failure :=
  (Statement.firstDefect? ground member.method.leaves).map fun defect =>
    .step s!"component method \"{member.key}\"" (.defect defect)

def componentFailure? (ground : Ground) (entry : Component × List Member) :
    Option Failure :=
  (entry.2.findSome?
    (memberFailure? { ground with component := entry.1.name })).map
    (.step s!"component \"{entry.1.name}\"")

/-- A method is named in its failure. -/
private theorem ends_method (component : Component) {member : Member}
    (h : member.method.IsStatements) :
    (method component member).Ends ground (memberFailure? ground member) := by
  have hbody : (methodBody component member).Ends ground _ :=
    ends_methodBody component h
  have htags : (each (tag member.location) (Build.tagsOf component member)).Ends
      ground none :=
    .eachWell fun location _ => .tag member.location location
  have hall :=
    (((hbody.function member.location).before htags).beneath .method).labelled
      s!"component method \"{member.key}\""
  rw [Option.map_map] at hall
  exact hall

/-- Hooks are called by tags that are there, so that cannot fail. -/
private theorem ends_runHook (component : Component) (members : List Member)
    (moment : Hook) :
    (runHook component members moment).Ends ground none := by
  unfold runHook
  split
  · exact .emit _ _
  · exact .done

/-- A dispatcher ends well. -/
private theorem ends_dispatcher (component : Component) (members : List Member)
    (moment : Hook) :
    (dispatcher component members moment).Ends ground none := by
  unfold dispatcher
  split
  · exact .done
  · split
    · exact .withFunction
        fun location => .after (.function location (.enter _)) (.tag _ _)
    · exact .done

/-- What a component has besides its methods never fails. -/
theorem ends_entryPoints (component : Component) (members : List Member) :
    (entryPoints component members).Ends ground none := by
  unfold entryPoints
  split
  · exact .done
  · refine .after
      (.eachWell fun hook _ => ends_dispatcher component members hook)
      (.after ?_ ?_)
    · exact .function _ (.block _ (.after (.emit _ _) (ends_runHook _ _ _)))
    · exact .function _ (.block _ (.after (ends_runHook _ _ _) (.emit _ _)))

/-- Components end with the first failure of their methods. -/
theorem ends_components {resolved : List (Component × List Member)}
    (h : ∀ entry ∈ resolved, ∀ member ∈ entry.2, member.method.IsStatements) :
    (components resolved).Ends ground
      (resolved.findSome? (componentFailure? ground)) := by
  refine .each fun entry hentry => .labelled _ (.within _ (.beneath _ ?_))
  exact .before
    (.each fun member hmember =>
      ends_method entry.1 (h entry hentry member hmember))
      (ends_entryPoints entry.1 entry.2)

end Plan

end Datapack
