/-
Plans that come to the same.

A build that fails keeps nothing of what it wrote. So two outcomes need not
be equal to be worth the same: they agree if they are equal, or if both
fail with the same failure. Unlike equality, agreement leaves it open how
many functions were given up on the way out of a failure, and this is just
what differs between a block in a block and one block with the clauses of
both (`Plan.block_block`).

Agreement goes through every way of putting a build together except
catching a failure, where what was written before stays. So it can be said
of a body, and then holds of the project (`Plan.Agrees.components`).
-/
import Datapack.Proofs.Bodies
import Mathlib.Data.List.Forall2

namespace Datapack

-- =============================================================== outcomes

/-- The outcomes are equal, or both fail and with the same failure. -/
def Outcome.Agrees (first second : Outcome) : Prop :=
  first = second
    ∨ ∃ failure, first.result = .error failure ∧ second.result = .error failure

-- ================================================================== plans

namespace Plan

/-- The plans have outcomes that agree, at every site. -/
def Agrees (first second : Plan) : Prop :=
  ∀ site, (first site).Agrees (second site)

namespace Agrees

variable {plan plan' next next' : Plan}

/-- Plans that are equal agree. -/
private theorem of_eq (h : plan = plan') : plan.Agrees plan' :=
  fun _ => .inl (congrFun h _)

/-- A plan agrees with itself. -/
theorem refl (plan : Plan) : plan.Agrees plan :=
  of_eq rfl

/-- Steps in a row agree if the steps do: where the first fail, the second
are not reached. -/
theorem andThen (h : plan.Agrees plan') (h' : next.Agrees next') :
    (plan.andThen next).Agrees (plan'.andThen next') := by
  intro site
  unfold Plan.andThen
  rcases h site with heq | ⟨failure, hfail, hfail'⟩
  · rw [heq]
    cases hres : (plan' site).result with
    | error failure => exact .inl rfl
    | ok value =>
        rcases h' (site.after (plan' site).written) with heq'
          | ⟨failure, hfail, hfail'⟩
        · exact .inl (by simp only [heq'])
        · exact .inr ⟨failure, hfail, hfail'⟩
  · rw [hfail, hfail']
    exact .inr ⟨failure, hfail, hfail'⟩

/-- A label is put on the failures of both sides alike. -/
theorem labelled (label : String) (h : plan.Agrees plan') :
    (plan.labelled label).Agrees (plan'.labelled label) := by
  intro site
  unfold Plan.labelled
  rcases h site with heq | ⟨failure, hfail, hfail'⟩
  · rw [heq]
    exact .inl rfl
  · rw [hfail, hfail']
    exact .inr ⟨.step label failure, rfl, rfl⟩

private theorem withTag {plan plan' : String → Plan}
    (h : ∀ tag, (plan tag).Agrees (plan' tag)) :
    (Plan.withTag plan).Agrees (Plan.withTag plan') := by
  intro site
  unfold Plan.withTag
  rcases h site.tags.head (site.after { tags := 1 }) with heq | hfail
  · exact .inl (by simp only [heq])
  · exact .inr hfail

/-- Blocks agree if their bodies do: equal bodies are given up together,
and a failure is passed on by both. -/
theorem block (clauses : List Clause) (h : plan.Agrees plan') :
    (plan.block clauses).Agrees (plan'.block clauses) := by
  intro site
  unfold Plan.block
  rcases h { site with context := site.context.enter clauses } with
    heq | ⟨failure, hfail, hfail'⟩
  · exact .inl (by simp only [heq])
  · refine .inr ⟨failure, ?_⟩
    -- a body that fails makes the block fail, in its own context or not
    by_cases hsame : site.context.enter clauses = site.context
    · simp only [hsame, if_true] at hfail hfail' ⊢
      exact ⟨hfail, hfail'⟩
    · simp only [hsame, if_false, hfail, hfail', and_self]

/-- Functions at one location agree if their bodies do. -/
theorem function (location : String) (h : plan.Agrees plan') :
    (Plan.function location plan).Agrees (Plan.function location plan') := by
  intro site
  unfold Plan.function
  rcases h { site with context := .empty } with heq | hfail
  · exact .inl (by simp only [heq])
  · exact .inr hfail

/-- What is hung below a piece agrees if it agrees by itself. -/
theorem beneath (piece : Piece) (h : plan.Agrees plan') :
    (plan.beneath piece).Agrees (plan'.beneath piece) := by
  intro site
  unfold Plan.beneath
  rcases h site with heq | hfail
  · exact .inl (by rw [heq])
  · exact .inr hfail

/-- Steps that agree do so inside a component as well. -/
theorem within (component : String) (h : plan.Agrees plan') :
    (plan.within component).Agrees (plan'.within component) :=
  fun site => h { site with component := component }

/-- Lists of steps agree that agree one by one. -/
theorem each {α β : Type} {plan : α → Plan} {plan' : β → Plan} {list : List α}
    {list' : List β}
    (h : List.Forall₂ (fun a b => (plan a).Agrees (plan' b)) list list') :
    (Plan.each plan list).Agrees (Plan.each plan' list') := by
  induction h with
  | nil => exact refl .done
  | cons hhead _ ih => exact hhead.andThen ih

/-- Guarded methods agree if their bodies do. -/
theorem guarded (component key : String) (h : plan.Agrees plan') :
    (Plan.guarded component key plan).Agrees
      (Plan.guarded component key plan') := by
  refine withTag fun tag => (refl _).andThen (block _ ?_)
  exact (refl _).andThen ((h.block _).andThen (refl _))

end Agrees

end Plan

-- ================================================================ sequences

/-- Outlines are put one behind the other in any grouping. -/
@[simp] theorem Outline.append_assoc (first second third : Outline) :
    first ++ second ++ third = first ++ (second ++ third) := by
  induction first with
  | nil => rfl
  | node piece below next _ ih => rw [node_append, node_append, node_append, ih]

namespace Written

/-- What is written can be grouped in any way. -/
private theorem append_assoc (first second third : Written) :
    first ++ second ++ third = first ++ (second ++ third) := by
  apply Written.ext
  · exact List.append_assoc ..
  · exact Outline.append_assoc ..
  · exact Nat.add_assoc ..
  · exact Nat.add_assoc ..

private theorem append_nothing (written : Written) :
    written ++ ({} : Written) = written := by
  apply Written.ext
  · exact List.append_nil _
  · exact Outline.append_nil _
  · rfl
  · rfl

private theorem nothing_append (written : Written) :
    ({} : Written) ++ written = written := by
  apply Written.ext
  · rfl
  · rfl
  · exact Nat.zero_add _
  · exact Nat.zero_add _

end Written

/-- Names are taken for two things in turn. -/
private theorem Site.after_append (site : Site) (first second : Written) :
    site.after (first ++ second) = (site.after first).after second := by
  simp only [Site.after, NameStream.drop, Written.functions_append,
    Written.tags_append, Nat.add_assoc]

namespace Plan

/-- Doing nothing first changes nothing. -/
theorem done_andThen (plan : Plan) : done.andThen plan = plan := by
  funext site
  show (⟨({} : Written) ++ (plan site).written, (plan site).result⟩ : Outcome)
    = plan site
  rw [Written.nothing_append]

/-- Doing nothing last changes nothing. -/
theorem andThen_done (plan : Plan) : plan.andThen done = plan := by
  funext site
  unfold andThen
  cases hres : (plan site).result with
  | error failure => rfl
  | ok value =>
      show (⟨(plan site).written ++ ({} : Written), .ok ()⟩ : Outcome)
        = plan site
      rw [Written.append_nothing, ← hres]

/-- Steps in a row can be grouped in any way, also where one of them fails. -/
theorem andThen_assoc (first second third : Plan) :
    (first.andThen second).andThen third
      = first.andThen (second.andThen third) := by
  funext site
  unfold andThen
  cases hfirst : (first site).result with
  | error failure => simp only [hfirst]
  | ok value =>
      dsimp only
      cases hsecond : (second (site.after (first site).written)).result with
      | error failure => simp only [hsecond]
      | ok value => simp only [Site.after_append, Written.append_assoc]

end Plan

-- =================================================================== blocks

namespace ExecutionContext

/-- A context is entered by two lists of clauses in turn or by both at
once. -/
private theorem enter_enter (context : ExecutionContext)
    (outer inner : List Clause) :
    (context.enter outer).enter inner = context.enter (outer ++ inner) := by
  simp [enter]

/-- A context is left as it is by clauses that are all empty, and by no
others. -/
theorem enter_eq_self (context : ExecutionContext) (clauses : List Clause) :
    context.enter clauses = context
      ↔ ∀ clause ∈ clauses, clause.isEmpty = true := by
  obtain ⟨known⟩ := context
  simp [enter]

end ExecutionContext

namespace Plan

/-- A block whose clauses are all empty is its body. -/
theorem block_of_isEmpty {clauses : List Clause}
    (h : ∀ clause ∈ clauses, clause.isEmpty = true) (body : Plan) :
    body.block clauses = body := by
  funext site
  have hsame := (site.context.enter_eq_self clauses).2 h
  unfold block
  simp only [hsame, if_true]

/-- A block with nothing in it is nothing. -/
theorem block_done (clauses : List Clause) : done.block clauses = done := by
  funext site
  unfold block done
  simp only [List.length_nil, Nat.zero_le, if_true, ite_self]

/-- A block in a block is one block with the clauses of both. If the body
fails, there are two functions to give up on the left and one on the
right. -/
theorem block_block (outer inner : List Clause) (body : Plan) :
    ((body.block inner).block outer).Agrees (body.block (outer ++ inner)) := by
  intro site
  by_cases houter : ∀ clause ∈ outer, clause.isEmpty = true
  · -- the outer block is not there, and its clauses add nothing to those of
    -- the inner one
    have hcontext : site.context.enter (outer ++ inner)
        = site.context.enter inner := by
      rw [← ExecutionContext.enter_enter,
        (site.context.enter_eq_self outer).2 houter]
    rw [block_of_isEmpty houter]
    unfold block
    simp only [hcontext]
    exact .inl rfl
  · have hne : site.context.enter outer ≠ site.context :=
      fun hsame => houter ((site.context.enter_eq_self outer).1 hsame)
    have hne' : site.context.enter (outer ++ inner) ≠ site.context :=
      fun hsame => houter fun clause hclause =>
        (site.context.enter_eq_self _).1 hsame clause
          (List.mem_append_left _ hclause)
    by_cases hinner : ∀ clause ∈ inner, clause.isEmpty = true
    · have hcontext : site.context.enter (outer ++ inner)
          = site.context.enter outer := by
        rw [← ExecutionContext.enter_enter,
          (ExecutionContext.enter_eq_self _ inner).2 hinner]
      rw [block_of_isEmpty hinner]
      unfold block
      simp only [hcontext]
      exact .inl rfl
    · have hdeep : site.context.enter (outer ++ inner)
          ≠ site.context.enter outer := by
        rw [← ExecutionContext.enter_enter]
        exact fun hsame =>
          hinner ((ExecutionContext.enter_eq_self _ inner).1 hsame)
      unfold block
      simp only [ExecutionContext.enter_enter, hne, hne', hdeep, if_false]
      generalize body
        { site with context := site.context.enter (outer ++ inner) } = outcome
      obtain ⟨written, result⟩ := outcome
      cases result with
      | error failure => exact .inr ⟨failure, rfl, rfl⟩
      | ok value =>
          -- with two entries or more the inner block leaves one, and the
          -- outer one goes
          by_cases hlen : written.entries.length ≤ 1
          · simp only [hlen, if_true]
            exact .inl rfl
          · simp only [hlen, if_false]
            exact .inl rfl

end Plan

end Datapack
