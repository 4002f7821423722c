/-
Blocks that add no structure.

Three ways of writing a body down differently leave the pack as it is. A
block that holds nothing but another block can be joined with it. A block
whose clauses are all empty can be replaced by what it holds. And a block
without a leaf at any depth can go. `Statement.Simplifies` is one such
change anywhere in a body.

None of this is true of the trees: the two sides differ in how many
functions are written on the way and how many are given up again. It holds
of the plans, where a function that was given up has left no trace, except
in a build that fails.
-/
import Datapack.Proofs.Failures
import Datapack.Proofs.Substitution

namespace Datapack

-- ================================================================ rewriting

/-- One change of a body that takes structure away. -/
inductive Statement.Simplifies : List Statement → List Statement → Prop
  /-- A block that holds one block only is joined with it. -/
  | join (outer inner : List Clause) (body : List Statement) :
      Simplifies [.execute outer [.execute inner body]]
        [.execute (outer ++ inner) body]
  /-- A block without clauses gives way to its statements. -/
  | unwrap {clauses : List Clause} (body : List Statement) :
      (∀ clause ∈ clauses, clause.isEmpty = true) →
        Simplifies [.execute clauses body] body
  /-- A block without a leaf at any depth goes. -/
  | drop (clauses : List Clause) {body : List Statement} :
      Statement.leavesAll [] body = [] → Simplifies [.execute clauses body] []
  /-- The change is made inside a block. -/
  | inside (clauses : List Clause) {body body' : List Statement} :
      Simplifies body body' →
        Simplifies [.execute clauses body] [.execute clauses body']
  /-- The change is made among other statements. -/
  | among (before after : List Statement) {part part' : List Statement} :
      Simplifies part part' →
        Simplifies (before ++ part ++ after) (before ++ part' ++ after)

namespace Statement

-- ============================================================= their plans

/-- A body in two parts is planned in two steps. -/
private theorem planAll_append (body others : List Statement) :
    planAll (body ++ others) = (planAll body).andThen (planAll others) := by
  induction body with
  | nil => rw [List.nil_append, planAll, Plan.done_andThen]
  | cons statement rest ih =>
      rw [List.cons_append, planAll, planAll, ih, Plan.andThen_assoc]

private theorem planAll_execute (clauses : List Clause)
    (body : List Statement) :
    planAll [.execute clauses body] = (planAll body).block clauses := by
  rw [planAll, planAll, plan, Plan.andThen_done]

mutual

/-- A statement without leaves is a block that comes to nothing. -/
theorem plan_of_leafless : ∀ (statement : Statement) (clauses : List Clause),
    statement.leaves clauses = [] → statement.plan = .done
  | .execute more body, clauses, h => by
      rw [leaves] at h
      rw [plan, planAll_of_leafless body _ h, Plan.block_done]
  | .run .., _, h | .say .., _, h | .log .., _, h | .error .., _, h
  | .addTag .., _, h | .removeTag .., _, h | .function .., _, h
  | .functionTag .., _, h | .invoke .., _, h | .call .., _, h | .attach .., _, h
  | .detach .., _, h => by
      simp [leaves] at h

/-- A body without leaves comes to nothing, at any depth of blocks. -/
private theorem planAll_of_leafless : ∀ (body : List Statement)
  (clauses : List Clause),
    leavesAll clauses body = [] → planAll body = .done
  | [], _, _ => by rw [planAll]
  | statement :: rest, clauses, h => by
      rw [leavesAll, List.append_eq_nil_iff] at h
      rw [planAll, plan_of_leafless statement clauses h.1,
        planAll_of_leafless rest clauses h.2, Plan.done_andThen]

end

/-- The plans of a body before and after a change agree. -/
theorem Simplifies.agrees {body body' : List Statement}
    (h : Simplifies body body') :
    (planAll body).Agrees (planAll body') := by
  induction h with
  | join outer inner body =>
      rw [planAll_execute, planAll_execute, planAll_execute]
      exact Plan.block_block outer inner (planAll body)
  | unwrap body hempty =>
      rw [planAll_execute, Plan.block_of_isEmpty hempty]
      exact .refl _
  | drop clauses hleafless =>
      rw [planAll_execute, planAll_of_leafless _ _ hleafless,
        Plan.block_done, planAll]
      exact .refl _
  | inside clauses _ ih =>
      rw [planAll_execute, planAll_execute]
      exact ih.block clauses
  | among before after _ ih =>
      simp only [planAll_append]
      exact ((Plan.Agrees.refl _).andThen ih).andThen (.refl _)

end Statement

-- ================================================================= projects

/-- A method with another body that agrees with the first is like it. -/
theorem MethodManifest.alike_toMethod (method : MethodManifest)
    {body : List Statement}
    (h : (Statement.planAll method.body).Agrees (Statement.planAll body)) :
    method.toMethod.Alike { method with body := body }.toMethod := by
  refine ⟨rfl, rfl, rfl, rfl, rfl, ?_⟩
  show (Action.planAll (method.body.map .perform)).Agrees
    (Action.planAll (body.map .perform))
  rw [Action.planAll_perform, Action.planAll_perform]
  exact h

namespace ProjectManifest

/-- A change that takes structure away from the body of a method, in any of
the project's components, changes neither the pack nor the failure. -/
theorem build_simplified (manifest : ProjectManifest)
    (before after : List (String × ComponentManifest)) (file : String)
    (component : ComponentManifest) (earlier later : List MethodManifest)
    (method : MethodManifest) {body : List Statement}
    (h : Statement.Simplifies method.body body) :
    manifest.toProject.build (manifest.components (before
        ++ (file,
          { component with methods := earlier ++ method :: later }) :: after))
      = manifest.toProject.build (manifest.components (before
        ++ (file, { component with
            methods := earlier ++ { method with body := body } :: later })
              :: after)) := by
  have hmethods : List.Forall₂ Method.Alike
      ((earlier ++ method :: later).map MethodManifest.toMethod)
      ((earlier
        ++ { method with body := body } :: later).map
        MethodManifest.toMethod) := by
    simp only [List.map_append, List.map_cons]
    refine List.rel_append (List.forall₂_same.2 fun other _ => .refl other)
      (.cons ?_ ?_)
    · exact method.alike_toMethod h.agrees
    · exact List.forall₂_same.2 fun other _ => .refl other
  apply Project.build_congr
  simp only [components, List.map_append, List.map_cons]
  refine List.rel_append (List.forall₂_same.2 fun other _ => .refl other)
    (.cons ?_ ?_)
  · exact ⟨rfl, rfl, rfl, rfl, hmethods⟩
  · exact List.forall₂_same.2 fun other _ => .refl other

/-- A body with a block in it that holds only blocks, and the body of the
sample without it. -/
theorem sample_simplified :
    let knock : MethodManifest := { name := "knock", body := [.say "knock"] }
    let inner : List Statement :=
      [.invoke "knock", .execute [⟨["at", "@s"]⟩] [.say "one", .say "two"]]
    let hollow : Statement :=
      .execute [⟨["in", "the_end"]⟩] [.execute [⟨["as", "@p"]⟩] []]
    let wordy : MethodManifest :=
      { name := "open", hooks := { tick := true },
        body := [.say "open", .execute [⟨["as", "@a"]⟩] (hollow :: inner)] }
    let plain : List Statement := [.say "open", .execute [⟨["as", "@a"]⟩] inner]
    Statement.Simplifies wordy.body plain
      ∧ Sample.manifest.toProject.build (Sample.manifest.components
          [("Door", { methods := [wordy, knock] })])
        = Sample.manifest.toProject.build
          (Sample.manifest.components Sample.files)
      ∧ ∃ pack, Sample.manifest.toProject.build (Sample.manifest.components
          [("Door", { methods := [wordy, knock] })]) = .ok pack := by
  intro knock inner hollow wordy plain
  have hdrop : Statement.Simplifies [hollow] [] :=
    .drop _ (by simp [Statement.leavesAll, Statement.leaves])
  have hsimplifies : Statement.Simplifies wordy.body plain :=
    .among [.say "open"] [] (.inside _ (.among [] inner hdrop))
  have hbuild := build_simplified Sample.manifest [] [] "Door" {} [] [knock]
    wordy hsimplifies
  obtain ⟨pack, hpack⟩ := Sample.build
  exact ⟨hsimplifies, hbuild, pack, hbuild.trans hpack⟩

end ProjectManifest

end Datapack
