/-
Where failures come from.

Some defects are not about the project but about the state of the build: a
command is emitted while no function is being written, or into one that is
finished, or under a context that is not inside that of the function.
`Defect.stateCodes` are their codes. A body can also raise them itself,
since it can fail with any failure it likes.

`Failure.StemsFrom` says that this is the only way: under the labels of the
steps around it, a failure is one that the body raises and does not catch,
or a defect with another code. It is proved of plans, so it needs nothing
about the state that a body runs in, and it goes up from the statements of
a body to the whole build (`Project.stems_of_build`).
-/
import Datapack.Proofs.Packs
import Datapack.Proofs.Resolved

namespace Datapack

-- ================================================================= causes

/-- The codes of defects in the state of a build. -/
def Defect.stateCodes : List String :=
  ["NO_ACTIVE_FUNCTION", "NO_ACTIVE_COMPONENT", "BUILDER_CLOSED",
    "BUILD_NODE_KIND", "EXECUTION_CONTEXT_DETACHED"]

/-- The codes of defects in the project: names, bases and calls. -/
def Defect.projectCodes : List String :=
  ["NAMESPACE_INVALID", "COMPONENT_NAME_INVALID", "METHOD_NAME_INVALID",
    "RESOURCE_DUPLICATE", "INHERITANCE_CYCLE", "BASE_COMPONENT_NOT_FOUND",
    "COMPONENT_NOT_FOUND", "METHOD_NOT_FOUND", "METHOD_PRIVATE",
    "COMPONENT_ABSTRACT"]

/-- No code is both for a defect in the project and for one in the state of
the build. -/
private theorem Defect.notMem_stateCodes {code : String}
    (h : code ∈ projectCodes) :
    code ∉ stateCodes := by
  have hall : ∀ code ∈ projectCodes, code ∉ stateCodes := by decide
  exact hall code h

namespace Failure

/-- The failure under steps with the labels, the outermost first. -/
def under (labels : List String) (failure : Failure) : Failure :=
  labels.foldr .step failure

/-- Under labels of steps, the failure is one of those `raised`, or a defect
that is not one of the build's state. -/
def StemsFrom (raised : List Failure) (failure : Failure) : Prop :=
  ∃ labels core, failure = under labels core
    ∧ (core ∈ raised
      ∨ ∃ defect, core = .defect defect ∧ defect.code ∉ Defect.stateCodes)

/-- Some layer of the failure has the code of a defect in the build's
state. -/
def BlamesState (failure : Failure) : Prop :=
  ∃ layer ∈ failure.layers, ∃ code ∈ Defect.stateCodes, layer.code? = some code

namespace StemsFrom

variable {raised others : List Failure} {failure : Failure}

private theorem of_mem (h : failure ∈ raised) : failure.StemsFrom raised :=
  ⟨[], failure, rfl, .inl h⟩

private theorem of_defect {defect : Defect}
    (h : defect.code ∉ Defect.stateCodes) :
    (Failure.defect defect).StemsFrom raised :=
  ⟨[], _, rfl, .inr ⟨defect, rfl, h⟩⟩

private theorem step (label : String) (h : failure.StemsFrom raised) :
    (Failure.step label failure).StemsFrom raised := by
  obtain ⟨labels, core, rfl, hcore⟩ := h
  exact ⟨label :: labels, core, rfl, hcore⟩

private theorem mono (h : failure.StemsFrom raised) (hsub : raised ⊆ others) :
    failure.StemsFrom others := by
  obtain ⟨labels, core, rfl, hcore⟩ := h
  exact ⟨labels, core, rfl, hcore.imp_left fun hmem => hsub hmem⟩

/-- A failure that blames the state of the build has been raised. -/
theorem raised_of_blamesState (h : failure.StemsFrom raised)
    (hblames : failure.BlamesState) :
    ∃ core ∈ raised, ∃ labels, failure = under labels core := by
  obtain ⟨labels, core, rfl, hcore | ⟨defect, rfl, hcode⟩⟩ := h
  · exact ⟨core, hcore, labels, rfl⟩
  · -- the layers are steps around a defect of another code
    obtain ⟨layer, hlayer, code, hmem, hlayerCode⟩ := hblames
    exfalso
    induction labels with
    | nil =>
        rw [show layer = .defect defect from List.mem_singleton.1 hlayer]
          at hlayerCode
        cases hlayerCode
        exact hcode hmem
    | cons label rest ih =>
        rcases List.mem_cons.1 hlayer with rfl | hlayer
        · cases hlayerCode
          revert hmem
          decide
        · exact ih hlayer

end StemsFrom

end Failure

-- ================================================================== plans

mutual

/-- The failures that an action raises and does not catch. -/
def Action.raised : Action → List Failure
  | .fail failure => [failure]
  | .execute _ body | .labelled _ body
  | .iterate _ body => Action.raisedAll body
  | .perform _ | .inline .. | .direct _ | .freshTag _ | .whoami
  | .attempt _ => []

def Action.raisedAll : List Action → List Failure
  | [] => []
  | action :: rest => action.raised ++ Action.raisedAll rest

end

/-- Asking for an unknown component is a defect in the project. -/
private theorem CallTable.component?_error {calls : CallTable} {name : String}
    {defect : Defect} (h : calls.component? name = .error defect) :
    defect.code ∈ Defect.projectCodes := by
  unfold CallTable.component? at h
  split at h
  · cases h
  · cases h
    show "COMPONENT_NOT_FOUND" ∈ Defect.projectCodes
    decide

/-- A call that cannot be resolved is a defect in the project. -/
private theorem CallTable.resolve_error {calls : CallTable}
    {caller : Option String} {component method : String} {defect : Defect}
    (h : calls.resolve caller component method = .error defect) :
    defect.code ∈ Defect.projectCodes := by
  unfold CallTable.resolve at h
  cases hfound : calls.component? component with
  | error other =>
      rw [hfound] at h
      cases h
      exact component?_error hfound
  | ok found =>
      rw [hfound] at h
      simp only [bind, Except.bind] at h
      split at h
      · cases h
        show "METHOD_NOT_FOUND" ∈ Defect.projectCodes
        decide
      · split at h
        · cases h
          show "METHOD_PRIVATE" ∈ Defect.projectCodes
          decide
        · cases h

/-- Calls that lead nowhere are defects in the project. -/
theorem Statement.code_of_command {ground : Ground} {statement : Statement}
    {defect : Defect} (h : statement.command ground = .error defect) :
    defect.code ∈ Defect.projectCodes := by
  have hcall : ∀ {component method : String},
      ground.call component method = .error defect →
        defect.code ∈ Defect.projectCodes := by
    intro component method h
    unfold Ground.call at h
    cases hfound : ground.calls.resolve (some ground.component)
      (Name.snakeCase component) method with
    | ok target => rw [hfound] at h; cases h
    | error other =>
        rw [hfound] at h
        cases h
        exact CallTable.resolve_error hfound
  have hentity : ∀ {component : String} {location : String → String},
      ground.onEntity component location = .error defect →
        defect.code ∈ Defect.projectCodes := by
    intro component location h
    unfold Ground.onEntity at h
    cases hfound : ground.calls.component? (Name.snakeCase component) with
    | error other =>
        rw [hfound] at h
        cases h
        exact CallTable.component?_error hfound
    | ok found =>
        rw [hfound] at h
        simp only [bind, Except.bind] at h
        split at h
        · cases h
          show "COMPONENT_ABSTRACT" ∈ Defect.projectCodes
          decide
        · cases h
  -- all other statements come to a command
  cases statement with
  | invoke method => exact hcall h
  | call component method => exact hcall h
  | attach component => exact hentity h
  | detach component => exact hentity h
  | _ => cases h

namespace Plan

/-- The failures of the plan stem from those `raised`. -/
def FailsFrom (raised : List Failure) (plan : Plan) : Prop :=
  ∀ site failure, (plan site).result = .error failure → failure.StemsFrom raised

namespace FailsFrom

variable {raised others : List Failure} {plan next : Plan}

private theorem enter (entries : Site → List SheetEntry) :
    FailsFrom raised (.enter entries) := by
  intro site failure h
  cases h

private theorem done : FailsFrom raised .done := by
  intro site failure h
  cases h

private theorem mono (h : FailsFrom raised plan) (hsub : raised ⊆ others) :
    FailsFrom others plan :=
  fun site failure hfail => (h site failure hfail).mono hsub

/-- A statement fails for a call that leads nowhere, if at all. -/
private theorem leaf (statement : Statement) :
    FailsFrom raised (.leaf statement) := by
  intro site failure h
  unfold Plan.leaf at h
  split at h
  · cases h
  · next hcommand =>
    cases h
    exact .of_defect
      (Defect.notMem_stateCodes (Statement.code_of_command hcommand))

/-- Steps in a row fail where one of them does. -/
private theorem andThen (h : FailsFrom raised plan)
    (h' : FailsFrom raised next) :
    FailsFrom raised (plan.andThen next) := by
  intro site failure hfail
  rcases andThen_cases plan next site with ⟨_, -, heq⟩ | ⟨-, heq⟩
  · rw [heq] at hfail
    exact h site failure hfail
  · rw [heq] at hfail
    exact h' _ failure hfail

/-- What is caught does not count. -/
theorem orElse {handler : Failure → Plan}
    (h : ∀ failure, FailsFrom raised (handler failure)) :
    FailsFrom raised (plan.orElse handler) := by
  intro site failure hfail
  rcases orElse_cases plan handler site with ⟨hok, heq⟩ | ⟨caught, -, heq⟩
  · rw [heq, hok] at hfail
    cases hfail
  · rw [heq] at hfail
    exact h caught _ failure hfail

private theorem labelled (label : String) (h : FailsFrom raised plan) :
    FailsFrom raised (plan.labelled label) := by
  intro site failure hfail
  unfold Plan.labelled at hfail
  split at hfail
  · next hok =>
    rw [hok] at hfail
    cases hfail
  · next inner hinner =>
    cases hfail
    exact (h site inner hinner).step label

private theorem iterate (h : FailsFrom raised plan) :
    ∀ times, FailsFrom raised (.iterate times plan)
  | 0 => done
  | times + 1 => andThen h (iterate h times)

private theorem each {α : Type} {plan : α → Plan} {list : List α}
    (h : ∀ a ∈ list, FailsFrom raised (plan a)) :
    FailsFrom raised (Plan.each plan list) := by
  induction list with
  | nil => exact done
  | cons a rest ih =>
      exact andThen (h a List.mem_cons_self)
        (ih fun b hb => h b (List.mem_cons_of_mem a hb))

private theorem withTag {plan : String → Plan}
    (h : ∀ tag, FailsFrom raised (plan tag)) :
    FailsFrom raised (.withTag plan) :=
  fun site => h site.tags.head (site.after { tags := 1 })

private theorem withFunction {plan : String → Plan}
    (h : ∀ location, FailsFrom raised (plan location)) :
    FailsFrom raised (.withFunction plan) :=
  fun site => h site.functions.head (site.after { functions := 1 })

/-- A block fails with the failure of its body. -/
theorem block (clauses : List Clause) (h : FailsFrom raised plan) :
    FailsFrom raised (plan.block clauses) := by
  intro site failure hfail
  rcases block_cases clauses plan site with heq | ⟨inner, hinner, heq⟩
    | ⟨-, -, heq⟩
  · rw [heq] at hfail
    exact h _ failure hfail
  · rw [heq] at hfail
    cases hfail
    exact h _ _ hinner
  · rw [heq] at hfail
    cases hfail

private theorem function (location : String) (h : FailsFrom raised plan) :
    FailsFrom raised (.function location plan) :=
  fun site => h { site with context := .empty }

/-- A guard fails where its body does. -/
private theorem guarded (component key : String) (h : FailsFrom raised plan) :
    FailsFrom raised (.guarded component key plan) :=
  withTag fun _ => andThen (enter _)
    (block _ (andThen (enter _) (andThen (block _ h) (enter _))))

end FailsFrom

end Plan

mutual

/-- Statements raise nothing themselves, so any list of failures will do. -/
private theorem Statement.failsFrom (raised : List Failure) :
    ∀ statement : Statement, statement.plan.FailsFrom raised
  | .execute clauses body => by
      rw [Statement.plan]
      exact .block clauses (Statement.failsFromAll raised body)
  | .run .. | .say .. | .log .. | .error .. | .addTag .. | .removeTag ..
  | .function .. | .functionTag .. | .invoke .. | .call .. | .attach ..
  | .detach .. => by
      rw [Statement.plan]
      · exact .leaf _
      all_goals exact fun _ _ h => by cases h

/-- So does a body of statements. -/
theorem Statement.failsFromAll (raised : List Failure) :
    ∀ body : List Statement, (Statement.planAll body).FailsFrom raised
  | [] => by rw [Statement.planAll]; exact .done
  | statement :: rest => by
      rw [Statement.planAll]
      exact .andThen (statement.failsFrom raised)
        (Statement.failsFromAll raised rest)

end

mutual

/-- An action fails with what it raises, or for a defect in the project.
The recursion follows that of `Action.raised`. -/
theorem Action.failsFrom : ∀ action : Action,
  action.plan.FailsFrom action.raised
  | .perform statement => by rw [Action.plan]; exact statement.failsFrom _
  | .execute clauses body => by
      rw [Action.plan, Action.raised]
      exact .block clauses (Action.failsFromAll body)
  | .inline clauses commands => by rw [Action.plan]; exact .enter _
  | .direct command => by rw [Action.plan]; exact .enter _
  | .freshTag emit => by
      rw [Action.plan]
      refine .withTag fun tag => ?_
      cases emit with
      | true => exact .enter _
      | false => exact .done
  | .whoami => by rw [Action.plan]; exact .enter _
  | .fail failure => by
      rw [Action.plan, Action.raised]
      intro site other h
      cases h
      exact .of_mem (List.mem_singleton_self failure)
  | .attempt body => by rw [Action.plan]; exact .orElse fun _ => .enter _
  | .labelled label body => by
      rw [Action.plan, Action.raised]
      exact .labelled label (Action.failsFromAll body)
  | .iterate times body => by
      rw [Action.plan, Action.raised]
      exact .iterate (Action.failsFromAll body) times

/-- So does a body of actions. -/
theorem Action.failsFromAll :
    ∀ body : List Action,
      (Action.planAll body).FailsFrom (Action.raisedAll body)
  | [] => by rw [Action.planAll]; exact .done
  | action :: rest => by
      rw [Action.planAll, Action.raisedAll]
      exact .andThen (action.failsFrom.mono (List.subset_append_left ..))
        ((Action.failsFromAll rest).mono (List.subset_append_right ..))

end

-- =============================================================== projects

namespace Plan

/-- A method fails with what its body raises. -/
private theorem failsFrom_methodBody (component : Component) (member : Member) :
    (methodBody component member).FailsFrom
      (Action.raisedAll member.method.body) := by
  unfold methodBody
  split
  · exact (Action.failsFromAll _).guarded _ _
  · exact Action.failsFromAll _

/-- Nothing but the bodies of its methods makes a component fail. -/
theorem failsFrom_component {component : Component} {members : List Member}
    {raised : List Failure}
    (h : ∀ member ∈ members, Action.raisedAll member.method.body ⊆ raised) :
    (Plan.component component members).FailsFrom raised := by
  have hmethods : (each (method component) members).FailsFrom raised := by
    refine .each fun member hmember => .labelled _ fun site => ?_
    refine FailsFrom.andThen (.function _ ?_) ?_ site
    · exact (failsFrom_methodBody component member).mono (h member hmember)
    · exact .each fun location _ site failure hfail => by cases hfail
  have hrun : ∀ moment,
      (runHook component members moment).FailsFrom raised := by
    intro moment
    unfold runHook
    split
    · exact .enter _
    · exact .done
  -- besides the methods nothing can fail
  have hentry : (entryPoints component members).FailsFrom raised := by
    unfold entryPoints
    split
    · exact .done
    · refine .andThen (.each fun hook _ => ?_)
        (.andThen (.function _ (.block _ ?_)) (.function _ (.block _ ?_)))
      · unfold dispatcher
        split
        · exact .done
        · split
          · refine .withFunction
              fun location => .andThen (.function _ (.enter _)) ?_
            exact fun site failure hfail => by cases hfail
          · exact .done
      · exact .andThen (.enter _) (hrun .init)
      · exact .andThen (hrun .destroy) (.enter _)
  exact .labelled _ fun site =>
    FailsFrom.andThen hmethods hentry { site with component := component.name }

/-- The components of a project fail with what some body of theirs raises. -/
private theorem failsFrom_components {resolved : List (Component × List Member)}
    {raised : List Failure}
    (h : ∀ entry ∈ resolved, ∀ member ∈ entry.2,
      Action.raisedAll member.method.body ⊆ raised) :
    (Plan.components resolved).FailsFrom raised :=
  .each fun entry hentry => failsFrom_component (h entry hentry)

end Plan

/-- What is wrong with a component is a defect in the project. -/
theorem RegistrationDefect.code_mem {earlier : List Component}
    {component : Component} {defect : Defect}
    (h : RegistrationDefect earlier component defect) :
    defect.code ∈ Defect.projectCodes := by
  cases h with
  | taken =>
      show "RESOURCE_DUPLICATE" ∈ Defect.projectCodes
      decide
  | invalid hinvalid =>
      cases hinvalid with
      | space =>
          show "NAMESPACE_INVALID" ∈ Defect.projectCodes
          decide
      | name =>
          show "COMPONENT_NAME_INVALID" ∈ Defect.projectCodes
          decide
      | methodName =>
          show "METHOD_NAME_INVALID" ∈ Defect.projectCodes
          decide
      | _ =>
          show "RESOURCE_DUPLICATE" ∈ Defect.projectCodes
          decide

namespace Registry

variable {registry : Registry} {components : List Component}

/-- A walk along bases ends with registered components, or with a defect of
theirs. -/
theorem Holds.lineageFrom_cases (h : registry.Holds components) :
    ∀ {fuel : Nat} {walked : List String} {component : Component},
      component ∈ components →
        (∃ lineage, registry.lineageFrom fuel walked component = .ok lineage
        ∧ lineage ⊆ components)
      ∨ ∃ defect, registry.lineageFrom fuel walked component = .error defect
        ∧ defect.code ∉ Defect.stateCodes := by
  intro fuel
  induction fuel using Nat.strongRecOn with
  | ind fuel ih =>
      intro walked component hmem
      unfold lineageFrom
      cases component.base with
      | none =>
          exact .inl ⟨_, rfl, List.cons_subset.2 ⟨hmem, List.nil_subset _⟩⟩
      | some name =>
          dsimp only
          cases hfound : registry.component? component.space name with
          | none =>
              exact .inr ⟨_, rfl, show "BASE_COMPONENT_NOT_FOUND" ∉ _ by decide⟩
          | some base =>
              dsimp only
              have hbase := ((h.found _ _ _).1 hfound).1
              have hcycle :
                  (Defect.inheritanceCycle (walked ++ [base.name])).code
                  ∉ Defect.stateCodes := show "INHERITANCE_CYCLE" ∉ _ by decide
              -- a search that uses up its bound is reported as a cycle as
              -- well
              cases fuel with
              | zero => exact .inr ⟨_, rfl, hcycle⟩
              | succ fuel =>
                  cases walked.contains base.name with
                  | true => exact .inr ⟨_, rfl, hcycle⟩
                  | false =>
                      dsimp only
                      rcases ih fuel (Nat.lt_succ_self fuel) hbase with
                        ⟨lineage, hok, hsub⟩ | ⟨defect, herror, hcode⟩
                      · rw [hok]
                        exact .inl ⟨_, rfl, List.cons_subset.2 ⟨hmem, hsub⟩⟩
                      · rw [herror]
                        exact .inr ⟨_, rfl, hcode⟩

/-- The methods of a registered component were declared by registered
components. -/
theorem Holds.members_cases (h : registry.Holds components)
    {component : Component} (hmem : component ∈ components) :
    (∃ members, registry.members component = .ok members
      ∧ ∀ member ∈ members,
        ∃ declaring ∈ components, member.method ∈ declaring.methods)
    ∨ ∃ defect, registry.members component = .error defect
      ∧ defect.code ∉ Defect.stateCodes := by
  rw [members_eq]
  unfold lineage
  rcases h.lineageFrom_cases hmem with ⟨lineage, hok, hsub⟩
    | ⟨defect, herror, hcode⟩
  · rw [hok]
    refine .inl ⟨_, rfl, fun member hmember => ?_⟩
    rcases Component.mem_membersAlong hmember with
      ⟨method, hmethod, rfl⟩ | ⟨base, hbase, method, hmethod, _, rfl⟩
    · exact ⟨component, hmem, hmethod⟩
    · exact ⟨base, hsub (List.mem_of_mem_tail hbase), hmethod⟩
  · rw [herror]
    exact .inr ⟨_, rfl, hcode⟩

end Registry

/-- A failed build has a defect of the project, or a failure that the body
of a method raises. -/
theorem Project.stems_of_build {project : Project} {components : List Component}
    {failure : Failure} (h : project.build components = .error failure) :
    failure.StemsFrom (components.flatMap fun component =>
      component.methods.flatMap
        fun method => Action.raisedAll method.body) := by
  rw [Project.build_eq] at h
  rcases Registry.registerAll_cases components Registry.holds_empty
      ⟨fun c hc => (nomatch hc), .nil⟩ with
    ⟨registry, hok, hholds, -⟩
      | ⟨before, component, after, defect, -, -, hdefect, herror⟩
  · rw [List.nil_append] at hholds
    rw [hok] at h
    dsimp only at h
    split at h
    · cases h
      exact .step _ (.of_defect (show "NAMESPACE_INVALID" ∉ _ by decide))
    · have hregistered : ∀ component ∈ registry.componentsOf project.space,
          component ∈ components :=
        fun component hmem => (hholds.mem_componentsOf.1 hmem).1
      rcases resolveAll_cases registry
        (registry.componentsOf project.space) with
        ⟨resolved, hresolved, hmap, hmembers⟩
          | ⟨before, component, after, defect, hsplit, hbefore, hdefect⟩
      · rw [hresolved] at h
        dsimp only at h
        split at h
        · next inner hinner =>
          cases h
          refine .step _
            (Plan.failsFrom_components (fun entry hentry member hmember => ?_) _
              _ hinner)
          -- the method is one of a registered component
          have hmem : entry.1 ∈ components :=
            hregistered _ (hmap ▸ List.mem_map_of_mem hentry)
          rcases hholds.members_cases hmem with ⟨members, hfound, hdeclared⟩
            | ⟨_, hfound, -⟩
          · rw [hmembers entry hentry] at hfound
            cases hfound
            obtain ⟨declaring, hdeclaring, hmethod⟩ := hdeclared member hmember
            intro raised hraised
            exact List.mem_flatMap.2 ⟨declaring, hdeclaring,
              List.mem_flatMap.2 ⟨member.method, hmethod, hraised⟩⟩
          · rw [hmembers entry hentry] at hfound
            cases hfound
        · cases h
      · rw [hsplit, resolveAll_error registry after hdefect hbefore] at h
        cases h
        have hmem : component ∈ components :=
          hregistered _ (by rw [hsplit]; simp)
        rcases hholds.members_cases hmem with ⟨_, hfound, -⟩
          | ⟨other, hfound, hcode⟩
        · rw [hdefect] at hfound
          cases hfound
        · rw [hdefect] at hfound
          cases hfound
          exact .step _ (.step _ (.of_defect hcode))
  · rw [herror] at h
    cases h
    exact .of_defect (Defect.notMem_stateCodes hdefect.code_mem)

end Datapack
