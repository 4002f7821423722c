/-
Invoking a method of the component that is built.

A statement that invokes a method names no component. It is looked up in the
component whose function is being written, and a body that is inherited is
written once for every heir, into a function of the heir. So an invocation in it
leads to what the heir has under the name: the nearest declaration on the heir's
own chain of bases, which may be further down than the body itself.
-/
import Datapack.Proofs.Dispatch
import Datapack.Proofs.Heirs
import Datapack.Proofs.Inlining

namespace Datapack

-- ============================================================= invocations

/-- A text without a slash selects the nearest declaration of it as a name. -/
theorem Selects.nearest_of_notMem {chain : List Component} {text : String}
    {position : Nat} {declarer : Component} {method : Method}
    (h : Selects chain text position declarer method)
    (htext : '/' ∉ text.toList) :
    ∃ front rest, chain = front ++ declarer :: rest ∧ position = front.length
      ∧ method ∈ declarer.methods ∧ method.name = text
      ∧ ∀ nearer ∈ front, ∀ other ∈ nearer.methods, other.name ≠ text := by
  cases h with
  | nearest hchain hmethod hnearer =>
      exact ⟨_, _, hchain, rfl, hmethod, rfl, hnearer⟩
  | ancestral => exact absurd (Name.slash_mem_qualified _ _) htext

-- ================================================================= bodies

/-- What a function has before and behind the commands of the body of a method,
and the clauses that it has around them: nothing, or what a guard adds. -/
inductive Guard.Frames (component : Component) (member : Member) :
    List (ExecutionContext × Command) →
      List Clause → List (ExecutionContext × Command) → Prop
  | plain : member.method.guarded = false → Frames component member [] [] []
  | guarded (tag : String) :
      member.method.guarded = true →
        Frames component member
          [(⟨[whenCarried tag]⟩, report component.name member.key),
       (⟨[unlessCarried tag]⟩, .addTag tag)]
      [unlessCarried tag, asCarriers tag]
      [(⟨[unlessCarried tag]⟩, .removeTag tag)]

/-- The command of a leaf stands in the place of the leaf. -/
theorem Statement.Program.getElem? {ground : Ground}
    {leaves : List (List Clause × Statement)}
    {program : List (ExecutionContext × Command)}
    (h : Statement.Program ground leaves program) {i : Nat}
    {clauses : List Clause} {statement : Statement}
    (hleaf : leaves[i]? = some (clauses, statement)) :
    ∃ command, statement.command ground = .ok command
      ∧ program[i]? = some (⟨clauses⟩, command) := by
  have hsame := congrArg (fun list => list[i]?) h
  simp only [List.getElem?_map, hleaf, Option.map_some] at hsame
  obtain ⟨⟨⟨clauses'⟩, command⟩, hstep, heq⟩ :=
    Option.map_eq_some_iff.1 hsame.symm
  obtain ⟨rfl, hcommand⟩ := Prod.mk.inj heq
  exact ⟨command, hcommand.symm, hstep⟩

namespace Project.Built

variable {project : Project} {components : List Component}
  {resolved : List (Component × List Member)} {pack : Pack}

/-- A resolved component in the registry. -/
theorem members_registered (h : project.Built components resolved pack)
    (hdescribed : ∀ component ∈ components, component.Described project.space)
    {registry : Registry} (hholds : registry.Holds components)
    {component : Component} {members : List Member}
    (hentry : (component, members) ∈ resolved) :
    registry.component? component.space component.name = some component
      ∧ registry.members component = .ok members := by
  have hhouse : Household project.space components :=
    ⟨h.registrable, fun component hmem => (hdescribed component hmem).space⟩
  have hmem := h.resolution.mem hentry
  exact ⟨(hholds.found _ _ _).2 ⟨hmem, rfl, rfl⟩,
    (hhouse.members_ok_iff hholds hmem).2 (h.resolution.members _ hentry)⟩

/-- What an invocation comes to in the functions of a component. -/
theorem invoke_nearest (h : project.Built components resolved pack)
    (hdescribed : ∀ component ∈ components, component.Described project.space)
    {registry : Registry} (hbuilt : registry.Built)
    (hholds : registry.Holds components) {component : Component}
    {members : List Member} (hentry : (component, members) ∈ resolved)
    {chain : List Component} (hchain : registry.BaseChain component chain)
    {name : String} (hname : '/' ∉ name.toList) {command : Command}
    (hcommand : (Statement.invoke name).command
      ⟨project.space, CallTable.ofComponents resolved, component.name⟩
      = .ok command) :
    ∃ front declarer rest method,
      chain = front ++ declarer :: rest ∧ method ∈ declarer.methods
      ∧ method.name = name
      ∧ (∀ nearer ∈ front, ∀ other ∈ nearer.methods, other.name ≠ name)
      ∧ command = .function (Location.ofMethod component.space component.name
          (if front = [] then none else some declarer.name) method.visibility
          name) := by
  obtain ⟨hfound, hmembers⟩ := h.members_registered hdescribed hholds hentry
  obtain ⟨other, hother, rfl⟩ := Registry.exists_baseChain hmembers
  obtain rfl := hother.unique hchain
  obtain ⟨target, htarget, rfl⟩ := Ground.call_eq_ok.1 hcommand
  rw [(hdescribed component (h.resolution.mem hentry)).snakeCase_name]
    at htarget
  obtain ⟨calls, hcalls, hmethod, -⟩ := CallTable.resolve_eq_ok.1 htarget
  obtain rfl := Option.some.inj
    ((CallTable.get?_of_mem h.resolution.nodup_names hentry).symm.trans hcalls)
  -- what is found was selected
  by_cases hselected : ∃ position declarer method,
    Selects other name position declarer method
  · obtain ⟨position, declarer, method, hselects⟩ := hselected
    rw [ComponentCalls.get?_of_selects (hchain.valid hbuilt hfound)
      (hchain.nodup_names hbuilt hfound) hselects] at hmethod
    obtain rfl := Option.some.inj hmethod
    obtain ⟨front, rest, hsplit, rfl, hdeclared, rfl, hnearer⟩ :=
      hselects.nearest_of_notMem hname
    refine ⟨front, declarer, rest, method, hsplit, hdeclared, rfl, hnearer, ?_⟩
    show Command.function
      (Location.ofMethod _ _ (if front.length = 0 then none else _) _ _) = _
    simp only [List.length_eq_zero_iff]
  · rw [ComponentCalls.get?_of_not_selects
      fun position declarer method hselects =>
        hselected ⟨position, declarer, method, hselects⟩] at hmethod
    cases hmethod

/-- The function of a method has a command for each leaf of the body, within
the frame that its guard gives it. -/
theorem method_spells (h : project.Built components resolved pack)
    {component : Component} {members : List Member}
    (hentry : (component, members) ∈ resolved) {member : Member}
    (hmember : member ∈ members) (hbody : member.method.IsStatements) :
    ∃ sheet ∈ (project.outcome resolved).written.below.sheets,
      sheet.location = some member.location ∧ sheet.stage = .closed
      ∧ ∃ opening around program closing,
        Guard.Frames component member opening around closing
        ∧ Statement.Program ⟨project.space, CallTable.ofComponents resolved,
          component.name⟩
            (member.method.leavesUnder around) program
        ∧ Inlines project.space
          ((project.outcome resolved).written.below.sheets.map Sheet.draft)
            sheet.draft.sources (opening ++ program ++ closing) := by
  have hbrace : '\x7b' ∉ project.space.toList :=
    Name.notMem_of_isValidNamespace h.space (by decide)
  obtain ⟨here, hground, hnames, hmethod⟩ :=
    Plan.components_contain hentry hmember h.result
  have hdrafts : ∀ {outline : Outline},
      outline.pieces ⊆ (project.outcome resolved).written.below.pieces →
      ∀ sheet ∈ outline.sheets,
        sheet.draft ∈ (project.outcome resolved).written.below.sheets.map
          Sheet.draft :=
    fun hsub sheet hsheet =>
      List.mem_map_of_mem
        (Outline.mem_sheets.2 (hsub (Outline.mem_sheets.1 hsheet)))
  cases hguarded : member.method.guarded with
  | false =>
      have hplan : Plan.methodBody component member
          = Action.planAll member.method.body :=
        if_neg (by rw [hguarded]; exact Bool.false_ne_true)
      have hresult := hmethod.result
      have hbelow := hmethod.below
      rw [hplan] at hresult hbelow
      obtain ⟨-, program, hprogram, hinlines⟩ :=
        hbody.spells hbrace _ [] here hground
          (by rw [hmethod.context]; rfl) hnames hresult (hdrafts hbelow)
      refine ⟨_, Outline.mem_sheets.2 hmethod.function, rfl, rfl, [], [],
        program, [], .plain hguarded, hprogram, ?_⟩
      rw [List.nil_append, List.append_nil, hplan]
      exact hinlines
  | true =>
      obtain ⟨hresult, hbelow, number, hfunction, hinner⟩ :=
        hmethod.guard hguarded
      obtain ⟨-, program, hprogram, hinlines⟩ :=
        Plan.spells_middle hbody hbrace hground hnames hresult (hdrafts hbelow)
      refine ⟨_, Outline.mem_sheets.2 hfunction, rfl, rfl, _, _, program, _,
        .guarded here.tags.head hguarded, hprogram, ?_⟩
      have hbracketed : Inlines project.space
          ((project.outcome resolved).written.below.sheets.map Sheet.draft)
          ((⟨[Guard.unlessCarried here.tags.head]⟩, .addTag here.tags.head)
            :: (Plan.middle (Action.planAll member.method.body)
              here).written.entries.map
              SheetEntry.source
            ++ [(⟨[Guard.unlessCarried here.tags.head]⟩,
              .removeTag here.tags.head)])
          ((⟨[Guard.unlessCarried here.tags.head]⟩, .addTag here.tags.head)
            :: program
            ++ [(⟨[Guard.unlessCarried here.tags.head]⟩,
              .removeTag here.tags.head)]) :=
        (Inlines.keep hinlines).append (.keep .nil)
      -- the call of the guard's function is replaced by what stands there
      refine .keep
        (.called (@FunctionPlace.isGenerated_head _ hbrace ⟨_, number⟩ hnames)
          (List.mem_map_of_mem (Outline.mem_sheets.2 hinner)) rfl ?_)
      unfold Sheet.draft
      dsimp only
      rw [List.map_append, List.map_cons]
      exact hbracketed

end Project.Built

/-- An invocation leads to the nearest declaration on the chain of bases of the
component that is built. The functions of its methods, own or inherited, guarded
or not, have a command for each leaf of the body in order, with the calls put
back that blocks became. The command of a leaf that invokes a name calls the
method of that name, public or private, at its place in the component, whoever
declared the body. -/
theorem ProjectManifest.invocations_find_nearest (manifest : ProjectManifest)
    (files : List (String × ComponentManifest)) {pack : Pack}
    (h : manifest.toProject.build (manifest.components files) = .ok pack) :
    ∃ registry resolved tree root,
      Registry.empty.registerAll (manifest.components files) = .ok registry
      ∧ manifest.toProject.Makes (manifest.components files) resolved tree root
      ∧ pack = manifest.toProject.collect tree root
      ∧ (∀ function ∈ pack.functions,
        ∃ draft ∈ tree.drafts root, draft.Renders function)
      ∧ (∀ component ∈ manifest.components files,
        ∃ members, (component, members) ∈ resolved)
      ∧ ∀ component members, (component, members) ∈ resolved →
          registry.members component = .ok members
          ∧ ∃ chain, registry.BaseChain component chain
          ∧ ∀ member ∈ members,
            ∃ draft ∈ tree.drafts root, ∃ function ∈ pack.functions,
              function.location = member.location ∧ draft.Renders function
              ∧ ∃ opening around program closing,
                Guard.Frames component member opening around closing
                ∧ Inlines manifest.space (tree.drafts root) draft.sources
                    (opening ++ program ++ closing)
                ∧ Statement.Program
                    ⟨manifest.space, CallTable.ofComponents resolved,
                      component.name⟩
                    (member.method.leavesUnder around) program
                ∧ ∀ (i : Nat) (clauses : List Clause) (name : String),
                    member.method.leaves[i]? = some (clauses, .invoke name) →
                    '/' ∉ name.toList →
                    ∃ front declarer rest method,
                      chain = front ++ declarer :: rest
                      ∧ method ∈ declarer.methods ∧ method.name = name
                      ∧ (∀ nearer ∈ front,
                        ∀ other ∈ nearer.methods, other.name ≠ name)
                      ∧ program[i]?
                        = some (⟨around ++ clauses⟩,
                          .function
                            (Location.ofMethod component.space component.name
                          (if front = [] then none else some declarer.name)
                          method.visibility name)) := by
  have hdescribed := manifest.described files
  obtain ⟨resolved, hbuilt⟩ := built_of_build h
  obtain ⟨tree, hmakes, hshows⟩ :=
    hbuilt.makes (manifest.space_components files)
  have hdrafts := BuildTree.drafts_eq hshows
  obtain ⟨registry, hok, hholds⟩ := Registry.registerAll_ok hbuilt.registrable
  have hregistry : registry.Built := .registerAll .empty hok
  refine ⟨registry, resolved, tree, 0, hok, hmakes,
    hbuilt.pack.trans (Project.collect_eq _ hshows).symm,
    fun function hfunction => ?_,
    fun component hmem => hbuilt.resolution.exists_entry hmem,
    fun component members hentry => ?_⟩
  · obtain ⟨sheet, hsheet, hrenders⟩ := hbuilt.exists_renders hfunction
    rw [hdrafts]
    exact ⟨_, List.mem_map_of_mem hsheet, hrenders⟩
  -- what was resolved before the build is what the registry gives, so the
  -- chain of the component is the one calls are looked up along
  obtain ⟨-, hmembers⟩ := hbuilt.members_registered hdescribed hholds hentry
  obtain ⟨chain, hchain, -⟩ := Registry.exists_baseChain hmembers
  refine ⟨hmembers, chain, hchain, fun member hmember => ?_⟩
  have hbody := hbuilt.resolution.isStatements
    (fun component hmem => (hdescribed component hmem).bodies) _ hentry
    member hmember
  obtain ⟨sheet, hsheet, hlocation, hstage, opening, around, program, closing,
    hframes, hprogram, hinlines⟩ := hbuilt.method_spells hentry hmember hbody
  obtain ⟨function, hfunction, hplace, hrenders⟩ :=
    hbuilt.renders_sheet hsheet hstage hlocation
  refine ⟨sheet.draft, hdrafts ▸ List.mem_map_of_mem hsheet, function,
    hfunction, hplace, hrenders, opening, around, program, closing, hframes,
    hdrafts ▸ hinlines, hprogram, ?_⟩
  intro i clauses name hleaf hname
  -- the leaf keeps its position under the clauses of the guard
  have hunder : (member.method.leavesUnder around)[i]?
      = some (around ++ clauses, .invoke name) := by
    unfold Method.leavesUnder
    rw [List.getElem?_map, hleaf]
    rfl
  obtain ⟨command, hcommand, hstep⟩ := hprogram.getElem? hunder
  obtain ⟨front, declarer, rest, method, hsplit, hmethod, hnamed,
    hnearer, rfl⟩ :=
    hbuilt.invoke_nearest hdescribed hregistry hholds hentry hchain
      hname hcommand
  exact ⟨front, declarer, rest, method, hsplit, hmethod, hnamed, hnearer, hstep⟩

namespace Zoo

def manifest : ProjectManifest := { name := "Zoo", space := "zoo" }

/-- A component with a guarded method that invokes another one. -/
def animalManifest : ComponentManifest where
  methods :=
    [{ name := "greet"
       guarded := true
       body := [.execute [⟨["as", "@a"]⟩] [.invoke "speak", .say "hello"]] },
     { name := "speak", body := [.say "..."] }]

def dogManifest : ComponentManifest where
  base := some "animal"
  methods := [{ name := "speak", visibility := .owner, body := [.say "woof"] }]

def files : List (String × ComponentManifest) :=
  [("Animal", animalManifest), ("Dog", dogManifest)]

def animal : Component := animalManifest.toComponent "zoo" "Animal"

def dog : Component := dogManifest.toComponent "zoo" "Dog"

set_option maxRecDepth 100000 in
private theorem build : ∃ pack,
  manifest.toProject.build (manifest.components files) = .ok pack :=
  exists_of_isOk (by decide +kernel)

/-- The method as the heir has it. -/
def greet : Member :=
  dog.flatMember [dog, animal] 1 animal (animal.methods.head (by decide))

end Zoo

/-- Where a dog greets as animals do, it speaks as a dog, although nobody else
may call that. -/
theorem ProjectManifest.dog_speaks :
    ∃ pack tree root,
      Zoo.manifest.toProject.build (Zoo.manifest.components Zoo.files)
        = .ok pack
      ∧ pack = Zoo.manifest.toProject.collect tree root
      ∧ ∃ draft ∈ tree.drafts root,
        draft.location = some "zoo:component/dog/animal/greet"
        ∧ ∃ tag opening program closing,
          Inlines "zoo" (tree.drafts root) draft.sources
            (opening ++ program ++ closing)
          ∧ program[0]? = some
            (⟨[Guard.unlessCarried tag, Guard.asCarriers tag, ⟨["as", "@a"]⟩]⟩,
              .function "zoo:component/dog/_private/speak") := by
  obtain ⟨pack, h⟩ := Zoo.build
  obtain ⟨registry, resolved, tree, root, hok, -, hpack, -, hresolved,
    hmethods⟩ :=
    Zoo.manifest.invocations_find_nearest Zoo.files h
  have hcomponents : Zoo.manifest.components Zoo.files
      = [Zoo.animal, Zoo.dog] := rfl
  obtain ⟨members, hentry⟩ := hresolved Zoo.dog (by simp [hcomponents])
  obtain ⟨hmembers, chain, hchain, hbodies⟩ := hmethods Zoo.dog members hentry
  -- the chain of the dog
  have hdog : registry.BaseChain Zoo.dog [Zoo.dog, Zoo.animal] := by
    obtain ⟨_, hbuilt⟩ := built_of_build h
    obtain ⟨found, hfound, hholds⟩ := Registry.registerAll_ok hbuilt.registrable
    obtain rfl := Except.ok.inj (hok.symm.trans hfound)
    exact .climb
      rfl ((hholds.found "zoo" "animal" Zoo.animal).2
        ⟨by simp [hcomponents], rfl, rfl⟩) (.root rfl)
  obtain rfl := hchain.unique hdog
  obtain ⟨other, hother, rfl⟩ := Registry.exists_baseChain hmembers
  obtain rfl := hother.unique hdog
  have hgreet : Zoo.greet ∈ Zoo.dog.flatMembers [Zoo.dog, Zoo.animal] :=
    List.mem_flatMap.2
      ⟨(Zoo.animal, 1), by simp, List.mem_map_of_mem (List.head_mem _)⟩
  obtain ⟨draft, hdraft, function, -, hlocation, hrenders, opening, around,
    program, closing, hframes, hinlines, -, hinvoked⟩ :=
    hbodies Zoo.greet hgreet
  cases hframes with
  | plain hguarded => cases hguarded
  | guarded tag _ =>
      obtain ⟨front, declarer, rest, method, hsplit, hmethod, -, hnearer,
        hstep⟩ :=
        hinvoked 0 [⟨["as", "@a"]⟩] "speak" rfl (by decide)
      -- the dog itself declares the name
      obtain rfl : front = [] := by
        cases front with
        | nil => rfl
        | cons nearest further =>
            obtain ⟨rfl, -⟩ := List.cons.inj hsplit
            exact absurd rfl (hnearer Zoo.dog List.mem_cons_self _
              List.mem_cons_self)
      obtain ⟨rfl, -⟩ := List.cons.inj hsplit
      obtain rfl := List.mem_singleton.1 hmethod
      refine ⟨pack, tree, root, h, hpack, draft, hdraft, ?_, tag, _, program, _,
        hinlines, hstep⟩
      rw [hrenders.location, hlocation]
      rfl

end Datapack
