/-
Guards against recursion.

A guarded method has a tag of its own. While it runs, some entity carries the
tag, and calling it again comes to nothing but a report.

# Tags

Only guards take names from the stream of tags, one each. So the methods that
are guarded have the names of the stream in the order in which they are built
(`Plan.components_numbered`), and no two of them share a tag.

# Lines

The function of a guarded method has two lines, whatever the body is. `Crowd`
reads them among entities that are given by their tags, as far as the lines ask
whether some entity carries a tag.
-/
import Datapack.Proofs.Entity
import Datapack.Proofs.Heirs
import Datapack.Proofs.Inlining

namespace Datapack

-- ================================================================== names

/-- The names of a template that ends with the placeholder. -/
theorem NameStream.toList_nameAt {template front : String}
    (hfront : '\x7b' ∉ front.toList)
    (htemplate : template.toList = front.toList ++ Location.placeholder.toList)
    (n : Nat) :
    (nameAt template n).toList = front.toList ++ digits n := by
  unfold nameAt
  rw [String.toList_ofList, htemplate]
  exact Text.replaceAll_append hfront

section

variable {space : String} (hspace : Name.isValidNamespace space = true)

include hspace

/-- The tag of a guard: the namespace, and the digits of its number. -/
private theorem Location.toList_tag (n : Nat) :
    (NameStream.nameAt (tagTemplate space) n).toList
      = space.toList ++ ".generated.".toList ++ NameStream.digits n := by
  have htemplate : (tagTemplate space).toList
      = (space ++ ".generated.").toList ++ placeholder.toList := by
    unfold tagTemplate
    simp [toString, String.toList_append]
  have hfront : '\x7b' ∉ (space ++ ".generated.").toList := by
    rw [String.toList_append, List.mem_append, not_or]
    exact ⟨Name.notMem_of_isValidNamespace hspace (by decide), by decide⟩
  rw [NameStream.toList_nameAt hfront htemplate, String.toList_append]

/-- Tags of different numbers are different. -/
private theorem Location.tag_injective {n m : Nat}
    (h : NameStream.nameAt (tagTemplate space) n
      = NameStream.nameAt (tagTemplate space) m) :
    n = m := by
  have hlist := congrArg String.toList h
  rw [Location.toList_tag hspace, Location.toList_tag hspace] at hlist
  exact NameStream.digits_injective (List.append_cancel_left hlist)

/-- The tag of a guard is one word. -/
private theorem Location.isWord_tag (n : Nat) :
    Text.IsWord (NameStream.nameAt (tagTemplate space) n) := by
  have hdigits : ∀ d < 16, Text.isBlank d.digitChar = false := by decide
  unfold Text.IsWord
  rw [Location.toList_tag hspace]
  refine ⟨by simp, fun c hc => ?_⟩
  simp only [List.mem_append] at hc
  rcases hc with (hc | hc) | hc
  · exact Name.not_isBlank_of_isValidNamespace hspace c hc
  · exact (by decide : Text.IsWord ".generated.").2 c hc
  · obtain ⟨d, hd, rfl⟩ := NameStream.exists_of_mem_digits hc
    exact hdigits d hd

end

private theorem Guard.isWord_carriers {tag : String} (h : Text.IsWord tag) :
    Text.IsWord (Guard.carriers tag) := by
  show Text.IsWord ("@e[tag=" ++ tag ++ "]")
  exact ((by decide : Text.IsWord "@e[tag=").append h.2).append
    (by decide : Text.IsWord "]").2

-- ============================================================ taking tags

namespace Plan

/-- The plan takes no name from the stream of tags. -/
def Tagless (plan : Plan) : Prop :=
  ∀ site, (plan site).written.tags = 0

namespace Tagless

variable {plan next : Plan}

private theorem done : Tagless Plan.done := fun _ => rfl

private theorem enter (entries : Site → List SheetEntry) :
    Tagless (Plan.enter entries) := fun _ => rfl

private theorem emit (cause : Cause) (command : Command) :
    Tagless (Plan.emit cause command) := fun _ => rfl

private theorem tag (value location : String) :
    Tagless (Plan.tag value location) := fun _ => rfl

/-- A leaf takes no tag, whether its call leads somewhere or not. -/
private theorem leaf (statement : Statement) :
    Tagless (Plan.leaf statement) := by
  intro site
  unfold Plan.leaf
  cases statement.command site.toGround <;> rfl

/-- Steps in a row take no tag if neither does. -/
private theorem andThen (h : Tagless plan) (h' : Tagless next) :
    Tagless (plan.andThen next) := by
  intro site
  rcases andThen_cases plan next site with ⟨_, -, heq⟩ | ⟨-, heq⟩
  · rw [heq, h]
  · rw [heq, Written.tags_append, h, h']

private theorem each {α : Type} {plan : α → Plan} (h : ∀ a, Tagless (plan a))
    (list : List α) :
    Tagless (Plan.each plan list) := by
  induction list with
  | nil => exact done
  | cons a rest ih => exact (h a).andThen ih

/-- The function of a block takes a name from the other stream. -/
private theorem block (clauses : List Clause) (h : Tagless plan) :
    Tagless (plan.block clauses) := by
  intro site
  have hinner := h { site with context := site.context.enter clauses }
  rcases block_cases clauses plan site with heq | ⟨_, -, heq⟩ | ⟨-, -, heq⟩
  · rw [heq, hinner]
  · rw [heq]
    exact hinner
  · rw [heq]
    exact hinner

private theorem function (location : String) (h : Tagless plan) :
    Tagless (.function location plan) :=
  fun site => h { site with context := .empty }

private theorem withFunction {plan : String → Plan}
    (h : ∀ location, Tagless (plan location)) :
    Tagless (.withFunction plan) := by
  intro site
  unfold Plan.withFunction
  rw [Written.tags_append, h]

end Tagless

end Plan

mutual

/-- No statement takes a tag, at any depth of blocks. -/
theorem Statement.tagless : ∀ statement : Statement, statement.plan.Tagless
  | .execute more body => by
      rw [Statement.plan]
      exact .block more (Statement.taglessAll body)
  | .run .. | .say .. | .log .. | .error .. | .addTag .. | .removeTag ..
  | .function .. | .functionTag .. | .invoke .. | .call .. | .attach ..
  | .detach .. => by
      rw [Statement.plan]
      · exact .leaf _
      all_goals exact fun _ _ h => by cases h

private theorem Statement.taglessAll : ∀ body : List Statement,
  (Statement.planAll body).Tagless
  | [] => by
      rw [Statement.planAll]
      exact .done
  | statement :: rest => by
      rw [Statement.planAll]
      exact .andThen statement.tagless (Statement.taglessAll rest)

end

namespace Plan

/-- The entry points take no tag. -/
private theorem tagless_entryPoints (component : Component)
    (members : List Member) :
    Tagless (entryPoints component members) := by
  have hhook : ∀ hook, Tagless (runHook component members hook) := by
    intro hook
    unfold runHook
    split
    · exact .emit _ _
    · exact .done
  have hdispatcher : ∀ hook, Tagless (dispatcher component members hook) := by
    intro hook
    unfold dispatcher
    cases hook.gameTag? with
    | none => exact .done
    | some gameTag =>
        dsimp only
        split
        · exact .withFunction
            fun location => .andThen (.function _ (.enter _)) (.tag _ _)
        · exact .done
  unfold entryPoints
  split
  · exact .done
  · exact .andThen (.each hdispatcher _)
      (.andThen (.function _ (.block _ (.andThen (.emit _ _) (hhook _))))
        (.function _ (.block _ (.andThen (hhook _) (.emit _ _)))))

/-- A guard takes a tag, and nothing else in a method does. -/
theorem tags_methodBody {component : Component} {member : Member}
    (h : member.method.IsStatements) {site : Site}
    (hcontext : site.context = .empty)
    (hres : (methodBody component member site).result = .ok ()) :
    (methodBody component member site).written.tags
      = if member.method.guarded then 1 else 0 := by
  have hbody : Tagless (Action.planAll member.method.body) := by
    obtain ⟨body, hbody⟩ := h
    rw [hbody, Action.planAll_perform]
    exact Statement.taglessAll body
  unfold methodBody at hres ⊢
  cases hguarded : member.method.guarded with
  | false => exact hbody site
  | true =>
      rw [hguarded, if_pos rfl] at hres
      obtain ⟨-, number, hwritten⟩ := guarded_eq hcontext hres
      rw [if_pos rfl, if_pos rfl, hwritten]
      exact congrArg (1 + ·) (hbody.block _ (insideGuard site))

/-- A method takes one tag if it is guarded, and none otherwise. -/
private theorem tags_method {component : Component} {member : Member}
    (h : member.method.IsStatements) {site : Site}
    (hres : (method component member site).result = .ok ()) :
    (method component member site).written.tags
      = if member.method.guarded then 1 else 0 := by
  have hlabel := result_of_labelled hres
  obtain ⟨hok, -, hwritten⟩ := andThen_ok hlabel
  unfold method
  rw [labelled_written]
  unfold beneath Outcome.beneath
  rw [hwritten, each_tag]
  exact tags_methodBody h rfl hok

end Plan

-- ============================================================== numbering

/-- The guarded ones among methods that components have. -/
def onlyGuarded (methods : List (Component × Member)) :
    List (Component × Member) :=
  methods.filter fun entry => entry.2.method.guarded

/-- The guarded methods of a project, in the order in which they are built. -/
def guardedMethods (resolved : List (Component × List Member)) :
    List (Component × Member) :=
  onlyGuarded
    (resolved.flatMap fun entry => entry.2.map fun member => (entry.1, member))

/-- The guarded methods of a project are those of its components. -/
private theorem mem_guardedMethods {resolved : List (Component × List Member)}
    {component : Component} {member : Member} :
    (component, member) ∈ guardedMethods resolved ↔
      ∃ members, (component, members) ∈ resolved ∧ member ∈ members
        ∧ member.method.guarded = true := by
  unfold guardedMethods onlyGuarded
  simp only [List.mem_filter, List.mem_flatMap, List.mem_map]
  constructor
  · rintro ⟨⟨⟨owner, members⟩, hentry, _, hmember, heq⟩, hguarded⟩
    obtain ⟨rfl, rfl⟩ := Prod.mk.inj heq
    exact ⟨members, hentry, hmember, hguarded⟩
  · rintro ⟨members, hentry, hmember, hguarded⟩
    exact ⟨⟨_, hentry, member, hmember, rfl⟩, hguarded⟩

private theorem NameStream.drop_drop (names : NameStream) (n m : Nat) :
    (names.drop n).drop m = names.drop (n + m) := by
  unfold drop
  rw [Nat.add_assoc]

namespace Plan

private theorem MethodBuilt.mono {component : Component} {member : Member}
    {site : Site} {outline larger : Outline}
    (h : MethodBuilt component member site outline)
    (hsub : outline.pieces ⊆ larger.pieces) :
    MethodBuilt component member site larger :=
  ⟨h.context, h.result, hsub h.function, List.Subset.trans h.below hsub,
    fun tag htag => hsub (h.tags tag htag)⟩

/-- The methods were built, each with the next name of the stream. -/
def Numbered (ground : Ground) (template : String) (names : NameStream)
    (outline : Outline) (methods : List (Component × Member)) : Prop :=
  ∀ i component member, methods[i]? = some (component, member) →
    ∃ here : Site, here.toGround = { ground with component := component.name }
      ∧ here.functions.template = template ∧ here.tags = names.drop i
      ∧ MethodBuilt component member here outline

namespace Numbered

variable {ground : Ground} {template : String} {names : NameStream}
  {outline : Outline} {first second : List (Component × Member)}

private theorem nil : Numbered ground template names outline [] := by
  intro i component member hget
  cases hget

private theorem append (h : Numbered ground template names outline first)
    (h' : Numbered ground template (names.drop first.length) outline second) :
    Numbered ground template names outline (first ++ second) := by
  intro i component member hget
  by_cases hlt : i < first.length
  · rw [List.getElem?_append_left hlt] at hget
    exact h i component member hget
  · rw [List.getElem?_append_right (Nat.le_of_not_lt hlt)] at hget
    obtain ⟨here, hground, htemplate, htags, hbuilt⟩ :=
      h' _ component member hget
    refine ⟨here, hground, htemplate, ?_, hbuilt⟩
    rw [htags, NameStream.drop_drop, Nat.add_sub_cancel' (Nat.le_of_not_lt hlt)]

private theorem mono {larger : Outline}
    (h : Numbered ground template names outline first)
    (hsub : outline.pieces ⊆ larger.pieces) :
    Numbered ground template names larger first := by
  intro i component member hget
  obtain ⟨here, hground, htemplate, htags, hbuilt⟩ := h i component member hget
  exact ⟨here, hground, htemplate, htags, hbuilt.mono hsub⟩

end Numbered

/-- A plan that ends well builds the methods, and the guarded ones among them
take one tag each, in order. -/
def Numbers (ground : Ground) (template : String)
    (methods : List (Component × Member)) (plan : Plan) : Prop :=
  ∀ site : Site, site.toGround = ground → site.functions.template = template →
    (plan site).result = .ok () →
    (plan site).written.tags = (onlyGuarded methods).length
      ∧ Numbered ground template site.tags (plan site).written.below
        (onlyGuarded methods)

namespace Numbers

variable {ground : Ground} {template : String}
  {methods others : List (Component × Member)} {plan next : Plan}

/-- Plans in a row number their methods in a row. -/
private theorem andThen (h : Numbers ground template methods plan)
    (h' : Numbers ground template others next) :
    Numbers ground template (methods ++ others) (plan.andThen next) := by
  intro site hground htemplate hres
  obtain ⟨hok, hok', hwritten⟩ := andThen_ok hres
  obtain ⟨htags, hbuilt⟩ := h site hground htemplate hok
  obtain ⟨htags', hbuilt'⟩ := h' (site.after _) hground htemplate hok'
  have hsplit : onlyGuarded (methods ++ others)
      = onlyGuarded methods ++ onlyGuarded others :=
    List.filter_append ..
  have hnames : (site.after (plan site).written).tags
      = site.tags.drop (onlyGuarded methods).length := by
    rw [← htags]
    rfl
  rw [hnames] at hbuilt'
  rw [hsplit, hwritten, Written.tags_append, Written.below_append,
    List.length_append, htags, htags']
  refine ⟨rfl, (hbuilt.mono ?_).append (hbuilt'.mono ?_)⟩
  · rw [Outline.pieces_append]
    exact List.subset_append_left ..
  · rw [Outline.pieces_append]
    exact List.subset_append_right ..

private theorem each {α : Type} {plan : α → Plan}
    {methods : α → List (Component × Member)} :
    ∀ {list : List α},
      (∀ a ∈ list, Numbers ground template (methods a) (plan a)) →
        Numbers ground template (list.flatMap methods) (Plan.each plan list)
  | [], _ => fun _ _ _ _ => ⟨rfl, .nil⟩
  | a :: _, h => (h a List.mem_cons_self).andThen
      (each fun other hother => h other (List.mem_cons_of_mem _ hother))

/-- A step that takes no tag builds no guarded method. -/
theorem tagless (h : Tagless plan) : Numbers ground template [] plan :=
  fun site _ _ _ => ⟨h site, .nil⟩

end Numbers

/-- A method that is guarded gets the next tag. -/
private theorem method_numbers {component : Component} {member : Member}
    (h : member.method.IsStatements) {ground : Ground}
    (hground : ground.component = component.name) (template : String) :
    Numbers ground template [(component, member)]
      (method component member) := by
  rintro site rfl htemplate hres
  have htags := tags_method h hres
  cases hguarded : member.method.guarded with
  | false =>
      rw [hguarded] at htags
      have hnone : onlyGuarded [(component, member)] = [] := by
        simp [onlyGuarded, hguarded]
      rw [hnone]
      exact ⟨htags, .nil⟩
  | true =>
      rw [hguarded] at htags
      have hone : onlyGuarded [(component, member)]
          = [(component, member)] := by
        simp [onlyGuarded, hguarded]
      rw [hone]
      refine ⟨htags, fun i owner found hget => ?_⟩
      obtain ⟨rfl, hfound⟩ : i = 0 ∧ (owner, found) = (component, member) := by
        cases i with
        | zero => exact ⟨rfl, (Option.some.inj hget).symm⟩
        | succ n => cases hget
      obtain ⟨rfl, rfl⟩ := Prod.mk.inj hfound
      refine ⟨{ site with context := .empty }, ?_, htemplate, rfl,
        method_contains hres⟩
      rw [← hground]

/-- The methods of a component get tags in order, and its entry points
get none. -/
private theorem component_numbers {component : Component}
    {members : List Member} (h : ∀ member ∈ members, member.method.IsStatements)
    (ground : Ground) (template : String) :
    Numbers ground template (members.map fun member => (component, member))
      (Plan.component component members) := by
  intro site hground htemplate hres
  have hlabel := result_of_labelled hres
  have hmethods : Numbers { ground with component := component.name } template
      ((members.flatMap fun member => [(component, member)]) ++ [])
      ((each (method component) members).andThen
        (entryPoints component members)) :=
    .andThen
      (.each fun member hmember =>
        method_numbers (h member hmember) rfl template)
        (.tagless (tagless_entryPoints component members))
  obtain ⟨htags, hbuilt⟩ := hmethods { site with component := component.name }
    (by rw [← hground]) htemplate hlabel
  rw [List.append_nil, ← List.map_eq_flatMap] at htags hbuilt
  unfold Plan.component
  rw [labelled_written]
  refine ⟨htags, fun i owner member hget => ?_⟩
  obtain ⟨here, hhere, hnames, htag, hmethod⟩ := hbuilt i owner member hget
  refine ⟨here, hhere, hnames, htag, hmethod.mono fun piece hpiece => ?_⟩
  unfold within beneath Outcome.beneath
  rw [Outline.pieces_single]
  exact List.mem_cons_of_mem _ hpiece

/-- The guarded methods of a project take the names of the stream of tags in
the order in which they are built. -/
theorem components_numbered {resolved : List (Component × List Member)}
    (h : ∀ entry ∈ resolved, ∀ member ∈ entry.2, member.method.IsStatements)
    (ground : Ground) (template : String) :
    Numbers ground template
      (resolved.flatMap
        fun entry => entry.2.map fun member => (entry.1, member))
      (components resolved) :=
  .each fun entry hentry => component_numbers (h entry hentry) ground template

/-- A guard has one entry at most between its own two. -/
theorem length_middle {body : Plan} {site : Site}
    (hres : (middle body site).result = .ok ()) :
    (middle body site).written.entries.length ≤ 1 := by
  have hentered : (insideGuard site).context.enter
      [Guard.asCarriers site.tags.head] ≠ (insideGuard site).context := by
    simp [insideGuard, ExecutionContext.enter, Guard.asCarriers,
      Clause.isEmpty]
  obtain ⟨-, ⟨hfew, heq⟩ | ⟨-, heq⟩⟩ := block_of_ok hentered hres
  · unfold middle
    rw [heq]
    exact hfew
  · unfold middle
    rw [heq]
    exact Nat.le_refl 1

end Plan

-- ================================================================== lines

private theorem Text.words_append (line other : String) :
    words (line ++ " " ++ other) = words line ++ words other := by
  have htext : (line ++ " " ++ other).toList
      = line.toList ++ ' ' :: other.toList := by
    simp [String.toList_append]
  unfold words
  rw [htext,
    List.splitOnP_append_cons _ _
      (by decide), List.filter_append, List.map_append]

namespace Command

variable {wrapper : List String} {command : Command}

/-- A command behind a wrapper that has no blanks in it. -/
theorem words_behind (hwrapper : wrapper ≠ [])
    (hwords : ∀ token ∈ wrapper, Text.IsWord token)
    (hne : command.tokens ≠ []) :
    Text.words (command.behind wrapper).render
      = wrapper ++ Text.words command.render := by
  rw [render_behind hwrapper hne, Text.words_append,
    words_render hwrapper hwords]

end Command

namespace Guard

section

variable {condition tag : String} (hcondition : Text.IsWord condition)
  (htag : Text.IsWord tag) {command : Command} (hne : command.tokens ≠ [])

include hcondition htag

private theorem isWord_test :
    ∀ token ∈ ["execute", condition, "entity", carriers tag, "run"],
      Text.IsWord token := by
  simp only [List.forall_mem_cons]
  exact ⟨by decide, hcondition, by decide, isWord_carriers htag, by decide,
    List.forall_mem_nil _⟩

include hne

/-- A line that is run if some entity carries a tag, or if none does. -/
private theorem render_behind_test :
    (command.behind
      (Clause.wrapper [⟨[condition, "entity", carriers tag]⟩])).render
      = "execute " ++ condition ++ " entity @e[tag=" ++ tag ++ "] run "
        ++ command.render := by
  have hsome : Clause.wrapper [⟨[condition, "entity", carriers tag]⟩] ≠ [] :=
    List.cons_ne_nil _ _
  have hwrapper :
      (⟨Clause.wrapper [⟨[condition, "entity", carriers tag]⟩]⟩ :
        Command).render
      = " ".intercalate ["execute", condition, "entity", carriers tag, "run"] :=
    Command.render_eq (isWord_test hcondition htag)
  rw [Command.render_behind hsome hne, hwrapper]
  apply String.toList_injective
  simp [carriers, String.toList_append, String.intercalate_cons_cons, toString]

/-- The words of such a line. -/
private theorem words_behind_test :
    Text.words
      (command.behind
        (Clause.wrapper [⟨[condition, "entity", carriers tag]⟩])).render
      = "execute" :: condition :: "entity" :: carriers tag :: "run"
        :: Text.words command.render :=
  Command.words_behind (List.cons_ne_nil _ _) (isWord_test hcondition htag) hne

end

/-- The line of a guard that reports, as a text. -/
private theorem report_line {tag : String} (htag : Text.IsWord tag)
    (component key : String) :
    ((report component key).behind (Clause.wrapper [whenCarried tag])).render
      = s!"execute if entity @e[tag={tag}] run {(report component key).render}" := by
  have hne : (report component key).tokens ≠ [] := List.cons_ne_nil _ _
  refine (render_behind_test (by decide) htag hne).trans ?_
  apply String.toList_injective
  simp [String.toList_append, toString]

private theorem isWord_function {location : String} (h : Text.IsWord location) :
    ∀ token ∈ (Command.function location).tokens, Text.IsWord token := by
  simp only [Command.function, List.forall_mem_cons]
  exact ⟨by decide, h, List.forall_mem_nil _⟩

/-- The line of a guard that calls, as a text. -/
private theorem call_line {tag location : String} (htag : Text.IsWord tag)
    (hlocation : Text.IsWord location) :
    ((Command.function location).behind
      (Clause.wrapper [unlessCarried tag])).render
      = s!"execute unless entity @e[tag={tag}] run function {location}" := by
  have hne : (Command.function location).tokens ≠ [] := List.cons_ne_nil _ _
  refine (render_behind_test (by decide) htag hne).trans ?_
  rw [Command.render_eq (isWord_function hlocation)]
  apply String.toList_injective
  simp [Command.function, String.toList_append, String.intercalate_cons_cons,
    toString]

/-- A command that changes the tags of the executing entity. -/
theorem render_tag {verb tag : String} (hverb : Text.IsWord verb)
    (htag : Text.IsWord tag) :
    (⟨["tag", "@s", verb, tag]⟩ : Command).render
      = "tag @s " ++ verb ++ " " ++ tag := by
  have hwords : ∀ token ∈ ["tag", "@s", verb, tag], Text.IsWord token := by
    simp only [List.forall_mem_cons]
    exact ⟨by decide, by decide, hverb, htag, List.forall_mem_nil _⟩
  refine (Command.render_eq hwords).trans ?_
  apply String.toList_injective
  simp [String.toList_append, String.intercalate_cons_cons]

private theorem render_addTag {tag : String} (htag : Text.IsWord tag) :
    (Command.addTag tag).render = s!"tag @s add {tag}" :=
  render_tag (by decide : Text.IsWord "add") htag

private theorem render_removeTag {tag : String} (htag : Text.IsWord tag) :
    (Command.removeTag tag).render = s!"tag @s remove {tag}" :=
  render_tag (by decide : Text.IsWord "remove") htag

/-- A report is a message to everyone. -/
theorem render_report (component key : String) :
    ∃ message : String,
      (report component key).render = "tellraw @a" ++ " " ++ message := by
  obtain ⟨payload, hpayload⟩ : ∃ payload : String,
      report component key = (⟨[payload]⟩ : Command).behind ["tellraw", "@a"] :=
    ⟨_, rfl⟩
  have hstart : (⟨["tellraw", "@a"]⟩ : Command).render = "tellraw @a" := by
    decide
  refine ⟨(⟨[payload]⟩ : Command).render, ?_⟩
  rw [hpayload,
    Command.render_behind (List.cons_ne_nil _ _) (List.cons_ne_nil _ _), hstart]

end Guard

-- =================================================================== runs

/-- Entities, given by the tags that they carry. -/
abbrev Crowd := List (Finset String)

namespace Crowd

/-- Some entity carries the tag. -/
def Carries (crowd : Crowd) (tag : String) : Prop :=
  ∃ tags ∈ crowd, tag ∈ tags

/-- The selector asks for a tag of the entity. -/
def selects (selector : String) (tags : Finset String) : Bool :=
  decide (∃ tag ∈ tags, Guard.carriers tag = selector)

/-- The words of the command that a line comes to, unless it asks for entities
and the answer is that the command is not run. -/
def command? (crowd : Crowd) : List String → Option (List String)
  | "execute" :: "if" :: "entity" :: selector :: "run" :: command =>
    if crowd.any (selects selector) then some command else none
  | "execute" :: "unless" :: "entity" :: selector :: "run" :: command =>
    if crowd.any (selects selector) then none else some command
  | words => some words

/-- Runs lines one after another, with the effect that commands have on the
entities: the commands that were run, and the entities in the end. -/
def run (effect : List String → Crowd → Crowd) :
    List String → Crowd → List (List String) × Crowd
  | [], crowd => ([], crowd)
  | line :: rest, crowd =>
    match crowd.command? (Text.words line) with
    | none => run effect rest crowd
    | some command =>
      let (log, last) := run effect rest (effect command crowd)
      (command :: log, last)

/-- Runs the function of a location. -/
def call (effect : List String → Crowd → Crowd) (pack : Pack)
    (location : String) (crowd : Crowd) : Option (List (List String) × Crowd) :=
  (pack.function? location).map
    fun function => run effect function.commands crowd

/-- Messages change no entity. -/
def Silent (effect : List String → Crowd → Crowd) : Prop :=
  ∀ command crowd, command.head? = some "tellraw" → effect command crowd = crowd

/-- The selector of a guard asks for those that carry its tag. -/
private theorem any_selects {crowd : Crowd} {tag : String} :
    crowd.any (selects (Guard.carriers tag)) = true ↔ crowd.Carries tag := by
  have hinj : ∀ other,
      Guard.carriers other = Guard.carriers tag ↔ other = tag := by
    refine fun other => ⟨fun heq => ?_, fun heq => by rw [heq]⟩
    have htext := congrArg String.toList heq
    apply String.toList_injective
    simpa [Guard.carriers, toString, String.toList_append] using htext
  unfold Carries
  simp [selects, hinj]

section

variable {effect : List String → Crowd → Crowd} {crowd : Crowd} {tag : String}

/-- A line behind the test for carriers is run if there are some. -/
private theorem command?_when (htag : Text.IsWord tag) {command : Command}
    (hne : command.tokens ≠ []) :
    crowd.command?
        (Text.words
          (command.behind (Clause.wrapper [Guard.whenCarried tag])).render)
      = if crowd.any (selects (Guard.carriers tag)) then
          some (Text.words command.render)
        else none :=
  congrArg crowd.command? (Guard.words_behind_test (by decide) htag hne)

/-- A line behind the other test is run if there are none. -/
private theorem command?_unless (htag : Text.IsWord tag) {command : Command}
    (hne : command.tokens ≠ []) :
    crowd.command?
        (Text.words
          (command.behind (Clause.wrapper [Guard.unlessCarried tag])).render)
      = if crowd.any (selects (Guard.carriers tag)) then none
        else some (Text.words command.render) :=
  congrArg crowd.command? (Guard.words_behind_test (by decide) htag hne)

variable (htag : Text.IsWord tag) {first second : Command}
  (hfirst : first.tokens ≠ []) (hsecond : second.tokens ≠ [])

include htag hfirst hsecond

/-- Of two commands behind opposite tests, only the first is run while some
entity carries the tag. -/
theorem run_carried (hcarries : crowd.Carries tag)
    (heffect : effect (Text.words first.render) crowd = crowd) :
    run effect [(first.behind (Clause.wrapper [Guard.whenCarried tag])).render,
        (second.behind (Clause.wrapper [Guard.unlessCarried tag])).render] crowd
      = ([Text.words first.render], crowd) := by
  simp only [run, command?_when htag hfirst, command?_unless htag hsecond,
    if_pos (any_selects.2 hcarries), heffect]

/-- If no entity carries the tag, the second line of a guard is run and the
first is not. -/
private theorem run_free (hfree : ¬ crowd.Carries tag) :
    run effect [(first.behind (Clause.wrapper [Guard.whenCarried tag])).render,
        (second.behind (Clause.wrapper [Guard.unlessCarried tag])).render] crowd
      = ([Text.words second.render],
        effect (Text.words second.render) crowd) := by
  have hnone : ¬ crowd.any (selects (Guard.carriers tag)) = true :=
    fun hany => hfree (any_selects.1 hany)
  simp only [run, command?_when htag hfirst, command?_unless htag hsecond,
    if_neg hnone]

end

end Crowd

-- =============================================================== brackets

/-- What a pack has of a guarded method with a tag: the function of the method,
and at a location of its own the function that it calls unless some entity
carries the tag. That one has the body in the middle. -/
structure Guard.Brackets (pack : Pack) (drafts : List Draft) (ground : Ground)
    (member : Member) (tag location : String)
    (middle : List (ExecutionContext × Command)) : Prop where
  generated : Location.isGenerated ground.space location = true
  method : pack.function? member.location = some ⟨member.location,
    [s!"execute if entity @e[tag={tag}] run {(report ground.component member.key).render}",
     s!"execute unless entity @e[tag={tag}] run function {location}"]⟩
  inner : pack.function? location = some ⟨location,
    s!"tag @s add {tag}"
      :: (middle.map fun source =>
          (source.2.behind (Clause.wrapper (source.1.clauses.drop 1))).render)
      ++ [s!"tag @s remove {tag}"]⟩
  single : middle.length ≤ 1
  empty : middle = [] ↔ member.method.leaves = []
  program : ∃ program, Statement.Program ground
      (member.method.leavesUnder [unlessCarried tag, asCarriers tag]) program
    ∧ Inlines ground.space drafts middle program
    ∧ ((∀ leaf ∈ member.method.leaves,
      leaf.2.namesGenerated ground.space = false) →
        ∀ other, Expands ground.space drafts middle other ↔ other = program)

namespace Guard.Brackets

variable {pack : Pack} {drafts : List Draft} {ground : Ground} {member : Member}
  {tag location : String} {middle : List (ExecutionContext × Command)}
  {effect : List String → Crowd → Crowd} {crowd : Crowd}

/-- Calling a guarded method while some entity carries its tag reports it
and does nothing else. -/
private theorem call_carried
    (h : Brackets pack drafts ground member tag location middle)
      (htag : Text.IsWord tag) (hlocation : Text.IsWord location)
      (hsilent : Crowd.Silent effect)
    (hcarries : crowd.Carries tag) :
    Crowd.call effect pack member.location crowd
      = some ([Text.words (report ground.component member.key).render],
        crowd) := by
  obtain ⟨message, hmessage⟩ := render_report ground.component member.key
  have hhead : (Text.words (report ground.component member.key).render).head?
      = some "tellraw" := by
    rw [hmessage, Text.words_append]
    have hwords : Text.words "tellraw @a" = ["tellraw", "@a"] := by decide
    rw [hwords]
    rfl
  unfold Crowd.call
  rw [h.method, ← report_line htag, ← call_line htag hlocation]
  exact congrArg some
    (Crowd.run_carried htag (List.cons_ne_nil _ _) (List.cons_ne_nil _ _)
      hcarries (hsilent _ _ hhead))

/-- Calling it otherwise calls the function that has the body. -/
private theorem call_free
    (h : Brackets pack drafts ground member tag location middle)
      (htag : Text.IsWord tag) (hlocation : Text.IsWord location)
      (hfree : ¬ crowd.Carries tag) :
    Crowd.call effect pack member.location crowd
      = some ([["function", location]],
        effect ["function", location] crowd) := by
  have hwords : Text.words (Command.function location).render
      = ["function", location] :=
    Command.words_render (List.cons_ne_nil _ _) (isWord_function hlocation)
  unfold Crowd.call
  rw [h.method, ← report_line htag, ← call_line htag hlocation, ← hwords]
  exact congrArg some
    (Crowd.run_free htag (List.cons_ne_nil _ _) (List.cons_ne_nil _ _) hfree)

end Guard.Brackets

/-- Every command of a program is that of a leaf. -/
theorem Statement.Program.exists_leaf {ground : Ground}
    {leaves : List (List Clause × Statement)}
    {program : List (ExecutionContext × Command)}
    (h : Statement.Program ground leaves program)
    {step : ExecutionContext × Command} (hstep : step ∈ program) :
    ∃ leaf ∈ leaves, leaf.2.command ground = .ok step.2 := by
  have hmem : (step.1.clauses, (.ok step.2 : Except Defect Command))
      ∈ leaves.map fun leaf => (leaf.1, leaf.2.command ground) := by
    rw [h]
    exact List.mem_map_of_mem hstep
  obtain ⟨leaf, hleaf, heq⟩ := List.mem_map.1 hmem
  exact ⟨leaf, hleaf, (Prod.mk.inj heq).2⟩

namespace Project.Built

variable {project : Project} {components : List Component}
  {resolved : List (Component × List Member)} {pack : Pack}

/-- A function that was finished is found in the pack by its location. -/
theorem function?_eq (h : project.Built components resolved pack)
    (hdescribed : ∀ component ∈ components, component.Described project.space)
    {sheet : Sheet}
    (hsheet : sheet ∈ (project.outcome resolved).written.below.sheets)
    (hstage : sheet.stage = .closed) {location : String}
    (hlocation : sheet.location = some location) :
    pack.function? location
      = some ⟨location, sheet.draft.sources.map fun source =>
          (source.2.behind
            (Clause.wrapper
              (source.1.clauses.drop sheet.base.length))).render⟩ := by
  obtain ⟨⟨_, _⟩, hfunction, rfl, hrenders⟩ :=
    h.renders_sheet hsheet hstage hlocation
  obtain rfl := hrenders.lines
  refine World.find?_key ?_ hfunction
  rw [h.map_location_functions]
  exact (h.locations_distinct hdescribed).1

/-- The functions of a project have different locations, so what expands does so
in one way. -/
theorem expands_iff (h : project.Built components resolved pack)
    (hdescribed : ∀ component ∈ components, component.Described project.space)
    {sources program : List (ExecutionContext × Command)}
    (hexpands : Expands project.space
      ((project.outcome resolved).written.below.sheets.map Sheet.draft)
      sources program)
    (other : List (ExecutionContext × Command)) :
    Expands project.space
      ((project.outcome resolved).written.below.sheets.map Sheet.draft) sources
      other ↔ other = program := by
  constructor
  · intro hother
    refine hother.unique (fun a ha b hb hsome heq => ?_) hexpands
    obtain ⟨x, hx, rfl⟩ := List.mem_map.1 ha
    obtain ⟨y, hy, rfl⟩ := List.mem_map.1 hb
    rw [h.sheet_unique hdescribed hx hy hsome heq]
  · rintro rfl
    exact hexpands

/-- A guarded method was built where the next tag was that of its number. -/
theorem guard_built (h : project.Built components resolved pack)
    (hdescribed : ∀ component ∈ components, component.Described project.space)
    {i : Nat} {component : Component} {member : Member}
    (hget : (guardedMethods resolved)[i]? = some (component, member)) :
    member.method.IsStatements ∧ member.method.guarded = true
      ∧ ∃ here : Site,
        here.toGround
          = ⟨project.space, CallTable.ofComponents resolved, component.name⟩
        ∧ here.functions.template = Location.functionTemplate project.space
        ∧ here.tags.head
          = NameStream.nameAt (Location.tagTemplate project.space) i
        ∧ Plan.MethodBuilt component member here
          (project.outcome resolved).written.below := by
  have hbodies :=
    h.resolution.isStatements
      fun component hmem => (hdescribed component hmem).bodies
  obtain ⟨members, hentry, hmember, hguarded⟩ :=
    mem_guardedMethods.1 (List.mem_of_getElem? hget)
  obtain ⟨-, hnumbered⟩ := Plan.components_numbered hbodies _ _
    (.initial project.space (CallTable.ofComponents resolved)) rfl rfl h.result
  obtain ⟨here, hground, hnames, htags, hmethod⟩ :=
    hnumbered i component member hget
  refine ⟨hbodies _ hentry member hmember, hguarded, here, hground, hnames,
    ?_, hmethod⟩
  rw [htags]
  exact congrArg (NameStream.nameAt _) (Nat.zero_add i)

/-- A guarded method is in the pack with the tag of its number. -/
theorem guard_brackets (h : project.Built components resolved pack)
    (hdescribed : ∀ component ∈ components, component.Described project.space)
    {i : Nat} {component : Component} {member : Member}
    (hget : (guardedMethods resolved)[i]? = some (component, member)) :
    ∃ number middle, Guard.Brackets pack
      ((project.outcome resolved).written.below.sheets.map Sheet.draft)
      ⟨project.space, CallTable.ofComponents resolved, component.name⟩ member
      (NameStream.nameAt (Location.tagTemplate project.space) i)
      (NameStream.nameAt (Location.functionTemplate project.space) number)
      middle := by
  have hbrace : '\x7b' ∉ project.space.toList :=
    Name.notMem_of_isValidNamespace h.space (by decide)
  obtain ⟨hbody, hguarded, here, hground, hnames, hhead, hmethod⟩ :=
    h.guard_built hdescribed hget
  obtain ⟨hresult, hbelow, number, hfunction, hinner⟩ := hmethod.guard hguarded
  have htag := Location.isWord_tag h.space i
  have hlocation := NameStream.isWord_nameAt h.space number
  -- the two functions, as they stand in the pack
  have houter :=
    h.function?_eq hdescribed (Outline.mem_sheets.2 hfunction) rfl rfl
  have hcalled :=
    h.function?_eq hdescribed (Outline.mem_sheets.2 hinner) rfl rfl
  rw [hhead, hnames] at houter hcalled
  -- what the body comes to in the middle
  obtain ⟨hempty, program, hprogram, hinlines⟩ :=
    Plan.spells_middle hbody hbrace hground hnames hresult fun sheet hsheet =>
      List.mem_map_of_mem
        (Outline.mem_sheets.2 (hbelow (Outline.mem_sheets.1 hsheet)))
  rw [hhead] at hprogram
  refine ⟨number, _, @FunctionPlace.isGenerated_head _ hbrace ⟨_, number⟩ rfl,
    ?_, ?_, ?_, ?_, program, hprogram, hinlines, fun hown => ?_⟩
  · rw [← Guard.report_line htag, ← Guard.call_line htag hlocation]
    exact houter
  · rw [← Guard.render_addTag htag, ← Guard.render_removeTag htag, hcalled]
    unfold Sheet.draft
    simp only [List.map_cons, List.map_append, List.cons_append]
    rfl
  · rw [List.length_map]
    exact Plan.length_middle hresult
  · rw [List.map_eq_nil_iff, hempty]
    unfold Method.leavesUnder
    rw [List.map_eq_nil_iff]
  · refine h.expands_iff hdescribed (hinlines.expands fun step hstep => ?_)
    obtain ⟨leaf, hleaf, hcommand⟩ := hprogram.exists_leaf hstep
    obtain ⟨inside, hinside, rfl⟩ := List.mem_map.1 hleaf
    exact h.generated?_eq_none hdescribed (hown inside hinside) hcommand

end Project.Built

/-- A guard brackets the body of its method, whatever that is. The function of
the method has two lines: a report, if some entity carries the tag of the
guard, and a call otherwise. The function that is called sets the tag and takes
it away, and has one line at most in between, which comes to the leaves of the
body in order. The guarded methods of a project, inherited ones once for every
heir, have different tags. So while some entity carries the tag, calling the
method does nothing but report it. -/
theorem ProjectManifest.guards_bracket_bodies (manifest : ProjectManifest)
    (files : List (String × ComponentManifest)) {pack : Pack}
    (h : manifest.toProject.build (manifest.components files) = .ok pack) :
    ∃ resolved tree root,
      manifest.toProject.Makes (manifest.components files) resolved tree root
      ∧ pack = manifest.toProject.collect tree root
      ∧ (∀ function ∈ pack.functions,
        ∃ draft ∈ tree.drafts root, draft.Renders function)
      ∧ (∀ component ∈ manifest.components files,
        ∃ members, (component, members) ∈ resolved)
      ∧ (∀ component members,
        (component, members) ∈ resolved → ∀ member ∈ members,
          member.method.guarded = true →
          ∃ i : Nat, (guardedMethods resolved)[i]? = some (component, member))
      ∧ Function.Injective
        (NameStream.nameAt (Location.tagTemplate manifest.space))
      ∧ ∀ (i : Nat) component member,
        (guardedMethods resolved)[i]? = some (component, member) →
          let tag := NameStream.nameAt (Location.tagTemplate manifest.space) i
          (∃ message : String,
            (Guard.report component.name member.key).render
              = s!"tellraw @a {message}")
          ∧ ∃ location middle, Guard.Brackets pack (tree.drafts root)
              ⟨manifest.space, CallTable.ofComponents resolved, component.name⟩
              member tag location middle
            ∧ ∀ effect, Crowd.Silent effect → ∀ crowd : Crowd,
                (crowd.Carries tag →
                  Crowd.call effect pack member.location crowd
                  = some ([Text.words
                    (Guard.report component.name member.key).render], crowd))
                ∧ (¬ crowd.Carries tag →
                  Crowd.call effect pack member.location crowd
                  = some ([["function", location]],
                    effect ["function", location] crowd)) := by
  have hdescribed := manifest.described files
  obtain ⟨resolved, hbuilt⟩ := built_of_build h
  obtain ⟨tree, hmakes, hshows⟩ :=
    hbuilt.makes (manifest.space_components files)
  have hdrafts := BuildTree.drafts_eq hshows
  refine ⟨resolved, tree, 0, hmakes,
    hbuilt.pack.trans (Project.collect_eq _ hshows).symm,
    fun function hfunction => ?_,
    fun component hmem => hbuilt.resolution.exists_entry hmem,
    fun component members hentry member hmember hguarded => ?_,
    fun n m => Location.tag_injective hbuilt.space,
    fun i component member hget => ⟨?_, ?_⟩⟩
  · obtain ⟨sheet, hsheet, hrenders⟩ := hbuilt.exists_renders hfunction
    rw [hdrafts]
    exact ⟨_, List.mem_map_of_mem hsheet, hrenders⟩
  · exact List.mem_iff_getElem?.1
      (mem_guardedMethods.2 ⟨members, hentry, hmember, hguarded⟩)
  · exact Guard.render_report component.name member.key
  · -- the lines of the method are known, so what a call does is read off them
    -- for any entities
    obtain ⟨number, middle, hbrackets⟩ := hbuilt.guard_brackets hdescribed hget
    have htag := Location.isWord_tag hbuilt.space i
    have hlocation := NameStream.isWord_nameAt hbuilt.space number
    rw [← hdrafts] at hbrackets
    exact ⟨_, middle, hbrackets, fun effect hsilent crowd =>
      ⟨hbrackets.call_carried htag hlocation hsilent,
        hbrackets.call_free htag hlocation⟩⟩

namespace Echo

def manifest : ProjectManifest := { name := "Echo", space := "echo" }

/-- A component with a guarded method that has blocks inside each other, and one
that has nothing in it. -/
def callerManifest : ComponentManifest where
  methods :=
    [{ name := "shout"
       guarded := true
       body := [.say "one",
         .execute [⟨["at", "@s"]⟩] [.say "two", .invoke "shout"]] },
     { name := "rest", guarded := true,
       body := [.execute [⟨["as", "@a"]⟩] []] }]

/-- An heir of it. -/
def childManifest : ComponentManifest where
  base := some "caller"

def files : List (String × ComponentManifest) :=
  [("Caller", callerManifest), ("Child", childManifest)]

def caller : Component := callerManifest.toComponent "echo" "Caller"

def child : Component := childManifest.toComponent "echo" "Child"

def resolved : List (Component × List Member) :=
  [(caller, caller.membersAlong [caller]),
    (child, child.membersAlong [child, caller])]

private theorem components_eq : manifest.components files = [caller, child] :=
  rfl

private theorem prepared :
    manifest.toProject.Prepared (manifest.components files) resolved := by
  rw [components_eq]
  refine ⟨⟨fun component hmem => ?_, ?_⟩, by decide, .refl _, ?_,
    fun entry hentry => ?_⟩
  · rcases List.mem_pair.1 hmem with rfl | rfl
    · exact ⟨by decide, by decide, by decide, by decide⟩
    · exact ⟨by decide, by decide, by decide, by decide⟩
  · exact List.pairwise_pair.2 (by decide)
  · exact List.pairwise_pair.2 (by decide)
  · rcases List.mem_pair.1 hentry with rfl | rfl
    · exact ⟨[caller], .root rfl, rfl⟩
    · exact ⟨[child, caller],
        .climb rfl List.mem_cons_self (by decide) (.root rfl), rfl⟩

set_option maxRecDepth 100000 in
private theorem build : ∃ pack,
  manifest.toProject.build (manifest.components files) = .ok pack :=
  exists_of_isOk (by decide +kernel)

/-- The tag of the first method that the heir has. -/
def tag : String := "echo.generated.00000002"

/-- What is reported instead of running it. -/
def report : String := (Guard.report "child" "caller/shout").render

end Echo

/-- The heir of the sample has a tag of its own for a method that it inherits.
The method that has nothing in it is bracketed all the same. -/
theorem ProjectManifest.echo_brackets :
    ∃ pack tree root,
      Echo.manifest.toProject.build (Echo.manifest.components Echo.files)
        = .ok pack
      ∧ pack = Echo.manifest.toProject.collect tree root
      ∧ (∃ (location : String) (source : ExecutionContext × Command),
          pack.function? "echo:component/child/caller/shout"
            = some ⟨"echo:component/child/caller/shout",
              [s!"execute if entity @e[tag={Echo.tag}] run {Echo.report}",
               s!"execute unless entity @e[tag={Echo.tag}] run function {location}"]⟩
          ∧ (∀ program, Expands "echo" (tree.drafts root) [source] program
            ↔ program =
              [(⟨[Guard.unlessCarried Echo.tag, Guard.asCarriers Echo.tag]⟩,
                .say "one"),
               (⟨[Guard.unlessCarried Echo.tag, Guard.asCarriers Echo.tag,
                 ⟨["at", "@s"]⟩]⟩,
                .say "two"),
               (⟨[Guard.unlessCarried Echo.tag, Guard.asCarriers Echo.tag,
                 ⟨["at", "@s"]⟩]⟩,
                .function "echo:component/child/caller/shout")])
          ∧ Crowd.call (fun _ crowd => crowd) pack
            "echo:component/child/caller/shout" [{Echo.tag}]
            = some ([Text.words Echo.report], [{Echo.tag}]))
      ∧ ∃ location, pack.function? location = some ⟨location,
          ["tag @s add echo.generated.00000003",
            "tag @s remove echo.generated.00000003"]⟩ := by
  obtain ⟨pack, h⟩ := Echo.build
  obtain ⟨resolved, tree, root, hmakes, hpack, -, -, -, -, hguards⟩ :=
    Echo.manifest.guards_bracket_bodies Echo.files h
  obtain rfl :=
    hmakes.resolved_eq (Echo.manifest.space_components Echo.files) Echo.prepared
  obtain ⟨-, location, middle, hshout, hrun⟩ := hguards 2 Echo.child _ rfl
  obtain ⟨-, location', middle', hrest, -⟩ := hguards 3 Echo.child _ rfl
  have hcarried : Crowd.Carries
      [{Echo.tag}] Echo.tag := ⟨_, List.mem_cons_self, by simp⟩
  refine ⟨pack, tree, root, h, hpack, ?_, location', ?_⟩
  · obtain ⟨program, hprogram, -, hexpands⟩ := hshout.program
    -- the body has a leaf, so there is one line between the tags
    obtain ⟨source, rfl⟩ : ∃ source, middle = [source] := by
      refine List.length_eq_one_iff.1
        (Nat.le_antisymm hshout.single (List.length_pos_iff.2 ?_))
      exact fun hnil => absurd (hshout.empty.1 hnil) (by decide)
    refine ⟨location, source, hshout.method, fun other => ?_, ?_⟩
    · refine (hexpands (by decide) other).trans ?_
      rw [hprogram.unique]
      rfl
    · exact (hrun _ (fun _ _ _ => rfl) _).1 hcarried
  · obtain rfl := hrest.empty.2 rfl
    exact hrest.inner

end Datapack