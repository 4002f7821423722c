/-
Components perform their plans.

Above the bodies there are only three moves. A function is written below a
node, a tag is hung below a node, and a node is inserted with a step run
below it. The first two need a node that belongs to the component being
built, since bodies ask for it (`Placed`); the component itself is inserted
below the project, which belongs to none (`Anchored`).
-/
import Datapack.Proofs.Bodies
import Datapack.Project

namespace Datapack

variable {site : Site} {state : BuildState} {id : Nat} {step : Nat → Build Unit}
  {plan : Plan}

-- ============================================================ single moves

/-- Writing a function below a node performs its plan if the body does. -/
theorem Performs.function {body : Build Unit}
    (h : Performs Writing (fun _ => body) plan) (location : String) :
    Performs Placed (fun id => Build.function id location body)
      (.function location plan) := by
  intro site state id hp
  obtain ⟨tree, hrun, hgains⟩ :=
    writeFunction_runs hp h location (some location) .empty
  exact ⟨_, (Build.bind_ok rfl).trans hrun, (hgains.grows _ _).advance⟩

/-- Adding a value to a tag hangs the tag below the node. -/
private theorem Performs.addToTag (location value : String) :
    Performs Placed (fun id => Build.addToTag id location value)
      (.tag value location) := by
  intro site state id hp
  obtain ⟨above, hn, -⟩ := hp.present
  have hgains : state.tree.Gains id (.tag location [value]) .nil
      (state.tree.insert (some id) location (.tag location [value])) :=
    BuildTree.gains_of_grows hn location (.names _ _ 0 0)
      (NodeContent.extend_nil _)
  exact ⟨_, rfl, (hgains.grows 0 0).advance⟩

/-- A new node in focus that belongs to the component is one that parts can
be added to. -/
theorem Anchored.placed_insert (ha : Anchored site state id) {name : String}
    {content : NodeContent}
    (hb : (state.tree.insert (some id) name content).BelongsTo
      state.tree.nodes.length site.component) (kind : NodeKind) :
    Placed site
      { state with
        tree := state.tree.insert (some id) name content
        focus := state.focus.set kind (some state.tree.nodes.length) }
      state.tree.nodes.length where
  describes := ⟨ha.describes.space, ha.describes.calls, ha.describes.functions,
    ha.describes.tags⟩
  present := ⟨_, BuildTree.node?_insert_new name content ha.lt_length,
    fun child hchild => by cases hchild⟩
  belongs := hb

/-- Running a step below a new node that is not a function. -/
theorem beneath_runs (piece : Piece) {name : String}
    (ha : Anchored site state id)
    (hb : (state.tree.insert (some id) name piece.content).BelongsTo
      state.tree.nodes.length site.component)
    (hpiece : piece.sheet? = none) (kind : NodeKind)
    (h : Performs Placed step plan) :
    ∃ state', (do
          let node ← Build.insertNode (some id) name piece.content
          Build.focused kind node (step node) : Build Unit) state
        = Outcome.ending (plan site).result state'
      ∧ state.Grows id ((plan site).beneath piece).written state' := by
  obtain ⟨above, hn, -⟩ := ha.present
  obtain ⟨state', hrun, hgrow⟩ := h (ha.placed_insert hb kind)
  have hgains :=
    BuildTree.gains_of_grows hn name hgrow.tree (Piece.extend_content hpiece _)
  refine ⟨{ state' with focus :=
              state'.focus.set kind (state.focus.get? kind) }, ?_, ?_⟩
  · exact (Build.bind_ok rfl).trans (Build.focused_ending hrun)
  · refine ⟨hgrow.space, hgrow.calls, hgrow.contexts, ?_, hgrow.functions,
      hgrow.tags, hgains.grows _ _⟩
    show state'.focus.set kind _ = state.focus
    rw [hgrow.focus]
    exact state.focus.set_set kind _

-- =============================================================== component

/-- A method is built as planned: its own node, and its function below. -/
theorem performs_method (component : Component) (member : Member) :
    Performs Placed (fun id => Build.method id component member)
      (.method component member) := by
  have hparts : Performs Placed
      (fun node => do
        Build.function node member.location (Build.methodBody component member)
        Build.addToTags node member.location (Build.tagsOf component member))
      ((Plan.function member.location (.methodBody component member)).andThen
        (.each (.tag member.location) (Build.tagsOf component member))) :=
    .andThen Placed.stable ((performs_methodBody component member).function _)
      (.each Placed.stable (fun _ => rfl) (fun _ _ _ => rfl)
        (fun location => .addToTag location member.location) _)
  refine .labelled _ fun site state id hp => ?_
  obtain ⟨above, hn, -⟩ := hp.present
  exact beneath_runs .method hp.toAnchored
    (BuildTree.belongsTo_insert hn hp.belongs
      (by simp [Piece.content, NodeContent.kind]))
    rfl .method hparts

/-- So are all methods of a component in order. -/
theorem performs_methods (component : Component) (members : List Member) :
    Performs Placed (fun node => Build.methods node component members)
      (.each (.method component) members) :=
  .each Placed.stable (fun _ => rfl) (fun _ _ _ => rfl)
    (performs_method component) members

/-- A dispatcher is built as planned, and is left out where no method has
the hook. -/
theorem performs_dispatcher (component : Component) (members : List Member)
    (hook : Hook) :
    Performs Placed (fun id => Build.dispatcher id component members hook)
      (.dispatcher component members hook) := by
  unfold Build.dispatcher Plan.dispatcher
  cases hook.gameTag? with
  | none => exact .done
  | some gameTag =>
      dsimp only
      split
      · refine .withFunction Placed.stable (fun h => h.describes)
          fun location => ?_
        refine .andThen Placed.stable (.function ?_ location)
          (.addToTag gameTag location)
        exact .emitInside _ _ .hook
      · exact .done

/-- The call of a hook is written as planned. -/
theorem performs_runHook (component : Component) (members : List Member)
    (hook : Hook) :
    Performs Writing (fun _ => Build.runHook component members hook)
      (.runHook component members hook) := by
  unfold Build.runHook Plan.runHook
  split
  · exact .emit _ .hook
  · exact .done

/-- The function that attaches is built as planned. -/
theorem performs_attachFunction (component : Component)
    (members : List Member) :
    Performs Placed (fun id => Build.attachFunction id component members)
      (.attachFunction component members) := by
  have hcomposed : (Plan.attachBody component members).Composed fun _ => True :=
    Plan.composed_attachBody fun _ _ => trivial
  refine .function (.execute ?_ hcomposed.inside _) _
  exact .andThen Writing.stable (.emit _ .mark)
    (performs_runHook component members .init)

/-- The function that detaches is built as planned. -/
private theorem performs_detachFunction (component : Component)
    (members : List Member) :
    Performs Placed (fun id => Build.detachFunction id component members)
      (.detachFunction component members) := by
  have hcomposed : (Plan.detachBody component members).Composed fun _ => True :=
    Plan.composed_detachBody fun _ _ => trivial
  refine .function (.execute ?_ hcomposed.inside _) _
  exact .andThen Writing.stable (performs_runHook component members .destroy)
    (.emit _ .mark)

/-- The entry points are built as planned, and not at all for an abstract
component. -/
private theorem performs_entryPoints (component : Component)
    (members : List Member) :
    Performs Placed
      (fun node => do
        if !component.isAbstract then
          Build.dispatchers node component members Hook.all
          Build.attachFunction node component members
          Build.detachFunction node component members)
      (.entryPoints component members) := by
  unfold Plan.entryPoints
  cases component.isAbstract with
  | true => exact .done
  | false =>
      refine .andThen Placed.stable ?_ ?_
      · exact .each Placed.stable (fun _ => rfl) (fun _ _ _ => rfl)
          (performs_dispatcher component members) _
      · exact .andThen Placed.stable (performs_attachFunction component members)
          (performs_detachFunction component members)

/-- A component is built below the project as its own. -/
theorem Anchored.within (ha : Anchored site state id) (component : String) :
    Anchored { site with component := component } state id :=
  ⟨⟨ha.describes.space, ha.describes.calls, ha.describes.functions,
    ha.describes.tags⟩,
    ha.present⟩

/-- A component is built as planned below a node of its own. -/
theorem performs_component (component : Component) (members : List Member) :
    Performs Anchored (fun id => Build.component id component members)
      (.component component members) := by
  have hparts := (performs_methods component members).andThen Placed.stable
    (performs_entryPoints component members)
  refine .labelled _ fun site state id ha => ?_
  exact beneath_runs .component (ha.within component.name)
    (BuildTree.belongsTo_insert_component ha.lt_length) rfl .component hparts

/-- So are all components of a project in order. -/
theorem performs_components : ∀ resolved : List (Component × List Member),
    Performs Anchored (fun id => Project.buildComponents id resolved)
      (.components resolved)
  | [] => .done
  | (component, members) :: rest =>
      .andThen Anchored.stable (performs_component component members)
        (performs_components rest)

end Datapack
