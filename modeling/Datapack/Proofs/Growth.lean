/-
How the state of a build grows.

A step works on one node: the function being written, or a method, a
component or the project that gets another part. `BuildState.Grows` says
what it may do to the state. Apart from that node and from nodes that are
new, the tree stays as it was; the node itself gets further children, which
show the outline that was written, and, if it holds a function, further
entries; generated names are taken; and everything else, the focus and the
contexts entered among it, is as before. The relation composes
(`Grows.trans`) because what the first step has added lies above the first
free number, where the second step changes nothing.

`Placed` and `Writing` are the other half: what a step relies on. The site
describes the state, the node belongs to the site's component, and, for
steps that emit, the node is in focus and its function is open for commands
under the current context. Growth keeps both, for the site after the step.
-/
import Datapack.Proofs.Plan

namespace Datapack

-- =============================================================== growth

/-- The tree has grown at a node by what was written. -/
structure BuildTree.Grows (tree : BuildTree) (id : Nat) (written : Written)
    (tree' : BuildTree) : Prop where
  length_le : tree.nodes.length ≤ tree'.nodes.length
  kept : ∀ other, other < tree.nodes.length →
    other ≠ id → tree'.node? other = tree.node? other
  grown : ∀ node, tree.node? id = some node → ∃ ids,
    tree'.node? id = some { node with
      children := node.children ++ ids
      content := node.content.extend written.entries }
    ∧ tree'.Shows tree.nodes.length ids written.below

namespace BuildTree.Grows

variable {tree tree' tree'' : BuildTree} {id : Nat} {first second : Written}

/-- Taking names writes nothing. -/
theorem names (tree : BuildTree) (id functions tags : Nat) :
    tree.Grows id { functions := functions, tags := tags } tree where
  length_le := Nat.le_refl _
  kept _ _ _ := rfl
  grown node hn := ⟨[], by simp [hn], shows_nil _⟩

/-- A tree that grew twice at a node. The outline of the first step is
framed: the second step changes only the node itself, which is older. -/
theorem trans (h : tree.Grows id first tree')
    (h' : tree'.Grows id second tree'') (hid : id < tree.nodes.length) :
    tree.Grows id (first ++ second) tree'' where
  length_le := Nat.le_trans h.length_le h'.length_le
  kept other hlt hne := by
    rw [h'.kept other (Nat.lt_of_lt_of_le hlt h.length_le) hne,
      h.kept other hlt hne]
  grown node hn := by
    obtain ⟨ids, hn', hs⟩ := h.grown node hn
    obtain ⟨ids', hn'', hs'⟩ := h'.grown _ hn'
    refine ⟨ids ++ ids', ?_, ?_⟩
    · rw [hn'']
      simp [NodeContent.extend_append]
    · have hframe : tree''.Shows tree.nodes.length ids first.below := by
        -- what the first step added is newer than the node, and the second
        -- leaves it alone
        refine hs.frame fun other node hle hnode => ⟨node, ?_, rfl, rfl⟩
        rw [h'.kept other (lt_length_of_node? hnode) (by omega), hnode]
      exact (hs'.mono h.length_le).append hframe

/-- A tree that has grown keeps its nodes. -/
private theorem keeps (h : tree.Grows id first tree') : tree.Keeps tree' := by
  intro other node hn
  by_cases hid : other = id
  · subst hid
    obtain ⟨ids, hn', -⟩ := h.grown node hn
    exact ⟨_, hn', by simp [BuildNode.kind], rfl, rfl⟩
  · exact ⟨node, by rw [h.kept other (lt_length_of_node? hn) hid, hn],
      rfl, rfl, rfl⟩

end BuildTree.Grows

/-- The state has grown at a node by what was written. -/
structure BuildState.Grows (state : BuildState) (id : Nat) (written : Written)
    (state' : BuildState) : Prop where
  space : state'.space = state.space
  calls : state'.calls = state.calls
  contexts : state'.contexts = state.contexts
  focus : state'.focus = state.focus
  functions : state'.functionNames = state.functionNames.drop written.functions
  tags : state'.tagNames = state.tagNames.drop written.tags
  tree : state.tree.Grows id written state'.tree

namespace BuildState.Grows

variable {state state' state'' : BuildState} {id : Nat} {first second : Written}

/-- A state in which nothing happened has grown by nothing. -/
theorem refl (state : BuildState) (id : Nat) : state.Grows id {} state :=
  ⟨rfl, rfl, rfl, rfl, rfl, rfl, .names state.tree id 0 0⟩

/-- What a state grows by in two steps is written one behind the other. -/
theorem trans (h : state.Grows id first state')
    (h' : state'.Grows id second state'') (hid : id < state.tree.nodes.length) :
    state.Grows id (first ++ second) state'' where
  space := h'.space.trans h.space
  calls := h'.calls.trans h.calls
  contexts := h'.contexts.trans h.contexts
  focus := h'.focus.trans h.focus
  functions := by
    rw [h'.functions, h.functions]
    simp [NameStream.drop, Nat.add_assoc]
  tags := by
    rw [h'.tags, h.tags]
    simp [NameStream.drop, Nat.add_assoc]
  tree := h.tree.trans h'.tree hid

/-- What was written may be said in another way. -/
theorem congr (h : state.Grows id first state') (he : first = second) :
    state.Grows id second state' :=
  he ▸ h

end BuildState.Grows

-- ======================================================== what steps need

/-- The site says what the state has to say to a step. -/
structure Site.Describes (site : Site) (state : BuildState) : Prop where
  space : state.space = site.space
  calls : state.calls = site.calls
  functions : state.functionNames = site.functions
  tags : state.tagNames = site.tags

/-- A node that a step may add nodes to. -/
structure Anchored (site : Site) (state : BuildState) (id : Nat) : Prop where
  describes : site.Describes state
  present : ∃ node, state.tree.node? id = some node
    ∧ ∀ child ∈ node.children, child < state.tree.nodes.length

/-- A node that a step may add parts of a component to. -/
structure Placed (site : Site) (state : BuildState) (id : Nat) : Prop extends
    Anchored site state id where
  belongs : state.tree.BelongsTo id site.component

/-- A node whose function a step may add commands to. -/
structure Writing (site : Site) (state : BuildState) (id : Nat) : Prop extends
    Placed site state id where
  focus : state.focus.function = some id
  context : state.context = site.context
  opened : ∃ node draft,
    state.tree.node? id = some node ∧ node.content = .function draft
    ∧ draft.stage = .opened ∧ draft.base.clauses <+: site.context.clauses

variable {site : Site} {state state' : BuildState} {id : Nat}
  {written : Written}

/-- A node that steps are anchored at is in the table. -/
theorem Anchored.lt_length (h : Anchored site state id) :
    id < state.tree.nodes.length := by
  obtain ⟨node, hn, -⟩ := h.present
  exact BuildTree.lt_length_of_node? hn

/-- A site describes the state after a step by the names that are left. -/
private theorem Site.Describes.after (h : site.Describes state)
    (hg : state.Grows id written state') :
    (site.after written).Describes state' where
  space := hg.space.trans h.space
  calls := hg.calls.trans h.calls
  functions := by
    rw [hg.functions, h.functions]
    rfl
  tags := by
    rw [hg.tags, h.tags]
    rfl

/-- A node stays an anchor for what comes after a step. -/
theorem Anchored.after (h : Anchored site state id)
    (hg : state.Grows id written state') :
    Anchored (site.after written) state' id where
  describes := h.describes.after hg
  present := by
    obtain ⟨node, hn, hch⟩ := h.present
    obtain ⟨ids, hn', hs⟩ := hg.tree.grown node hn
    refine ⟨_, hn', fun child hchild => ?_⟩
    rcases List.mem_append.1 hchild with hold | hnew
    · exact Nat.lt_of_lt_of_le (hch child hold) hg.tree.length_le
    · exact (hs.bounds child hnew).2

/-- A node of a component stays one after a step. -/
theorem Placed.after (h : Placed site state id)
    (hg : state.Grows id written state') :
    Placed (site.after written) state' id where
  toAnchored := h.toAnchored.after hg
  belongs := h.belongs.mono hg.tree.keeps hg.tree.length_le

/-- A function that is written stays so after a step. -/
theorem Writing.after (h : Writing site state id)
    (hg : state.Grows id written state') :
    Writing (site.after written) state' id where
  toPlaced := h.toPlaced.after hg
  focus := by rw [hg.focus]; exact h.focus
  context := by
    unfold BuildState.context
    rw [hg.contexts]
    exact h.context
  opened := by
    obtain ⟨node, draft, hn, hc, hstage, hbase⟩ := h.opened
    obtain ⟨ids, hn', -⟩ := hg.tree.grown node hn
    refine ⟨_, draft.extend written.entries, hn', ?_, hstage, hbase⟩
    simp only [hc]
    rfl

/-- The component that the function being written belongs to. -/
theorem Writing.currentComponent? (h : Writing site state id) :
    state.currentComponent? = some site.component := by
  obtain ⟨ancestor, node, hup, hn, hname⟩ := h.belongs
  unfold BuildState.currentComponent?
  rw [h.focus]
  simp only [Option.bind_eq_bind, Option.bind_some]
  rw [hup, Option.bind_some, hn, Option.bind_some, hname]
  rfl

end Datapack
