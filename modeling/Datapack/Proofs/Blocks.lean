/-
Blocks and functions of their own.

A function is written in three moves: a node is inserted below the node
that the build is at, the body is run with that node in focus, and the
function is closed or, after a failure, discarded. `BuildTree.Gains` is
the tree after these moves. It is growth by a single node, and it still
knows the number and the parent of that node, because a block is not
finished yet: what becomes of it is decided by its entries.

- With none or one, the node dissolves. Its parent has it as the last
  child, so the nodes below it take its place exactly, and what remains is
  growth by the body's own outline. A single entry is then emitted where
  the block stood; it lies inside the block's context, hence inside that of
  the function around it.
- With more, the node gets a generated location and is called from where
  the block stood.
-/
import Datapack.Proofs.Emission

namespace Datapack

-- ============================================================== new nodes

/-- The tree has a new node below a node, at the number that was free
first. -/
structure BuildTree.Gains (tree : BuildTree) (id : Nat) (piece : Piece)
    (below : Outline) (tree' : BuildTree) : Prop where
  length_lt : tree.nodes.length < tree'.nodes.length
  kept : ∀ other, other < tree.nodes.length →
    other ≠ id → tree'.node? other = tree.node? other
  parent : ∀ node, tree.node? id = some node →
    tree'.node? id
      = some { node with children := node.children ++ [tree.nodes.length] }
  new : ∃ node,
    tree'.node? tree.nodes.length = some node ∧ node.parent = some id
    ∧ node.content = piece.content
    ∧ tree'.Shows (tree.nodes.length + 1) node.children below

namespace BuildTree

variable {tree tree' : BuildTree} {id : Nat} {piece : Piece} {below : Outline}

/-- Gaining a piece is a way to grow, whatever names were taken. -/
theorem Gains.grows (h : tree.Gains id piece below tree')
    (functions tags : Nat) :
    tree.Grows id
      { below := .single piece below, functions := functions, tags := tags }
      tree' where
  length_le := Nat.le_of_lt h.length_lt
  kept := h.kept
  grown node hn := by
    obtain ⟨new, hnew, -, hcontent, hshows⟩ := h.new
    refine ⟨[tree.nodes.length], ?_,
      shows_single (Nat.le_refl _) hnew hcontent hshows⟩
    rw [h.parent node hn]
    simp

/-- The new node may get another function, as long as it stays the node it
is. -/
theorem Gains.setDraft (h : tree.Gains id piece below tree')
    (hid : id < tree.nodes.length) (sheet : Sheet) :
    tree.Gains id (.function sheet) below
      (tree'.setDraft tree.nodes.length sheet.draft) where
  length_lt := by rw [length_setDraft]; exact h.length_lt
  kept other hlt hne := by
    unfold BuildTree.setDraft
    rw [node?_modify_of_ne _ (Nat.ne_of_lt hlt), h.kept other hlt hne]
  parent node hn := by
    unfold BuildTree.setDraft
    rw [node?_modify_of_ne _ (Nat.ne_of_lt hid), h.parent node hn]
  new := by
    obtain ⟨new, hnew, hparent, -, hshows⟩ := h.new
    refine ⟨{ new with content := .function sheet.draft }, ?_, hparent, rfl, ?_⟩
    · unfold BuildTree.setDraft
      rw [node?_modify_self, hnew]
      rfl
    · refine hshows.frame fun other node hle hn => ⟨node, ?_, rfl, rfl⟩
      unfold BuildTree.setDraft
      rw [node?_modify_of_ne _ (by omega), hn]

/-- The name of the new node does not matter. -/
theorem Gains.rename (h : tree.Gains id piece below tree')
    (hid : id < tree.nodes.length) (name : String) :
    tree.Gains id piece below (tree'.rename tree.nodes.length name) where
  length_lt := by rw [length_rename]; exact h.length_lt
  kept other hlt hne := by
    unfold BuildTree.rename
    rw [node?_modify_of_ne _ (Nat.ne_of_lt hlt), h.kept other hlt hne]
  parent node hn := by
    unfold BuildTree.rename
    rw [node?_modify_of_ne _ (Nat.ne_of_lt hid), h.parent node hn]
  new := by
    obtain ⟨new, hnew, hparent, hcontent, hshows⟩ := h.new
    refine ⟨{ new with name := name }, ?_, hparent, hcontent, ?_⟩
    · unfold BuildTree.rename
      rw [node?_modify_self, hnew]
      rfl
    · refine hshows.frame fun other node hle hn => ⟨node, ?_, rfl, rfl⟩
      unfold BuildTree.rename
      rw [node?_modify_of_ne _ (by omega), hn]

/-- When the new node dissolves, the nodes below it take its place at the
end of its parent's children, and nothing older has changed. -/
theorem Gains.dissolve (h : tree.Gains id piece below tree') {above : BuildNode}
    (hn : tree.node? id = some above)
    (hch : ∀ child ∈ above.children, child < tree.nodes.length)
    (functions tags : Nat) :
    tree.Grows id { below := below, functions := functions, tags := tags }
      (tree'.dissolve tree.nodes.length) := by
  obtain ⟨new, hnew, hparent, -, hshows⟩ := h.new
  have hid := lt_length_of_node? hn
  -- the children of the new node are newer than it
  have hnewer : ∀ child ∈ new.children, tree.nodes.length < child :=
    fun child hchild => (hshows.bounds child hchild).1
  have hidmem : id ∉ new.children := fun hmem => by
    have := hnewer id hmem
    omega
  refine ⟨?_, ?_, ?_⟩
  · rw [length_dissolve hnew hparent]
    exact Nat.le_of_lt h.length_lt
  · intro other hlt hne
    have hmem : other ∉ new.children := fun hmem => by
      have := hnewer other hmem
      omega
    rw [node?_dissolve_other hnew hparent (Nat.ne_of_lt hlt) hne hmem,
      h.kept other hlt hne]
  · intro node hnode
    rw [hn] at hnode
    cases hnode
    refine ⟨new.children, ?_, ?_⟩
    · rw [node?_dissolve_parent hnew hparent (h.parent above hn)
        (Nat.ne_of_lt hid) hidmem]
      rw [spliceChildren_last _
        fun child hchild => Nat.ne_of_lt (hch child hchild)]
      simp
    · refine (hshows.frame fun other node hle hnode => ?_).mono (Nat.le_succ _)
      by_cases hmem : other ∈ new.children
      · exact ⟨_, node?_dissolve_child hnew hparent hmem hnode
          (by omega) (by omega), rfl, rfl⟩
      · refine ⟨node, ?_, rfl, rfl⟩
        rw [node?_dissolve_other hnew hparent (by omega) (by omega) hmem, hnode]

/-- A node that was inserted and has grown since. -/
theorem gains_of_grows {above : BuildNode} (hn : tree.node? id = some above)
    (name : String) {content : NodeContent} {written : Written}
    (hg : (tree.insert (some id) name content).Grows tree.nodes.length
      written tree')
    (hs : content.extend written.entries = piece.content) :
    tree.Gains id piece written.below tree' := by
  have hid := lt_length_of_node? hn
  obtain ⟨ids, hnew, hshows⟩ := hg.grown _ (node?_insert_new name content hid)
  have hlen := hg.length_le
  rw [length_insert] at hlen hshows
  refine ⟨hlen, ?_, ?_, ?_⟩
  · intro other hlt hne
    rw [hg.kept other (by rw [length_insert]; omega) (Nat.ne_of_lt hlt),
      node?_insert_other name _ hlt hne]
  · intro node hnode
    rw [hg.kept id (by rw [length_insert]; omega) (Nat.ne_of_lt hid),
      node?_insert_parent name _ hnode]
  · exact ⟨_, hnew, rfl, hs, by simpa using hshows⟩

end BuildTree

-- ====================================================== writing functions

/-- The state after names were taken and the tree was changed. -/
def BuildState.advance (state : BuildState) (tree : BuildTree)
    (written : Written) : BuildState :=
  { state with
    tree := tree
    functionNames := state.functionNames.drop written.functions
    tagNames := state.tagNames.drop written.tags }

/-- A state that has grown is the old one with another tree and with names
taken. -/
theorem BuildState.Grows.eq_advance {state state' : BuildState} {id : Nat}
    {written : Written} (h : state.Grows id written state') :
    state' = state.advance state'.tree written := by
  obtain ⟨space, tree, contexts, focus, functionNames, tagNames, calls⟩ :=
    state'
  obtain ⟨rfl, rfl, rfl, rfl, rfl, rfl, -⟩ := h
  rfl

/-- A state grows with its tree when it moves to the new tree. -/
theorem BuildTree.Grows.advance {state : BuildState} {id : Nat}
    {written : Written} {tree : BuildTree}
    (h : state.tree.Grows id written tree) :
    state.Grows id written (state.advance tree written) :=
  ⟨rfl, rfl, rfl, rfl, rfl, rfl, h⟩

/-- A node in focus can be put back. -/
theorem Focus.set_set (focus : Focus) (kind : NodeKind) (node : Option Nat) :
    (focus.set kind node).set kind (focus.get? kind) = focus := by
  cases kind <;> rfl

variable {site : Site} {state : BuildState} {id : Nat} {body : Build Unit}
  {plan : Plan}

/-- A step that is run inside a function sees that function and leaves the
focus and the contexts as they were. -/
theorem insideFunction_runs (state : BuildState) {node : Nat}
    {context : ExecutionContext} (hbody : Performs Writing (fun _ => body) plan)
    (hw : Writing { site with context := context }
      { state with
        focus := state.focus.set .function (some node)
        contexts := context :: state.contexts } node) :
    ∃ tree, Build.insideFunction node context body state
        = Outcome.ending (plan { site with context := context }).result
            (state.advance tree (plan { site with context := context }).written)
      ∧ state.tree.Grows node
        (plan { site with context := context }).written tree := by
  obtain ⟨state', hrun, hgrow⟩ := hbody.runs hw
  have heq := hgrow.eq_advance
  refine ⟨state'.tree, ?_, hgrow.tree⟩
  unfold Build.insideFunction Build.focused Build.withContext
  simp only []
  rw [hrun, heq]
  cases (plan { site with context := context }).result with
  | ok value =>
      simp only [Outcome.ending, BuildState.advance, Focus.set_set,
        List.tail_cons]
  | error failure =>
      simp only [Outcome.ending, BuildState.advance, Focus.set_set,
        List.tail_cons]

/-- Inside the function of a new node a step can write. -/
theorem Placed.writing (hp : Placed site state id) (name : String)
    (location : Option String) (context : ExecutionContext) :
    Writing { site with context := context }
      { state with
        tree := state.tree.insert (some id) name
          (.function { location := location, base := context })
        focus := state.focus.set .function (some state.tree.nodes.length)
        contexts := context :: state.contexts } state.tree.nodes.length := by
  obtain ⟨above, hn, -⟩ := hp.present
  have hnew := BuildTree.node?_insert_new name
    (.function { location := location, base := context }) hp.lt_length
  exact
    { describes :=
        ⟨hp.describes.space, hp.describes.calls, hp.describes.functions,
          hp.describes.tags⟩
      present := ⟨_, hnew, fun child hchild => by cases hchild⟩
      belongs :=
        BuildTree.belongsTo_insert hn hp.belongs (by simp [NodeContent.kind])
      focus := rfl
      context := rfl
      opened := ⟨_, _, hnew, rfl, rfl, List.prefix_refl _⟩ }

/-- Writing the function of a node comes to the sheet of its body, which is
closed if the body ends well and given up otherwise. -/
theorem writeFunction_runs (hp : Placed site state id)
    (hbody : Performs Writing (fun _ => body) plan)
    (name : String) (location : Option String) (context : ExecutionContext) :
    ∃ tree, Build.writeFunction state.tree.nodes.length context body
          { state with
            tree := state.tree.insert (some id) name
              (.function { location := location, base := context }) }
        = Outcome.ending (plan { site with context := context }).result
            (state.advance tree (plan { site with context := context }).written)
      ∧ state.tree.Gains id
          (.function
            ⟨location, context,
              (plan { site with context := context }).stage,
              (plan { site with context := context }).written.entries⟩)
          (plan { site with context := context }).written.below tree := by
  obtain ⟨above, hn, -⟩ := hp.present
  have hid := hp.lt_length
  obtain ⟨tree, hrun, hgrow⟩ := insideFunction_runs
    { state with
      tree := state.tree.insert (some id) name
        (.function { location := location, base := context }) }
    hbody (hp.writing name location context)
  generalize hinner : plan
    { site with context := context } = inner at hrun hgrow ⊢
  -- the function as the body leaves it, still open
  have hopen : state.tree.Gains id
      (.function ⟨location, context, .opened, inner.written.entries⟩)
      inner.written.below tree :=
    BuildTree.gains_of_grows hn name hgrow
      (by simp [NodeContent.extend, Piece.content, Draft.extend, Sheet.draft])
  obtain ⟨new, hnode, -, hcontent, -⟩ := hopen.new
  have hdraft := BuildTree.draft?_eq hnode hcontent
  unfold Build.writeFunction
  cases hres : inner.result with
  | error failure =>
      rw [hres] at hrun
      refine ⟨tree.setDraft state.tree.nodes.length
        (Sheet.draft ⟨location, context, .discarded, inner.written.entries⟩),
        ?_, ?_⟩
      · refine Build.bind_error ?_
        rw [Build.orElse_error hrun,
          Build.bind_ok (Build.discardDraft_apply hdraft)]
        rfl
      · rw [Outcome.stage_of_error hres]
        exact hopen.setDraft hid _
  | ok value =>
      rw [hres] at hrun
      refine ⟨tree.setDraft state.tree.nodes.length
        (Sheet.draft ⟨location, context, .closed, inner.written.entries⟩),
        ?_, ?_⟩
      · rw [Build.bind_ok (Build.orElse_ok hrun)]
        exact Build.modifyDraft_apply hdraft rfl
      · rw [Outcome.stage_of_ok hres]
        exact hopen.setDraft hid _

-- ========================================================== placing blocks

section Placing

variable {context : ExecutionContext} {entries : List SheetEntry}
  {below : Outline} {tree : BuildTree} {written : Written}

/-- A block that dissolves leaves what is below it. -/
theorem dissolve_runs (hp : Placed site state id)
    (hg : state.tree.Gains id (.function ⟨none, context, .closed, entries⟩)
      below tree)
    (hb : written.below = below) :
    ∃ tree', (do
        Build.discardDraft state.tree.nodes.length
        Build.modifyTree fun tree => tree.dissolve state.tree.nodes.length :
          Build Unit)
          (state.advance tree written) = .ok () (state.advance tree' written)
      ∧ state.tree.Grows id { written with entries := [] } tree' := by
  obtain ⟨above, hn, hch⟩ := hp.present
  obtain ⟨new, hnode, -, hcontent, -⟩ := hg.new
  have hdraft : (state.advance tree written).tree.draft? state.tree.nodes.length
      = .ok (Sheet.draft ⟨none, context, .closed, entries⟩) :=
    BuildTree.draft?_eq hnode hcontent
  refine ⟨(tree.setDraft state.tree.nodes.length
    (Sheet.draft ⟨none, context, .discarded, entries⟩)).dissolve
    state.tree.nodes.length, ?_, ?_⟩
  · rw [Build.bind_ok (Build.discardDraft_apply hdraft)]
    rfl
  · have hgrow :=
      (hg.setDraft hp.lt_length ⟨none, context, .discarded, entries⟩).dissolve
        hn hch written.functions written.tags
    rw [← hb] at hgrow
    exact hgrow

/-- A block that stays gets a generated name, and a call of it is emitted. -/
theorem nameBlock_runs (hw : Writing site state id)
    (hc : site.context.clauses <+: context.clauses)
    (hg : state.tree.Gains id
      (.function ⟨none, context, .closed, written.entries⟩)
      written.below tree) :
    ∃ state', (do
        let location ← Build.freshFunction
        Build.modifyDraft state.tree.nodes.length fun draft =>
          .ok { draft with location := some location }
        Build.modifyTree
          fun tree => tree.rename state.tree.nodes.length location
        Build.emitUnder context (.function location) : Build Unit)
          (state.advance tree written) = .ok () state'
      ∧ state.Grows id ((Outcome.mk written (.ok ())).asFunction
            (some (site.functions.drop written.functions).head) context
          ++ { entries := [⟨context,
                .function (site.functions.drop written.functions).head,
                .block⟩],
               functions := 1 }) state' := by
  have hname : site.functions = state.functionNames :=
    hw.describes.functions.symm
  obtain ⟨new, hnode, -, hcontent, -⟩ := hg.new
  have hdraft : (state.advance tree written).tree.draft? state.tree.nodes.length
      = .ok (Sheet.draft ⟨none, context, .closed, written.entries⟩) :=
    BuildTree.draft?_eq hnode hcontent
  have hassign : Build.modifyDraft state.tree.nodes.length
      (fun draft => .ok { draft with
        location := some (state.advance tree written).functionNames.head })
      { state.advance tree written with
        functionNames := (state.advance tree written).functionNames.tail }
      = .ok () _ := Build.modifyDraft_apply hdraft rfl
  have hgain := (hg.setDraft hw.lt_length ⟨some (state.functionNames.drop
    written.functions).head, context, .closed, written.entries⟩).rename
    hw.lt_length
      (state.functionNames.drop written.functions).head
  -- the name is taken before the call is emitted, so the call comes after it
  have hgrow : state.Grows id _ _ :=
    (hgain.grows (written.functions + 1) written.tags).advance
  obtain ⟨state', hemit, hlast⟩ := (hw.after hgrow).emitUnder hc
    (.function (state.functionNames.drop written.functions).head) .block
  refine ⟨state', ?_, ?_⟩
  · rw [Build.bind_ok (Build.freshFunction_apply _)]
    rw [Build.bind_ok hassign, Build.bind_ok (Build.modifyTree_apply _ _)]
    exact hemit
  · rw [hname]
    exact (hgrow.trans hlast hw.lt_length).congr rfl

/-- A closed block becomes what its entries make of it. -/
theorem placeBlock_runs (hw : Writing site state id)
    (hc : site.context.clauses <+: context.clauses)
    (hin : ∀ entry ∈ written.entries, context.clauses <+: entry.context.clauses)
    (hg : state.tree.Gains id
      (.function ⟨none, context, .closed, written.entries⟩)
      written.below tree) :
    ∃ state',
      Build.placeBlock state.tree.nodes.length context
        (state.advance tree written)
        = .ok () state'
      ∧ state.Grows id
          (if written.entries.length ≤ 1 then written
          else (Outcome.mk written (.ok ())).asFunction
              (some (site.functions.drop written.functions).head) context
            ++ { entries := [⟨context,
                  .function (site.functions.drop written.functions).head,
                  .block⟩],
                 functions := 1 }) state' := by
  obtain ⟨new, hnode, -, hcontent, -⟩ := hg.new
  have hdraft : (state.advance tree written).tree.draft? state.tree.nodes.length
      = .ok (Sheet.draft ⟨none, context, .closed, written.entries⟩) :=
    BuildTree.draft?_eq hnode hcontent
  unfold Build.placeBlock
  rw [Build.bind_get, Build.bind_ofExcept_ok hdraft]
  match hent : written.entries with
  | [] =>
      -- nothing is left of the block but what is below it
      obtain ⟨tree', hrun, hgrow⟩ := dissolve_runs hw.toPlaced hg rfl
      refine ⟨state.advance tree' written, ?_, ?_⟩
      · simp only [Sheet.draft, List.map_nil]
        exact hrun
      · rw [if_pos (by simp)]
        have hsame : { written with entries := [] } = written := by rw [← hent]
        rw [hsame] at hgrow
        exact hgrow.advance
  | [entry] =>
      -- the entry is emitted once more, where the block stood
      obtain ⟨tree', hrun, hgrow⟩ := dissolve_runs hw.toPlaced hg rfl
      have hgrow' : state.Grows id { written with entries := [] }
          (state.advance tree' written) := hgrow.advance
      have hentry : site.context.clauses <+: entry.context.clauses :=
        hc.trans (hin entry (by rw [hent]; exact List.mem_singleton_self _))
      obtain ⟨state', hemit, hlast⟩ :=
        (hw.after hgrow').emitUnder hentry entry.command entry.cause
      refine ⟨state', ?_, ?_⟩
      · simp only [Sheet.draft, List.map_cons, List.map_nil, SheetEntry.source]
        rw [Build.bind_ok (Build.discardDraft_apply hdraft)] at hrun ⊢
        rw [Build.bind_ok hrun]
        exact hemit
      · rw [if_pos (by simp)]
        exact (hgrow'.trans hlast hw.lt_length).congr
          (Written.ext hent.symm (Outline.append_nil _) rfl rfl)
  | first :: second :: rest =>
      -- the block stays, under a generated name
      obtain ⟨state', hrun, hgrow⟩ := nameBlock_runs hw hc hg
      refine ⟨state', ?_, ?_⟩
      · simp only [Sheet.draft, List.map_cons]
        exact hrun
      · rw [if_neg (by simp)]
        exact hgrow

end Placing

end Datapack
