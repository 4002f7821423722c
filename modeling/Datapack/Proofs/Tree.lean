/-
What the changes of a build tree do to its nodes, number by number.

Every change of the tree is a chain of changes of single nodes, so each
operation has one equation for the node at a number, and later proofs read
the tree only through these. Insertion gives the new node the next free
number and adds it to its parent's children; a dissolved node leaves its
children in its place, and apart from the parents that those children name
nothing else changes.

The way up from a node to its component reads kinds and parents only. It
survives every change that keeps these two, and so a function never loses
the component that it was begun for.
-/
import Datapack.Build.State

namespace Datapack

namespace BuildTree

variable {tree tree' : BuildTree} {id other parent : Nat}

-- ========================================================= single nodes

/-- A change of one node, read at any number. -/
theorem node?_modify (tree : BuildTree) (id other : Nat)
    (change : BuildNode → BuildNode) :
    (tree.modify id change).node? other
      = if other = id then (tree.node? other).map change else tree.node?
        other := by
  unfold BuildTree.modify BuildTree.node?
  rw [List.getElem?_modify]
  by_cases h : other = id
  · subst h
    simp
  · have h' : ¬ id = other := fun e => h e.symm
    simp [h, h']

/-- The node that is changed. -/
theorem node?_modify_self (tree : BuildTree) (id : Nat)
    (change : BuildNode → BuildNode) :
    (tree.modify id change).node? id = (tree.node? id).map change := by
  rw [node?_modify, if_pos rfl]

/-- Changing a node leaves the others as they are. -/
theorem node?_modify_of_ne (change : BuildNode → BuildNode) (h : other ≠ id) :
    (tree.modify id change).node? other = tree.node? other := by
  rw [node?_modify, if_neg h]

@[simp] theorem length_modify (tree : BuildTree) (id : Nat)
    (change : BuildNode → BuildNode) :
    (tree.modify id change).nodes.length = tree.nodes.length := by
  unfold BuildTree.modify
  simp

/-- The number of a node is below the length of the table. -/
theorem lt_length_of_node? {node : BuildNode} (h : tree.node? id = some node) :
    id < tree.nodes.length := by
  obtain ⟨hlt, -⟩ := List.getElem?_eq_some_iff.mp h
  exact hlt

@[simp] theorem length_setDraft (tree : BuildTree) (id : Nat) (draft : Draft) :
    (tree.setDraft id draft).nodes.length = tree.nodes.length :=
  length_modify ..

@[simp] theorem length_rename (tree : BuildTree) (id : Nat) (name : String) :
    (tree.rename id name).nodes.length = tree.nodes.length :=
  length_modify ..

/-- The children of a node are those that it lists. -/
theorem children_eq {node : BuildNode} (h : tree.node? id = some node) :
    tree.children id = node.children := by
  unfold BuildTree.children
  rw [h]

/-- The draft of a node that is a function. -/
theorem draft?_eq {node : BuildNode} {draft : Draft}
    (h : tree.node? id = some node) (hc : node.content = .function draft) :
    tree.draft? id = .ok draft := by
  unfold BuildTree.draft?
  rw [h]
  simp only [hc]

/-- A draft that was set is found again. -/
theorem draft?_setDraft {draft : Draft} (h : tree.draft? id = .ok draft)
    (other : Draft) :
    (tree.setDraft id other).draft? id = .ok other := by
  unfold BuildTree.draft? at h
  cases hnode : tree.node? id with
  | none =>
      rw [hnode] at h
      cases h
  | some node =>
      have hchanged : (tree.setDraft id other).node? id
          = some { node with content := .function other } := by
        unfold BuildTree.setDraft
        rw [node?_modify_self, hnode]
        rfl
      exact draft?_eq hchanged rfl

-- ============================================================ insertion

/-- A new node makes the table longer by one. -/
@[simp] theorem length_insert (tree : BuildTree) (parent : Option Nat)
    (name : String) (content : NodeContent) :
    (tree.insert parent name content).nodes.length = tree.nodes.length + 1 := by
  unfold BuildTree.insert
  cases parent <;> simp

/-- The new node stands at the first free number. -/
theorem node?_insert_new (name : String) (content : NodeContent)
    (h : parent < tree.nodes.length) :
    (tree.insert (some parent) name content).node? tree.nodes.length
      = some { name := name, parent := some parent, content := content } := by
  unfold BuildTree.insert
  rw [node?_modify_of_ne _ (Nat.ne_of_gt h)]
  unfold BuildTree.node?
  simp

/-- The parent of the new node has it as its last child. -/
theorem node?_insert_parent (name : String) (content : NodeContent)
    {node : BuildNode} (h : tree.node? parent = some node) :
    (tree.insert (some parent) name content).node? parent
      = some
        { node with children := node.children ++ [tree.nodes.length] } := by
  have hlt := lt_length_of_node? h
  unfold BuildTree.insert
  rw [node?_modify_self]
  unfold BuildTree.node? at h ⊢
  rw [List.getElem?_append_left hlt, h]
  rfl

/-- Inserting a node changes its parent only. -/
theorem node?_insert_other (name : String) (content : NodeContent)
    (hlt : other < tree.nodes.length) (hne : other ≠ parent) :
    (tree.insert (some parent) name content).node? other
      = tree.node? other := by
  unfold BuildTree.insert
  rw [node?_modify_of_ne _ hne]
  unfold BuildTree.node?
  rw [List.getElem?_append_left hlt]

/-- The node of a project has no parent. -/
theorem node?_insert_root (tree : BuildTree) (name : String)
    (content : NodeContent) :
    (tree.insert none name content).node? tree.nodes.length
      = some { name := name, parent := none, content := content } := by
  unfold BuildTree.insert BuildTree.node?
  simp

-- =========================================================== dissolving

/-- The last child, taken away, is replaced by those that take its place. -/
theorem spliceChildren_last (others : List Nat) :
    ∀ {children : List Nat}, (∀ child ∈ children, child ≠ id) →
      spliceChildren id others (children ++ [id]) = children ++ others
  | [], _ => by simp [spliceChildren]
  | child :: rest, h => by
      have hne : child ≠ id := h child (List.mem_cons_self ..)
      have hrest := spliceChildren_last others fun c (hc : c ∈ rest) =>
        h c (List.mem_cons_of_mem _ hc)
      simp only [List.cons_append, spliceChildren, if_neg hne, hrest]

/-- Handing children over to a new parent changes the parents they name. -/
theorem node?_foldl_adopt (parent : Nat) (children : List Nat)
    (tree : BuildTree) (other : Nat) :
    (children.foldl (fun tree child =>
        tree.modify child fun node => { node with parent := some parent })
        tree).node? other
      = if other ∈ children then
          (tree.node? other).map fun node => { node with parent := some parent }
        else tree.node? other := by
  induction children generalizing tree with
  | nil => simp
  | cons child rest ih =>
      rw [List.foldl_cons, ih, node?_modify]
      by_cases hchild : other = child
      · subst hchild
        rw [if_pos rfl, if_pos (List.mem_cons_self ..), Option.map_map]
        by_cases hrest : other ∈ rest
        · rw [if_pos hrest]
          rfl
        · rw [if_neg hrest]
      · simp [hchild]

/-- Naming another parent takes no node away. -/
private theorem length_foldl_adopt (parent : Nat) (children : List Nat)
    (tree : BuildTree) :
    (children.foldl (fun tree child =>
        tree.modify child fun node => { node with parent := some parent })
        tree).nodes.length
      = tree.nodes.length := by
  induction children generalizing tree with
  | nil => rfl
  | cons child rest ih => rw [List.foldl_cons, ih, length_modify]

section Dissolve

variable {node : BuildNode}

/-- Dissolving a node that has a parent, spelled out. -/
theorem dissolve_eq (h : tree.node? id = some node)
    (hp : node.parent = some parent) :
    tree.dissolve id
      = (node.children.foldl (fun tree child =>
          tree.modify child fun node => { node with parent := some parent })
          (tree.modify id fun node => { node with children := [] })).modify parent
        fun above =>
          { above with children :=
              spliceChildren id node.children above.children } := by
  unfold BuildTree.dissolve
  simp only [h, hp]

/-- Dissolving a node takes none out of the table. -/
theorem length_dissolve (h : tree.node? id = some node)
    (hp : node.parent = some parent) :
    (tree.dissolve id).nodes.length = tree.nodes.length := by
  rw [dissolve_eq h hp, length_modify, length_foldl_adopt, length_modify]

/-- The parent of a dissolved node gets its children in its place. -/
theorem node?_dissolve_parent {above : BuildNode}
    (h : tree.node? id = some node) (hp : node.parent = some parent)
    (ha : tree.node? parent = some above) (hne : parent ≠ id)
    (hmem : parent ∉ node.children) :
    (tree.dissolve id).node? parent
      = some
        { above with children :=
            spliceChildren id node.children above.children } := by
  rw [dissolve_eq h hp, node?_modify_self, node?_foldl_adopt, if_neg hmem,
    node?_modify_of_ne _ hne, ha]
  rfl

/-- A child of a dissolved node only changes the parent that it names. -/
theorem node?_dissolve_child {below : BuildNode} (h : tree.node? id = some node)
    (hp : node.parent = some parent) (hmem : other ∈ node.children)
    (hb : tree.node? other = some below) (hne : other ≠ id)
    (hnp : other ≠ parent) :
    (tree.dissolve id).node? other
      = some { below with parent := some parent } := by
  rw [dissolve_eq h hp, node?_modify_of_ne _ hnp, node?_foldl_adopt,
    if_pos hmem, node?_modify_of_ne _ hne, hb]
  rfl

/-- A node that is neither the dissolved one nor next to it stays. -/
theorem node?_dissolve_other (h : tree.node? id = some node)
    (hp : node.parent = some parent) (hne : other ≠ id) (hnp : other ≠ parent)
    (hmem : other ∉ node.children) :
    (tree.dissolve id).node? other = tree.node? other := by
  rw [dissolve_eq h hp, node?_modify_of_ne _ hnp, node?_foldl_adopt,
    if_neg hmem, node?_modify_of_ne _ hne]

end Dissolve

-- ============================================================ the way up

/-- Every node of the first tree is in the second one, with the kind, the
parent and the name that it had. -/
def Keeps (tree tree' : BuildTree) : Prop :=
  ∀ id node, tree.node? id = some node →
    ∃ node', tree'.node? id = some node' ∧ node'.kind = node.kind
      ∧ node'.parent = node.parent ∧ node'.name = node.name

/-- The way up leads to the same node in a tree that keeps the nodes, with
at least as many steps. -/
theorem ancestorWithin_mono (hk : tree.Keeps tree') {kind : NodeKind}
    {ancestor : Nat} :
    ∀ {fuel fuel' : Nat} {id : Nat}, fuel ≤ fuel' →
      tree.ancestorWithin kind fuel id = some ancestor →
      tree'.ancestorWithin kind fuel' id = some ancestor := by
  intro fuel
  induction fuel with
  | zero => intro fuel' id _ h; cases h
  | succ fuel ih =>
      intro fuel' id hle h
      obtain ⟨fuel', rfl⟩ : ∃ k, fuel' = k + 1 := ⟨fuel' - 1, by omega⟩
      unfold BuildTree.ancestorWithin at h ⊢
      cases hn : tree.node? id with
      | none => rw [hn] at h; cases h
      | some node =>
          -- the node has its kind and its parent still, so the way goes on
          -- alike
          obtain ⟨node', hn', hkind, hparent, -⟩ := hk id node hn
          rw [hn] at h
          rw [hn']
          simp only [Option.bind_eq_bind, Option.bind_some] at h ⊢
          rw [hkind]
          by_cases hc : node.kind = kind
          · rw [if_pos hc] at h ⊢
            exact h
          · rw [if_neg hc] at h ⊢
            cases hpar : node.parent with
            | none => rw [hpar] at h; cases h
            | some up =>
                rw [hpar] at h
                rw [hparent, hpar]
                exact ih (by omega) h

/-- The nearest component from a node upwards has this name. -/
def BelongsTo (tree : BuildTree) (id : Nat) (name : String) : Prop :=
  ∃ ancestor node, tree.ancestor? id .component = some ancestor
    ∧ tree.node? ancestor = some node ∧ node.name = name

/-- A node belongs to the same component in a tree that keeps its nodes. -/
theorem BelongsTo.mono {name : String} (h : tree.BelongsTo id name)
    (hk : tree.Keeps tree') (hlen : tree.nodes.length ≤ tree'.nodes.length) :
    tree'.BelongsTo id name := by
  obtain ⟨ancestor, node, hup, hn, hname⟩ := h
  obtain ⟨node', hn', -, -, hname'⟩ := hk ancestor node hn
  exact ⟨ancestor, node', ancestorWithin_mono hk hlen hup, hn',
    hname'.trans hname⟩

/-- Inserting a node keeps all that are there. -/
private theorem keeps_insert {above : BuildNode} (name : String)
    (content : NodeContent) (h : tree.node? parent = some above) :
    tree.Keeps (tree.insert (some parent) name content) := by
  intro id node hn
  by_cases hid : id = parent
  · subst hid
    rw [h] at hn
    cases hn
    exact ⟨_, node?_insert_parent name content h, rfl, rfl, rfl⟩
  · have hsame := node?_insert_other name content (lt_length_of_node? hn) hid
    exact ⟨node, hsame.trans hn, rfl, rfl, rfl⟩

/-- A node that is not a component itself belongs to that of its parent. -/
theorem belongsTo_insert {above : BuildNode} {component name : String}
    {content : NodeContent} (h : tree.node? parent = some above)
    (hb : tree.BelongsTo parent component) (hkind : content.kind ≠ .component) :
    (tree.insert (some parent) name content).BelongsTo tree.nodes.length
      component := by
  obtain ⟨ancestor, node, hup, hn, hname⟩ := hb
  have hkeep := keeps_insert name content h
  obtain ⟨node', hn', -, -, hname'⟩ := hkeep ancestor node hn
  refine ⟨ancestor, node', ?_, hn', hname'.trans hname⟩
  -- the walk from the new node takes one step, to the parent
  unfold BuildTree.ancestor?
  rw [length_insert]
  unfold BuildTree.ancestorWithin
  rw [node?_insert_new name content (lt_length_of_node? h)]
  simp only [Option.bind_eq_bind, Option.bind_some]
  rw [if_neg (by exact hkind)]
  exact ancestorWithin_mono hkeep (Nat.le_refl _) hup

/-- The node of a component belongs to that component. -/
theorem belongsTo_insert_component {name : String}
    (h : parent < tree.nodes.length) :
    (tree.insert (some parent) name .component).BelongsTo tree.nodes.length
      name := by
  refine ⟨tree.nodes.length, _, ?_, node?_insert_new name .component h, rfl⟩
  unfold BuildTree.ancestor?
  rw [length_insert]
  unfold BuildTree.ancestorWithin
  rw [node?_insert_new name .component h]
  simp [BuildNode.kind, NodeContent.kind]

end BuildTree

end Datapack
