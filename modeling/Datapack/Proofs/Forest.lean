/-
The build tree stays a forest, whatever is inserted and dissolved.

A node is read through two views, the children that it lists and the
parent that it names. The two are not kept in step both ways. A node that
is listed names the one that lists it, but a dissolved node still names
the parent that it was taken from, it can get children after that, and
once it is dissolved again these are listed nowhere. What every change
does keep is that a node comes after the parent that it names, listed or
not (`Forest.parent_lt`). Ways up and ways down are therefore finite, and
both walks reach their end.

The walks are given twice. `Climbs` and `Walks` are loops without a bound,
and a derivation is a loop that has come to its end. `ancestor?` and
`preorder` are what the library runs. In a forest the loops end with just
these answers.

Dissolving a node does one thing to the list of children of every other
node: the node's own children take its place in it (`children_dissolve`).
Where the node is not listed that changes nothing, so roots, nodes that
were dissolved before and all bystanders need no case of their own.
-/
import Datapack.Proofs.Tree
import Mathlib.Data.List.Nodup

namespace Datapack.BuildTree

variable {tree : BuildTree} {id other parent root : Nat}

-- ============================================================ two views

/-- The parent that a node names. -/
def parent? (tree : BuildTree) (id : Nat) : Option Nat :=
  (tree.node? id).bind BuildNode.parent

private theorem lt_length_of_parent? (h : tree.parent? id = some parent) :
    id < tree.nodes.length := by
  obtain ⟨node, hnode, -⟩ := Option.bind_eq_some_iff.1 h
  exact lt_length_of_node? hnode

private theorem exists_node (h : id < tree.nodes.length) :
    ∃ node, tree.node? id = some node :=
  ⟨tree.nodes[id], List.getElem?_eq_getElem h⟩

/-- The children of a node, and none where there is no node. -/
private theorem children_eq_getD (tree : BuildTree) (id : Nat) :
    tree.children id = ((tree.node? id).map BuildNode.children).getD [] := by
  unfold children
  cases tree.node? id <;> rfl

/-- Insertion, read at any number. -/
theorem node?_insert {above : Option Nat}
    (h : ∀ id ∈ above, id < tree.nodes.length) (name : String)
    (content : NodeContent) (other : Nat) :
    (tree.insert above name content).node? other
      = if other = tree.nodes.length then
          some { name := name, parent := above, content := content }
        else if above = some other then
          (tree.node? other).map fun node =>
            { node with children := node.children ++ [tree.nodes.length] }
        else tree.node? other := by
  -- without a parent the new node is just put at the end
  have hadd : ∀ node, (⟨tree.nodes ++ [node]⟩ : BuildTree).node? other
      = if other = tree.nodes.length then some node else tree.node? other := by
    intro node
    unfold node?
    by_cases hnew : other = tree.nodes.length
    · rw [if_pos hnew, hnew, List.getElem?_concat_length]
    · rw [if_neg hnew]
      rcases Nat.lt_or_gt_of_ne hnew with hlt | hgt
      · exact List.getElem?_append_left hlt
      · rw [List.getElem?_eq_none (Nat.le_of_lt hgt),
          List.getElem?_eq_none (by rw [List.length_append]; exact hgt)]
  unfold BuildTree.insert
  cases above with
  | none => simpa using hadd _
  | some parent =>
      have hlt : parent < tree.nodes.length := h parent rfl
      dsimp only
      rw [node?_modify, hadd]
      by_cases hnew : other = tree.nodes.length
      · rw [if_pos hnew, if_neg (by omega), if_pos hnew]
      · by_cases hparent : other = parent
        · rw [if_pos hparent, if_neg hnew, if_neg hnew,
            if_pos (by rw [hparent])]
        · rw [if_neg hparent, if_neg hnew, if_neg hnew,
            if_neg fun heq => hparent (Option.some.inj heq).symm]

/-- Only the new node has a new parent. -/
private theorem parent?_insert {above : Option Nat}
    (h : ∀ id ∈ above, id < tree.nodes.length) (name : String)
    (content : NodeContent) (other : Nat) :
    (tree.insert above name content).parent? other
      = if other = tree.nodes.length then above else tree.parent? other := by
  unfold parent?
  rw [node?_insert h]
  split
  · rfl
  · split
    · cases tree.node? other <;> rfl
    · rfl

/-- The new node becomes the last child of its parent, and no other
children change. -/
private theorem children_insert {above : Option Nat}
    (h : ∀ id ∈ above, id < tree.nodes.length) (name : String)
    (content : NodeContent) (other : Nat) :
    (tree.insert above name content).children other
      = if above = some other then tree.children other ++ [tree.nodes.length]
        else tree.children other := by
  rw [children_eq_getD, children_eq_getD, node?_insert h]
  by_cases hnew : other = tree.nodes.length
  · have habove : above ≠ some other :=
      fun heq => absurd (h other heq) (by omega)
    have hnone : tree.node? other = none := List.getElem?_eq_none (by omega)
    rw [if_pos hnew, if_neg habove, hnone]
    rfl
  · rw [if_neg hnew]
    split
    · next habove =>
      obtain ⟨node, hnode⟩ := exists_node (h other habove)
      rw [hnode]
      rfl
    · rfl

/-- A root is not dissolved. -/
private theorem dissolve_root (hroot : tree.parent? id = none) :
    tree.dissolve id = tree := by
  unfold BuildTree.dissolve
  cases hnode : tree.node? id with
  | none => rfl
  | some node =>
      have hparent : node.parent = none := by
        unfold parent? at hroot
        rwa [hnode] at hroot
      simp only [hparent]

/-- Dissolving takes no node out of the table. -/
private theorem length_dissolve_eq (tree : BuildTree) (id : Nat) :
    (tree.dissolve id).nodes.length = tree.nodes.length := by
  cases hparent : tree.parent? id with
  | none => rw [dissolve_root hparent]
  | some parent =>
      obtain ⟨node, hnode, hnodeparent⟩ := Option.bind_eq_some_iff.1 hparent
      exact length_dissolve hnode hnodeparent

-- ============================================== one list of children

section Splice

variable {others children : List Nat}

/-- Nothing is put in place of a child that is not there. -/
private theorem spliceChildren_of_notMem (others : List Nat) :
    ∀ {children : List Nat},
      id ∉ children → spliceChildren id others children = children
  | [], _ => rfl
  | child :: rest, h => by
      rw [List.mem_cons, not_or] at h
      rw [spliceChildren, if_neg (Ne.symm h.1),
        spliceChildren_of_notMem others h.2]

/-- In a list that has no node twice, the others come wherever `id` stands. -/
theorem spliceChildren_eq_flatMap (others : List Nat) (hnd : children.Nodup) :
    spliceChildren id others children
      = children.flatMap
        fun child => if child = id then others else [child] := by
  induction children with
  | nil => rfl
  | cons child rest ih =>
      obtain ⟨hchild, hrest⟩ := List.nodup_cons.1 hnd
      rw [spliceChildren, List.flatMap_cons]
      by_cases heq : child = id
      · -- behind the place of `id` nothing is replaced
        rw [if_pos heq, if_pos heq, ← ih hrest,
          spliceChildren_of_notMem others (heq ▸ hchild)]
      · rw [if_neg heq, if_neg heq, ih hrest]
        rfl

/-- The children after splicing are those that were there and those put in. -/
private theorem mem_spliceChildren (hnd : children.Nodup) {child : Nat}
    (h : child ∈ spliceChildren id others children) :
    (id ∈ children ∧ child ∈ others) ∨ child ∈ children := by
  rw [spliceChildren_eq_flatMap others hnd] at h
  obtain ⟨place, hplace, hmem⟩ := List.mem_flatMap.1 h
  split at hmem
  · next heq => exact .inl ⟨heq ▸ hplace, hmem⟩
  · rw [List.mem_singleton.1 hmem]
    exact .inr hplace

/-- Splicing in children that are not there yet keeps all of them
different. -/
private theorem nodup_spliceChildren (hnd : children.Nodup)
    (hothers : others.Nodup) (hdisjoint : ∀ child ∈ others, child ∉ children) :
    (spliceChildren id others children).Nodup := by
  rw [spliceChildren_eq_flatMap others hnd, List.nodup_flatMap]
  constructor
  · intro child _
    split
    · exact hothers
    · exact List.nodup_singleton child
  · refine hnd.imp_of_mem ?_
    intro first second hfirst hsecond hne child hmem hmem'
    dsimp only at hmem hmem'
    split at hmem <;> split at hmem'
    · next heq heq' => exact hne (heq.trans heq'.symm)
    · exact hdisjoint child hmem (List.mem_singleton.1 hmem' ▸ hsecond)
    · exact hdisjoint child hmem' (List.mem_singleton.1 hmem ▸ hfirst)
    · exact hne
        ((List.mem_singleton.1 hmem).symm.trans (List.mem_singleton.1 hmem'))

/-- What is put together child by child stays the same if the others come
to what `id` came to, and every other child to what it came to. -/
theorem flatMap_spliceChildren {f g : Nat → List Nat} (hnd : children.Nodup)
    (hid : id ∈ children → others.flatMap f = g id)
    (hchild : ∀ child ∈ children, child ≠ id → f child = g child) :
    (spliceChildren id others children).flatMap f = children.flatMap g := by
  rw [spliceChildren_eq_flatMap others hnd, List.flatMap_assoc]
  apply List.flatMap_congr
  intro child hmem
  by_cases heq : child = id
  · rw [if_pos heq, heq]
    exact hid (heq ▸ hmem)
  · rw [if_neg heq, List.flatMap_singleton]
    exact hchild child hmem heq

end Splice

-- ============================================================== forests

/-- What every change of a tree keeps. -/
structure Forest (tree : BuildTree) : Prop where
  /-- A node comes after the parent that it names, also after it was taken
  from there. -/
  parent_lt : ∀ {id parent}, tree.parent? id = some parent → parent < id
  /-- A node that is listed names the one that lists it. -/
  parent_of_mem : ∀ {id child},
    child ∈ tree.children id → tree.parent? child = some id
  nodup_children : ∀ id, (tree.children id).Nodup

namespace Forest

/-- A child comes later in the table than its parent. -/
private theorem lt_of_mem (h : tree.Forest) {child : Nat}
    (hchild : child ∈ tree.children id) :
    id < child :=
  h.parent_lt (h.parent_of_mem hchild)

private theorem lt_length_of_mem (h : tree.Forest) {child : Nat}
    (hchild : child ∈ tree.children id) :
    child < tree.nodes.length :=
  lt_length_of_parent? (h.parent_of_mem hchild)

/-- A node is listed by one node only. -/
theorem eq_of_mem (h : tree.Forest) {child : Nat}
    (hchild : child ∈ tree.children id)
    (hchild' : child ∈ tree.children other) : id = other :=
  Option.some.inj
    ((h.parent_of_mem hchild).symm.trans (h.parent_of_mem hchild'))

/-- Induction from the children to the node, which ends since children have
the greater numbers. -/
theorem fromBelow (h : tree.Forest)
    {motive : ∀ id : Nat, id < tree.nodes.length → Prop}
    (node : ∀ (id : Nat) (hid : id < tree.nodes.length),
      (∀ (child : Nat) (hchild : child ∈ tree.children id),
        motive child (h.lt_length_of_mem hchild)) → motive id hid)
    (id : Nat) (hid : id < tree.nodes.length) : motive id hid := by
  induction hgap : tree.nodes.length - id
    using Nat.strongRecOn generalizing id with
  | ind gap ih =>
      apply node id hid
      intro child hchild
      have hlt := h.lt_of_mem hchild
      exact ih (tree.nodes.length - child)
        (by omega) child (h.lt_length_of_mem hchild) rfl

/-- No node is listed twice, in one list or in two. -/
theorem nodup_flatMap_children (h : tree.Forest) :
    (tree.nodes.flatMap BuildNode.children).Nodup := by
  have hnode : ∀ {i} (hi : i < tree.nodes.length),
      tree.children i = (tree.nodes[i]).children :=
    fun hi => children_eq (List.getElem?_eq_getElem hi)
  rw [List.nodup_flatMap]
  constructor
  · intro node hmem
    obtain ⟨i, hi, rfl⟩ := List.mem_iff_getElem.1 hmem
    rw [← hnode hi]
    exact h.nodup_children i
  · rw [List.pairwise_iff_getElem]
    intro i j hi hj hij child hfirst hsecond
    rw [← hnode hi] at hfirst
    rw [← hnode hj] at hsecond
    have heq := h.eq_of_mem hfirst hsecond
    omega

private theorem empty : BuildTree.empty.Forest where
  parent_lt h := by cases h
  parent_of_mem h := by cases h
  nodup_children _ := List.nodup_nil

/-- Inserting a node under a node, or under none. -/
theorem insert (h : tree.Forest) {above : Option Nat}
    (habove : ∀ id ∈ above, id < tree.nodes.length) (name : String)
    (content : NodeContent) :
    (tree.insert above name content).Forest where
  parent_lt {id parent} hparent := by
    rw [parent?_insert habove] at hparent
    split at hparent
    · next hnew =>
      rw [hnew]
      exact habove parent hparent
    · exact h.parent_lt hparent
  parent_of_mem {id child} hchild := by
    rw [children_insert habove] at hchild
    rw [parent?_insert habove]
    -- an old child is not the new node
    have hold : child ∈ tree.children id →
        (if child = tree.nodes.length then above else tree.parent? child)
          = some id := by
      intro hmem
      rw [if_neg (Nat.ne_of_lt (h.lt_length_of_mem hmem))]
      exact h.parent_of_mem hmem
    split at hchild
    · next hhere =>
      rcases List.mem_append.1 hchild with hmem | hmem
      · exact hold hmem
      · rw [if_pos (List.mem_singleton.1 hmem)]
        exact hhere
    · exact hold hchild
  nodup_children id := by
    rw [children_insert habove]
    split
    · rw [← List.concat_eq_append]
      apply List.Nodup.concat _ (h.nodup_children id)
      intro hmem
      exact Nat.lt_irrefl _ (h.lt_length_of_mem hmem)
    · exact h.nodup_children id

-- =========================================================== dissolving

/-- Dissolving a node that names a parent, read at any number. -/
theorem node?_dissolve (h : tree.Forest)
    (hparent : tree.parent? id = some parent) (other : Nat) :
    (tree.dissolve id).node? other
      = (tree.node? other).map fun node =>
          { node with
            parent :=
              if other ∈ tree.children id then some parent else node.parent
            children :=
              if other = id then []
              else if other = parent then
                spliceChildren id (tree.children id) node.children
              else node.children } := by
  obtain ⟨node, hnode, hnodeparent⟩ := Option.bind_eq_some_iff.1 hparent
  have hlt := h.parent_lt hparent
  rw [dissolve_eq hnode hnodeparent, node?_modify, node?_foldl_adopt,
    node?_modify, ← children_eq hnode]
  -- the parent is neither the node nor one of its children
  have hself : id ∉ tree.children id :=
    fun hmem => Nat.lt_irrefl _ (h.lt_of_mem hmem)
  have hout : parent ∉ tree.children id :=
    fun hmem => Nat.lt_asymm hlt (h.lt_of_mem hmem)
  cases tree.node? other with
  | none => simp
  | some node =>
      by_cases hp : other = parent
      · subst hp
        simp [hout, Nat.ne_of_lt hlt]
      · by_cases hi : other = id
        · subst hi
          simp [hp, hself]
        · by_cases hc : other ∈ tree.children id
          · simp [hp, hi, hc]
          · simp [hp, hi, hc]

/-- The children of a dissolved node go to its parent, and no other
node moves. -/
private theorem parent?_dissolve (h : tree.Forest)
    (hparent : tree.parent? id = some parent) (other : Nat) :
    (tree.dissolve id).parent? other
      = if other ∈ tree.children id then some parent
        else tree.parent? other := by
  unfold parent?
  rw [h.node?_dissolve hparent]
  by_cases hmem : other ∈ tree.children id
  · obtain ⟨node, hnode⟩ := exists_node (h.lt_length_of_mem hmem)
    rw [hnode, if_pos hmem, Option.map_some, Option.bind_some]
    exact if_pos hmem
  · rw [if_neg hmem]
    cases tree.node? other with
    | none => rfl
    | some node => exact if_neg hmem

/-- A dissolved node has no children. -/
private theorem children_dissolve_self (h : tree.Forest)
    (hparent : tree.parent? id = some parent) :
    (tree.dissolve id).children id = [] := by
  rw [children_eq_getD, h.node?_dissolve hparent]
  cases tree.node? id with
  | none => rfl
  | some node => exact if_pos rfl

/-- In the children of every other node, those of a dissolved node take its
place. -/
theorem children_dissolve (h : tree.Forest) (hne : other ≠ id) :
    (tree.dissolve id).children other
      = spliceChildren id (tree.children id) (tree.children other) := by
  have hstays : tree.parent? id ≠ some other →
      spliceChildren id (tree.children id) (tree.children other)
        = tree.children other :=
    fun hnot =>
      spliceChildren_of_notMem _ fun hmem => hnot (h.parent_of_mem hmem)
  cases hparent : tree.parent? id with
  | none =>
      rw [dissolve_root hparent, hstays (by simp [hparent])]
  | some parent =>
      rw [children_eq_getD (tree.dissolve id), h.node?_dissolve hparent]
      by_cases hhere : other = parent
      · subst hhere
        rw [children_eq_getD tree other]
        cases tree.node? other with
        | none => rfl
        | some node => simp [hne]
      · rw [hstays
          (by rw [hparent]; exact fun heq => hhere (Option.some.inj heq).symm),
          children_eq_getD tree other]
        cases tree.node? other with
        | none => rfl
        | some node => simp [hne, hhere]

/-- Dissolving a node keeps a forest one. Each law is shown for the parent,
for the node itself and for all others. -/
private theorem dissolve (h : tree.Forest) (id : Nat) :
    (tree.dissolve id).Forest := by
  cases hparent : tree.parent? id with
  | none =>
      rw [dissolve_root hparent]
      exact h
  | some parent =>
      have hlt := h.parent_lt hparent
      refine ⟨fun {other above} habove => ?_, fun {other child} hchild => ?_,
        fun other => ?_⟩
      · rw [h.parent?_dissolve hparent] at habove
        split at habove
        · next hmem =>
          have hbelow := h.lt_of_mem hmem
          have heq : parent = above := Option.some.inj habove
          omega
        · exact h.parent_lt habove
      · -- the children of the node name its parent now, and are listed there
        -- if the node was
        by_cases hself : other = id
        · rw [hself, h.children_dissolve_self hparent] at hchild
          cases hchild
        · rw [h.children_dissolve hself] at hchild
          rw [h.parent?_dissolve hparent]
          rcases mem_spliceChildren (h.nodup_children other)
            hchild with ⟨hid, hmem⟩ | hmem
          · rw [if_pos hmem, ← hparent]
            exact h.parent_of_mem hid
          · rw [if_neg fun hmem' => hself (h.eq_of_mem hmem hmem')]
            exact h.parent_of_mem hmem
      · by_cases hself : other = id
        · rw [hself, h.children_dissolve_self hparent]
          exact List.nodup_nil
        · rw [h.children_dissolve hself]
          apply nodup_spliceChildren (h.nodup_children other)
            (h.nodup_children id)
          exact fun child hmem hmem' => hself (h.eq_of_mem hmem' hmem)

end Forest

-- ================================================================ loops

/-- The loop that looks for a node of a kind, from a place upwards, ends
with an answer. -/
inductive Climbs (tree : BuildTree) (kind : NodeKind) :
    Option Nat → Option Nat → Prop
  | out : Climbs tree kind none none
  | found {id : Nat} {node : BuildNode} :
      tree.node? id = some node →
        node.kind = kind → Climbs tree kind (some id) (some id)
  | up {id : Nat} {node : BuildNode} {answer : Option Nat} :
      tree.node? id = some node → node.kind ≠ kind →
        Climbs tree kind node.parent answer → Climbs tree kind (some id) answer

/-- The loop that takes the first node off a stack, lists it, and puts its
children there instead ends with a list. -/
inductive Walks (tree : BuildTree) : List Nat → List Nat → Prop
  | done : Walks tree [] []
  | visit {id : Nat} {node : BuildNode} {rest order : List Nat} :
      tree.node? id = some node → Walks tree (node.children ++ rest) order →
        Walks tree (id :: rest) (id :: order)

/-- The way up from a node has one answer. -/
private theorem Climbs.unique {kind : NodeKind}
    {place answer answer' : Option Nat} (h : tree.Climbs kind place answer)
    (h' : tree.Climbs kind place answer') :
    answer = answer' := by
  induction h with
  | out => cases h'; rfl
  | found hnode hkind =>
      cases h' with
      | found _ _ => rfl
      | up hnode' hkind' _ =>
          cases hnode.symm.trans hnode'
          exact absurd hkind hkind'
  | up hnode hkind _ ih =>
      cases h' with
      | found hnode' hkind' =>
          cases hnode.symm.trans hnode'
          exact absurd hkind' hkind
      | up hnode' _ hup =>
          cases hnode.symm.trans hnode'
          exact ih hup

/-- A stack is walked in one order. -/
private theorem Walks.unique {stack order order' : List Nat}
    (h : tree.Walks stack order) (h' : tree.Walks stack order') :
    order = order' := by
  induction h generalizing order' with
  | done => cases h'; rfl
  | visit hnode _ ih =>
      cases h' with
      | visit hnode' hrest =>
          cases hnode.symm.trans hnode'
          rw [ih hrest]

namespace Forest

/-- A way up from a node has as many steps as the node has numbers before
it, at most. -/
theorem climbs_ancestorWithin (h : tree.Forest) (kind : NodeKind) :
    ∀ {fuel id : Nat}, id < fuel → id < tree.nodes.length →
      tree.Climbs kind (some id) (tree.ancestorWithin kind fuel id) := by
  intro fuel
  induction fuel with
  | zero => exact fun hfuel => absurd hfuel (Nat.not_lt_zero _)
  | succ fuel ih =>
      intro id hfuel hid
      obtain ⟨node, hnode⟩ := exists_node hid
      unfold ancestorWithin
      rw [hnode]
      simp only [Option.bind_eq_bind, Option.bind_some]
      by_cases hkind : node.kind = kind
      · rw [if_pos hkind]
        exact .found hnode hkind
      · rw [if_neg hkind]
        refine .up hnode hkind ?_
        cases hparent : node.parent with
        | none => exact .out
        | some parent =>
            have hlt : parent < id := by
              apply h.parent_lt
              unfold parent?
              rw [hnode]
              exact hparent
            exact ih (Nat.lt_of_lt_of_le hlt (Nat.le_of_lt_succ hfuel))
              (Nat.lt_trans hlt hid)

/-- Below a node there are as many generations as there are numbers behind
it, at most. -/
theorem preorderWithin_eq (h : tree.Forest) :
    ∀ {depth depth' id : Nat},
      id < tree.nodes.length →
        tree.nodes.length ≤ depth + id → tree.nodes.length ≤ depth' + id →
      tree.preorderWithin depth id = tree.preorderWithin depth' id := by
  intro depth
  induction depth with
  | zero => intro depth' id hid hdepth _; omega
  | succ depth ih =>
      intro depth' id hid hdepth hdepth'
      obtain ⟨depth', rfl⟩ : ∃ k, depth' = k + 1 := ⟨depth' - 1, by omega⟩
      unfold preorderWithin
      congr 1
      apply List.flatMap_congr
      intro child hchild
      have hlt := h.lt_of_mem hchild
      exact ih (h.lt_length_of_mem hchild) (by omega) (by omega)

/-- A node is listed before its children, and these are listed one after
the other, with all that is below them. -/
theorem preorder_eq (h : tree.Forest) (hid : id < tree.nodes.length) :
    tree.preorder id = id :: (tree.children id).flatMap tree.preorder := by
  obtain ⟨depth, hdepth⟩ : ∃ k, tree.nodes.length = k + 1 :=
    ⟨tree.nodes.length - 1, by omega⟩
  have hunfold : tree.preorder id
      = id :: (tree.children id).flatMap (tree.preorderWithin depth) := by
    unfold preorder
    rw [hdepth]
    rfl
  rw [hunfold]
  congr 1
  apply List.flatMap_congr
  intro child hchild
  have hlt := h.lt_of_mem hchild
  exact h.preorderWithin_eq (h.lt_length_of_mem hchild) (by omega) (by omega)

/-- The loop lists what is below the first node of the stack before it goes
on to the rest. -/
theorem walks_cons (h : tree.Forest) (hid : id < tree.nodes.length)
    {rest order : List Nat} (hrest : tree.Walks rest order) :
    tree.Walks (id :: rest) (tree.preorder id ++ order) := by
  induction id, hid using h.fromBelow generalizing rest order with
  | node id hid ih =>
      obtain ⟨node, hnode⟩ := exists_node hid
      have hlist : ∀ children ⊆ tree.children id,
          tree.Walks (children ++ rest)
            (children.flatMap tree.preorder ++ order) := by
        intro children hsub
        induction children with
        | nil => exact hrest
        | cons child later ihlater =>
            rw [List.cons_subset] at hsub
            rw [List.cons_append, List.flatMap_cons, List.append_assoc]
            exact ih child hsub.1 (ihlater hsub.2)
      rw [h.preorder_eq hid, List.cons_append]
      refine .visit hnode ?_
      rw [← children_eq hnode]
      exact hlist _ (List.Subset.refl _)

/-- What is below a node comes later in the table. -/
private theorem le_of_mem_preorder (h : tree.Forest)
    (hid : id < tree.nodes.length) {below : Nat}
    (hbelow : below ∈ tree.preorder id) : id ≤ below := by
  induction id, hid using h.fromBelow with
  | node id hid ih =>
      rw [h.preorder_eq hid, List.mem_cons, List.mem_flatMap] at hbelow
      rcases hbelow with rfl | ⟨child, hchild, hbelow⟩
      · exact Nat.le_refl _
      · exact Nat.le_trans (Nat.le_of_lt (h.lt_of_mem hchild))
          (ih child hchild hbelow)

/-- Of the nodes listed from a node, every other one names one of them as its
parent. -/
theorem parent_mem_preorder (h : tree.Forest) (hid : id < tree.nodes.length)
    {below : Nat} (hbelow : below ∈ tree.preorder id) :
    below = id
      ∨ ∃ parent ∈ tree.preorder id, tree.parent? below = some parent := by
  induction id, hid using h.fromBelow with
  | node id hid ih =>
      rw [h.preorder_eq hid] at hbelow ⊢
      rcases List.mem_cons.1 hbelow with rfl | hbelow
      · exact .inl rfl
      · right
        obtain ⟨child, hchild, hbelow⟩ := List.mem_flatMap.1 hbelow
        rcases ih child hchild hbelow with rfl | ⟨parent, hmem, hparent⟩
        · exact ⟨id, List.mem_cons_self, h.parent_of_mem hchild⟩
        · refine ⟨parent, List.mem_cons_of_mem _ ?_, hparent⟩
          exact List.mem_flatMap.2 ⟨child, hchild, hmem⟩

/-- Nothing is below two children of one node. -/
theorem eq_of_mem_preorder (h : tree.Forest) {child child' : Nat}
    (hchild : child ∈ tree.children id) (hchild' : child' ∈ tree.children id)
    {below : Nat} (hbelow : below ∈ tree.preorder child)
    (hbelow' : below ∈ tree.preorder child') :
    child = child' := by
  -- one of two siblings is not below the other, since its parent is not
  have hapart : ∀ {child child'},
      child ∈ tree.children id → child' ∈ tree.children id →
        child ∈ tree.preorder child' → child = child' := by
    intro child child' hchild hchild' hmem
    rcases h.parent_mem_preorder (h.lt_length_of_mem hchild') hmem with
      heq | ⟨parent, hparent, hnames⟩
    · exact heq
    · have hid : id = parent :=
        Option.some.inj ((h.parent_of_mem hchild).symm.trans hnames)
      have hle := h.le_of_mem_preorder (h.lt_length_of_mem hchild') hparent
      have hlt := h.lt_of_mem hchild'
      omega
  induction below using Nat.strongRecOn with
  | ind below ih =>
      rcases h.parent_mem_preorder (h.lt_length_of_mem hchild) hbelow with
        rfl | ⟨parent, hmem, hparent⟩
      · exact hapart hchild hchild' hbelow'
      · rcases h.parent_mem_preorder (h.lt_length_of_mem hchild') hbelow' with
          rfl | ⟨parent', hmem', hparent'⟩
        · exact (hapart hchild' hchild hbelow).symm
        · cases hparent.symm.trans hparent'
          exact ih parent (h.parent_lt hparent) hmem hmem'

/-- The walk below a node meets every node once: what is below one child is
not below another. -/
private theorem nodup_preorder (h : tree.Forest)
    (hid : id < tree.nodes.length) :
    (tree.preorder id).Nodup := by
  induction id, hid using h.fromBelow with
  | node id hid ih =>
      rw [h.preorder_eq hid, List.nodup_cons, List.mem_flatMap,
        List.nodup_flatMap]
      refine ⟨?_, ih, ?_⟩
      · rintro ⟨child, hchild, hmem⟩
        have hle := h.le_of_mem_preorder (h.lt_length_of_mem hchild) hmem
        exact Nat.not_lt.2 hle (h.lt_of_mem hchild)
      · refine (h.nodup_children id).imp_of_mem ?_
        intro child child' hchild hchild' hne below hbelow hbelow'
        exact hne (h.eq_of_mem_preorder hchild hchild' hbelow hbelow')

/-- What is listed below a node, whether it is the one that is dissolved or
not, with that one's children in its place. -/
theorem flatMap_preorder_dissolve (h : tree.Forest)
    (hroot : root < tree.nodes.length) :
    (spliceChildren id (tree.children id) (tree.children root)).flatMap
        (tree.dissolve id).preorder
      = ((tree.children root).flatMap tree.preorder).filter (· ≠ id) := by
  induction root, hroot using h.fromBelow with
  | node root hroot ih =>
      rw [List.filter_flatMap]
      refine flatMap_spliceChildren (h.nodup_children root) ?_ ?_
      · -- where the node is listed, what is below it comes without the node
        intro hlisted
        have hbelow := ih id hlisted
        have hself : id ∉ tree.children id :=
          fun hmem => Nat.lt_irrefl _ (h.lt_of_mem hmem)
        rw [spliceChildren_of_notMem _ hself] at hbelow
        rw [h.preorder_eq (h.lt_length_of_mem hlisted),
          List.filter_cons_of_neg (by simp)]
        exact hbelow
      · intro child hchild hne
        have hlt := h.lt_length_of_mem hchild
        rw [(h.dissolve id).preorder_eq (by rw [length_dissolve_eq]; exact hlt),
          h.children_dissolve hne, ih child hchild, h.preorder_eq hlt,
          List.filter_cons_of_pos (by simpa using hne)]

/-- From every other node the walk is what it was, without the node that is
dissolved. -/
theorem preorder_dissolve (h : tree.Forest) (hroot : root < tree.nodes.length)
    (hne : root ≠ id) :
    (tree.dissolve id).preorder root
      = (tree.preorder root).filter (· ≠ id) := by
  rw [(h.dissolve id).preorder_eq (by rw [length_dissolve_eq]; exact hroot),
    h.children_dissolve hne, h.flatMap_preorder_dissolve hroot,
    h.preorder_eq hroot, List.filter_cons_of_pos (by simpa using hne)]

end Forest

-- ================================================= inserted and dissolved

/-- The trees that come of inserting and dissolving, one after the other. A
node is inserted under a node that there is, or under none. -/
inductive Reached : BuildTree → Prop
  | empty : Reached .empty
  | insert {tree : BuildTree} {above : Option Nat} (name : String)
      (content : NodeContent) :
      Reached tree → (∀ id ∈ above, id < tree.nodes.length) →
      Reached (tree.insert above name content)
  | dissolve {tree : BuildTree} (id : Nat) :
      Reached tree → Reached (tree.dissolve id)

/-- Every tree that the operations reach is a forest. -/
private theorem Reached.forest (h : tree.Reached) : tree.Forest := by
  induction h with
  | empty => exact Forest.empty
  | insert name content _ habove ih => exact ih.insert habove name content
  | dissolve id _ ih => exact ih.dissolve id

/-- What the steps of a build rely on. -/
structure Orderly (tree : BuildTree) : Prop where
  /-- A node that is listed comes after the one that lists it, and names it
  as its parent. -/
  children : ∀ id child,
    child ∈ tree.children id → id < child ∧ tree.parent? child = some id
  listedOnce : (tree.nodes.flatMap BuildNode.children).Nodup
  /-- The loop up from a node ends, and with no other answer. -/
  climbs : ∀ id < tree.nodes.length, ∀ kind answer,
    tree.Climbs kind (some id) answer ↔ answer = tree.ancestor? id kind
  /-- The loop down from a node ends, and with no other list. -/
  walks : ∀ root < tree.nodes.length, ∀ order,
    tree.Walks [root] order ↔ order = tree.preorder root
  /-- The list is a node and then, child by child, the lists of its
  children. -/
  listing : ∀ root < tree.nodes.length,
    tree.preorder root = root :: (tree.children root).flatMap tree.preorder
      ∧ (tree.preorder root).Nodup
  /-- Dissolving a node takes it from the list of every other node, and does
  nothing else to it. -/
  dissolved : ∀ id, ∀ root < tree.nodes.length, root ≠ id →
    (tree.dissolve id).preorder root = (tree.preorder root).filter (· ≠ id)

/-- Whatever is inserted and dissolved, and in whatever order, the tree is
orderly. -/
theorem Reached.orderly (h : tree.Reached) : tree.Orderly where
  children _ _
    hchild := ⟨h.forest.lt_of_mem hchild, h.forest.parent_of_mem hchild⟩
  listedOnce := h.forest.nodup_flatMap_children
  climbs id hid kind answer := by
    have hends := h.forest.climbs_ancestorWithin kind hid hid
    constructor
    · exact fun hanswer => hanswer.unique hends
    · rintro rfl
      exact hends
  walks root hroot order := by
    have hends := h.forest.walks_cons hroot .done
    rw [List.append_nil] at hends
    constructor
    · exact fun horder => horder.unique hends
    · rintro rfl
      exact hends
  listing _ hroot := ⟨h.forest.preorder_eq hroot, h.forest.nodup_preorder hroot⟩
  dissolved _ _ hroot hne := h.forest.preorder_dissolve hroot hne

/-- A root with three children, of which the second is dissolved while it has
a child, gets another one then, and is dissolved again. -/
def dissolvedTwice : BuildTree :=
  let family :=
    (((((empty.insert none "root" .component).insert (some 0) "before"
      .method).insert (some 0) "middle" .method).insert (some 0) "after"
      .method).insert (some 2) "nested" .method)
  ((family.dissolve 2).insert (some 2) "late" .method).dissolve 2

/-- The child that comes late names the root as its parent, and the root
does not list it, since the dissolved node was not there to be replaced. -/
theorem dissolvedTwice_orderly :
    dissolvedTwice.Reached ∧ dissolvedTwice.preorder 0 = [0, 1, 4, 3]
      ∧ dissolvedTwice.parent? 5 = some 0 ∧ dissolvedTwice.Orderly := by
  have hreached : dissolvedTwice.Reached := by
    unfold dissolvedTwice
    refine .dissolve 2
      (.insert _ _
        (.dissolve 2
          (.insert _ _
            (.insert _ _
              (.insert _ _ (.insert _ _ (.insert _ _ .empty ?_) ?_) ?_) ?_) ?_))
              ?_) <;> decide
  exact ⟨hreached, by decide, by decide, hreached.orderly⟩

end Datapack.BuildTree
