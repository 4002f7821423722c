/-
The tree of a build. Nodes are numbered in the order in which they are
inserted; a node that is dissolved hands its children over to its parent,
in its own place. The functions and tags of the pack are read off the tree
in preorder.
-/
import Datapack.Build.Draft

namespace Datapack

/-- The number of a node. -/
abbrev NodeId := Nat

/-- What a node holds. -/
inductive NodeContent where
  | project (description : String)
  | component
  | method
  | function (draft : Draft)
  | tag (location : String) (members : List String)
  deriving DecidableEq, Repr

/-- The kind of a node with this content. -/
def NodeContent.kind : NodeContent → NodeKind
  | .project _ => .project
  | .component => .component
  | .method => .method
  | .function _ => .function
  | .tag .. => .tag

/-- A node of the build tree. -/
structure BuildNode where
  name : String
  parent : Option NodeId
  children : List NodeId := []
  content : NodeContent
  deriving DecidableEq, Repr

/-- The kind of a node. -/
def BuildNode.kind (node : BuildNode) : NodeKind :=
  node.content.kind

/-- The nodes of a build, each at its number. -/
structure BuildTree where
  nodes : List BuildNode
  deriving DecidableEq, Repr

namespace BuildTree

/-- The tree without nodes. -/
def empty : BuildTree := ⟨[]⟩

-- ============================================================= looking up

/-- The node of a number. -/
def node? (tree : BuildTree) (id : NodeId) : Option BuildNode :=
  tree.nodes[id]?

/-- The children of a node, in order. -/
def children (tree : BuildTree) (id : NodeId) : List NodeId :=
  match tree.node? id with
  | some node => node.children
  | none => []

/-- The nearest node of a kind from `id` upwards, `id` included, in at most
`fuel` steps. -/
def ancestorWithin (tree : BuildTree) (kind : NodeKind) :
    Nat → NodeId → Option NodeId
  | 0, _ => none
  | fuel + 1, id => do
    let node ← tree.node? id
    if node.kind = kind then some id
    else tree.ancestorWithin kind fuel (← node.parent)

/-- The nearest node of a kind from `id` upwards, `id` included. A way up
meets each node once at most. -/
def ancestor? (tree : BuildTree) (id : NodeId) (kind : NodeKind) :
    Option NodeId :=
  tree.ancestorWithin kind tree.nodes.length id

/-- A node and those below it, each before its children, down to `depth`
generations. -/
def preorderWithin (tree : BuildTree) : Nat → NodeId → List NodeId
  | 0, _ => []
  | depth + 1, id =>
    id :: (tree.children id).flatMap (tree.preorderWithin depth)

/-- A node and those below it, each before its children. A way down meets
each node once at most. -/
def preorder (tree : BuildTree) (id : NodeId) : List NodeId :=
  tree.preorderWithin tree.nodes.length id

/-- The function that a node holds. -/
def draft? (tree : BuildTree) (id : NodeId) : Except Defect Draft :=
  match tree.node? id with
  | none => .error (.noSuchNode id)
  | some node =>
    match node.content with
    | .function draft => .ok draft
    | content => .error (.notAFunction id content.kind)

-- ================================================================ changing

/-- Changes the node of a number. -/
def modify (tree : BuildTree) (id : NodeId) (change : BuildNode → BuildNode) :
    BuildTree :=
  ⟨tree.nodes.modify id change⟩

/-- Adds a node as the last child of its parent. The new node's number is
that of the nodes before. -/
def insert (tree : BuildTree) (parent : Option NodeId) (name : String)
    (content : NodeContent) :
    BuildTree :=
  let node : BuildNode := { name := name, parent := parent, content := content }
  let extended : BuildTree := ⟨tree.nodes ++ [node]⟩
  match parent with
  | none => extended
  | some id =>
    extended.modify id
      fun node => { node with children := node.children ++ [tree.nodes.length] }

/-- Gives a node another name. -/
def rename (tree : BuildTree) (id : NodeId) (name : String) : BuildTree :=
  tree.modify id fun node => { node with name := name }

/-- Gives a node another function. -/
def setDraft (tree : BuildTree) (id : NodeId) (draft : Draft) : BuildTree :=
  tree.modify id fun node => { node with content := .function draft }

/-- A list of children in which others take the place of a node. -/
def spliceChildren (id : NodeId) (others : List NodeId) :
    List NodeId → List NodeId
  | [] => []
  | child :: rest =>
    if child = id then others ++ rest
      else child :: spliceChildren id others rest

/-- Takes a node away from its parent, which gets its children in its
place. A node without a parent stays. -/
def dissolve (tree : BuildTree) (id : NodeId) : BuildTree :=
  match tree.node? id with
  | none => tree
  | some node =>
    match node.parent with
    | none => tree
    | some parent =>
      let emptied := tree.modify id fun node => { node with children := [] }
      let adopted := node.children.foldl
        (fun tree child =>
          tree.modify child
            fun node => { node with parent := some parent }) emptied
      adopted.modify parent fun above =>
        { above with children :=
            spliceChildren id node.children above.children }

end BuildTree

-- ================================================================= focus

/-- For each kind, the node that the build is inside of. Tags are never
inside anything. -/
structure Focus where
  project : Option NodeId := none
  component : Option NodeId := none
  method : Option NodeId := none
  function : Option NodeId := none
  deriving DecidableEq, Repr, Inhabited

namespace Focus

/-- The node of a kind in focus. -/
def get? (focus : Focus) : NodeKind → Option NodeId
  | .project => focus.project
  | .component => focus.component
  | .method => focus.method
  | .function => focus.function
  | .tag => none

/-- Puts another node of a kind, or none, in focus. -/
def set (focus : Focus) (kind : NodeKind) (node : Option NodeId) : Focus :=
  match kind with
  | .project => { focus with project := node }
  | .component => { focus with component := node }
  | .method => { focus with method := node }
  | .function => { focus with function := node }
  | .tag => focus

end Focus

end Datapack
