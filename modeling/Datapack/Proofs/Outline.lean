/-
Outlines: the finished parts of a build tree without their numbers.

The tree of a build is an arena. Nodes are numbered as they come, a block
that dissolves leaves a gap, and its children move to another parent. What
a pack is read from is only the shape that remains: which pieces there are
and which stand below which, in order. An outline is that shape, and
`BuildTree.Shows` says that nodes of a tree have it.

# Why the numbers grow downwards

A node is inserted after its parent, and a dissolved node hands its
children to a node that is older still, so on every way down the numbers
increase. `Shows` carries this as a lower bound for the numbers it meets.
The bound does two things. It separates what a step has added from what
was there before, which makes later changes of older nodes harmless
(`Shows.frame`). And it bounds the depth, so that a walk of as many
generations as there are nodes meets all of them (`Shows.contents`).

# What a sheet adds to a draft

A sheet is a draft that also remembers where each of its commands came
from: a statement of the body, a block that was moved to a function of its
own, the methods of a hook, or the bookkeeping of marks. The draft is the
sheet without these causes.
-/
import Datapack.Proofs.Tree
import Datapack.Body

namespace Datapack

-- ============================================================== entries

/-- Where a command of a function comes from. -/
inductive Cause where
  /-- A statement of a method's body. -/
  | statement (statement : Statement)
  /-- Another action of a method's body. -/
  | action
  /-- A block of several commands, which became a function of its own. -/
  | block
  /-- The methods of a hook, called by their tag. -/
  | hook
  /-- Marks of entities, and the warning of a recursion guard. -/
  | mark

/-- A command as it is registered, and where it comes from. -/
structure SheetEntry where
  context : ExecutionContext
  command : Command
  cause : Cause

namespace SheetEntry

/-- The command with its context, as a draft keeps it. -/
def source (entry : SheetEntry) : ExecutionContext × Command :=
  (entry.context, entry.command)

/-- The command as it stands in a function that is called in `base`. -/
def line (base : ExecutionContext) (entry : SheetEntry) : Command :=
  entry.command.behind (Clause.wrapper (entry.context.clauses.drop base.length))

end SheetEntry

/-- A function, with the causes of its commands. -/
structure Sheet where
  location : Option String
  base : ExecutionContext
  stage : Draft.Stage
  entries : List SheetEntry

def Sheet.draft (sheet : Sheet) : Draft where
  location := sheet.location
  base := sheet.base
  commands := sheet.entries.map (SheetEntry.line sheet.base)
  sources := sheet.entries.map SheetEntry.source
  stage := sheet.stage

/-- A draft with further entries. -/
def Draft.extend (draft : Draft) (entries : List SheetEntry) : Draft :=
  { draft with
    commands := draft.commands ++ entries.map (SheetEntry.line draft.base)
    sources := draft.sources ++ entries.map SheetEntry.source }

@[simp] theorem Draft.extend_nil (draft : Draft) : draft.extend [] = draft := by
  unfold Draft.extend
  simp

/-- Entries are added to a draft in two parts. -/
private theorem Draft.extend_append (draft : Draft)
    (entries others : List SheetEntry) :
    draft.extend (entries ++ others)
      = (draft.extend entries).extend others := by
  unfold Draft.extend
  simp

/-- The content of a node whose function got further entries; other
contents take none. -/
def NodeContent.extend (content : NodeContent) (entries : List SheetEntry) :
    NodeContent :=
  match content with
  | .function draft => .function (draft.extend entries)
  | other => other

@[simp] theorem NodeContent.extend_nil (content : NodeContent) :
    content.extend [] = content := by
  cases content <;> simp [NodeContent.extend]

/-- Entries are added to a node in two parts. -/
theorem NodeContent.extend_append (content : NodeContent)
    (entries others : List SheetEntry) :
    content.extend (entries ++ others)
      = (content.extend entries).extend others := by
  cases content <;> simp [NodeContent.extend, Draft.extend_append]

/-- Entries do not change what a node is. -/
@[simp] theorem NodeContent.kind_extend (content : NodeContent)
    (entries : List SheetEntry) :
    (content.extend entries).kind = content.kind := by
  cases content <;> rfl

-- ============================================================= outlines

/-- What a node of an outline holds. -/
inductive Piece where
  | project (description : String)
  | component
  | method
  | function (sheet : Sheet)
  | tag (location : String) (members : List String)

namespace Piece

def content : Piece → NodeContent
  | .project description => .project description
  | .component => .component
  | .method => .method
  | .function sheet => .function sheet.draft
  | .tag location members => .tag location members

def sheet? : Piece → Option Sheet
  | .function sheet => some sheet
  | _ => none

/-- Only functions take entries. -/
theorem extend_content {piece : Piece} (h : piece.sheet? = none)
    (entries : List SheetEntry) :
    piece.content.extend entries = piece.content := by
  cases piece with
  | function sheet => cases h
  | _ => rfl

end Piece

/-- Nodes in order, each with those below it and then those next to it. -/
inductive Outline where
  | nil
  | node (piece : Piece) (below next : Outline)

namespace Outline

def append : Outline → Outline → Outline
  | .nil, other => other
  | .node piece below next, other => .node piece below (next.append other)

instance : Append Outline := ⟨append⟩

@[simp] theorem nil_append (other : Outline) : nil ++ other = other := rfl

@[simp] theorem node_append (piece : Piece) (below next other : Outline) :
    node piece below next ++ other = node piece below (next ++ other) := rfl

/-- Nothing behind an outline changes nothing. -/
@[simp] theorem append_nil (outline : Outline) : outline ++ nil = outline := by
  induction outline with
  | nil => rfl
  | node piece below next _ ih => rw [node_append, ih]

def single (piece : Piece) (below : Outline) : Outline :=
  .node piece below .nil

/-- The pieces, each before those below it. -/
def pieces : Outline → List Piece
  | .nil => []
  | .node piece below next => piece :: (below.pieces ++ next.pieces)

@[simp] theorem pieces_nil : nil.pieces = [] := rfl

/-- The piece of a node comes before those below it. -/
@[simp] theorem pieces_single (piece : Piece) (below : Outline) :
    (single piece below).pieces = piece :: below.pieces := by
  unfold single
  simp [pieces]

/-- The pieces of two outlines in a row. -/
@[simp] theorem pieces_append (first second : Outline) :
    (first ++ second).pieces = first.pieces ++ second.pieces := by
  induction first with
  | nil => rfl
  | node piece below next _ ih => simp [pieces, ih]

/-- The functions, each before those below it. -/
def sheets (outline : Outline) : List Sheet :=
  outline.pieces.filterMap Piece.sheet?

/-- The sheets of an outline are its pieces that are functions. -/
theorem mem_sheets {outline : Outline} {sheet : Sheet} :
    sheet ∈ outline.sheets ↔ .function sheet ∈ outline.pieces := by
  unfold sheets
  rw [List.mem_filterMap]
  constructor
  · rintro ⟨piece, hpiece, hsheet⟩
    cases piece with
    | function other =>
        obtain rfl : other = sheet := Option.some.inj hsheet
        exact hpiece
    | _ => cases hsheet
  · exact fun hpiece => ⟨_, hpiece, rfl⟩

@[simp] theorem sheets_nil : nil.sheets = [] := rfl

/-- The functions of two outlines in a row. -/
@[simp] theorem sheets_append (first second : Outline) :
    (first ++ second).sheets = first.sheets ++ second.sheets := by
  unfold sheets
  rw [pieces_append, List.filterMap_append]

/-- A function comes before those below it. -/
@[simp] theorem sheets_single_function (sheet : Sheet) (below : Outline) :
    (single (.function sheet) below).sheets = sheet :: below.sheets := by
  unfold sheets
  rw [pieces_single, List.filterMap_cons]
  rfl

/-- A node that is no function has only those below it. -/
theorem sheets_single_other {piece : Piece} (h : piece.sheet? = none)
    (below : Outline) :
    (single piece below).sheets = below.sheets := by
  unfold sheets
  rw [pieces_single, List.filterMap_cons, h]

end Outline

-- ============================================== trees that show outlines

namespace BuildTree

variable {tree tree' : BuildTree}

/-- Nodes of the tree, all numbered from `low` on, have the outline. -/
def Shows (tree : BuildTree) : Nat → List Nat → Outline → Prop
  | _, [], .nil => True
  | low, id :: ids, .node piece below next =>
    low ≤ id
      ∧ (∃ node, tree.node? id = some node ∧ node.content = piece.content
          ∧ tree.Shows (id + 1) node.children below)
      ∧ tree.Shows low ids next
  | _, _, _ => False

section

variable {low : Nat} {ids : List Nat}

/-- The empty outline is that of no nodes. -/
theorem shows_nil_iff : tree.Shows low ids .nil ↔ ids = [] := by
  cases ids <;> simp [Shows]

/-- An outline with a first piece is that of nodes the first of which has
the piece. -/
theorem shows_node_iff {piece : Piece} {below next : Outline} :
    tree.Shows low ids (.node piece below next)
      ↔ ∃ id rest, ids = id :: rest ∧ low ≤ id
        ∧ (∃ node, tree.node? id = some node ∧ node.content = piece.content
            ∧ tree.Shows (id + 1) node.children below)
        ∧ tree.Shows low rest next := by
  cases ids with
  | nil => simp [Shows]
  | cons id rest =>
      simp only [Shows]
      constructor
      · exact fun h => ⟨id, rest, rfl, h⟩
      · rintro ⟨_, _, heq, h⟩
        cases heq
        exact h

end

/-- No nodes have the empty outline. -/
@[simp] theorem shows_nil (low : Nat) : tree.Shows low [] .nil :=
  shows_nil_iff.2 rfl

/-- A node with its content has the outline of its piece and of what is
below it. -/
theorem shows_single {low id : Nat} {node : BuildNode} {piece : Piece}
    {below : Outline} (hlow : low ≤ id) (hn : tree.node? id = some node)
    (hc : node.content = piece.content)
    (hb : tree.Shows (id + 1) node.children below) :
    tree.Shows low [id] (.single piece below) := by
  exact shows_node_iff.2
    ⟨id, [], rfl, hlow, ⟨node, hn, hc, hb⟩, shows_nil low⟩

/-- The nodes that show an outline are numbered between the bound and the
first free number. -/
theorem Shows.bounds {low : Nat} {outline : Outline} :
    ∀ {ids : List Nat}, tree.Shows low ids outline →
      ∀ id ∈ ids, low ≤ id ∧ id < tree.nodes.length := by
  induction outline with
  | nil =>
      intro ids h id hid
      rw [shows_nil_iff.1 h] at hid
      cases hid
  | node piece below next _ ihn =>
      intro ids h id hid
      obtain ⟨first, rest, rfl, hlow, ⟨node, hn, -, -⟩, hnext⟩ :=
        shows_node_iff.1 h
      rcases List.mem_cons.1 hid with rfl | hid
      · exact ⟨hlow, lt_length_of_node? hn⟩
      · exact ihn hnext id hid

/-- A lower bound does as well. -/
theorem Shows.mono {low low' : Nat} (hle : low' ≤ low) {outline : Outline} :
    ∀ {ids : List Nat},
      tree.Shows low ids outline → tree.Shows low' ids outline := by
  induction outline with
  | nil =>
      intro ids h
      exact shows_nil_iff.2 (shows_nil_iff.1 h)
  | node piece below next _ ihn =>
      intro ids h
      obtain ⟨first, rest, rfl, hlow, hfirst, hnext⟩ := shows_node_iff.1 h
      exact shows_node_iff.2
        ⟨first, rest, rfl, Nat.le_trans hle hlow, hfirst, ihn hnext⟩

/-- What is shown from `low` on is shown by every tree that has the same
contents and children from `low` on: older nodes may change. -/
theorem Shows.frame {outline : Outline} :
    ∀ {low : Nat} {ids : List Nat},
      (∀ id node, low ≤ id → tree.node? id = some node →
        ∃ node', tree'.node? id = some node' ∧ node'.content = node.content
          ∧ node'.children = node.children) →
      tree.Shows low ids outline → tree'.Shows low ids outline := by
  induction outline with
  | nil =>
      intro low ids _ h
      exact shows_nil_iff.2 (shows_nil_iff.1 h)
  | node piece below next ihb ihn =>
      intro low ids hsame h
      obtain ⟨first, rest, rfl, hlow, ⟨node, hn, hc, hb⟩, hnext⟩ :=
        shows_node_iff.1 h
      obtain ⟨node', hn', hc', hch'⟩ := hsame first node hlow hn
      have hb' : tree'.Shows (first + 1) node'.children below := by
        rw [hch']
        exact ihb (fun id node hle => hsame id node (by omega)) hb
      exact shows_node_iff.2 ⟨first, rest, rfl, hlow,
        ⟨node', hn', hc'.trans hc, hb'⟩, ihn hsame hnext⟩

/-- Nodes in a row have their outlines in a row. -/
theorem Shows.append {low : Nat} {first second : Outline} {later : List Nat}
    (h' : tree.Shows low later second) :
    ∀ {ids : List Nat}, tree.Shows low ids first →
      tree.Shows low (ids ++ later) (first ++ second) := by
  induction first with
  | nil =>
      intro ids h
      rw [shows_nil_iff.1 h]
      exact h'
  | node piece below next _ ihn =>
      intro ids h
      obtain ⟨first, rest, rfl, hlow, hfirst, hnext⟩ := shows_node_iff.1 h
      rw [Outline.node_append, List.cons_append]
      exact shows_node_iff.2
        ⟨first, rest ++ later, rfl, hlow, hfirst, ihn hnext⟩

/-- A walk of enough generations meets the pieces of the outline in order.
The bound leaves `depth` generations below the first free number, and each
generation moves it up by one at least. -/
theorem Shows.contents {outline : Outline} :
    ∀ {low : Nat} {ids : List Nat} (depth : Nat),
      tree.Shows low ids outline → tree.nodes.length ≤ low + depth →
      ((ids.flatMap (tree.preorderWithin depth)).filterMap tree.node?).map
        BuildNode.content
        = outline.pieces.map Piece.content := by
  induction outline with
  | nil =>
      intro low ids depth h _
      rw [shows_nil_iff.1 h]
      rfl
  | node piece below next ihb ihn =>
      intro low ids depth h hdepth
      obtain ⟨first, rest, rfl, hlow, ⟨node, hn, hc, hb⟩, hnext⟩ :=
        shows_node_iff.1 h
      have hlt := lt_length_of_node? hn
      -- a node is there, so the bound leaves a generation at least
      obtain ⟨depth, rfl⟩ : ∃ d, depth = d + 1 := ⟨depth - 1, by omega⟩
      have hbelow := ihb depth hb (by omega)
      have hafter := ihn (depth + 1) hnext hdepth
      have hstep : tree.preorderWithin (depth + 1) first
          = first :: node.children.flatMap (tree.preorderWithin depth) := by
        rw [preorderWithin, children_eq hn]
      rw [List.flatMap_cons, hstep]
      simp only [Outline.pieces, List.cons_append, List.filterMap_cons, hn,
        List.map_cons, List.filterMap_append, List.map_append]
      rw [hbelow, hafter, hc]

/-- The walk through a tree meets the pieces of its outline in order. -/
theorem contents_preorder {root : Nat} {piece : Piece} {below : Outline}
    (h : tree.Shows 0 [root] (.single piece below)) :
    ((tree.preorder root).filterMap tree.node?).map BuildNode.content
      = (Outline.single piece below).pieces.map Piece.content := by
  have hwalk := h.contents tree.nodes.length (by omega)
  rw [List.flatMap_singleton] at hwalk
  exact hwalk

end BuildTree

end Datapack
