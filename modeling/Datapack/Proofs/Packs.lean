/-
What a project is built into, without the tree.

`Project.build_eq` is the end of the simulation: a build is registration,
a check of the namespace, resolution, and then the plan of the resolved
components at the site where builds start. If the plan ends well, the pack
is read off what it wrote: every closed function with a location, in the
order in which the outline has them, and the tags gathered from the
pieces. Everything about packs can from here on be read off plans.
-/
import Datapack.Proofs.Components

namespace Datapack

-- ============================================================= collecting

def NodeContent.draft? : NodeContent → Option Draft
  | .function draft => some draft
  | _ => none

def NodeContent.artifact? : NodeContent → Option PackFunction
  | .function draft => draft.artifact?
  | _ => none

/-- The tags so far with those of a content. -/
def NodeContent.addTags (tags : Table (List String)) :
    NodeContent → Table (List String)
  | .tag location members =>
    tags.insert location (Project.addNew ((tags.get? location).getD []) members)
  | _ => tags

/-- The finished function of a sheet, if it has a place in the pack. -/
def Sheet.artifact? (sheet : Sheet) : Option PackFunction :=
  sheet.draft.artifact?

/-- A closed sheet with a location is a function of the pack. -/
theorem Sheet.artifact?_eq {sheet : Sheet} {location : String}
    (hstage : sheet.stage = .closed)
    (hlocation : sheet.location = some location) :
    sheet.artifact?
      = some ⟨location, sheet.draft.commands.map Command.render⟩ := by
  unfold Sheet.artifact? Draft.artifact?
  exact (if_pos hstage).trans (congrArg (Option.map _) hlocation)

namespace Outline

def artifacts (outline : Outline) : List PackFunction :=
  outline.sheets.filterMap Sheet.artifact?

/-- The tags with their members. -/
def tagTable (outline : Outline) : Table (List String) :=
  outline.pieces.foldl (fun tags piece => piece.content.addTags tags)
    Table.empty

end Outline

/-- The pack of an outline. -/
def Project.packOf (project : Project) (outline : Outline) : Pack where
  name := project.name
  space := project.space
  description := project.packDescription
  functions := outline.artifacts
  tags := outline.tagTable.entries.map fun entry => ⟨entry.1, entry.2⟩

/-- What a piece gives to a pack is what its function gives. -/
private theorem Piece.content_artifact? (piece : Piece) :
    piece.content.artifact? = piece.sheet?.bind Sheet.artifact? := by
  cases piece <;> rfl

/-- A tree that shows an outline below its project is collected into the
outline's pack. -/
theorem Project.collect_eq (project : Project) {tree : BuildTree} {root : Nat}
    {description : String} {below : Outline}
    (h : tree.Shows 0 [root] (.single (.project description) below)) :
    project.collect tree root = project.packOf below := by
  have hwalk := BuildTree.contents_preorder h
  rw [Outline.pieces_single, List.map_cons] at hwalk
  have hfunctions : ((tree.preorder root).filterMap tree.node?).filterMap
      functionOf
      = below.artifacts := by
    calc ((tree.preorder root).filterMap tree.node?).filterMap functionOf
        = (((tree.preorder root).filterMap tree.node?).map
          BuildNode.content).filterMap
            NodeContent.artifact? := by
          rw [List.filterMap_map]
          rfl
      _ = below.pieces.filterMap fun piece => piece.content.artifact? := by
          rw [hwalk, List.filterMap_cons, List.filterMap_map]
          rfl
      _ = below.artifacts := by
          unfold Outline.artifacts Outline.sheets
          simp only [Piece.content_artifact?, List.filterMap_filterMap]
  have htags :
      ((tree.preorder root).filterMap tree.node?).foldl collectTags Table.empty
        = below.tagTable := by
    -- the collection reads nothing of a node but its content
    have hcontent : collectTags
        = fun tags node => (BuildNode.content node).addTags tags := rfl
    rw [hcontent, ← List.foldl_map, hwalk, List.foldl_cons, List.foldl_map]
    rfl
  unfold Project.collect Project.packOf
  simp only [hfunctions, htags]

/-- The functions of a built tree as they were written. -/
def BuildTree.drafts (tree : BuildTree) (root : NodeId) : List Draft :=
  ((tree.preorder root).filterMap tree.node?).filterMap
    fun node => node.content.draft?

private theorem Piece.content_draft? (piece : Piece) :
    piece.content.draft? = piece.sheet?.map Sheet.draft := by
  cases piece <;> rfl

/-- A tree that shows an outline has the drafts of its functions. -/
theorem BuildTree.drafts_eq {tree : BuildTree} {root : Nat}
    {description : String} {below : Outline}
    (h : tree.Shows 0 [root] (.single (.project description) below)) :
    tree.drafts root = below.sheets.map Sheet.draft := by
  have hwalk := BuildTree.contents_preorder h
  rw [Outline.pieces_single, List.map_cons] at hwalk
  calc tree.drafts root
      = (((tree.preorder root).filterMap tree.node?).map
        BuildNode.content).filterMap
          NodeContent.draft? := by
        rw [List.filterMap_map]
        rfl
    _ = below.pieces.filterMap fun piece => piece.content.draft? := by
        rw [hwalk, List.filterMap_cons, List.filterMap_map]
        rfl
    _ = below.sheets.map Sheet.draft := by
        unfold Outline.sheets
        simp only [Piece.content_draft?, List.map_filterMap]

-- =============================================================== building

def Site.initial (space : String) (calls : CallTable) : Site where
  space := space
  calls := calls
  component := ""
  context := .empty
  functions := .ofTemplate (Location.functionTemplate space)
  tags := .ofTemplate (Location.tagTemplate space)

namespace Project

/-- What the resolved components of the project come to. -/
def outcome (project : Project) (resolved : List (Component × List Member)) :
    Outcome :=
  Plan.components resolved
    (.initial project.space (CallTable.ofComponents resolved))

/-- The state in which the components of the project are built: its node is
there and in focus. -/
def rootState (project : Project) (resolved : List (Component × List Member)) :
    BuildState :=
  { BuildState.initial project.space (CallTable.ofComponents resolved) with
    tree := BuildTree.empty.insert none project.name
      (.project project.packDescription)
    focus := ({} : Focus).set .project (some 0) }

/-- After the project was inserted its node is an anchor for the
components. -/
theorem anchored_rootState (project : Project)
    (resolved : List (Component × List Member)) :
    Anchored (.initial project.space (CallTable.ofComponents resolved))
      (project.rootState resolved) 0 :=
  ⟨⟨rfl, rfl, rfl, rfl⟩, _,
    BuildTree.node?_insert_root BuildTree.empty project.name
      (.project project.packDescription), fun child hchild => by cases hchild⟩

/-- Building the tree performs the plan of the components below the node of
the project. -/
theorem buildTree_runs (project : Project)
    (resolved : List (Component × List Member)) :
    ∃ state,
      project.buildTree resolved
          (BuildState.initial project.space (CallTable.ofComponents resolved))
        = (match (project.outcome resolved).result with
          | .ok _ => .ok 0 state
          | .error failure => .error failure state)
      ∧ state.tree.Shows 0 [0]
          (.single (.project project.packDescription)
            (project.outcome resolved).written.below) := by
  have hroot := BuildTree.node?_insert_root BuildTree.empty project.name
    (.project project.packDescription)
  obtain ⟨state, hrun, hgrow⟩ :=
    performs_components resolved (project.anchored_rootState resolved)
  refine ⟨{ state with focus := state.focus.set .project none }, ?_, ?_⟩
  · -- the focus is put back whether the components end well or fail
    have hfocused : Build.focused .project 0 (buildComponents 0 resolved)
        { BuildState.initial project.space
            (CallTable.ofComponents resolved) with
          tree := BuildTree.empty.insert none project.name
            (.project project.packDescription) }
        = Outcome.ending (project.outcome resolved).result
            { state with focus := state.focus.set .project none } :=
            Build.focused_ending hrun
    refine (Build.bind_ok rfl).trans ?_
    cases hres : (project.outcome resolved).result with
    | ok value =>
        rw [hres] at hfocused
        exact (Build.bind_ok hfocused).trans rfl
    | error failure =>
        rw [hres] at hfocused
        exact Build.bind_error hfocused
  · obtain ⟨ids, hnode, hshows⟩ := hgrow.tree.grown _ hroot
    exact BuildTree.shows_single (Nat.zero_le 0) hnode rfl hshows

/-- A build, step by step: registering, the namespace, the bases, and then
the plan of the components. -/
theorem build_eq (project : Project) (components : List Component) :
    project.build components
      = match Registry.empty.registerAll components with
        | .error defect => .error (.defect defect)
        | .ok registry =>
          if !Name.isValidNamespace project.space then
            .error (.step s!"project \"{project.name}\""
              (.defect (.invalidNamespace project.space)))
          else
            match resolveAll registry (registry.componentsOf project.space) with
            | .error failure =>
              .error (.step s!"project \"{project.name}\"" failure)
            | .ok resolved =>
              match (project.outcome resolved).result with
              | .error failure =>
                .error (.step s!"project \"{project.name}\"" failure)
              | .ok _ =>
                .ok (project.packOf
                  (project.outcome resolved).written.below) := by
  show (Session.registerAndBuild .empty project components).1 = _
  unfold Session.registerAndBuild Registry.registerAll Registry.Step.outcome
  cases Registry.Step.registerAll components Registry.empty with
  | error defect registry => rfl
  | ok _ registry =>
      show project.buildRegistered registry = _
      unfold buildRegistered buildUnlabelled
      dsimp only
      by_cases hvalid : Name.isValidNamespace project.space = true
      · simp only [hvalid, Bool.not_true, Bool.false_eq_true, if_false]
        cases resolveAll registry (registry.componentsOf project.space) with
        | error failure => rfl
        | ok resolved =>
            -- from here on the tree is the one that shows what was planned
            obtain ⟨state, hrun, hshows⟩ := project.buildTree_runs resolved
            simp only [bind, Except.bind, pure, Except.pure]
            rw [hrun]
            cases (project.outcome resolved).result with
            | error failure => rfl
            | ok value =>
                simp only [project.collect_eq hshows]
      · simp only [hvalid]
        rfl

end Project

end Datapack
