/-
What the commands of the command line leave of the files they work on.

Loading a project only looks at files, and so does building it. Both
commands start with these two, so where `check` finds a problem, `build`
ends with the same one and has not touched anything. Writing is where the
commands part. The first file of a pack makes the root ready, and a root
that must not be removed is noticed before anything is.
-/
import Datapack.Cli.Run
import Datapack.Proofs.Writing

namespace Datapack

-- ============================================================= observing

/-- A computation that looks at files and leaves them as they are. -/
def Observes {α : Type} (action : StateM FileTree α) : Prop :=
  ∀ tree, (action.run tree).2 = tree

namespace Observes

variable {ε α β : Type}

private theorem pure (value : α) : Observes (Pure.pure value) := fun _ => rfl

private theorem look (f : FileTree → α) :
    Observes (do return f (← get)) := fun _ => rfl

/-- Looking twice leaves the files as they are. -/
private theorem bind {action : StateM FileTree α} {next : α → StateM FileTree β}
    (h : Observes action) (hnext : ∀ value, Observes (next value)) :
    Observes (action >>= next) := by
  intro tree
  rw [StateT.run_bind]
  exact (hnext _ _).trans (h tree)

private theorem throw (error : ε) :
    Observes
      (ExceptT.run (MonadExcept.throw error : ExceptT ε (StateM FileTree) α)) :=
  fun _ => rfl

/-- The steps of a computation that can fail. -/
theorem andThen {step : ExceptT ε (StateM FileTree) α}
    {next : α → ExceptT ε (StateM FileTree) β} (h : Observes step.run)
    (hnext : ∀ value, Observes (next value).run) :
    Observes (step >>= next).run := by
  rw [ExceptT.run_bind]
  refine h.bind fun outcome => ?_
  cases outcome with
  | ok value => exact hnext value
  | error error => exact throw error

private theorem lift {action : StateM FileTree α} (h : Observes action) :
    Observes (ExceptT.run (liftM action : ExceptT ε (StateM FileTree) α)) :=
  h.bind fun _ => pure _

end Observes

-- ================================================================ loading

namespace LoadedProject

/-- Listing the component files changes no file. -/
private theorem observes_componentFiles (directory : Path) :
    Observes (componentFiles (m := StateM FileTree) directory).run := by
  unfold componentFiles
  refine (Observes.look _).lift.andThen fun present => ?_
  split
  · refine (Observes.look _).lift.andThen fun files => ?_
    split
    · exact .throw _
    · exact .pure _
  · exact .pure _

variable [JsonDiagnosis]

/-- Reading a manifest changes no file. -/
private theorem observes_readJson {α : Type} (look? : Json → Option α)
    (path : Path) :
    Observes (readJson (m := StateM FileTree) look? path).run := by
  unfold readJson
  refine (Observes.look _).lift.andThen fun content => ?_
  split
  · exact .throw _
  · split
    · exact .throw _
    · split
      · exact .throw _
      · exact .pure _

private theorem observes_readComponent (space : String) (path : Path)
    (name : FileName) :
    Observes (readComponent (m := StateM FileTree) space path name).run := by
  unfold readComponent
  refine (observes_readJson _ path).andThen fun manifest => ?_
  split
  · exact .throw _
  · exact .pure _

/-- Reading the components one by one changes no file. -/
private theorem observes_readComponents (space : String) :
    ∀ files : List (Path × FileName),
      Observes (readComponents (m := StateM FileTree) space files).run
  | [] => .pure _
  | (path, name) :: rest =>
      (observes_readComponent space path name).andThen fun _ =>
        (observes_readComponents space rest).andThen fun _ => .pure _

/-- Loading a project changes no file. -/
private theorem observes_load (directory : Path) :
    Observes (load (m := StateM FileTree) directory).run := by
  unfold load
  refine (Observes.look _).lift.andThen fun present => ?_
  split
  · exact (observes_readJson _ _).andThen fun _ =>
      (observes_componentFiles _).andThen fun _ =>
      (observes_readComponents _ _).andThen fun _ => .pure _
  · exact .throw _

end LoadedProject

-- =============================================================== commands

namespace Cli

section

variable {ε α β : Type} {step : ExceptT ε (StateM FileTree) α}
  {next : α → ExceptT ε (StateM FileTree) β} {tree tree' : FileTree}

/-- A step that succeeds hands its value and its tree to the next. -/
theorem run_bind_ok {value : α} (h : step.run.run tree = (.ok value, tree')) :
    (step >>= next).run.run tree = (next value).run.run tree' := by
  rw [ExceptT.run_bind, StateT.run_bind, h]
  rfl

/-- After a step that fails nothing is done. -/
theorem run_bind_error {error : ε}
    (h : step.run.run tree = (.error error, tree')) :
    (step >>= next).run.run tree = (.error error, tree') := by
  rw [ExceptT.run_bind, StateT.run_bind, h]
  rfl

end

section

variable {α : Type} {activity : String}
  {step : ExceptT ProjectError (StateM FileTree) α} {tree tree' : FileTree}

/-- Naming the activity changes the error and nothing else. -/
theorem run_during {outcome : Except ProjectError α}
    (h : step.run.run tree = (outcome, tree')) :
    (during activity step).run.run tree
      = (outcome.mapError
        fun error => { activity := activity, error := error }, tree') := by
  have hlift :
      (ExceptT.run (liftM step.run : ExceptT Problem (StateM FileTree) _)).run
        tree
      = (.ok (step.run.run tree).1, (step.run.run tree).2) := rfl
  unfold during
  rw [h] at hlift
  rw [run_bind_ok hlift]
  cases outcome <;> rfl

end

section

variable [JsonDiagnosis]

/-- Loading and building only look at files. Either may end in a problem,
and what was built was loaded. -/
theorem loadAndBuild_cases (directory : Path) (tree : FileTree) :
    (∃ error, (LoadedProject.load (m := StateM FileTree) directory).run.run tree
          = (.error error, tree)
        ∧ (loadAndBuild (m := StateM FileTree) directory).run.run tree
          = (.error ⟨s!"Failed to load project from {directory.display}",
            error⟩, tree))
      ∨ ∃ loaded,
        (LoadedProject.load (m := StateM FileTree) directory).run.run tree
            = (.ok loaded, tree)
          ∧ ((∃ failure, loaded.project.build loaded.components = .error failure
                ∧ (loadAndBuild (m := StateM FileTree) directory).run.run tree
                  = (.error
                    ⟨s!"Failed to build project \"{loaded.project.name}\"",
                      .build failure⟩, tree))
            ∨ ∃ pack, loaded.project.build loaded.components = .ok pack
                ∧ (loadAndBuild (m := StateM FileTree) directory).run.run tree
                  = (.ok (loaded.project, pack), tree)) := by
  rcases hload : (LoadedProject.load (m := StateM FileTree) directory).run.run
    tree with
    ⟨outcome, after⟩
  obtain rfl : after = tree := by
    have hobserves := LoadedProject.observes_load directory tree
    rwa [hload] at hobserves
  cases outcome with
  | error error => exact .inl ⟨error, rfl, run_bind_error (run_during hload)⟩
  | ok loaded =>
      refine .inr ⟨loaded, rfl, ?_⟩
      unfold loadAndBuild
      rw [run_bind_ok (run_during hload)]
      cases loaded.project.build loaded.components with
      | error failure => exact .inl ⟨failure, rfl, rfl⟩
      | ok pack => exact .inr ⟨pack, rfl, rfl⟩

/-- Loading and building ends in a problem or with a pack, and the tree is
what it was. -/
private theorem run_loadAndBuild (directory : Path) (tree : FileTree) :
    (∃ problem, (loadAndBuild (m := StateM FileTree) directory).run.run tree
        = (.error problem, tree))
      ∨ ∃ loaded pack,
        (LoadedProject.load (m := StateM FileTree) directory).run.run tree
            = (.ok loaded, tree)
          ∧ (loadAndBuild (m := StateM FileTree) directory).run.run tree
            = (.ok (loaded.project, pack), tree) := by
  rcases loadAndBuild_cases directory tree with
    ⟨error, -, hrun⟩ | ⟨loaded, hload, ⟨failure, -, hrun⟩ | ⟨pack, -, hrun⟩⟩
  · exact .inl ⟨_, hrun⟩
  · exact .inl ⟨_, hrun⟩
  · exact .inr ⟨loaded, pack, hload, hrun⟩

/-- A problem with the project is one for both commands. -/
theorem run_of_problem {directory : Path} {tree : FileTree} {problem : Problem}
    (h : (loadAndBuild (m := StateM FileTree) directory).run.run tree
      = (.error problem, tree))
    (output : Path) (overwrite : Bool) :
    (check (m := StateM FileTree) directory).run.run tree
      = (.error problem, tree)
      ∧ (build (m := StateM FileTree) directory output overwrite).run.run tree
        = (.error problem, tree) :=
  ⟨run_bind_error h, run_bind_error h⟩

/-- A project that is loaded and built is checked without a problem. -/
private theorem run_check {directory : Path} {tree : FileTree}
    {project : Project} {pack : Pack}
    (h : (loadAndBuild (m := StateM FileTree) directory).run.run tree
      = (.ok (project, pack), tree)) :
    ∃ lines, (check (m := StateM FileTree) directory).run.run tree
      = (.ok lines, tree) := by
  unfold check
  rw [run_bind_ok h]
  exact ⟨_, rfl⟩

/-- A pack that must not be removed ends a build before it writes anything. -/
theorem run_build_of_present {directory output : Path} {tree : FileTree}
    {project : Project} {pack : Pack}
    (h : (loadAndBuild (m := StateM FileTree) directory).run.run tree
      = (.ok (project, pack), tree))
    (hpresent : tree.contains (output.join (.ofString project.name)) = true) :
    ∃ activity,
      (build (m := StateM FileTree) directory output false).run.run tree
      = (.error ⟨activity, .packExists (output.join (.ofString project.name))⟩,
        tree) := by
  unfold build
  rw [run_bind_ok h]
  exact ⟨_, run_bind_error (run_during (pack.toDirectory_of_present hpresent))⟩

/-- To check a project changes no file. To build it ends in the same way and
changes no file either, if there is a problem with the project. If there is
none, but the pack is there already and must not be removed, the build ends
with that, and again no file has changed. A path is there if something is
found by following it, links included; a link that leads nowhere is not. -/
theorem failed_build_writes_nothing {checking building : List String}
    {directory output : String} {overwrite : Bool}
    (hcheck : Request.ofArguments checking = .run (.check directory))
    (hbuild : Request.ofArguments building
      = .run (.build directory output overwrite))
    (tree : FileTree) :
    ∃ checked : Outcome,
      (run (m := StateM FileTree) checking).run tree = (checked, tree)
      ∧ (checked.code = 0 ∨ checked.code = 1)
      ∧ (checked.code = 1 →
        (run (m := StateM FileTree) building).run tree = (checked, tree))
      ∧ (checked.code = 0 → ∃ loaded : LoadedProject,
          (LoadedProject.load (m := StateM FileTree)
            (.ofString directory)).run.run tree
            = (.ok loaded, tree)
          ∧ (overwrite = false →
              tree.contains
                ((Path.ofString output).join (.ofString loaded.project.name))
                = true →
              ∃ details, (run (m := StateM FileTree) building).run tree
                = ({ code := 1, stdout := printed
                      ("RESULT:ERROR" :: "ERROR_CODE:PACK_EXISTS" :: details) },
                      tree))) := by
  have hrunCheck : ∀ {outcome after},
      (check (m := StateM FileTree) (.ofString directory)).run.run tree
        = (outcome, after) →
      (run (m := StateM FileTree) checking).run tree
        = (.of outcome, after) := by
    intro outcome after h
    unfold run
    rw [hcheck]
    dsimp only
    rw [StateT.run_bind, h]
    rfl
  have hrunBuild : ∀ {outcome after},
      (build (m := StateM FileTree) (.ofString directory) (.ofString output)
        overwrite).run.run tree = (outcome, after) →
      (run (m := StateM FileTree) building).run tree
        = (.of outcome, after) := by
    intro outcome after h
    unfold run
    rw [hbuild]
    dsimp only
    rw [StateT.run_bind, h]
    rfl
  -- both commands start by loading and building, so they part only where that
  -- ends well
  rcases run_loadAndBuild (.ofString directory) tree with ⟨problem, hproblem⟩
    | ⟨loaded, pack, hload, hloaded⟩
  · obtain ⟨hchecked, hbuilt⟩ :=
      run_of_problem hproblem (.ofString output) overwrite
    refine ⟨_, hrunCheck hchecked, .inr rfl, fun _ => hrunBuild hbuilt,
      fun hcode => ?_⟩
    cases hcode
  · obtain ⟨lines, hchecked⟩ := run_check hloaded
    refine ⟨_, hrunCheck hchecked, .inl rfl, fun hcode => ?_, fun _ => ?_⟩
    · cases hcode
    · refine ⟨loaded, hload, fun hoverwrite hpresent => ?_⟩
      subst hoverwrite
      obtain ⟨activity, hbuilt⟩ := run_build_of_present hloaded hpresent
      exact ⟨_, hrunBuild hbuilt⟩

end

namespace Shelf

/-- A project without components, and its pack. -/
def tree : FileTree where
  entries :=
    [([Text.encode "demo"], .directory),
     ([Text.encode "demo", Text.encode "project.json"],
       .file (Text.encode "[\"D\",\"d\"]")),
     ([Text.encode "packs"], .directory),
     ([Text.encode "packs", Text.encode "D"], .directory)]

def checking : List String := ["check", "--project-dir", "demo"]

def building : List String :=
  ["build", "--project-dir", "demo", "--output-dir", "packs"]

end Shelf

/-- The pack of the project stays as it is. -/
theorem shelf_kept :
    ((run (m := StateM FileTree) Shelf.checking).run Shelf.tree).1.code = 0
      ∧ ∃ details, (run (m := StateM FileTree) Shelf.building).run Shelf.tree
        = ({ code := 1, stdout := printed
              ("RESULT:ERROR" :: "ERROR_CODE:PACK_EXISTS" :: details) },
              Shelf.tree) := by
  obtain ⟨checked, hchecked, -, -, hbuilt⟩ := failed_build_writes_nothing
    (show Request.ofArguments Shelf.checking = .run (.check "demo") by
      decide +kernel)
    (show Request.ofArguments Shelf.building
      = .run (.build "demo" "packs" false) by
      decide +kernel) Shelf.tree
  have hcode :
      ((run (m := StateM FileTree) Shelf.checking).run Shelf.tree).1.code
        = 0 := by
    decide +kernel
  have hname :
      ((LoadedProject.load (m := StateM FileTree) (.ofString "demo")).run.run
        Shelf.tree).1.toOption.map (fun loaded => loaded.project.name)
        = some "D" := by
    decide +kernel
  refine ⟨hcode, ?_⟩
  rw [hchecked] at hcode
  obtain ⟨loaded, hload, hexists⟩ := hbuilt hcode
  rw [hload] at hname
  have hname : loaded.project.name = "D" := Option.some.inj hname
  refine hexists rfl ?_
  rw [hname]
  decide +kernel

end Cli

end Datapack
