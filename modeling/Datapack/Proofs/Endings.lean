/-
What loading a project, building it and writing its pack end with.

A project that was loaded is one that manifests describe, so everything
that holds of those holds of it. Where loading or writing ends in an error,
that is about files and has one of a few codes. The build of a loaded
project ends in a defect of the project under the labels of steps: its
methods are statements, and none of them has a code of its own to fail
with. So the codes of all problems that the program reports are known
(`Cli.codes`).
-/
import Datapack.Proofs.Causes
import Datapack.Proofs.CommandLine
import Datapack.Proofs.Failures
import Datapack.Proofs.Interrupted

namespace Datapack

-- ================================================================ endings

/-- Whatever files there are, the computation ends in a value of the one
kind or an error of the other. -/
def Ends {ε α : Type} (value : α → Prop) (error : ε → Prop)
    (step : ExceptT ε (StateM FileTree) α) : Prop :=
  ∀ tree, match (step.run.run tree).1 with
    | .ok result => value result
    | .error reason => error reason

namespace Ends

variable {ε α β : Type} {value : α → Prop} {other : β → Prop} {error : ε → Prop}

private theorem pure {result : α} (h : value result) :
    Ends value error (Pure.pure result : ExceptT ε (StateM FileTree) α) :=
  fun _ => h

private theorem throw {reason : ε} (h : error reason) :
    Ends value error
      (MonadExcept.throw reason : ExceptT ε (StateM FileTree) α) := fun _ => h

private theorem lift (action : StateM FileTree α) :
    Ends (fun _ => True) error (liftM action : ExceptT ε (StateM FileTree) α) :=
  fun _ => trivial

/-- Two computations in a row: the second may use what is known of the
value of the first. -/
private theorem andThen {step : ExceptT ε (StateM FileTree) α}
    {next : α → ExceptT ε (StateM FileTree) β} (h : Ends value error step)
    (hnext : ∀ result, value result → Ends other error (next result)) :
    Ends other error (step >>= next) := by
  intro tree
  have hstep := h tree
  rcases hrun : step.run.run tree with ⟨outcome, after⟩
  rw [hrun] at hstep
  cases outcome with
  | error reason =>
      rw [Cli.run_bind_error hrun]
      exact hstep
  | ok result =>
      rw [Cli.run_bind_ok hrun]
      exact hnext result hstep after

/-- What is known of the value that a computation ended with. -/
theorem of_ok {step : ExceptT ε (StateM FileTree) α} (h : Ends value error step)
    {tree tree' : FileTree} {result : α}
    (hrun : step.run.run tree = (.ok result, tree')) :
    value result := by
  have hstep := h tree
  rwa [hrun] at hstep

/-- What is known of the error that a computation ended with. -/
private theorem of_error {step : ExceptT ε (StateM FileTree) α}
    (h : Ends value error step) {tree tree' : FileTree} {reason : ε}
    (hrun : step.run.run tree = (.error reason, tree')) :
    error reason := by
  have hstep := h tree
  rwa [hrun] at hstep

end Ends

-- ================================================================ loading

namespace LoadedProject

/-- The project is one that manifests describe. -/
def Described (loaded : LoadedProject) : Prop :=
  ∃ (manifest : ProjectManifest) (files : List (String × ComponentManifest)),
    loaded.project = manifest.toProject
      ∧ loaded.components = manifest.components files

/-- Listing the component files can fail for the files only. -/
private theorem ends_componentFiles (directory : Path) :
    Ends (fun _ => True) ProjectError.AtFiles
      (componentFiles (m := StateM FileTree) directory) := by
  unfold componentFiles
  refine (Ends.lift _).andThen fun present _ => ?_
  split
  · refine (Ends.lift _).andThen fun files _ => ?_
    split
    · exact .throw trivial
    · exact .pure trivial
  · exact .pure trivial

variable [JsonDiagnosis]

/-- Reading a manifest can fail for the files only. -/
private theorem ends_readJson {α : Type} (look? : Json → Option α)
    (path : Path) :
    Ends (fun _ => True) ProjectError.AtFiles
      (readJson (m := StateM FileTree) look? path) := by
  unfold readJson
  refine (Ends.lift _).andThen fun content _ => ?_
  split
  · exact .throw trivial
  · split
    · exact .throw trivial
    · split
      · exact .throw trivial
      · exact .pure trivial

/-- A component that was read is the one a manifest describes, named after
its file. -/
private theorem ends_readComponent (space : String) (path : Path)
    (name : FileName) :
    Ends (fun component => ∃ (manifest : ComponentManifest) (stem : String),
        component = manifest.toComponent space stem) ProjectError.AtFiles
      (readComponent (m := StateM FileTree) space path name) := by
  unfold readComponent
  refine (ends_readJson _ path).andThen fun manifest _ => ?_
  split
  · exact .throw trivial
  · exact .pure ⟨manifest, _, rfl⟩

private theorem ends_readComponents (space : String)
    (paths : List (Path × FileName)) :
    Ends (fun components => ∃ files : List (String × ComponentManifest),
        components = files.map fun file => file.2.toComponent space file.1)
        ProjectError.AtFiles
      (readComponents (m := StateM FileTree) space paths) := by
  induction paths with
  | nil => exact .pure ⟨[], rfl⟩
  | cons file rest ih =>
      refine (ends_readComponent space file.1 file.2).andThen
        fun component hcomponent => ?_
      refine ih.andThen fun components hcomponents => ?_
      obtain ⟨manifest, stem, rfl⟩ := hcomponent
      obtain ⟨files, rfl⟩ := hcomponents
      exact .pure ⟨(stem, manifest) :: files, rfl⟩

/-- A project that was loaded is one that manifests describe, and loading
can fail for the files only. -/
theorem ends_load (directory : Path) :
    Ends Described ProjectError.AtFiles
      (load (m := StateM FileTree) directory) := by
  unfold load
  refine (Ends.lift _).andThen fun present _ => ?_
  split
  · refine (ends_readJson _ _).andThen fun manifest _ => ?_
    refine (ends_componentFiles _).andThen fun paths _ => ?_
    refine (ends_readComponents _ paths).andThen
      fun components hcomponents => ?_
    obtain ⟨files, rfl⟩ := hcomponents
    exact .pure ⟨manifest, files, rfl, rfl⟩
  · exact .throw trivial

end LoadedProject

-- ================================================================== codes

/-- A walk up the bases fails for a defect in the project. -/
private theorem BaseWalk.code_mem {components : List Component}
    {walked : List String} {component : Component}
    {result : Except Defect (List Component)}
    (h : BaseWalk components walked component result) {defect : Defect}
    (hresult : result = .error defect) : defect.code ∈ Defect.projectCodes := by
  induction h with
  | root => cases hresult
  | missing =>
      cases hresult
      show "BASE_COMPONENT_NOT_FOUND" ∈ Defect.projectCodes
      decide
  | cycle =>
      cases hresult
      show "INHERITANCE_CYCLE" ∈ Defect.projectCodes
      decide
  | climb => cases hresult
  | stop _ _ _ _ ih =>
      cases hresult
      exact ih rfl

/-- The first failure of a build is a defect of the project under labels. -/
theorem Project.FirstFailure.defect {project : Project}
    {components : List Component} {failure : Failure}
    (h : project.FirstFailure components failure) :
    ∃ labels defect, failure = .under labels (.defect defect)
      ∧ defect.code ∈ Defect.projectCodes := by
  cases h with
  | unprepared hunprepared =>
      cases hunprepared with
      | registration _ _ hdefect => exact ⟨[], _, rfl, hdefect.code_mem⟩
      | space =>
          exact ⟨[_], _, rfl,
            show "NAMESPACE_INVALID" ∈ Defect.projectCodes by decide⟩
      | bases _ _ _ _ _ hwalk => exact ⟨[_, _], _, rfl, hwalk.code_mem rfl⟩
  | body _ hfailure =>
      cases hfailure with
      | leaf _ _ _ _ _ hdefect =>
          exact ⟨[_, _, _], _, rfl, Statement.code_of_command hdefect⟩

/-- The innermost cause of a failure under labels is its defect. -/
private theorem Failure.innermost?_under (label : String) (labels : List String)
    (defect : Defect) :
    (under (label :: labels) (.defect defect)).innermost?
      = some (.defect defect) := by
  induction labels generalizing label with
  | nil => rfl
  | cons next rest ih =>
      show ((under (next :: rest) (.defect defect)).innermost?.or _) = _
      rw [ih]
      rfl

/-- The report on a defect has the code of the defect, whatever steps it
went through. -/
theorem Report.code_under (labels : List String) (defect : Defect) :
    (ofFailure (.under labels (.defect defect))).code = defect.code := by
  unfold ofFailure
  cases labels with
  | nil => rfl
  | cons label rest =>
      rw [Failure.innermost?_under]
      rfl

namespace Cli

/-- The codes of the problems that the program reports. -/
def codes : List String :=
  Defect.projectCodes
    ++ ["IO_ERROR", "JSON_INVALID", "MANIFEST_INVALID", "PROJECT_NOT_FOUND",
      "PACK_EXISTS"]

/-- An error about files has a code that is known. -/
theorem code_mem_of_atFiles {error : ProjectError} (h : error.AtFiles) :
    error.report.code ∈ codes := by
  cases error with
  | build failure => exact h.elim
  | access path fault =>
      show "IO_ERROR" ∈ codes
      decide
  | json path message =>
      show "JSON_INVALID" ∈ codes
      decide
  | manifest path message =>
      show "MANIFEST_INVALID" ∈ codes
      decide
  | noProject path =>
      show "PROJECT_NOT_FOUND" ∈ codes
      decide
  | packExists path =>
      show "PACK_EXISTS" ∈ codes
      decide

/-- The failure of a build has a code that is known. -/
private theorem code_mem_of_build {loaded : LoadedProject}
    (hdescribed : loaded.Described) {failure : Failure}
    (h : loaded.project.build loaded.components = .error failure) :
    (ProjectError.build failure).report.code ∈ codes := by
  obtain ⟨manifest, files, hproject, hcomponents⟩ := hdescribed
  rw [hproject, hcomponents] at h
  have hfirst := Project.firstFailure_of_build
    (fun component hmem => (manifest.described files component hmem).bodies)
    (manifest.space_components files) h
  obtain ⟨labels, defect, rfl, hcode⟩ := hfirst.defect
  show (Report.ofFailure _).code ∈ codes
  rw [Report.code_under]
  exact List.mem_append_left _ hcode

-- =============================================================== commands

/-- The directory of the project. -/
def Mode.directory : Mode → Path
  | .check directory => .ofString directory
  | .build directory .. => .ofString directory

variable [JsonDiagnosis]

/-- The command that a mode stands for. -/
def Mode.command : Mode → ExceptT Problem (StateM FileTree) (List String)
  | .check directory => Cli.check (.ofString directory)
  | .build directory output overwrite =>
    Cli.build (.ofString directory) (.ofString output) overwrite

/-- The program runs the command that its arguments stand for and prints
the report on it. -/
theorem run_command {arguments : List String} {mode : Mode}
    (h : Request.ofArguments arguments = .run mode) {tree tree' : FileTree}
    {outcome : Except Problem (List String)}
    (hrun : mode.command.run.run tree = (outcome, tree')) :
    (run (m := StateM FileTree) arguments).run tree = (.of outcome, tree') := by
  unfold run
  rw [h]
  cases mode with
  | check directory =>
      have hcheck :
          (check (m := StateM FileTree) (.ofString directory)).run.run tree
            = (outcome, tree') := hrun
      dsimp only
      rw [StateT.run_bind, hcheck]
      rfl
  | build directory output overwrite =>
      have hbuild :
          (build (m := StateM FileTree) (.ofString directory) (.ofString output)
            overwrite).run.run tree = (outcome, tree') := hrun
      dsimp only
      rw [StateT.run_bind, hbuild]
      rfl

/-- Where loading and building come to a pack, `build` ends as writing the
pack does. -/
theorem run_build_of_toDirectory {directory : Path} {tree : FileTree}
    {project : Project} {pack : Pack}
    (h : (loadAndBuild (m := StateM FileTree) directory).run.run tree
      = (.ok (project, pack), tree)) {output : Path} {overwrite : Bool}
      {tree' : FileTree}
    {written : Except ProjectError Nat}
    (hwritten : (pack.toDirectory (m := StateM FileTree)
      (output.join (.ofString project.name)) overwrite).run.run tree
      = (written, tree')) :
    (build (m := StateM FileTree) directory output overwrite).run.run tree
      = (match written with
        | .error error => .error
            ⟨s!"Failed to write pack to {(output.join (.ofString project.name)).display}", error⟩
        | .ok files => .ok (["RESULT:OK",
            s!"PACK_JSON:{Json.quoted (output.join (.ofString project.name)).display}",
            s!"FILES:{files}"] ++ sizeLines pack), tree') := by
  unfold build
  rw [run_bind_ok h]
  cases written with
  | error error => exact run_bind_error (run_during hwritten)
  | ok files => exact run_bind_ok (run_during hwritten)

/-- A command ends in a problem of a known code and leaves all files as they
are, or it comes to a pack. -/
theorem command_cases (mode : Mode) (tree : FileTree) :
    (∃ problem, mode.command.run.run tree = (.error problem, tree)
        ∧ problem.error.report.code ∈ codes)
      ∨ ∃ loaded pack,
        (LoadedProject.load (m := StateM FileTree) mode.directory).run.run tree
            = (.ok loaded, tree)
          ∧ loaded.project.build loaded.components = .ok pack
          ∧ (loadAndBuild (m := StateM FileTree) mode.directory).run.run tree
            = (.ok (loaded.project, pack), tree) := by
  have hstops : ∀ {problem : Problem},
      (loadAndBuild (m := StateM FileTree) mode.directory).run.run tree
        = (.error problem, tree) →
      mode.command.run.run tree = (.error problem, tree) := by
    intro problem hrun
    cases mode with
    | check directory => exact run_bind_error hrun
    | build directory output overwrite => exact run_bind_error hrun
  have hload := LoadedProject.ends_load mode.directory
  rcases loadAndBuild_cases mode.directory tree with
    ⟨error, herror, hrun⟩
      | ⟨loaded, hok, ⟨failure, hbuild, hrun⟩ | ⟨pack, hbuild, hrun⟩⟩
  · exact .inl ⟨_, hstops hrun, code_mem_of_atFiles (hload.of_error herror)⟩
  · exact .inl ⟨_, hstops hrun, code_mem_of_build (hload.of_ok hok) hbuild⟩
  · exact .inr ⟨loaded, pack, hok, hbuild, hrun⟩

end Cli

end Datapack
