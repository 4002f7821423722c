/-
What the program prints, read line by line.

Every line that is printed ends with a line feed. Divided there, the output
is the lines again, as long as none of them has a line feed inside. Most
cannot: codes are few and known, sizes are digits, and texts that may hold
anything are quoted, which turns a line feed into two other characters and
can be undone.

Locations are printed as they are. Those of functions are made of names and
stay on their lines, and so do those of callbacks. The tags that methods
declare may have any characters, so what `check` prints can be read line by
line exactly when no declared tag has a line feed.
-/
import Datapack.Proofs.Artifacts
import Datapack.Proofs.Endings
import Datapack.Proofs.Printed

namespace Datapack

-- ================================================================== lines

namespace Text

/-- The lines of a text: what stands before, between and behind its line
feeds. -/
def linesOf (text : String) : List String :=
  (text.toList.splitOn '\n').map String.ofList

/-- What a text is divided at is in none of its parts. -/
theorem notMem_of_mem_splitOn {c : Char} {text part : List Char}
    (h : part ∈ text.splitOn c) :
    c ∉ part := by
  rw [List.splitOn_eq_splitOnP] at h
  induction text generalizing part with
  | nil =>
      rw [List.splitOnP_nil, List.mem_singleton] at h
      rw [h]
      exact List.not_mem_nil
  | cons first rest ih =>
      rw [List.splitOnP_cons_eq_if_modifyHead] at h
      obtain ⟨head, tail, hparts⟩ :=
        List.exists_cons_of_ne_nil (List.splitOnP_ne_nil (· == c) rest)
      rw [hparts] at h ih
      by_cases hfirst : first = c
      · rw [if_pos (beq_iff_eq.2 hfirst)] at h
        rcases List.mem_cons.1 h with rfl | hmem
        · exact List.not_mem_nil
        · exact ih hmem
      · rw [if_neg (by simpa using hfirst), List.modifyHead_cons] at h
        rcases List.mem_cons.1 h with rfl | hmem
        · rw [List.mem_cons, not_or]
          exact ⟨Ne.symm hfirst, ih List.mem_cons_self⟩
        · exact ih (List.mem_cons_of_mem head hmem)

end Text

namespace Cli

/-- What is printed, as lines between line feeds and an empty one at
the end. -/
private theorem toList_printed (lines : List String) :
    (printed lines).toList
      = ['\n'].intercalate (lines.map String.toList ++ [[]]) := by
  unfold printed
  rw [String.toList_join, List.flatMap_map]
  induction lines with
  | nil => rfl
  | cons line rest ih =>
      rw [List.flatMap_cons, ih]
      obtain ⟨next, others, hrest⟩ : ∃ next others,
        rest.map String.toList ++ [[]] = next :: others :=
        List.exists_cons_of_ne_nil
          (List.append_ne_nil_of_right_ne_nil _ (List.cons_ne_nil _ _))
      rw [List.map_cons, List.cons_append, hrest, List.intercalate_cons_cons]
      simp [toString, String.toList_append]

/-- Printed lines are read back, if and only if each is one line. -/
theorem linesOf_printed_iff {lines : List String} :
    Text.linesOf (printed lines) = lines ++ [""]
      ↔ ∀ line ∈ lines, '\n' ∉ line.toList := by
  unfold Text.linesOf
  rw [toList_printed]
  constructor
  · intro hlines line hmem
    have hpart : line ∈ (List.splitOn '\n' (['\n'].intercalate
        (lines.map String.toList ++ [[]]))).map String.ofList := by
      rw [hlines]
      exact List.mem_append_left _ hmem
    obtain ⟨part, hsplit, rfl⟩ := List.mem_map.1 hpart
    rw [String.toList_ofList]
    exact Text.notMem_of_mem_splitOn hsplit
  · intro hlines
    have hparts : ∀ part ∈ lines.map String.toList ++ [[]], '\n' ∉ part := by
      intro part hpart
      rcases List.mem_append.1 hpart with hline | hempty
      · obtain ⟨line, hmem, rfl⟩ := List.mem_map.1 hline
        exact hlines line hmem
      · rw [List.mem_singleton.1 hempty]
        exact List.not_mem_nil
    rw [List.splitOn_intercalate '\n' hparts
      (List.append_ne_nil_of_right_ne_nil _ (List.cons_ne_nil _ _)),
      List.map_append, List.map_map]
    simp [Function.comp_def]

end Cli

-- ================================================================== texts

namespace Json

/-- A quoted text has no line feed. -/
private theorem lineFeed_notMem_quoted (text : String) :
    '\n' ∉ (quoted text).toList := by
  unfold quoted
  rw [String.toList_ofList]
  exact fun h => absurd (le_of_mem_quote h) (by decide)

/-- A quoted text is a JSON string that stands for the text. -/
theorem decode?_quoted (text : String) :
    decode? asString? (quoted text) = some text := by
  unfold decode? quoted
  rw [String.toList_ofList]
  have hread : read (chars (.string (some text)))
      = some (.string (some text)) :=
    (Verbal.string text).read_chars
  show (read (quote text.toList)).bind asString? = some text
  rw [show quote text.toList = chars (.string (some text)) from rfl, hread]
  rfl

end Json

namespace Cli

/-- A number has no line feed. -/
private theorem lineFeed_notMem_number (n : Nat) :
    '\n' ∉ (toString n).toList := by
  intro hmem
  have hdigits : (toString n).toList = Nat.toDigits 10 n := by
    show (Nat.repr n).toList = _
    rw [Nat.repr, String.toList_ofList]
  rw [hdigits] at hmem
  exact absurd (Nat.isDigit_of_mem_toDigits
    (by decide) (by decide) hmem) (by decide)

/-- None of the codes has a line feed. -/
private theorem lineFeed_notMem_code {code : String} (h : code ∈ codes) :
    '\n' ∉ code.toList := by
  have hall : ∀ code ∈ codes, '\n' ∉ code.toList := by decide +kernel
  exact hall code h

private theorem lineFeed_notMem_append {label text : String}
    (hlabel : '\n' ∉ label.toList) (htext : '\n' ∉ text.toList) :
    '\n' ∉ (label ++ text).toList := by
  rw [String.toList_append, List.mem_append, not_or]
  exact ⟨hlabel, htext⟩

-- ============================================================ transcripts

/-- The line is the label and a JSON string that stands for the text. -/
def Carries (label text line : String) : Prop :=
  ∃ payload,
    line = label ++ payload ∧ Json.decode? Json.asString? payload = some text

/-- The lines on a problem. -/
inductive ProblemTranscript (problem : Problem) : List String → Prop
  | lines {message headline : String} {causes : List String} :
      Carries "ERROR_MSG_JSON:" problem.activity message →
      Carries "REPORT_JSON:" problem.error.report.headline headline →
      List.Forall₂ (Carries "CAUSE_JSON:") problem.error.report.causes causes →
      ProblemTranscript problem
        (["RESULT:ERROR", "ERROR_CODE:" ++ problem.error.report.code, message,
          headline] ++ causes)

/-- The lines on a pack that was written. -/
inductive WriteTranscript (root : Path) (pack : Pack) : List String → Prop
  | lines {place : String} : Carries "PACK_JSON:" root.display place →
      WriteTranscript root pack
        ["RESULT:OK", place,
          s!"FILES:{pack.functions.length + pack.tags.length + 1}",
          s!"FUNCTIONS:{pack.functions.length}", s!"TAGS:{pack.tags.length}"]

/-- The lines on a pack that was not written: one for each function and then
for each tag, and their numbers. -/
def checkTranscript (pack : Pack) : List String :=
  ["RESULT:OK"]
    ++ pack.functions.map (fun function => "ARTIFACT:" ++ function.location)
    ++ pack.tags.map (fun tag => "ARTIFACT:" ++ tag.location)
    ++ [s!"FUNCTIONS:{pack.functions.length}", s!"TAGS:{pack.tags.length}"]

/-- A label in front of a quoted text carries the text. -/
private theorem carries_quoted (label text : String) :
    Carries label text (label ++ Json.quoted text) :=
  ⟨Json.quoted text, rfl, Json.decode?_quoted text⟩

/-- What is printed on a problem of a known code is read back as the lines
on it. -/
theorem linesOf_problemLines {problem : Problem}
    (hcode : problem.error.report.code ∈ codes) :
    ∃ lines, ProblemTranscript problem lines
      ∧ Text.linesOf (printed (problemLines problem)) = lines ++ [""] := by
  have hcauses : List.Forall₂ (Carries "CAUSE_JSON:")
      problem.error.report.causes
      (problem.error.report.causes.map
        fun cause => "CAUSE_JSON:" ++ Json.quoted cause) := by
    rw [List.forall₂_map_right_iff, List.forall₂_same]
    exact fun cause _ => carries_quoted _ cause
  have hquoted : ∀ label text : String, '\n' ∉ label.toList →
      '\n' ∉ (label ++ Json.quoted text).toList := fun label text hlabel =>
    lineFeed_notMem_append hlabel (Json.lineFeed_notMem_quoted text)
  refine ⟨problemLines problem,
    .lines (carries_quoted _ _) (carries_quoted _ _) hcauses, ?_⟩
  rw [linesOf_printed_iff]
  intro line hline
  rcases List.mem_append.1 hline with hfirst | hcause
  · simp only [List.mem_cons, List.not_mem_nil, or_false] at hfirst
    rcases hfirst with rfl | rfl | rfl | rfl
    · decide
    · exact lineFeed_notMem_append (by decide) (lineFeed_notMem_code hcode)
    · exact hquoted _ _ (by decide)
    · exact hquoted _ _ (by decide)
  · obtain ⟨cause, -, rfl⟩ := List.mem_map.1 hcause
    exact hquoted _ _ (by decide)

/-- The lines on the size of a pack have no line feed inside. -/
private theorem lineFeed_notMem_sizeLines (pack : Pack) :
    ∀ line ∈ sizeLines pack, '\n' ∉ line.toList := by
  unfold sizeLines
  simp only [List.forall_mem_cons, List.not_mem_nil, false_implies,
    implies_true, and_true]
  exact ⟨lineFeed_notMem_append (by decide) (lineFeed_notMem_number _),
    lineFeed_notMem_append (by decide) (lineFeed_notMem_number _)⟩

/-- The lines on a pack that was checked are read back, if and only if all
locations stay on their lines. -/
theorem linesOf_checkTranscript_iff {pack : Pack} :
    Text.linesOf (printed (checkTranscript pack)) = checkTranscript pack ++ [""]
      ↔ (∀ function ∈ pack.functions, '\n' ∉ function.location.toList)
        ∧ ∀ tag ∈ pack.tags, '\n' ∉ tag.location.toList := by
  have hartifact : ∀ location : String,
      '\n' ∉ ("ARTIFACT:" ++ location).toList ↔ '\n' ∉ location.toList := by
    intro location
    rw [String.toList_append, List.mem_append, not_or]
    exact and_iff_right (by decide)
  rw [linesOf_printed_iff]
  unfold checkTranscript
  simp only [List.forall_mem_append, List.forall_mem_map, hartifact]
  constructor
  · rintro ⟨⟨⟨-, hfunctions⟩, htags⟩, -⟩
    exact ⟨hfunctions, htags⟩
  · rintro ⟨hfunctions, htags⟩
    exact ⟨⟨⟨by decide, hfunctions⟩, htags⟩, lineFeed_notMem_sizeLines pack⟩

end Cli

-- =================================================================== runs

/-- No method of the project declares a tag with a line feed. -/
def LoadedProject.TagsOnLines (loaded : LoadedProject) : Prop :=
  ∀ component ∈ loaded.components,
    ∀ method ∈ component.methods, ∀ tag ∈ method.tags.keys, '\n' ∉ tag.toList

instance (loaded : LoadedProject) : Decidable loaded.TagsOnLines :=
  inferInstanceAs
    (Decidable
      (∀ component ∈ loaded.components, ∀ method ∈ component.methods,
        ∀ tag ∈ method.tags.keys, '\n' ∉ tag.toList))

/-- The locations in a pack stay on their lines, if and only if the declared
tags do. -/
theorem LoadedProject.tagsOnLines_iff {loaded : LoadedProject}
    (hdescribed : loaded.Described) {pack : Pack}
    (h : loaded.project.build loaded.components = .ok pack) :
    loaded.TagsOnLines
      ↔ (∀ function ∈ pack.functions, '\n' ∉ function.location.toList)
      ∧ ∀ tag ∈ pack.tags, '\n' ∉ tag.location.toList := by
  obtain ⟨manifest, files, hproject, hcomponents⟩ := hdescribed
  unfold TagsOnLines
  rw [hproject, hcomponents] at h
  rw [hcomponents]
  obtain ⟨resolved, hbuilt⟩ := ProjectManifest.built_of_build h
  have hall := manifest.described files
  have hnamed : ∀ {location space : String} {path : List (List Char)},
      Location.Named location space path → '\n' ∉ location.toList :=
    fun hlocation => hlocation.notMem (by decide) (by decide) (by decide)
  have hqualify : ∀ tag : String,
      '\n' ∈ (Location.qualify manifest.toProject.space tag).toList
      ↔ '\n' ∈ tag.toList := fun tag =>
    Location.mem_qualify
      (Name.notMem_of_isValidNamespace hbuilt.space (by decide)) (by decide)
  -- functions and callbacks are made of names, so only declared tags matter
  constructor
  · intro htags
    constructor
    · intro function hfunction
      obtain ⟨space, path, hlocation⟩ := hbuilt.named_function hall hfunction
      exact hnamed hlocation
    · intro tag htag
      rcases hbuilt.named_or_declared hall htag with
        ⟨space, path, hlocation⟩
          | ⟨component, hmem, method, hmethod, declared, hdeclared, heq⟩
      · exact hnamed hlocation
      · rw [heq, hqualify]
        exact htags component hmem method hmethod declared hdeclared
  · rintro ⟨-, htags⟩ component hmem method hmethod declared hdeclared
    obtain ⟨tag, htag, heq⟩ := hbuilt.exists_tag hall hmem hmethod hdeclared
    have hline := htags tag htag
    rwa [heq, hqualify] at hline

namespace Cli

/-- What `check` prints on a project that it finds no problem with. -/
private theorem run_check_lines [JsonDiagnosis] {directory : Path}
    {tree : FileTree} {project : Project} {pack : Pack}
    (h : (loadAndBuild (m := StateM FileTree) directory).run.run tree
      = (.ok (project, pack), tree)) :
    (check (m := StateM FileTree) directory).run.run tree
      = (.ok (checkTranscript pack), tree) := by
  unfold check
  rw [run_bind_ok h]
  show (Except.ok _, tree) = _
  unfold checkTranscript Pack.artifacts
  rw [List.map_append, List.map_map, List.map_map, List.append_assoc,
    List.append_assoc, List.append_assoc]
  rfl

/-- What is printed on a pack that was written is read back as the lines on
it. -/
theorem linesOf_writeLines (root : Path) (pack : Pack) :
    ∃ lines, WriteTranscript root pack lines
      ∧ Text.linesOf
        (printed (["RESULT:OK", s!"PACK_JSON:{Json.quoted root.display}",
          s!"FILES:{pack.files.length}"] ++ sizeLines pack))
          = lines ++ [""] := by
  rw [pack.length_files]
  refine ⟨_, .lines (carries_quoted _ _),
    linesOf_printed_iff.2 fun line hline => ?_⟩
  rcases List.mem_append.1 hline with hfirst | hsize
  · simp only [List.mem_cons, List.not_mem_nil, or_false] at hfirst
    rcases hfirst with rfl | rfl | rfl
    · decide
    · exact lineFeed_notMem_append (by decide) (Json.lineFeed_notMem_quoted _)
    · exact lineFeed_notMem_append (by decide) (lineFeed_notMem_number _)
  · exact lineFeed_notMem_sizeLines pack line hsize

/-- A run that has a command to run prints lines. On a problem they are read
back as the lines on it, and on a pack that was written as the lines on
that, whatever texts are in them. On a pack that was checked, they are read
back if and only if no declared tag has a line feed. -/
theorem output_read_by_lines [JsonDiagnosis] {arguments : List String}
    {mode : Mode} (h : Request.ofArguments arguments = .run mode)
    (tree : FileTree) :
    ∃ outcome tree',
      (run (m := StateM FileTree) arguments).run tree = (outcome, tree')
      ∧ ((outcome.code = 1 ∧ ∃ problem lines,
            mode.command.run.run tree = (.error problem, tree')
            ∧ ProblemTranscript problem lines
              ∧ Text.linesOf outcome.stdout = lines ++ [""])
        ∨ (outcome.code = 0 ∧ ∃ loaded pack,
            (LoadedProject.load (m := StateM FileTree) mode.directory).run.run
              tree
              = (.ok loaded, tree)
            ∧ loaded.project.build loaded.components = .ok pack
            ∧ match mode with
              | .check _ =>
                  Text.linesOf outcome.stdout = checkTranscript pack ++ [""]
                    ↔ loaded.TagsOnLines
              | .build _ output _ => ∃ lines,
                  WriteTranscript
                    ((Path.ofString output).join
                      (.ofString loaded.project.name)) pack lines
                  ∧ Text.linesOf outcome.stdout = lines ++ [""])) := by
  -- a problem before anything is written, or a pack that the modes differ in
  -- using
  rcases command_cases mode tree with ⟨problem, hrun, hcode⟩
    | ⟨loaded, pack, hload, hbuild, hbuilt⟩
  · obtain ⟨lines, hlines, hread⟩ := linesOf_problemLines hcode
    exact ⟨_, tree, run_command h hrun,
      .inl ⟨rfl, problem, lines, hrun, hlines, hread⟩⟩
  · cases mode with
    | check directory =>
        refine ⟨_, tree, run_command h (run_check_lines hbuilt),
          .inr ⟨rfl, loaded, pack, hload, hbuild, ?_⟩⟩
        exact linesOf_checkTranscript_iff.trans (LoadedProject.tagsOnLines_iff
          ((LoadedProject.ends_load _).of_ok hload) hbuild).symm
    | build directory output overwrite =>
        -- writing can still fail, and then it is for the files
        rcases hwritten : (pack.toDirectory (m := StateM FileTree)
            ((Path.ofString output).join (.ofString loaded.project.name))
            overwrite).run.run tree
          with ⟨written, tree'⟩
        have hrun := run_build_of_toDirectory hbuilt hwritten
        cases written with
        | error error =>
            have hcode :=
              code_mem_of_atFiles (Pack.error_of_toDirectory hwritten).1
            obtain ⟨lines, hlines, hread⟩ :=
              @linesOf_problemLines ⟨_, error⟩ hcode
            exact ⟨_, tree', run_command h hrun,
              .inl ⟨rfl, _, lines, hrun, hlines, hread⟩⟩
        | ok files =>
            obtain ⟨-, -, -, -, -, rfl⟩ := Pack.of_toDirectory hwritten
            obtain ⟨lines, hlines, hread⟩ := linesOf_writeLines
              ((Path.ofString output).join (.ofString loaded.project.name)) pack
            exact ⟨_, tree', run_command h hrun,
              .inr ⟨rfl, loaded, pack, hload, hbuild, lines, hlines, hread⟩⟩

namespace Bells

/-- A project with one method, which declares a tag. -/
def tree (tag : String) : FileTree where
  entries :=
    [([Text.encode "demo"], .directory),
     ([Text.encode "demo", Text.encode "project.json"],
       .file (Text.encode "[\"D\",\"d\"]")),
     ([Text.encode "demo", Text.encode "components"], .directory),
     ([Text.encode "demo", Text.encode "components", Text.encode "bell.json"],
       .file (Text.encode
         ("[null,null,false,[[\"ring\",\"public\",[],[" ++ Json.quoted tag
         ++ "]]]]")))]

def checking : List String := ["check", "--project-dir", "demo"]

/-- What `check` prints on the project. -/
def output (tag : String) : Outcome :=
  ((run (m := StateM FileTree) checking).run (tree tag)).1

end Bells

/-- A tag with quotes and a blank stays on its line. -/
theorem bells_read_by_lines :
    Request.ofArguments Bells.checking = .run (.check "demo")
      ∧ ∃ loaded pack,
        (LoadedProject.load (m := StateM FileTree) (.ofString "demo")).run.run
            (Bells.tree "say \"hi\"") = (.ok loaded, Bells.tree "say \"hi\"")
          ∧ loaded.project.build loaded.components = .ok pack
          ∧ Text.linesOf (Bells.output "say \"hi\"").stdout
            = checkTranscript pack ++ [""] := by
  have hmode : Request.ofArguments Bells.checking = .run (.check "demo") := by
    decide +kernel
  have hcode : (Bells.output "say \"hi\"").code = 0 := by decide +kernel
  have htags :
      ((LoadedProject.load (m := StateM FileTree) (.ofString "demo")).run.run
        (Bells.tree "say \"hi\"")).1.toOption.map
        (fun loaded => decide loaded.TagsOnLines)
        = some true := by decide +kernel
  obtain ⟨outcome, tree', hrun, hread⟩ :=
    output_read_by_lines hmode (Bells.tree "say \"hi\"")
  have houtput : Bells.output "say \"hi\"" = outcome := congrArg Prod.fst hrun
  rw [houtput] at hcode ⊢
  rcases hread with ⟨hproblem, -⟩ | ⟨-, loaded, pack, hload, hbuild, hlines⟩
  · rw [hcode] at hproblem
    cases hproblem
  · rw [show (LoadedProject.load (m := StateM FileTree)
      (.ofString "demo")).run.run
      (Bells.tree "say \"hi\"") = (.ok loaded, Bells.tree "say \"hi\"")
      from hload] at htags
    exact ⟨hmode, loaded, pack, hload, hbuild,
      hlines.2 (of_decide_eq_true (Option.some.inj htags))⟩

/-- A tag with a line feed takes two lines, and the second of them is none of
a checked pack. -/
theorem bells_break_a_line :
    (Bells.output "x\ny").code = 0
      ∧ ¬∃ functions tags : List String,
        Text.linesOf (Bells.output "x\ny").stdout
          = ["RESULT:OK"]
            ++ functions.map (fun location => "ARTIFACT:" ++ location)
            ++ tags.map (fun location => "ARTIFACT:" ++ location)
            ++ [s!"FUNCTIONS:{functions.length}", s!"TAGS:{tags.length}",
              ""] := by
  have houtput : Bells.output "x\ny"
      = { code := 0,
          stdout :=
            printed ["RESULT:OK", "ARTIFACT:d:component/bell/ring",
              "ARTIFACT:d:attach/bell", "ARTIFACT:d:detach/bell",
      "ARTIFACT:d:x\ny", "FUNCTIONS:3", "TAGS:1"] } := by decide +kernel
  rw [houtput]
  have hlabel : ∀ label text : String, label.toList.head? ≠ none →
      label.toList.head? ≠ some 'y' → "y" ≠ label ++ text := by
    intro label text hne hhead heq
    have hchars : ("y".toList).head? = (label ++ text).toList.head? := by
      rw [heq]
    rw [String.toList_append,
      List.head?_append_of_ne_nil _ (by simpa using hne)] at hchars
    exact hhead hchars.symm
  refine ⟨rfl, ?_⟩
  rintro ⟨functions, tags, hlines⟩
  have hline : "y" ∈ Text.linesOf
      (printed ["RESULT:OK", "ARTIFACT:d:component/bell/ring",
        "ARTIFACT:d:attach/bell", "ARTIFACT:d:detach/bell", "ARTIFACT:d:x\ny",
        "FUNCTIONS:3",
      "TAGS:1"]) := by decide +kernel
  rw [hlines] at hline
  simp only [List.mem_append, List.mem_map, List.mem_cons, List.not_mem_nil,
    or_false] at hline
  rcases hline with ((hline | ⟨location, -, hline⟩) | ⟨location, -, hline⟩)
    | hline | hline | hline
  · exact absurd hline (by decide)
  · exact hlabel "ARTIFACT:" location (by decide) (by decide) hline.symm
  · exact hlabel "ARTIFACT:" location (by decide) (by decide) hline.symm
  · exact hlabel "FUNCTIONS:" _ (by decide) (by decide) hline
  · exact hlabel "TAGS:" _ (by decide) (by decide) hline
  · exact absurd hline (by decide)

end Cli

end Datapack
