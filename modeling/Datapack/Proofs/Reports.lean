/-
What a report tells of a failure.

A failure is a cause under any number of layers, and each layer is a step of
the build or a text from outside that was put over it. Here the layers are
taken apart from the cause and listed, outermost first (`Failure.within`). The
labels, the failure inside the innermost step and the root are three walks
down the same layers that do not know of each other. On the list each of them
is one equation.

Below the innermost step there are texts from outside only. So a list of
layers has either no step at all or a last one with texts behind it
(`Layer.split`), and the report is read off these two cases.
-/
import Datapack.Report

namespace Datapack

namespace Failure

/-- What can be put over a failure. -/
inductive Layer where
  /-- A step of the build, named by its label. -/
  | step (label : String)
  /-- A text from outside the build. -/
  | wrapped (text : String)
  deriving DecidableEq

/-- The label of a step. -/
def Layer.label? : Layer → Option String
  | .step label => some label
  | .wrapped _ => none

/-- The failure inside one more layer. -/
def Layer.over : Layer → Failure → Failure
  | .step label, source => .step label source
  | .wrapped text, source => .wrapped text source

/-- The cause under layers, outermost first. -/
def within (cause : Failure) (layers : List Layer) : Failure :=
  layers.foldr Layer.over cause

/-- There is a last step among the layers, with texts behind it, or there are
texts only. -/
theorem Layer.split (layers : List Layer) :
    (∃ texts : List String, layers = texts.map .wrapped)
      ∨ ∃ above label, ∃ texts : List String,
          layers = above ++ .step label :: texts.map .wrapped := by
  induction layers with
  | nil => exact .inl ⟨[], rfl⟩
  | cons layer rest ih =>
      rcases ih with ⟨texts, rfl⟩ | ⟨above, label, texts, rfl⟩
      · cases layer with
        | step label => exact .inr ⟨[], label, texts, rfl⟩
        | wrapped text => exact .inl ⟨text :: texts, rfl⟩
      · exact .inr ⟨layer :: above, label, texts, rfl⟩

-- ================================================================= walks

variable {cause : Failure}

/-- The labels of a failure are those of its layers. -/
private theorem labels_within (hcause : cause.source? = none)
    (layers : List Layer) :
    (cause.within layers).labels = layers.filterMap Layer.label? := by
  induction layers with
  | nil =>
      cases cause with
      | defect | foreign => rfl
      | step | wrapped => cases hcause
  | cons layer rest ih =>
      cases layer with
      | step label => exact congrArg (label :: ·) ih
      | wrapped text => exact ih

/-- Under any layers the root of a failure is its cause. -/
private theorem root_within (hcause : cause.source? = none)
    (layers : List Layer) :
    (cause.within layers).root = cause := by
  induction layers with
  | nil =>
      cases cause with
      | defect | foreign => rfl
      | step | wrapped => cases hcause
  | cons layer rest ih => cases layer <;> exact ih

/-- Texts alone have no step that anything could be inside of. -/
theorem innermost?_within_texts (hcause : cause.source? = none)
    (texts : List String) :
    (cause.within (texts.map .wrapped)).innermost? = none := by
  induction texts with
  | nil =>
      cases cause with
      | defect | foreign => rfl
      | step | wrapped => cases hcause
  | cons text rest ih => exact ih

/-- Inside the last step of the layers there is the cause, under the texts
behind that step. -/
private theorem innermost?_within (hcause : cause.source? = none)
    (above : List Layer) (label : String) (texts : List String) :
    (cause.within (above ++ .step label :: texts.map .wrapped)).innermost?
      = some (cause.within (texts.map .wrapped)) := by
  induction above with
  | nil =>
      show ((cause.within (texts.map .wrapped)).innermost?).or _ = _
      rw [innermost?_within_texts hcause]
      rfl
  | cons layer rest ih =>
      cases layer with
      | step other =>
          show ((cause.within
            (rest ++ .step label :: texts.map .wrapped)).innermost?).or _ = _
          rw [ih]
          rfl
      | wrapped text => exact ih

/-- Texts from outside are their own messages, and the cause comes last. -/
private theorem messages_within_texts (hcause : cause.source? = none)
    (texts : List String) :
    (cause.within (texts.map .wrapped)).layers.map message
      = texts ++ [cause.message] := by
  induction texts with
  | nil =>
      cases cause with
      | defect | foreign => rfl
      | step | wrapped => cases hcause
  | cons text rest ih => exact congrArg (text :: ·) ih

/-- The build's own layer over anything is a step. -/
theorem code_within {layers : List Layer}
    (hown : (cause.within layers).code?.isSome = true) (hlayers : layers ≠ []) :
    (cause.within layers).code = stepCode := by
  cases layers with
  | nil => exact absurd rfl hlayers
  | cons layer rest =>
      cases layer with
      | step label => rfl
      | wrapped text => cases hown

end Failure

-- ================================================================ reports

/-- A failure without a step is reported as its own cause. -/
private theorem Report.ofFailure_of_none {failure : Failure}
    (h : failure.innermost? = none) :
    ofFailure failure = ⟨failure.code, failure.labels, [failure.message]⟩ := by
  unfold ofFailure
  rw [h]

/-- A failure with a step is reported by what is inside the innermost one. -/
private theorem Report.ofFailure_of_some {failure cause : Failure}
    (h : failure.innermost? = some cause) :
    ofFailure failure = ⟨cause.code?.getD failure.code, failure.labels,
      cause.layers.map Failure.message⟩ := by
  unfold ofFailure
  rw [h]

/-- The report on a failure whose outermost layer is the build's own shows all
its layers. The labels are those of all steps, and texts between them are
skipped. The causes are the texts of what is inside the last step, down to the
root, and the code is that of what is directly inside it; for a text from
outside it is that of the outermost step. Without a step the failure is its
own cause. -/
theorem Report.shows_layers (layers : List Failure.Layer) (cause : Failure)
    (hcause : cause.source? = none)
    (hown : (cause.within layers).code?.isSome = true) :
    let failure := cause.within layers
    let report := Report.ofFailure failure
    report.labels = layers.filterMap Failure.Layer.label?
      ∧ ((∃ above label, ∃ texts : List String,
            layers = above ++ .step label :: texts.map .wrapped
            ∧ report.causes = texts ++ [cause.message]
            ∧ (∀ defect,
              texts = [] → cause = .defect defect → report.code = defect.code)
            ∧ (texts ≠ [] ∨ (∃ text, cause = .foreign text) →
              report.code = "BUILD_FAILED"))
          ∨ (∀ layer ∈ layers, layer.label? = none)
            ∧ report.causes = [failure.message]
              ∧ failure.code? = some report.code)
      ∧ report.causes ≠ []
        ∧ report.causes.getLast? = some failure.root.message := by
  intro failure report
  refine ⟨Failure.labels_within hcause layers, ?_⟩
  rw [Failure.root_within hcause layers]
  rcases Failure.Layer.split layers with ⟨texts, rfl⟩
    | ⟨above, label, texts, rfl⟩
  · -- a text would be the outermost layer
    obtain rfl : texts = [] := by
      cases texts with
      | nil => rfl
      | cons text rest => cases hown
    have hreport :=
      Report.ofFailure_of_none (Failure.innermost?_within_texts hcause [])
    have hcauses : report.causes = [failure.message] :=
      congrArg Report.causes hreport
    have hcode : report.code = failure.code := congrArg Report.code hreport
    obtain ⟨code, hown⟩ : ∃ code, failure.code? = some code :=
      Option.isSome_iff_exists.1 hown
    rw [hcauses, hcode]
    refine ⟨.inr ⟨List.forall_mem_nil _, rfl, ?_⟩, by simp, rfl⟩
    simp only [Failure.code, hown, Option.getD_some]
  · have hreport :=
      Report.ofFailure_of_some
        (Failure.innermost?_within hcause above label texts)
    have hcauses : report.causes = texts ++ [cause.message] :=
      (congrArg Report.causes hreport).trans (Failure.messages_within_texts
        hcause texts)
    have hcode : report.code
        = (cause.within (texts.map .wrapped)).code?.getD Failure.stepCode := by
      rw [← Failure.code_within hown (by simp)]
      exact congrArg Report.code hreport
    rw [hcauses, hcode]
    refine ⟨.inl ⟨above, label, texts, rfl, rfl, ?_, ?_⟩, by simp,
      List.getLast?_concat⟩
    · rintro defect rfl rfl
      rfl
    · rintro (htexts | ⟨text, rfl⟩)
      · obtain ⟨text, rest, rfl⟩ := List.exists_cons_of_ne_nil htexts
        rfl
      · cases texts <;> rfl

/-- Texts from outside stand above and below the last step. -/
theorem Report.shows_layers_mixed :
    let layers : List Failure.Layer :=
      [.step "project", .wrapped "retried", .step "component",
        .wrapped "while reading"]
    let failure := (Failure.defect (.unknownComponent "ghost")).within layers
    (failure.code?.isSome = true
        ∧ (Report.ofFailure failure).labels
          = layers.filterMap Failure.Layer.label?)
      ∧ Report.ofFailure failure = ⟨"BUILD_FAILED", ["project", "component"],
          ["while reading",
            "COMPONENT_NOT_FOUND: Component \"ghost\" is not declared."]⟩ :=
  ⟨⟨rfl, (Report.shows_layers _ _ rfl rfl).1⟩, by decide +kernel⟩

end Datapack
