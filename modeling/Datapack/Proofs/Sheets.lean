/-
What plans leave behind: the names they take, and functions in which every
entry is accounted for.

Both facts hold of bodies whatever they do, failures that are caught
included, and are proved by induction over `Plan.Composed`.

- The located functions that a body leaves have the generated names that
  it took, each once (`Composed.names`). Names are taken by blocks, at
  their end and thus behind the blocks inside them, while the outline has a
  block before those inside it; so the order differs and the two lists are
  permutations of each other.
- Every function that a body leaves is sound (`Composed.sound`): it is
  closed if it has a location, its entries lie inside the context that it
  is called in, and each entry is accounted for. A statement's entry is the
  command that the statement stands for, and a block's entry calls a
  function that is there and is called in just the entry's context.

`Plan.Assembled` continues both above the bodies, up to the components of a
project. It lists the locations that the parts have besides the generated
ones.
-/
import Datapack.Proofs.Bodies

namespace Datapack

-- ================================================================== names

namespace NameStream

/-- Names are taken in two parts. -/
theorem take_add (names : NameStream) (m n : Nat) :
    names.take (m + n) = names.take m ++ (names.drop m).take n := by
  unfold take drop
  rw [List.range_add, List.map_append, List.map_map]
  simp [Function.comp_def, Nat.add_assoc]

theorem take_one (names : NameStream) : names.take 1 = [names.head] := rfl

end NameStream

def Outline.locations (outline : Outline) : List String :=
  outline.sheets.filterMap Sheet.location

namespace Outline

@[simp] theorem locations_nil : nil.locations = [] := rfl

/-- The locations of two outlines in a row. -/
@[simp] theorem locations_append (first second : Outline) :
    (first ++ second).locations = first.locations ++ second.locations := by
  simp [locations]

/-- The location of a function comes before those below it. -/
theorem locations_single_function (sheet : Sheet) (below : Outline) :
    (single (.function sheet) below).locations
      = sheet.location.toList ++ below.locations := by
  unfold locations
  rw [sheets_single_function, List.filterMap_cons]
  cases sheet.location <;> rfl

end Outline

namespace Plan

variable {tags : String → Prop}

/-- The located functions of the plan have the given locations and those
taken from the stream. -/
def Names (fixed : List String) (site : Site) (written : Written) : Prop :=
  written.below.locations.Perm (fixed ++ site.functions.take written.functions)

/-- Two steps take their names one after the other. -/
theorem Names.append {fixed others : List String} {site : Site}
    {first second : Written} (h : Names fixed site first)
    (h' : Names others (site.after first) second) :
    Names (fixed ++ others) site (first ++ second) := by
  unfold Names at h h' ⊢
  rw [Written.below_append, Written.functions_append, Outline.locations_append,
    NameStream.take_add]
  -- the locations given stand before the names taken, in both writings and
  -- together
  refine (h.append h').trans ?_
  rw [List.append_assoc, List.append_assoc]
  refine .append_left fixed ?_
  rw [← List.append_assoc, ← List.append_assoc]
  exact .append_right _ List.perm_append_comm

/-- The functions that a composed plan leaves have the names that it took.
Failures that are caught leave functions without a location. -/
theorem Composed.names {plan : Plan} (h : plan.Composed tags) :
    ∀ site, Names [] site (plan site).written := by
  induction h with
  | done => exact fun site => .nil
  | fail failure => exact fun site => .nil
  | enter h => exact fun site => .nil
  | leaf statement =>
      intro site
      unfold Plan.leaf
      split <;> exact .nil
  | @andThen first second _ _ ih ih' =>
      intro site
      rcases andThen_cases first second site with ⟨_, -, h⟩ | ⟨-, h⟩
      · rw [h]
        exact ih site
      · rw [h]
        exact (ih site).append (ih' _)
  | @orElse first handler _ _ ih ih' =>
      intro site
      rcases orElse_cases first handler site with ⟨-, h⟩ | ⟨failure, -, h⟩
      · rw [h]
        exact ih site
      · rw [h]
        exact (ih site).append (ih' failure _)
  | labelled label _ ih =>
      intro site
      rw [labelled_written]
      exact ih site
  | withTag _ ih =>
      intro site
      have htag : Names [] site { tags := 1 } := .nil
      exact htag.append (ih _ _)
  | block clauses _ ih =>
      intro site
      have hinner := ih { site with context := site.context.enter clauses }
      rcases block_cases clauses _ site with h | ⟨failure, -, h⟩ | ⟨-, -, h⟩
      · rw [h]
        exact hinner
      · rw [h]
        unfold Names Outcome.asFunction
        rw [Outline.locations_single_function]
        exact hinner
      · rw [h]
        unfold Names Outcome.asFunction
        simp only [Written.below_append, Outline.append_nil,
          Written.functions_append, Outline.locations_single_function,
          Option.toList_some, NameStream.take_add, NameStream.take_one,
          List.nil_append]
        -- the block's name is taken last, and its function stands first
        exact (List.perm_append_comm).trans (hinner.append_right _)

end Plan

-- ============================================================== soundness

/-- The command of an entry is what its cause makes of it. -/
def SheetEntry.Accounted (ground : Ground) (tags : String → Prop)
    (sheets : List Sheet) (entry : SheetEntry) : Prop :=
  match entry.cause with
  | .statement statement => statement.command ground = .ok entry.command
  | .block => ∃ sheet ∈ sheets, ∃ location, sheet.location = some location
      ∧ sheet.base = entry.context ∧ entry.command = .function location
  | .hook => ∃ tag, tags tag ∧ entry.command = .functionTag tag
  | .mark => entry.command.isCall = false
  | .action => True

/-- A function whose parts fit together. -/
structure Sheet.Sound (ground : Ground) (tags : String → Prop)
    (sheets : List Sheet) (sheet : Sheet) : Prop where
  finished : sheet.location.isSome → sheet.stage = .closed
  inside : ∀ entry ∈ sheet.entries, sheet.base.clauses <+: entry.context.clauses
  accounted : ∀ entry ∈ sheet.entries, entry.Accounted ground tags sheets

/-- All that was written fits together. -/
structure Written.Sound (ground : Ground) (tags : String → Prop)
    (written : Written) : Prop where
  entries : ∀ entry ∈ written.entries,
    entry.Accounted ground tags written.below.sheets
  sheets : ∀ sheet ∈ written.below.sheets,
    sheet.Sound ground tags written.below.sheets
  pieces : ∀ piece ∈ written.below.pieces, ∃ sheet, piece = .function sheet

section Soundness

variable {ground : Ground} {tags : String → Prop} {sheets others : List Sheet}

/-- Further functions do no harm. -/
theorem SheetEntry.Accounted.mono {entry : SheetEntry}
    (h : entry.Accounted ground tags sheets) (hsub : sheets ⊆ others) :
    entry.Accounted ground tags others := by
  unfold SheetEntry.Accounted at h ⊢
  cases hcause : entry.cause with
  | block =>
      rw [hcause] at h
      obtain ⟨sheet, hsheet, rest⟩ := h
      exact ⟨sheet, hsub hsheet, rest⟩
  | _ =>
      rw [hcause] at h
      exact h

/-- A function is sound also where there are more functions. -/
theorem Sheet.Sound.mono {sheet : Sheet} (h : sheet.Sound ground tags sheets)
    (hsub : sheets ⊆ others) : sheet.Sound ground tags others :=
  ⟨h.finished, h.inside,
    fun entry hentry => (h.accounted entry hentry).mono hsub⟩

/-- An entry that is plain needs no function. -/
theorem SheetEntry.Plain.accounted {entry : SheetEntry} (h : entry.Plain tags) :
    entry.Accounted ground tags sheets := by
  unfold SheetEntry.Plain at h
  unfold SheetEntry.Accounted
  cases hcause : entry.cause with
  | statement statement => simp only [hcause] at h
  | block => simp only [hcause] at h
  | hook =>
      simp only [hcause] at h
      exact h
  | mark =>
      simp only [hcause] at h
      exact h
  | action => trivial

namespace Written.Sound

private theorem names (functions count : Nat) :
    Written.Sound ground tags { functions := functions, tags := count } where
  entries _ hentry := by cases hentry
  sheets _ hsheet := by cases hsheet
  pieces _ hpiece := by cases hpiece

private theorem append {first second : Written} (h : first.Sound ground tags)
    (h' : second.Sound ground tags) : (first ++ second).Sound ground tags := by
  have hleft : first.below.sheets ⊆ (first ++ second).below.sheets := by
    rw [Written.below_append, Outline.sheets_append]
    exact List.subset_append_left ..
  have hright : second.below.sheets ⊆ (first ++ second).below.sheets := by
    rw [Written.below_append, Outline.sheets_append]
    exact List.subset_append_right ..
  refine ⟨fun entry hentry => ?_, fun sheet hsheet => ?_,
    fun piece hpiece => ?_⟩
  · rcases List.mem_append.1 hentry with hentry | hentry
    · exact (h.entries entry hentry).mono hleft
    · exact (h'.entries entry hentry).mono hright
  · rw [Written.below_append, Outline.sheets_append] at hsheet
    rcases List.mem_append.1 hsheet with hsheet | hsheet
    · exact (h.sheets sheet hsheet).mono hleft
    · exact (h'.sheets sheet hsheet).mono hright
  · rw [Written.below_append, Outline.pieces_append] at hpiece
    rcases List.mem_append.1 hpiece with hpiece | hpiece
    · exact h.pieces piece hpiece
    · exact h'.pieces piece hpiece

/-- A body that fits together does so as a function of its own. -/
theorem asFunction {outcome : Outcome} (h : outcome.written.Sound ground tags)
    {location : Option String} {base : ExecutionContext}
    (hfinished : location.isSome → outcome.result = .ok ())
    (hinside : ∀ entry ∈ outcome.written.entries,
      base.clauses <+: entry.context.clauses) :
    (outcome.asFunction location base).Sound ground tags := by
  refine ⟨fun entry hentry => (nomatch hentry), fun sheet hsheet => ?_,
    fun piece hpiece => ?_⟩
  · unfold Outcome.asFunction at hsheet ⊢
    rw [Outline.sheets_single_function] at hsheet ⊢
    rcases List.mem_cons.1 hsheet with rfl | hsheet
    · refine ⟨fun hsome => ?_, hinside, fun entry hentry => ?_⟩
      · exact Outcome.stage_of_ok (hfinished hsome)
      · exact (h.entries entry hentry).mono (List.subset_cons_self ..)
    · exact (h.sheets sheet hsheet).mono (List.subset_cons_self ..)
  · unfold Outcome.asFunction at hpiece
    rw [Outline.pieces_single] at hpiece
    rcases List.mem_cons.1 hpiece with rfl | hpiece
    · exact ⟨_, rfl⟩
    · exact h.pieces piece hpiece

end Written.Sound

/-- All that a composed plan writes is sound. The induction is over the way
it was composed. -/
theorem Plan.Composed.sound {plan : Plan} (h : plan.Composed tags) :
    ∀ site, (plan site).written.Sound site.toGround tags := by
  induction h with
  | done => exact fun site => .names 0 0
  | fail failure => exact fun site => .names 0 0
  | enter h =>
      intro site
      exact ⟨fun entry hentry => (h site entry hentry).2.accounted,
        fun sheet hsheet => (nomatch hsheet),
        fun piece hpiece => (nomatch hpiece)⟩
  | leaf statement =>
      intro site
      unfold Plan.leaf
      split
      · next command hcommand =>
        refine ⟨fun entry hentry => ?_, fun sheet hsheet => (nomatch hsheet),
          fun piece hpiece => (nomatch hpiece)⟩
        rw [List.mem_singleton.1 hentry]
        exact hcommand
      · exact .names 0 0
  | @andThen first second _ _ ih ih' =>
      intro site
      rcases Plan.andThen_cases first second site with ⟨_, -, h⟩ | ⟨-, h⟩
      · rw [h]
        exact ih site
      · rw [h]
        exact (ih site).append (ih' (site.after _))
  | @orElse first handler _ _ ih ih' =>
      intro site
      rcases Plan.orElse_cases first handler site with ⟨-, h⟩ | ⟨failure, -, h⟩
      · rw [h]
        exact ih site
      · rw [h]
        exact (ih site).append (ih' failure (site.after _))
  | labelled label _ ih =>
      intro site
      rw [Plan.labelled_written]
      exact ih site
  | withTag _ ih =>
      intro site
      exact (Written.Sound.names 0 1).append (ih _ (site.after { tags := 1 }))
  | @block clauses body hbody ih =>
      intro site
      have hinner := ih { site with context := site.context.enter clauses }
      have hinside :=
        hbody.inside { site with context := site.context.enter clauses }
      rcases Plan.block_cases clauses body site with h | ⟨failure, -, h⟩
        | ⟨hres, -, h⟩
      · rw [h]
        exact hinner
      · rw [h]
        exact hinner.asFunction (fun hsome => by cases hsome) hinside
      · rw [h]
        have hfunction : ∀ location,
            Written.Sound site.toGround tags
              (Outcome.asFunction
                (body { site with context := site.context.enter clauses })
                (some location)
            (site.context.enter clauses)) :=
          fun location => hinner.asFunction (fun _ => hres) hinside
        refine ⟨fun entry hentry => ?_, fun sheet hsheet => ?_,
          fun piece hpiece => ?_⟩
        · -- the call of the function that the block became
          rw [List.mem_singleton.1 hentry]
          rw [Written.below_append, Outline.append_nil]
          unfold Outcome.asFunction
          rw [Outline.sheets_single_function]
          exact ⟨_, List.mem_cons_self, _, rfl, rfl, rfl⟩
        · rw [Written.below_append, Outline.append_nil] at hsheet ⊢
          exact (hfunction _).sheets sheet hsheet
        · rw [Written.below_append, Outline.append_nil] at hpiece
          exact (hfunction _).pieces piece hpiece

end Soundness

end Datapack
