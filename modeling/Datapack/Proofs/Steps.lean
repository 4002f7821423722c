/-
The steps of paths.

Where a path leads depends on its steps alone: the names that it goes down
and the ways up that it takes. Segments that stay, empty ones and dots, only
make sure that what is there is a directory. On steps the operations on
paths are plain operations on lists. Joined paths take the steps of both,
and a parent takes all steps but the last; so the steps of an ancestor are
the first ones of the path.
-/
import Datapack.Files.Tree
import Mathlib.Data.List.TakeWhile

namespace Datapack

-- =============================================================== segments

namespace Path

/-- There is always a segment, even if it is empty. -/
theorem splitSlashes_ne_nil (bytes : List UInt8) : splitSlashes bytes ≠ [] := by
  cases bytes with
  | nil => exact List.cons_ne_nil _ _
  | cons b rest =>
      rw [splitSlashes]
      split
      · exact List.cons_ne_nil _ _
      · split <;> exact List.cons_ne_nil _ _

theorem splitSlashes_slash (rest : List UInt8) :
    splitSlashes (slash :: rest) = [] :: splitSlashes rest := by
  rw [splitSlashes, if_pos rfl]

private theorem splitSlashes_cons {b : UInt8} (h : b ≠ slash)
    {rest : List UInt8} {segment : FileName} {segments : List FileName}
    (hrest : splitSlashes rest = segment :: segments) :
    splitSlashes (b :: rest) = (b :: segment) :: segments := by
  rw [splitSlashes, if_neg h, hrest]

/-- A slash divides the segments before it from those behind it. -/
theorem splitSlashes_append (front back : List UInt8) :
    splitSlashes (front ++ slash :: back)
      = splitSlashes front ++ splitSlashes back := by
  induction front with
  | nil => exact splitSlashes_slash back
  | cons b front ih =>
      by_cases h : b = slash
      · subst h
        rw [List.cons_append, splitSlashes_slash, splitSlashes_slash, ih,
          List.cons_append]
      · obtain ⟨segment, segments, hfront⟩ :=
          List.exists_cons_of_ne_nil (splitSlashes_ne_nil front)
        rw [hfront, List.cons_append] at ih
        rw [List.cons_append, splitSlashes_cons h ih,
          splitSlashes_cons h hfront, List.cons_append]

/-- No segment has a slash in it. -/
private theorem slash_notMem_of_mem_splitSlashes {segment : FileName}
    {bytes : List UInt8} (h : segment ∈ splitSlashes bytes) :
    slash ∉ segment := by
  induction bytes generalizing segment with
  | nil =>
      rw [List.mem_singleton.1 h]
      exact List.not_mem_nil
  | cons b rest ih =>
      by_cases hb : b = slash
      · subst hb
        rw [splitSlashes_slash] at h
        rcases List.mem_cons.1 h with rfl | h
        · exact List.not_mem_nil
        · exact ih h
      · obtain ⟨first, segments, hrest⟩ :=
          List.exists_cons_of_ne_nil (splitSlashes_ne_nil rest)
        rw [splitSlashes_cons hb hrest] at h
        rcases List.mem_cons.1 h with rfl | h
        · have hfirst := ih (hrest ▸ List.mem_cons_self)
          simp [hfirst, Ne.symm hb]
        · exact ih (hrest ▸ List.mem_cons_of_mem first h)

/-- A text without slashes is one segment. -/
theorem splitSlashes_of_notMem {segment : FileName} (h : slash ∉ segment) :
    splitSlashes segment = [segment] := by
  induction segment with
  | nil => rfl
  | cons b rest ih =>
      simp only [List.mem_cons, not_or] at h
      exact splitSlashes_cons (Ne.symm h.1) (ih h.2)

/-- Segments that are joined are found again. -/
private theorem splitSlashes_joinSlashes :
    ∀ {segments : List FileName},
      segments ≠ [] → (∀ segment ∈ segments, slash ∉ segment) →
        splitSlashes (joinSlashes segments) = segments
  | [], h, _ => absurd rfl h
  | [segment], _, h => splitSlashes_of_notMem (h segment List.mem_cons_self)
  | segment :: next :: rest, _, h => by
      obtain ⟨hsegment, hrest⟩ := List.forall_mem_cons.1 h
      rw [joinSlashes, splitSlashes_append, splitSlashes_of_notMem hsegment,
        splitSlashes_joinSlashes (List.cons_ne_nil next rest) hrest]
      · rfl
      · exact List.cons_ne_nil next rest

/-- A text is its segments joined. -/
theorem joinSlashes_splitSlashes (bytes : List UInt8) :
    joinSlashes (splitSlashes bytes) = bytes := by
  induction bytes with
  | nil => rfl
  | cons b rest ih =>
      obtain ⟨segment, segments, hrest⟩ :=
        List.exists_cons_of_ne_nil (splitSlashes_ne_nil rest)
      rw [hrest] at ih
      by_cases hb : b = slash
      · subst hb
        rw [splitSlashes_slash, hrest, joinSlashes, ih]
        · rfl
        · exact List.cons_ne_nil _ _
      · rw [splitSlashes_cons hb hrest, ← ih]
        cases segments <;> rfl

end Path

-- ================================================================== steps

namespace FileTree

/-- The steps that segments take: those that do not stay. -/
def stepsOf (segments : List FileName) : List Move :=
  (segments.map Move.ofSegment).filter (· != .stay)

/-- The steps of a path. -/
def steps (path : Path) : List Move :=
  (moves path).filter (· != .stay)

/-- A segment stays if it is empty or a dot. -/
private theorem ofSegment_eq_stay_iff {segment : FileName} :
    Move.ofSegment segment = .stay ↔ Path.isIdle segment = true := by
  unfold Move.ofSegment
  split
  · next h => simp [h]
  · next h =>
    split <;> simp [h]

private theorem stepsOf_append (front back : List FileName) :
    stepsOf (front ++ back) = stepsOf front ++ stepsOf back := by
  simp [stepsOf]

private theorem stepsOf_idle {segments : List FileName}
    (h : ∀ segment ∈ segments, Path.isIdle segment) :
    stepsOf segments = [] := by
  simp only [stepsOf, List.filter_eq_nil_iff, List.mem_map, bne_iff_ne,
    ne_eq, not_not]
  rintro _ ⟨segment, hsegment, rfl⟩
  exact ofSegment_eq_stay_iff.2 (h segment hsegment)

/-- What is trimmed off segments takes no steps. -/
theorem trimSegments_append (segments : List FileName) :
    ∃ idle, (∀ segment ∈ idle, Path.isIdle segment)
      ∧ segments = Path.trimSegments segments ++ idle := by
  refine ⟨(segments.reverse.takeWhile Path.isIdle).reverse,
    fun segment h => ?_, ?_⟩
  · exact List.mem_takeWhile_imp (List.mem_reverse.1 h)
  · rw [Path.trimSegments, ← List.reverse_append,
      List.takeWhile_append_dropWhile, List.reverse_reverse]

/-- Trimming takes away only segments that stay. -/
private theorem stepsOf_trimSegments (segments : List FileName) :
    stepsOf (Path.trimSegments segments) = stepsOf segments := by
  obtain ⟨idle, hidle, hsegments⟩ := trimSegments_append segments
  calc stepsOf (Path.trimSegments segments)
      = stepsOf (Path.trimSegments segments) ++ stepsOf idle := by
        rw [stepsOf_idle hidle, List.append_nil]
    _ = stepsOf segments := by rw [← stepsOf_append, ← hsegments]

/-- Trimmed segments end in one that takes a step. -/
theorem trimSegments_concat {segments front : List FileName} {last : FileName}
    (h : Path.trimSegments segments = front ++ [last]) :
    Path.isIdle last = false := by
  have hreverse : segments.reverse.dropWhile Path.isIdle
      = last :: front.reverse := by
    have hcongr := congrArg List.reverse h
    rw [Path.trimSegments, List.reverse_reverse] at hcongr
    simpa using hcongr
  have hhead :=
    List.head_dropWhile_not Path.isIdle
      (hreverse ▸ List.cons_ne_nil last front.reverse)
  simpa [hreverse] using hhead

@[simp] theorem steps_empty : steps ⟨[]⟩ = [] := rfl

/-- A path with a slash in it takes the steps before it and those
behind it. -/
theorem steps_append_slash (front back : List UInt8) :
    steps ⟨front ++ Path.slash :: back⟩ = steps ⟨front⟩ ++ steps ⟨back⟩ := by
  simp [steps, moves, Path.segments, Path.splitSlashes_append]

/-- Joined segments take their own steps. -/
private theorem steps_joinSlashes {segments : List FileName}
    (h : ∀ segment ∈ segments, Path.slash ∉ segment) :
    steps ⟨Path.joinSlashes segments⟩ = stepsOf segments := by
  by_cases hnil : segments = []
  · subst hnil
    rfl
  · simp [steps, stepsOf, moves, Path.segments,
      Path.splitSlashes_joinSlashes hnil h]

-- ================================================================ joining

/-- A path seen from another takes the steps of both. -/
theorem steps_join {path inner : Path} (h : inner.isAbsolute = false) :
    steps (path.join inner) = steps path ++ steps inner := by
  unfold Path.join
  rw [h, Bool.false_or]
  split
  · next hempty =>
    have hpath : path.bytes = [] := List.isEmpty_iff.1 hempty
    have hsteps : steps path = [] := by
      obtain ⟨bytes⟩ := path
      subst hpath
      rfl
    rw [hsteps, List.nil_append]
  · split
    · next hslash =>
      obtain ⟨front, hfront⟩ :=
        List.getLast?_eq_some_iff.1 (beq_iff_eq.1 hslash)
      have hpath : path = ⟨front ++ Path.slash :: []⟩ := by
        obtain ⟨bytes⟩ := path
        exact congrArg Path.mk hfront
      rw [hpath, List.append_assoc, List.cons_append, List.nil_append,
        steps_append_slash, steps_append_slash, steps_empty, List.append_nil]
    · exact steps_append_slash path.bytes inner.bytes

-- ================================================================ parents

/-- What a path opens with: nothing, a slash, or a dot that is a segment of
its own. -/
theorem opening_cases (path : Path) :
    path.opening = []
      ∨ (∃ rest, path.opening = [Path.slash] ∧ path.bytes = Path.slash :: rest)
      ∨ (path.opening = Path.dot ∧ (path.bytes = Path.dot
        ∨ ∃ rest, path.bytes = Path.dot ++ Path.slash :: rest)) := by
  unfold Path.opening
  split
  · next habsolute =>
    obtain ⟨rest, hbytes⟩ := List.head?_eq_some_iff.1 (beq_iff_eq.1 habsolute)
    exact .inr (.inl ⟨rest, rfl, hbytes⟩)
  · split
    · next hdot =>
      obtain ⟨rest, hsegments⟩ := List.head?_eq_some_iff.1 (beq_iff_eq.1 hdot)
      refine .inr (.inr ⟨rfl, ?_⟩)
      rw [← Path.joinSlashes_splitSlashes path.bytes]
      rw [Path.segments] at hsegments
      rw [hsegments]
      cases rest with
      | nil => exact .inl rfl
      | cons segment rest =>
          exact .inr ⟨Path.joinSlashes (segment :: rest), rfl⟩
    · exact .inl rfl

/-- All steps of a path stand behind its opening. -/
theorem steps_drop_opening (path : Path) :
    steps ⟨path.bytes.drop path.opening.length⟩ = steps path := by
  obtain ⟨bytes⟩ := path
  rcases opening_cases ⟨bytes⟩ with hopening | ⟨rest, hopening, hbytes⟩
    | ⟨hopening, hbytes | ⟨rest, hbytes⟩⟩
  · rw [hopening]
    rfl
  · dsimp only at hbytes
    rw [hopening, hbytes]
    exact (steps_append_slash [] rest).symm
  · dsimp only at hbytes
    rw [hopening, hbytes]
    rfl
  · dsimp only at hbytes
    rw [hopening, hbytes, steps_append_slash]
    exact steps_append_slash [] rest

/-- An opening takes no steps. Behind a dot the segments start with an empty
one, so that the dot stays one of its own. -/
theorem steps_opening_append {path : Path} {segments : List FileName}
    (hslash : ∀ segment ∈ segments, Path.slash ∉ segment)
    (hdot : path.opening = Path.dot →
      segments = [] ∨ ∃ next rest, segments = [] :: next :: rest) :
    steps ⟨path.opening ++ Path.joinSlashes segments⟩ = stepsOf segments := by
  rcases opening_cases path with hopening | ⟨-, hopening, -⟩ | ⟨hopening, -⟩
  · rw [hopening]
    exact steps_joinSlashes hslash
  · rw [hopening]
    exact (steps_append_slash [] _).trans (steps_joinSlashes hslash)
  · rw [hopening]
    rcases hdot hopening with rfl | ⟨next, rest, rfl⟩
    · rfl
    · exact (steps_append_slash Path.dot _).trans
        (steps_joinSlashes
          fun segment h => hslash segment (List.mem_cons_of_mem _ h))

/-- Trimmed segments that start with an empty one have more than it. -/
theorem trimSegments_nil_cons (segments : List FileName) :
    Path.trimSegments ([] :: segments) = []
      ∨ ∃ next rest,
        Path.trimSegments ([] :: segments) = [] :: next :: rest := by
  obtain ⟨idle, -, hsegments⟩ := trimSegments_append ([] :: segments)
  cases htrim : Path.trimSegments ([] :: segments) with
  | nil => exact .inl rfl
  | cons first rest =>
      rw [htrim, List.cons_append] at hsegments
      obtain rfl : [] = first := (List.cons.inj hsegments).1
      cases rest with
      | nil =>
          exact absurd (trimSegments_concat (show _ = [] ++ [[]] from htrim))
            (by decide)
      | cons next rest => exact .inr ⟨next, rest, rfl⟩

/-- A dot that a path opens with is followed by a slash, if anything. -/
theorem exists_nil_cons_of_dot {path : Path} (hdot : path.opening = Path.dot)
    {front : List FileName} {last : FileName}
    (h : Path.trimSegments
      (Path.splitSlashes (path.bytes.drop path.opening.length))
      = front ++ [last]) : ∃ rest, front = [] :: rest := by
  rcases opening_cases path with hopening | ⟨rest, hopening, -⟩
    | ⟨-, hbytes | ⟨rest, hbytes⟩⟩
  · rw [hopening] at hdot
    cases hdot
  · rw [hopening] at hdot
    cases hdot
  · rw [hdot, hbytes] at h
    exact absurd h.symm
      (List.append_ne_nil_of_right_ne_nil front (List.cons_ne_nil last []))
  · -- behind the dot there is a slash, so the first segment is empty
    have hsplit : Path.splitSlashes (path.bytes.drop path.opening.length)
        = [] :: Path.splitSlashes rest := by
      rw [hdot, hbytes]
      exact Path.splitSlashes_slash rest
    rw [hsplit] at h
    rcases trimSegments_nil_cons (Path.splitSlashes rest) with hnil
      | ⟨next, more, hmore⟩
    · rw [hnil] at h
      exact absurd h.symm
        (List.append_ne_nil_of_right_ne_nil front (List.cons_ne_nil last []))
    · rw [hmore] at h
      cases front with
      | nil => cases h
      | cons first front =>
          obtain rfl : [] = first := (List.cons.inj h).1
          exact ⟨front, rfl⟩

private theorem stepsOf_trimmed (path : Path) :
    stepsOf (Path.trimSegments
      (Path.splitSlashes (path.bytes.drop path.opening.length)))
      = steps path := by
  rw [stepsOf_trimSegments]
  exact steps_drop_opening path

/-- A parent takes all steps but the last. -/
theorem steps_parent {path parent : Path} (h : path.parent? = some parent) :
    steps parent = (steps path).dropLast := by
  have hsteps := stepsOf_trimmed path
  unfold Path.parent? at h
  dsimp only at h
  split at h
  · next hnone =>
    split at h
    · cases h
      rw [← hsteps, hnone]
      rfl
    · cases h
  · next hbody =>
    cases h
    obtain ⟨front, last, hfront⟩ :=
      (List.eq_nil_or_concat (Path.trimSegments (Path.splitSlashes
        (path.bytes.drop path.opening.length)))).resolve_left hbody
    rw [List.concat_eq_append] at hfront
    -- segments that stay are trimmed from the end, so the last one takes a
    -- step
    have hlast : stepsOf [last] = [Move.ofSegment last] := by
      have hstep : Move.ofSegment last ≠ .stay := fun hstay => by
        rw [ofSegment_eq_stay_iff, trimSegments_concat hfront] at hstay
        cases hstay
      simp [stepsOf, hstep]
    obtain ⟨idle, -, hwhole⟩ := trimSegments_append
      (Path.splitSlashes (path.bytes.drop path.opening.length))
    obtain ⟨idle', -, htrim⟩ := trimSegments_append front
    have hslash : ∀ segment ∈ Path.trimSegments front,
        Path.slash ∉ segment := by
      intro segment hsegment
      have hmem : segment ∈ Path.splitSlashes
          (path.bytes.drop path.opening.length) := by
        rw [hwhole, hfront, htrim]
        simp [hsegment]
      exact Path.slash_notMem_of_mem_splitSlashes hmem
    rw [hfront, List.dropLast_concat, steps_opening_append hslash,
      stepsOf_trimSegments, ← hsteps, hfront, stepsOf_append, hlast,
      List.dropLast_concat]
    intro hdot
    obtain ⟨rest, rfl⟩ := exists_nil_cons_of_dot hdot hfront
    exact trimSegments_nil_cons rest

/-- A path that takes steps has a parent. -/
theorem exists_parent {path : Path} (h : steps path ≠ []) :
    ∃ parent, path.parent? = some parent := by
  unfold Path.parent?
  dsimp only
  split
  · next hnone =>
    refine absurd ?_ h
    rw [← stepsOf_trimmed, hnone]
    rfl
  · exact ⟨_, rfl⟩

/-- The steps of an ancestor are the first ones of the path. -/
theorem steps_ancestor {ancestor path : Path} (h : ancestor ∈ path.ancestors) :
    steps ancestor <+: steps path := by
  have hwithin : ∀ (fuel : Nat) {path : Path},
      ancestor ∈ Path.ancestorsWithin fuel path →
        steps ancestor <+: steps path := by
    intro fuel
    induction fuel with
    | zero =>
        intro path h
        cases h
    | succ fuel ih =>
        intro path h
        rw [Path.ancestorsWithin] at h
        rcases List.mem_cons.1 h with rfl | h
        · exact List.prefix_rfl
        · split at h
          · cases h
          · next parent hparent =>
            refine (ih h).trans ?_
            rw [steps_parent hparent]
            exact List.dropLast_prefix _
  exact hwithin _ h

-- ============================================================== last steps

/-- A path is the way to its last segment, that segment, and slashes. -/
theorem moves_eq_final (path : Path) :
    ∃ k, moves path
      = (finalOf path).above ++ (finalOf path).last.toList
        ++ List.replicate k .stay := by
  have hends : ∀ segments : List FileName, segments.map Move.ofSegment
      = segments.dropLast.map Move.ofSegment
        ++ (segments.getLast?.map Move.ofSegment).toList := by
    intro segments
    rcases List.eq_nil_or_concat segments with rfl | ⟨front, last, rfl⟩
    · rfl
    · simp
  have hempty :
      ∀ segment ∈ (path.segments.reverse.takeWhile List.isEmpty).reverse,
        segment = [] := fun segment h =>
    List.isEmpty_iff.1 (List.mem_takeWhile_imp (List.mem_reverse.1 h))
  have hsegments : path.segments
      = (path.segments.reverse.dropWhile List.isEmpty).reverse
        ++ (path.segments.reverse.takeWhile List.isEmpty).reverse := by
    rw [← List.reverse_append, List.takeWhile_append_dropWhile,
      List.reverse_reverse]
  have hmoves := congrArg (List.map Move.ofSegment) hsegments
  rw [List.eq_replicate_of_mem hempty, List.map_append, List.map_replicate,
    hends (path.segments.reverse.dropWhile List.isEmpty).reverse] at hmoves
  exact ⟨_, hmoves⟩

/-- What the steps of a path say about its last one. -/
theorem steps_eq_final {path : Path} {name : FileName}
    (h : (finalOf path).last = some (.down name)) :
    steps path = (finalOf path).above.filter (· != .stay) ++ [.down name] := by
  obtain ⟨k, hmoves⟩ := moves_eq_final path
  rw [steps, hmoves, h]
  simp

end FileTree

end Datapack
