/-
How far operations on files can reach.

Moves that never lead above where they start stay below it, if there are no
links there (`Leads.inside`). For directories that are made on the way to a
path this is not enough to know where a path leads in the end, since making
them may stop halfway. `MadeAlong` keeps the directories one by one, so that
each is known by the step that made it, and `Raised` says of all of them
where they may be.

A tree without what is at a place or below it stands for all trees that
differ from it there only. What leads somewhere without the place leads there
in all of them.
-/
import Datapack.Proofs.WrittenPacks

namespace Datapack.FileTree

variable {tree tree' tree'' : FileTree} {path : Path}

-- ================================================================= inside

/-- The moves never lead above a directory that they start from, or from
`depth` names below. -/
def staysInside : Nat → List Move → Bool
  | _, [] => true
  | depth, .stay :: rest => staysInside depth rest
  | 0, .up :: _ => false
  | depth + 1, .up :: rest => staysInside depth rest
  | depth, .down _ :: rest => staysInside (depth + 1) rest

/-- Moves stay inside as far as one looks. -/
theorem staysInside_append {depth : Nat} {front back : List Move}
    (h : staysInside depth (front ++ back) = true) :
    staysInside depth front = true := by
  induction front generalizing depth with
  | nil => rw [staysInside]
  | cons move rest ih =>
      cases move with
      | stay => exact ih h
      | up =>
          cases depth with
          | zero => cases h
          | succ depth => exact ih h
      | down name => exact ih h

/-- Moves that never go up stay inside. -/
theorem staysInside_of_notMem {moves : List Move} (h : .up ∉ moves)
    (depth : Nat) :
    staysInside depth moves = true := by
  induction moves generalizing depth with
  | nil => rw [staysInside]
  | cons move rest ih =>
      rw [List.mem_cons, not_or] at h
      cases move with
      | stay => exact ih h.2 depth
      | up => exact absurd rfl h.1
      | down name => exact ih h.2 (depth + 1)

/-- Where there are no links, such moves lead to something below. -/
theorem Leads.inside {final : Bool} {n : Nat} {place target : Place}
    {names : List FileName} {moves : List Move}
    (hunlinked : ∀ names target,
      tree.get? (place ++ names) ≠ some (.link target))
    (hinside : staysInside names.length moves = true)
    (h : tree.Leads final n (place ++ names) moves target) :
    place <+: target := by
  generalize hstart : place ++ names = start at h
  induction h generalizing names with
  | here => exact ⟨names, hstart⟩
  | stay _ _ ih => exact ih hinside hstart
  | up _ _ ih =>
      -- the way up takes back a name, of which there is one
      rcases List.eq_nil_or_concat names with rfl | ⟨front, name, rfl⟩
      · cases hinside
      · rw [List.concat_eq_append] at hinside hstart
        rw [List.length_append, List.length_singleton, staysInside] at hinside
        refine ih hinside ?_
        rw [← hstart, ← List.append_assoc, List.dropLast_concat]
  | @down _ _ _ name _ _ _ _ _ _ _ ih =>
      rw [staysInside, ← List.length_singleton (a := name),
        ← List.length_append] at hinside
      refine ih hinside ?_
      rw [← hstart, List.append_assoc]
  | link _ _ hentry =>
      rw [← hstart, List.append_assoc] at hentry
      exact absurd hentry (hunlinked _ _)
  | last _ _ hentry =>
      rw [← hstart, List.append_assoc] at hentry
      exact absurd hentry (hunlinked _ _)

/-- Names lead down to themselves if there are no links before the last of
them, which itself is not passed. -/
theorem Leads.eq_append_names_of_last {n : Nat} {place target : Place}
    {names : List FileName} (hne : names ≠ [])
    (hlinks : ∀ front path, front ≠ [] → front <+: names → front ≠ names →
      tree.get? (place ++ front) ≠ some (.link path))
    (h : tree.Leads false n place (names.map .down) target) :
    target = place ++ names := by
  obtain ⟨front, name, rfl⟩ := (List.eq_nil_or_concat names).resolve_left hne
  rw [List.concat_eq_append] at hlinks h ⊢
  rw [List.map_append] at h
  obtain ⟨between, hfront, hlast⟩ := h.of_append (.inr (List.cons_ne_nil _ _))
  have hbetween : between = place ++ front := by
    refine hfront.eq_append_names fun more path hmore hle => ?_
    refine hlinks more path hmore (hle.trans (List.prefix_append _ _))
      fun heq => ?_
    have hlength := hle.length_le
    rw [heq, List.length_append, List.length_singleton] at hlength
    omega
  have htarget : target = between ++ [name] := by
    cases hlast with
    | down _ _ _ _ hrest =>
        cases hrest
        rfl
    | link _ _ _ hfinal => simp at hfinal
    | last => rfl
  rw [htarget, hbetween, List.append_assoc]

/-- The moves of a path seen from another end in its own. -/
theorem exists_moves_join {inner : Path} (path : Path)
    (h : inner.isAbsolute = false) :
    ∃ front, moves (path.join inner) = front ++ moves inner
      ∧ front.filter (· != .stay) = steps path := by
  have hslash : ∀ front back : List UInt8,
      moves ⟨front ++ Path.slash :: back⟩ = moves ⟨front⟩ ++ moves ⟨back⟩ := by
    intro front back
    simp [moves, Path.segments, Path.splitSlashes_append]
  unfold Path.join
  rw [h, Bool.false_or]
  split
  · next hempty =>
    obtain ⟨bytes⟩ := path
    obtain rfl : bytes = [] := List.isEmpty_iff.1 hempty
    exact ⟨[], rfl, rfl⟩
  · split
    · next hlast =>
      obtain ⟨front, hfront⟩ := List.getLast?_eq_some_iff.1 (beq_iff_eq.1 hlast)
      obtain ⟨bytes⟩ := path
      dsimp only at hfront
      subst hfront
      refine ⟨moves ⟨front⟩, ?_, ?_⟩
      · rw [List.append_assoc, List.cons_append, List.nil_append]
        exact hslash front inner.bytes
      · exact ((steps_append_slash front []).trans (List.append_nil _)).symm
    · exact ⟨moves path, hslash path.bytes inner.bytes, rfl⟩

-- ================================================================= making

/-- Directories were made one after the other, each for one of the paths. -/
inductive MadeAlong (paths : List Path) (tree : FileTree) : FileTree → Prop
  | nothing : MadeAlong paths tree tree
  | next {between made : FileTree} {path : Path}
      (h : MadeAlong paths tree between) (hpath : path ∈ paths)
      (hmade : between.makeDirectory path = (.ok (), made)) :
      MadeAlong paths tree made

private theorem MadeAlong.mono {paths paths' : List Path}
    (h : MadeAlong paths tree tree') (hsub : paths ⊆ paths') :
    MadeAlong paths' tree tree' := by
  induction h with
  | nothing => exact .nothing
  | next _ hpath hmade ih => exact ih.next (hsub hpath) hmade

/-- Whether it succeeds or stops, making directories has made them one after
the other. -/
theorem madeAlong_of_makeDirectoriesAlong {paths : List Path}
    {outcome : Except FileFault Unit}
    (h : tree.makeDirectoriesAlong paths = (outcome, tree')) :
    MadeAlong paths tree tree' := by
  induction paths generalizing tree' outcome with
  | nil =>
      cases h
      exact .nothing
  | cons path parents ih =>
      have hsub : parents ⊆ path :: parents :=
        List.subset_cons_self path parents
      -- the parents may have been made, and the path after them, wherever it
      -- stops
      rw [makeDirectoriesAlong] at h
      split at h
      · cases h
        exact .nothing
      · split at h
        · next hmade =>
          cases h
          exact MadeAlong.nothing.next List.mem_cons_self hmade
        · split at h
          · next hparents =>
            cases h
            exact (ih hparents).mono hsub
          · next hparents =>
            split at h
            · next hmade =>
              cases h
              exact ((ih hparents).mono hsub).next List.mem_cons_self hmade
            · split at h
              · cases h
                exact (ih hparents).mono hsub
              · cases h
                exact (ih hparents).mono hsub
        · split at h
          · cases h
            exact .nothing
          · cases h
            exact .nothing

/-- The tree has the entries that it had, and new directories at allowed
places only. -/
structure Raised (allowed : Place → Prop) (tree tree' : FileTree) : Prop where
  kept : ∀ place entry,
    tree.get? place = some entry → tree'.get? place = some entry
  added : ∀ place, tree.get? place = none → tree'.get? place = none
    ∨ tree'.get? place = some .directory ∧ allowed place
  sound : tree.Sound → tree'.Sound

namespace Raised

variable {allowed : Place → Prop}

/-- A tree that was raised has all the entries it had. -/
theorem extends_tree (h : Raised allowed tree tree') : tree.Extends tree' :=
  .of_get? h.kept

private theorem refl (tree : FileTree) : Raised allowed tree tree where
  kept _ _ h := h
  added _ h := .inl h
  sound h := h

private theorem trans (h : Raised allowed tree tree')
    (h' : Raised allowed tree' tree'') :
    Raised allowed tree tree'' where
  kept place entry hentry := h'.kept place entry (h.kept place entry hentry)
  added place hnone := by
    rcases h.added place hnone with hnone' | ⟨hdirectory, hallowed⟩
    · exact h'.added place hnone'
    · exact .inr ⟨h'.kept place _ hdirectory, hallowed⟩
  sound hsound := h'.sound (h.sound hsound)

/-- Every place is as it was, or is an allowed one with a new directory. -/
theorem get?_cases (h : Raised allowed tree tree') (place : Place) :
    tree'.get? place = tree.get? place
      ∨ tree.get? place = none
        ∧ tree'.get? place = some .directory ∧ allowed place := by
  cases hentry : tree.get? place with
  | none => exact (h.added place hentry).imp_right fun hnew => ⟨rfl, hnew⟩
  | some entry => exact .inl (h.kept place entry hentry)

/-- No links are made. -/
theorem unlinked (h : Raised allowed tree tree') {place : Place} {target : Path}
    (hplace : tree.get? place ≠ some (.link target)) :
    tree'.get? place ≠ some (.link target) := by
  rcases h.get?_cases place with hsame | ⟨-, hnew, -⟩
  · rwa [hsame]
  · rw [hnew]
    exact fun hlink => nomatch hlink

/-- A new directory at an allowed place raises a tree. -/
private theorem set {directory : Place} {name : FileName}
    (hdirectory : tree.get? directory = some .directory)
    (hnone : tree.get? (directory ++ [name]) = none)
    (hallowed : allowed (directory ++ [name])) :
    Raised allowed tree (tree.set (directory ++ [name]) .directory) := by
  have hget := tree.get?_set (concat_ne_nil directory name) .directory
  have hextends : tree.Extends (tree.set (directory ++ [name]) .directory) := by
    refine extends_set (concat_ne_nil directory name) fun old hold => ?_
    rw [hnone] at hold
    cases hold
  refine ⟨fun place entry hentry => ?_, fun place hplace => ?_,
    fun h => h.set hextends hdirectory⟩
  · rw [hget, if_neg]
    · exact hentry
    · rintro rfl
      rw [hnone] at hentry
      cases hentry
  · rw [hget]
    split
    · next heq => exact .inr ⟨rfl, heq ▸ hallowed⟩
    · exact .inl hplace

end Raised

/-- If every step that makes a directory makes it at an allowed place, all of
them are at such places. -/
theorem MadeAlong.raised {allowed : Place → Prop} {paths : List Path}
    (h : MadeAlong paths tree tree')
    (hallowed : ∀ {between : FileTree} {path : Path} {directory : Place}
      {name : FileName}, Raised allowed tree between →
        path ∈ paths → between.Reaches path directory name →
      between.get? (directory ++ [name]) = none →
        allowed (directory ++ [name])) :
    Raised allowed tree tree' := by
  induction h with
  | nothing => exact .refl tree
  | next _ hpath hmade ih =>
      obtain ⟨directory, name, hreaches, hnone, rfl⟩ := create_eq_ok hmade
      exact ih.trans
        (.set hreaches.directory hnone (hallowed ih hpath hreaches hnone))

/-- The directory of a path is where the moves before the last name lead. -/
private theorem Reaches.leads_above {directory : Place} {name : FileName}
    (h : tree.Reaches path directory name) :
    tree.Leads true maxLinks [] ((finalOf path).above.filter (· != .stay))
      directory :=
  h.above.of_steps h.directory (by rw [List.filter_filter]; simp)

/-- The steps of a path behind those that lead to a place lead on from
there. -/
theorem Reaches.behind {directory place : Place} {name : FileName}
    {base between : List Move} (h : tree.Reaches path directory name)
    (hbase : tree.Leads true maxLinks [] base place)
    (hsteps : steps path = base ++ (between ++ [.down name])) :
    tree.Leads true maxLinks place between directory := by
  have habove := h.leads_above
  have hfront : (finalOf path).above.filter (· != .stay) = base ++ between := by
    rw [h.steps_eq, ← List.append_assoc] at hsteps
    exact (List.append_inj' hsteps rfl).1
  rw [hfront] at habove
  obtain ⟨other, hother, hbetween⟩ := habove.of_append (.inl rfl)
  obtain rfl := hother.unique hbase
  exact hbetween

/-- A step that finds nothing is taken behind everything that is there: if
the path starts with steps that lead somewhere, it takes more than these. -/
theorem Reaches.beyond {directory place : Place} {name : FileName}
    {base more : List Move} (h : tree.Reaches path directory name)
    (hnone : tree.get? (directory ++ [name]) = none)
    (hbase : tree.Leads true maxLinks [] base place)
    (hpath : steps path <+: base ++ more) :
    ∃ between, between ++ [.down name] <+: more
      ∧ tree.Leads true maxLinks place between directory := by
  have hsteps := h.steps_eq
  -- the path cannot end within the base, all of which is there
  have hlonger : ¬steps path <+: base := by
    rintro ⟨rest, hrest⟩
    rw [hsteps, List.append_assoc] at hrest
    rw [← hrest] at hbase
    obtain ⟨other, hother, hname⟩ := hbase.of_append (.inl rfl)
    obtain rfl := hother.unique h.leads_above
    obtain ⟨-, entry, hentry⟩ := hname.entry_of_down
    rw [hnone] at hentry
    cases hentry
  obtain ⟨rest, hrest⟩ :=
    (List.prefix_or_prefix_of_prefix hpath
      (List.prefix_append base more)).resolve_left hlonger
  have hne : rest ≠ [] := by
    rintro rfl
    rw [List.append_nil] at hrest
    exact hlonger (hrest ▸ List.prefix_rfl)
  obtain ⟨between, last, rfl⟩ := (List.eq_nil_or_concat rest).resolve_left hne
  rw [List.concat_eq_append] at hrest
  obtain rfl : last = .down name := by
    rw [hsteps, ← List.append_assoc] at hrest
    exact (List.cons.inj (List.append_inj' hrest rfl).2).1
  rw [← hrest] at hpath
  exact ⟨between, (List.prefix_append_right_inj base).1 hpath,
    h.behind hbase hrest.symm⟩

-- ================================================================ without

/-- The tree without what is at a place or below it. -/
def without (tree : FileTree) (place : Place) : FileTree :=
  ⟨tree.entries.filter fun old => !place.isPrefixOf old.1⟩

/-- Without a place everything at it and below it is gone. -/
theorem get?_without (tree : FileTree) {place : Place} (hplace : place ≠ [])
    (other : Place) :
    (tree.without place).get? other
      = if place <+: other then none else tree.get? other := by
  by_cases hother : other = []
  · subst hother
    rw [if_neg fun h => hplace (List.prefix_nil.1 h)]
    rfl
  · have hkept :=
      find?_filter_key (fun old => !place.isPrefixOf old) other tree.entries
    rw [get?_of_ne_nil _ hother, get?_of_ne_nil _ hother, without, hkept]
    by_cases hbelow : place <+: other
    · rw [if_pos hbelow, List.isPrefixOf_iff_prefix.2 hbelow]
      rfl
    · have hkeep : place.isPrefixOf other = false :=
        Bool.eq_false_iff.2 fun h => hbelow (List.isPrefixOf_iff_prefix.1 h)
      rw [if_neg hbelow, hkeep]
      rfl

/-- What differs from a tree at a place and below it only has everything that
is left without the place. -/
theorem extends_of_outside {place : Place} (hplace : place ≠ [])
    (h : ∀ other, ¬place <+: other → tree'.get? other = tree.get? other) :
    (tree.without place).Extends tree' := by
  refine .of_get? fun other entry hentry => ?_
  rw [tree.get?_without hplace] at hentry
  split at hentry
  · cases hentry
  · next hother => rw [h other hother, hentry]

end Datapack.FileTree
