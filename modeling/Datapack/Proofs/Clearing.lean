/-
Making room for a pack.

What is at the root of a pack is removed in one of three ways: a directory
with all that is in it, a link to a directory, or a file. Each removes the
place that the root leads to before a link at its end is passed, with
everything below it, and leaves all other places as they were.
-/
import Datapack.Proofs.Directories
import Datapack.Proofs.Writing

namespace Datapack.FileTree

variable {tree tree' : FileTree} {path : Path}

-- =============================================================== clearing

/-- Everything strictly below the place is gone, the place itself is unless
it is a directory, and nothing else is. -/
structure Clears (tree : FileTree) (place : Place) (cleared : FileTree) :
    Prop where
  outside : ∀ other, ¬place <+: other → cleared.get? other = tree.get? other
  below : ∀ other, place <+: other → other ≠ place → cleared.get? other = none
  here : cleared.get? place = none
    ∨ cleared.get? place = some .directory ∧ tree.get? place = some .directory
  sound : cleared.Sound

/-- What is left after clearing was there before. -/
theorem Clears.extends_tree {place : Place} (h : tree.Clears place tree') :
    tree'.Extends tree := by
  refine .of_get? fun other entry hentry => ?_
  by_cases hbelow : place <+: other
  · by_cases hother : other = place
    · subst hother
      rcases h.here with hnone | ⟨hcleared, hdirectory⟩
      · rw [hnone] at hentry
        cases hentry
      · rw [← hentry, hcleared, hdirectory]
    · rw [h.below other hbelow hother] at hentry
      cases hentry
  · rw [← h.outside other hbelow]
    exact hentry

/-- An entry that nothing is in may go. -/
theorem Sound.clears_erase (hsound : tree.Sound) {place : Place} {entry : Entry}
    (hplace : place ≠ []) (hentry : tree.get? place = some entry)
    (hne : entry ≠ .directory) :
    tree.Clears place (tree.erase place) := by
  have hget := tree.get?_erase hplace
  have hdirectory : tree.get? place ≠ some .directory := by
    rw [hentry]
    exact fun h => hne (Option.some.inj h)
  constructor
  · intro other hother
    rw [hget, if_neg]
    rintro rfl
    exact hother List.prefix_rfl
  · intro other hbelow hother
    rw [hget, if_neg hother]
    exact hsound.none_below hbelow hother hdirectory
  · exact .inl (by rw [hget, if_pos rfl])
  · intro other name h
    rw [hget] at h
    split at h
    · cases h
    · have hat := hsound other name h
      rw [hget, if_neg]
      · exact hat
      · rintro rfl
        exact hdirectory hat

/-- Erasing what is below a directory clears it and keeps the directory. -/
private theorem Sound.clears_eraseBelow (hsound : tree.Sound) {place : Place}
    (hdirectory : tree.get? place = some .directory) :
    tree.Clears place (tree.eraseBelow place) := by
  have hget := tree.get?_eraseBelow place
  constructor
  · intro other hother
    rw [hget, if_neg fun h => hother h.1]
  · intro other hbelow hother
    rw [hget, if_pos ⟨hbelow, hother⟩]
  · exact .inr ⟨by rw [hget, if_neg fun h => h.2 rfl, hdirectory], hdirectory⟩
  · intro other name h
    rw [hget] at h
    split at h
    · cases h
    · next hnot =>
      -- what is in a place that is kept is kept, unless it is below the place
      rw [hget,
        if_neg fun hbelow => hnot ⟨hbelow.1.trans (List.prefix_append _ _), ?_⟩]
      · exact hsound other name h
      · rintro rfl
        have hle := hbelow.1.length_le
        rw [List.length_append, List.length_singleton] at hle
        omega

/-- A directory that was cleared below may go as well. -/
theorem Clears.erase {place : Place} (h : tree.Clears place tree')
    (hplace : place ≠ []) :
    tree.Clears place (tree'.erase place) := by
  have hget := tree'.get?_erase hplace
  constructor
  · intro other hother
    rw [hget, if_neg]
    · exact h.outside other hother
    · rintro rfl
      exact hother List.prefix_rfl
  · intro other hbelow hother
    rw [hget, if_neg hother]
    exact h.below other hbelow hother
  · exact .inl (by rw [hget, if_pos rfl])
  · intro other name hentry
    rw [hget] at hentry
    split at hentry
    · cases hentry
    · rw [hget, if_neg]
      · exact h.sound other name hentry
      · rintro rfl
        rw [h.below _ (List.prefix_append _ _) (by simp)] at hentry
        cases hentry

-- =============================================================== removing

/-- A file is removed where its path leads, and it was not a directory. -/
private theorem removeFile_eq_ok (h : tree.removeFile path = (.ok (), tree')) :
    ∃ directory name entry, tree.Reaches path directory name
      ∧ tree.get? (directory ++ [name]) = some entry ∧ entry ≠ .directory
      ∧ tree' = tree.erase (directory ++ [name]) := by
  unfold removeFile at h
  split at h
  · cases h
  · next directory hdirectory =>
    obtain ⟨hcheck, habove, hplace⟩ := directoryOf_eq_ok_iff.1 hdirectory
    split at h
    · next name hlast =>
      split at h
      · cases h
      · cases h
      · cases h
      · next entry hne hlook =>
        obtain ⟨hname, hentry⟩ := look_eq_ok hlook
        cases h
        exact ⟨directory, name, entry, ⟨hcheck, hlast, habove, hplace, hname⟩,
          hentry, hne, rfl⟩
    · cases h

/-- A file that cannot be removed is left where it is. -/
theorem removeFile_eq_error {fault : FileFault}
    (h : tree.removeFile path = (.error fault, tree')) :
    tree' = tree := by
  unfold removeFile at h
  split at h
  · cases h
    rfl
  · split at h
    · split at h <;> cases h <;> rfl
    · cases h
      rfl

/-- Removing a directory fails and changes nothing, or it removes the
directory that the path leads to. -/
theorem removeDirectory_cases {outcome : Except FileFault Unit}
    (h : tree.removeDirectory path = (outcome, tree')) :
    (∃ fault, outcome = .error fault) ∧ tree' = tree
      ∨ ∃ directory name, outcome = .ok () ∧ tree.Reaches path directory name
        ∧ tree.get? (directory ++ [name]) = some .directory
        ∧ tree' = tree.erase (directory ++ [name]) := by
  -- every fault leaves the tree as it is
  have hfault : ∀ {fault : FileFault},
      (Except.error fault, tree) = (outcome, tree') →
        (∃ fault, outcome = .error fault) ∧ tree' = tree := by
    intro fault heq
    cases heq
    exact ⟨⟨fault, rfl⟩, rfl⟩
  unfold removeDirectory at h
  split at h
  · exact .inl (hfault h)
  · next directory hdirectory =>
    obtain ⟨hcheck, habove, hplace⟩ := directoryOf_eq_ok_iff.1 hdirectory
    split at h
    · exact .inl (hfault h)
    · exact .inl (hfault h)
    · exact .inl (hfault h)
    · next name hlast =>
      dsimp only at h
      split at h
      · exact .inl (hfault h)
      · exact .inl (hfault h)
      · next hlook =>
        split at h
        · exact .inl (hfault h)
        · obtain ⟨hname, hentry⟩ := look_eq_ok hlook
          cases h
          exact .inr ⟨directory, name, rfl,
            ⟨hcheck, hlast, habove, hplace, hname⟩, hentry, rfl⟩
      · exact .inl (hfault h)

/-- The path of an entry that is no directory leads to the entry, unless a
link at its end is passed. -/
theorem Reaches.resolve_last {directory place : Place} {name : FileName}
    {entry : Entry} {final : Bool} (h : tree.Reaches path directory name)
    (hentry : tree.get? (directory ++ [name]) = some entry)
    (hplace : tree.resolve final path = .ok place)
    (hne : tree.get? place ≠ some .directory) :
    tree.resolve false path = .ok (directory ++ [name]) := by
  obtain ⟨k, hmoves⟩ := moves_eq_final path
  obtain ⟨hcheck, hleads⟩ := resolve_eq_ok_iff.1 hplace
  rw [hmoves] at hleads
  cases k with
  | succ k =>
      -- a path that ends in a slash leads to directories only
      obtain ⟨between, -, hstays⟩ :=
        hleads.of_append (.inr (List.cons_ne_nil _ _))
      obtain ⟨rfl, hdirectory⟩ := hstays.of_replicate_stay
      exact absurd hdirectory hne
  | zero =>
      have hlast : tree.Leads false 0 directory [.down name]
          (directory ++ [name]) := by
        cases entry with
        | link path => exact .last h.directory h.short hentry rfl
        | directory =>
            exact .down h.directory h.short hentry
              (fun _ hlink => nomatch hlink) .here
        | file content =>
            exact .down h.directory h.short hentry
              (fun _ hlink => nomatch hlink) .here
      refine resolve_eq_ok_iff.2 ⟨hcheck, ?_⟩
      rw [hmoves, h.last]
      simpa using h.above.append hlast (.inr (List.cons_ne_nil _ _))

/-- Removing everything at a path fails and changes nothing, or the place of
the path is cleared. It can fail after that as well, and leave the directory
itself. -/
theorem removeAll_cases (hsound : tree.Sound) {outcome : Except FileFault Unit}
    (h : tree.removeAll path = (outcome, tree')) :
    (∃ fault, outcome = .error fault) ∧ tree' = tree
      ∨ ∃ place,
        tree.resolve false path = .ok place ∧ tree.Clears place tree' := by
  unfold removeAll at h
  split at h
  · cases h
    exact .inl ⟨⟨_, rfl⟩, rfl⟩
  · next place hplace =>
    split at h
    · next target hlink =>
      cases outcome with
      | error fault => exact .inl ⟨⟨fault, rfl⟩, removeFile_eq_error h⟩
      | ok _ =>
          obtain ⟨directory, name, entry, hreaches, hentry, hne, rfl⟩ :=
            removeFile_eq_ok h
          refine .inr
            ⟨directory ++ [name], hreaches.resolve_last hentry hplace ?_,
              hsound.clears_erase (concat_ne_nil directory name) hentry hne⟩
          rw [hlink]
          exact fun h => nomatch h
    · next hdirectory =>
      have hclears := hsound.clears_eraseBelow hdirectory
      rcases hremoved : (tree.eraseBelow place).removeDirectory
        path with ⟨removed, after⟩
      rw [hremoved] at h
      have hafter : tree' = after := by
        split at h
        · next heq =>
          cases heq
          exact (congrArg Prod.snd h).symm
        · exact (congrArg Prod.snd h).symm
      rw [hafter]
      refine .inr ⟨place, hplace, ?_⟩
      rcases removeDirectory_cases hremoved with ⟨-, rfl⟩
        | ⟨directory, name, -, hreaches, hentry, rfl⟩
      · exact hclears
      · -- the path leads to the same directory when everything is still there
        have hthere :=
          (hreaches.extends_tree hclears.extends_tree).resolve false
            (hclears.extends_tree.directory hentry)
        rw [hplace] at hthere
        cases hthere
        exact hclears.erase (concat_ne_nil directory name)
    · cases h
      exact .inl ⟨⟨_, rfl⟩, rfl⟩

/-- Removing everything at a path clears the place it is resolved to. -/
private theorem removeAll_eq_ok (hsound : tree.Sound)
    (h : tree.removeAll path = (.ok (), tree')) :
    ∃ place, tree.resolve false path = .ok place ∧ tree.Clears place tree' := by
  rcases removeAll_cases hsound h with ⟨⟨fault, hfault⟩, -⟩ | hcleared
  · cases hfault
  · exact hcleared

/-- A path is resolved to the same place with a link at its end passed, or
its last name is that of a link. -/
theorem resolve_false_cases {place : Place}
    (h : tree.resolve false path = .ok place) :
    tree.resolve true path = .ok place
      ∨ ∃ front directory name target, moves path = front ++ [.down name]
        ∧ tree.Leads true maxLinks [] front directory
          ∧ place = directory ++ [name]
        ∧ tree.get? place = some (.link target) := by
  obtain ⟨hcheck, hleads⟩ := resolve_eq_ok_iff.1 h
  obtain ⟨front, move, hmoves⟩ :=
    (List.eq_nil_or_concat (moves path)).resolve_left fun hnil =>
      Path.splitSlashes_ne_nil _ (List.map_eq_nil_iff.1 hnil)
  rw [List.concat_eq_append] at hmoves
  rw [hmoves] at hleads
  obtain ⟨directory, hfront, hmove⟩ :=
    hleads.of_append (.inr (List.cons_ne_nil _ _))
  -- a last move that passes no link is the same with and without passing it
  have hpassed : tree.Leads true 0 directory [move] place →
      tree.resolve true path = .ok place := by
    intro hlast
    refine resolve_eq_ok_iff.2 ⟨hcheck, ?_⟩
    rw [hmoves]
    exact hfront.append hlast (.inl rfl)
  cases hmove with
  | stay hplace hrest =>
      cases hrest
      exact .inl (hpassed (.stay hplace .here))
  | up hplace hrest =>
      cases hrest
      exact .inl (hpassed (.up hplace .here))
  | down hplace hname hentry hplain hrest =>
      cases hrest
      exact .inl (hpassed (.down hplace hname hentry hplain .here))
  | link _ _ _ hfinal => simp at hfinal
  | last _ _ hentry =>
      exact .inr ⟨front, directory, _, _, hmoves, hfront, rfl, hentry⟩

/-- Where a path leads that still leads somewhere after its place was
cleared. A link at its end would have been removed. -/
theorem Clears.resolve_eq {place removed : Place}
    (h : tree.Clears removed tree')
    (hremoved : tree.resolve false path = .ok removed)
    (hplace : tree'.resolve true path = .ok place) : removed = place := by
  obtain ⟨hcheck, hleads⟩ := resolve_eq_ok_iff.1 hplace
  rcases resolve_false_cases hremoved with hpassed
    | ⟨front, directory, name, target, hmoves, hfront, rfl, hlink⟩
  · have hbefore := resolve_eq_ok_iff.2 ⟨hcheck, h.extends_tree.leads hleads⟩
    exact Except.ok.inj (hpassed.symm.trans hbefore)
  · rw [hmoves] at hleads
    obtain ⟨between, hbetween, hname⟩ := hleads.of_append (.inl rfl)
    obtain rfl := (h.extends_tree.leads hbetween).unique hfront
    obtain ⟨-, entry, hentry⟩ := hname.entry_of_down
    rcases h.here with hnone | ⟨-, hdirectory⟩
    · rw [hnone] at hentry
      cases hentry
    · rw [hlink] at hdirectory
      cases hdirectory

/-- A path is there if it is resolved, links included, to a place with
an entry. -/
theorem contains_iff :
    tree.contains path = true
      ↔ ∃ place entry,
        tree.resolve true path = .ok place ∧ tree.get? place = some entry := by
  unfold contains find?
  cases tree.resolve true path with
  | error fault => simp
  | ok place => simp [Option.isSome_iff_exists]

/-- A directory is there. -/
theorem contains_of_isDirectory (h : tree.isDirectory path = true) :
    tree.contains path = true := by
  obtain ⟨place, hplace, hdirectory⟩ := isDirectory_iff.1 h
  exact contains_iff.2 ⟨place, _, hplace, hdirectory⟩

end Datapack.FileTree

/-- A root that is out of the way was not there, or the place of the root
was cleared. -/
theorem Datapack.DirectoryWriter.Cleared.cases {tree cleared : FileTree}
    {root : Path} {overwrite : Bool} (h : Cleared tree root overwrite cleared)
    (hsound : tree.Sound) :
    tree.contains root = false ∧ cleared = tree
      ∨ tree.contains root = true
        ∧ ∃ place,
          tree.resolve false root = .ok place ∧ tree.Clears place cleared := by
  cases h with
  | absent habsent => exact .inl ⟨habsent, rfl⟩
  | directory _ hdirectory hremoved =>
      exact .inr ⟨FileTree.contains_of_isDirectory hdirectory,
        FileTree.removeAll_eq_ok hsound hremoved⟩
  | file _ hpresent hfile hremoved =>
      obtain ⟨directory, name, entry, hreaches, hentry, hne, rfl⟩ :=
        FileTree.removeFile_eq_ok hremoved
      obtain ⟨place, found, hplace, hfound⟩ := FileTree.contains_iff.1 hpresent
      have hother : tree.get? place ≠ some .directory := fun hdirectory => by
        rw [FileTree.isDirectory_iff.2 ⟨place, hplace, hdirectory⟩] at hfile
        cases hfile
      exact .inr ⟨hpresent, directory ++ [name],
        hreaches.resolve_last hentry hplace hother,
        hsound.clears_erase (FileTree.concat_ne_nil directory name) hentry hne⟩
