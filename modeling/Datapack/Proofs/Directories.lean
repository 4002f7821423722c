/-
Making directories.

What an operation that succeeded did to a tree is said for all places at
once. A tree that was grown has the entries it had, and new directories at
places that the paths lead to (`Grown`). Directories are made for a path from
the nearest ancestor that is there, so a path without ways up leads to a
directory that was there before or to a new one (`isDirectory_or_new`).
-/
import Datapack.Proofs.Resolving

namespace Datapack.FileTree

-- ================================================================ entries

/-- Entries that are kept for their places are found where the place is
kept. -/
theorem find?_filter_key (keep : Place → Bool) (place : Place)
    (entries : List (Place × Entry)) :
    (entries.filter fun entry => keep entry.1).find?
      (fun entry => entry.1 == place)
      = if keep place then entries.find? (fun entry => entry.1 == place)
        else none := by
  rw [List.find?_filter]
  split
  · next hkeep =>
    congr 1
    funext entry
    by_cases hplace : entry.1 = place
    · simp [hplace, hkeep]
    · simp [hplace]
  · next hkeep =>
    rw [List.find?_eq_none]
    intro entry _ hentry
    simp only [decide_eq_true_eq, beq_iff_eq] at hentry
    exact hkeep (hentry.2 ▸ hentry.1)

theorem get?_of_ne_nil (tree : FileTree) {place : Place} (h : place ≠ []) :
    tree.get? place
      = (tree.entries.find? fun entry => entry.1 == place).map Prod.snd :=
  if_neg (by simpa using h)

/-- What is found in a tree after an entry was set. -/
theorem get?_set (tree : FileTree) {place : Place} (hplace : place ≠ [])
    (entry : Entry) (other : Place) :
    (tree.set place entry).get? other
      = if other = place then some entry else tree.get? other := by
  by_cases hother : other = []
  · subst hother
    rw [if_neg hplace.symm]
    rfl
  · have hkept := find?_filter_key (fun old => old != place) other tree.entries
    rw [get?_of_ne_nil _ hother, get?_of_ne_nil _ hother, set,
      List.find?_append, hkept]
    by_cases heq : other = place
    · subst heq
      simp
    · simp [heq, Ne.symm heq]

/-- What is found in a tree after a place was erased. -/
theorem get?_erase (tree : FileTree) {place : Place} (hplace : place ≠ [])
    (other : Place) :
    (tree.erase place).get? other
      = if other = place then none else tree.get? other := by
  by_cases hother : other = []
  · subst hother
    rw [if_neg hplace.symm]
    rfl
  · have hkept := find?_filter_key (fun old => old != place) other tree.entries
    rw [get?_of_ne_nil _ hother, get?_of_ne_nil _ hother, erase, hkept]
    by_cases heq : other = place <;> simp [heq]

/-- Being below a place means going on behind it. -/
private theorem isBelow_iff {place above : Place} :
    isBelow place above = true ↔ above <+: place ∧ place ≠ above := by
  simp [isBelow]

/-- What is found in a tree after everything below a place was erased. -/
theorem get?_eraseBelow (tree : FileTree) (place other : Place) :
    (tree.eraseBelow place).get? other
      = if place <+: other ∧ other ≠ place then none else tree.get? other := by
  by_cases hother : other = []
  · subst hother
    rw [if_neg fun h => h.2 (List.prefix_nil.1 h.1).symm]
    rfl
  · have hkept :=
      find?_filter_key (fun old => !isBelow old place) other tree.entries
    rw [get?_of_ne_nil _ hother, get?_of_ne_nil _ hother, eraseBelow, hkept]
    by_cases hbelow : place <+: other ∧ other ≠ place
    · rw [if_pos hbelow, isBelow_iff.2 hbelow]
      rfl
    · have hkeep : isBelow other place = false :=
        Bool.eq_false_iff.2 fun h => hbelow (isBelow_iff.1 h)
      rw [if_neg hbelow, hkeep]
      rfl

theorem concat_ne_nil (place : Place) (name : FileName) :
    place ++ [name] ≠ [] :=
  List.append_ne_nil_of_right_ne_nil place (List.cons_ne_nil name [])

section

variable {tree : FileTree} {entry : Entry}

/-- An entry in place of one that leads on in the same way, or of none. -/
theorem extends_set {place : Place} (hplace : place ≠ [])
    (h : ∀ old, tree.get? place = some old → Alike old entry) :
    tree.Extends (tree.set place entry) := by
  intro other old hold
  rw [tree.get?_set hplace]
  split
  · next heq => exact ⟨entry, rfl, h old (heq ▸ hold)⟩
  · exact ⟨old, hold, .refl old⟩

/-- A tree stays sound when an entry is added in a directory of it. -/
theorem Sound.set (h : tree.Sound) {directory : Place} {name : FileName}
    (hextends : tree.Extends (tree.set (directory ++ [name]) entry))
    (hdirectory : tree.get? directory = some .directory) :
    (tree.set (directory ++ [name]) entry).Sound := by
  intro place last hlast
  rw [tree.get?_set (concat_ne_nil directory name)] at hlast
  split at hlast
  · next heq =>
    obtain ⟨rfl, -⟩ := List.append_inj' heq rfl
    exact hextends.directory hdirectory
  · exact hextends.directory (h place last hlast)

end

-- ================================================================= looking

variable {tree tree' tree'' : FileTree} {path : Path}

/-- The last step of a path is taken from a directory. -/
structure Reaches (tree : FileTree) (path : Path) (directory : Place)
    (name : FileName) : Prop where
  check : checkPath path = .ok ()
  last : (finalOf path).last = some (.down name)
  above : tree.Leads true maxLinks [] (finalOf path).above directory
  directory : tree.get? directory = some .directory
  short : name.length ≤ maxName

namespace Reaches

variable {directory : Place} {name : FileName}

/-- Where a path reaches, it reaches in every tree with more entries. -/
theorem extends_tree (h : tree.Reaches path directory name)
    (hextends : tree.Extends tree') :
    tree'.Reaches path directory name :=
  ⟨h.check, h.last, hextends.leads h.above, hextends.directory h.directory,
    h.short⟩

/-- A directory that the last step leads to is where the path leads. -/
theorem resolve (h : tree.Reaches path directory name) (final : Bool)
    (hentry : tree.get? (directory ++ [name]) = some .directory) :
    tree.resolve final path = .ok (directory ++ [name]) := by
  rw [resolve_eq_ok_iff]
  refine ⟨h.check, ?_⟩
  obtain ⟨k, hmoves⟩ := moves_eq_final path
  have hdown : tree.Leads final 0 directory
      (.down name :: List.replicate k .stay) (directory ++ [name]) :=
    .down h.directory h.short hentry (fun _ hlink => nomatch hlink)
      (.replicate_stay hentry k)
  rw [hmoves, h.last, List.append_assoc]
  exact h.above.append hdown (.inr (List.cons_ne_nil _ _))

/-- The steps of the path are those of the directory and the name. -/
theorem steps_eq (h : tree.Reaches path directory name) :
    steps path = (finalOf path).above.filter (· != .stay) ++ [.down name] :=
  steps_eq_final h.last

end Reaches

/-- Looking for a name in a directory finds the entry there, if the name is
not too long. -/
theorem look_eq_ok {directory : Place} {name : FileName} {found : Option Entry}
    (h : tree.look directory name = .ok found) :
    name.length ≤ maxName ∧ tree.get? (directory ++ [name]) = found := by
  unfold look at h
  split at h
  · cases h
  · next hname =>
    cases h
    exact ⟨Nat.not_lt.1 hname, rfl⟩

-- ================================================================ making

/-- What was created is at the place that the path reaches, and nothing was
there before. -/
theorem create_eq_ok {entry : Entry}
    (h : tree.create path entry = (.ok (), tree')) :
    ∃ directory name, tree.Reaches path directory name
      ∧ tree.get? (directory ++ [name]) = none
      ∧ tree' = tree.set (directory ++ [name]) entry := by
  unfold create at h
  split at h
  · cases h
  · next directory hdirectory =>
    obtain ⟨hcheck, habove, hplace⟩ := directoryOf_eq_ok_iff.1 hdirectory
    split at h
    · next name hlast =>
      split at h
      · cases h
      · cases h
      · next hlook =>
        obtain ⟨hname, hnone⟩ := look_eq_ok hlook
        cases h
        exact ⟨directory, name, ⟨hcheck, hlast, habove, hplace, hname⟩,
          hnone, rfl⟩
    · cases h

/-- The tree has the entries that it had, and new directories at places that
the paths lead to. -/
structure Grown (tree : FileTree) (paths : List Path) (tree' : FileTree) :
    Prop where
  kept : ∀ place entry,
    tree.get? place = some entry → tree'.get? place = some entry
  added : ∀ place, tree.get? place = none → tree'.get? place = none
    ∨ tree'.get? place = some .directory
      ∧ ∃ path ∈ paths, tree'.resolve true path = .ok place
  sound : tree.Sound → tree'.Sound

namespace Grown

variable {paths paths' : List Path}

/-- A tree that has grown has all the entries it had. -/
theorem extends_tree (h : tree.Grown paths tree') : tree.Extends tree' :=
  .of_get? h.kept

private theorem refl (tree : FileTree) (paths : List Path) :
    tree.Grown paths tree where
  kept _ _ h := h
  added _ h := .inl h
  sound h := h

private theorem trans (h : tree.Grown paths tree')
    (h' : tree'.Grown paths tree'') :
    tree.Grown paths tree'' where
  kept place entry hentry := h'.kept place entry (h.kept place entry hentry)
  added place hnone := by
    rcases h.added place hnone with hnone' | ⟨hdirectory, path, hpath, hplace⟩
    · exact h'.added place hnone'
    · exact .inr ⟨h'.kept place _ hdirectory, path, hpath,
        h'.extends_tree.resolve hplace⟩
  sound hsound := h'.sound (h.sound hsound)

/-- Every place is as it was, or has a new directory. -/
theorem get?_cases (h : tree.Grown paths tree') (place : Place) :
    tree'.get? place = tree.get? place
      ∨ tree.get? place = none ∧ tree'.get? place = some .directory
        ∧ ∃ path ∈ paths, tree'.resolve true path = .ok place := by
  cases hentry : tree.get? place with
  | none => exact (h.added place hentry).imp_right fun hnew => ⟨rfl, hnew⟩
  | some entry => exact .inl (h.kept place entry hentry)

private theorem mono (h : tree.Grown paths tree') (hsub : paths ⊆ paths') :
    tree.Grown paths' tree' where
  kept := h.kept
  added place hnone :=
    (h.added place hnone).imp_right fun ⟨hdirectory, path, hpath, hplace⟩ =>
      ⟨hdirectory, path, hsub hpath, hplace⟩
  sound := h.sound

end Grown

/-- A directory that was made is the only new entry, and the path leads to
it. -/
theorem makeDirectory_eq_ok (h : tree.makeDirectory path = (.ok (), tree')) :
    ∃ place, tree.get? place = none ∧ tree'.get? place = some .directory
      ∧ tree'.resolve true path = .ok place ∧ tree.Grown [path] tree' := by
  obtain ⟨directory, name, hreaches, hnone, rfl⟩ := create_eq_ok h
  have hget := tree.get?_set (concat_ne_nil directory name) .directory
  have hnew : (tree.set (directory ++ [name]) .directory).get?
      (directory ++ [name])
      = some .directory := by
    rw [hget, if_pos rfl]
  have hkept : ∀ place entry, tree.get? place = some entry →
      (tree.set (directory ++ [name]) .directory).get? place = some entry := by
    intro place entry hentry
    rw [hget, if_neg]
    · exact hentry
    · rintro rfl
      rw [hnone] at hentry
      cases hentry
  have hextends := Extends.of_get? hkept
  have hresolve := (hreaches.extends_tree hextends).resolve true hnew
  refine ⟨directory ++ [name], hnone, hnew, hresolve, hkept,
    fun place hplace => ?_,
    fun hsound => hsound.set hextends hreaches.directory⟩
  by_cases heq : place = directory ++ [name]
  · subst heq
    exact .inr ⟨hnew, path, List.mem_cons_self, hresolve⟩
  · rw [hget, if_neg heq]
    exact .inl hplace

/-- A path is one of a directory if it is resolved to one, links included. -/
theorem isDirectory_iff :
    tree.isDirectory path = true
      ↔ ∃ place, tree.resolve true path = .ok place
        ∧ tree.get? place = some .directory := by
  unfold isDirectory find?
  cases tree.resolve true path with
  | error fault => simp
  | ok place => simp

/-- What making directories came to, if it succeeded. -/
theorem makeDirectoriesAlong_cases {parents : List Path}
    (h : tree.makeDirectoriesAlong (path :: parents) = (.ok (), tree')) :
    path.isEmpty = true ∧ tree' = tree
      ∨ tree.makeDirectory path = (.ok (), tree')
      ∨ (∃ made, tree.makeDirectoriesAlong parents = (.ok (), made)
          ∧ (made.makeDirectory path = (.ok (), tree')
            ∨ made.isDirectory path = true ∧ tree' = made))
      ∨ tree.isDirectory path = true ∧ tree' = tree := by
  rw [makeDirectoriesAlong] at h
  split at h
  · next hempty =>
    cases h
    exact .inl ⟨hempty, rfl⟩
  · -- the path is made at once, or after its parents if one is missing
    split at h
    · next made hmade =>
      cases h
      exact .inr (.inl hmade)
    · split at h
      · cases h
      · next made hmade =>
        refine .inr (.inr (.inl ⟨made, hmade, ?_⟩))
        split at h
        · next hagain =>
          cases h
          exact .inl hagain
        · split at h
          · next hdirectory =>
            cases h
            exact .inr ⟨hdirectory, rfl⟩
          · cases h
    · split at h
      · next hdirectory =>
        cases h
        exact .inr (.inr (.inr ⟨hdirectory, rfl⟩))
      · cases h

/-- Making directories adds directories, and the first path leads to one of
them. -/
theorem makeDirectoriesAlong_eq_ok :
    ∀ {paths : List Path} {tree tree' : FileTree},
      tree.makeDirectoriesAlong paths = (.ok (), tree') → tree.Grown paths tree'
        ∧ ∀ path, paths.head? = some path →
          path.isEmpty = false → tree'.isDirectory path = true
  | [], _, _, h => by cases h
  | path :: parents, tree, tree', h => by
      have hmake : ∀ {made : FileTree},
          made.makeDirectory path = (.ok (), tree') →
            made.Grown (path :: parents) tree'
              ∧ tree'.isDirectory path = true := by
        intro made hmade
        obtain ⟨place, -, hdirectory, hresolve, hgrown⟩ :=
          makeDirectory_eq_ok hmade
        exact ⟨hgrown.mono
          (List.cons_subset_cons path (List.nil_subset parents)),
          isDirectory_iff.2 ⟨place, hresolve, hdirectory⟩⟩
      have hhead : tree'.isDirectory path = true →
          ∀ other, (path :: parents).head? = some other →
            other.isEmpty = false → tree'.isDirectory other = true := by
        rintro hdirectory other heq -
        cases heq
        exact hdirectory
      -- the path is empty, it is made at once, it is made or found after its
      -- parents, or it is there
      rcases makeDirectoriesAlong_cases h with ⟨hempty, rfl⟩ | hmade
        | ⟨made, hparents, hmade | ⟨hdirectory, rfl⟩⟩ | ⟨hdirectory, rfl⟩
      · refine ⟨.refl _ _, fun other heq hother => ?_⟩
        cases heq
        rw [hempty] at hother
        cases hother
      · obtain ⟨hgrown, hdirectory⟩ := hmake hmade
        exact ⟨hgrown, hhead hdirectory⟩
      · obtain ⟨hgrown, hdirectory⟩ := hmake hmade
        obtain ⟨hbefore, -⟩ := makeDirectoriesAlong_eq_ok hparents
        exact ⟨(hbefore.mono (List.subset_cons_self path parents)).trans hgrown,
          hhead hdirectory⟩
      · obtain ⟨hbefore, -⟩ := makeDirectoriesAlong_eq_ok hparents
        exact ⟨hbefore.mono (List.subset_cons_self path parents),
          hhead hdirectory⟩
      · exact ⟨.refl _ _, hhead hdirectory⟩

/-- Making the ancestors of a path grows the tree along them. The induction
is on the number of ancestors, the nearest first. -/
private theorem makeDirectoriesWithin_eq_ok {fuel : Nat}
    (h : tree.makeDirectoriesAlong (path.ancestorsWithin fuel)
      = (.ok (), tree')) :
    tree.Grown (path.ancestorsWithin fuel) tree'
      ∧ (path.isEmpty = false → tree'.isDirectory path = true) := by
  obtain ⟨hgrown, hdirectory⟩ := makeDirectoriesAlong_eq_ok h
  cases fuel with
  | zero => cases h
  | succ fuel => exact ⟨hgrown, hdirectory path rfl⟩

/-- Making the directories of a path grows the tree along the ancestors of
the path, and the path is then one of a directory. -/
theorem makeDirectories_eq_ok
    (h : tree.makeDirectories path = (.ok (), tree')) :
    tree.Grown path.ancestors tree'
      ∧ (path.isEmpty = false → tree'.isDirectory path = true) :=
  makeDirectoriesWithin_eq_ok h

/-- A directory that is there is not made again. -/
theorem makeDirectory_of_isDirectory (h : tree.isDirectory path = true) :
    tree.makeDirectory path = (.error .exists, tree) := by
  obtain ⟨place, hresolve, hplace⟩ := isDirectory_iff.1 h
  obtain ⟨hcheck, hleads⟩ := resolve_eq_ok_iff.1 hresolve
  obtain ⟨k, hmoves⟩ := moves_eq_final path
  rw [hmoves, List.append_assoc] at hleads
  obtain ⟨directory, habove, hrest⟩ := hleads.of_append (.inl rfl)
  have hdirectory := hrest.directory_of_target hplace
  unfold makeDirectory create
  rw [directoryOf_eq_ok_iff.2 ⟨hcheck, habove, hdirectory⟩]
  dsimp only
  split
  · next name hlast =>
    rw [hlast] at hrest
    obtain ⟨hname, entry, hentry⟩ := hrest.entry_of_down
    rw [look, if_neg (Nat.not_lt.2 hname), hentry]
  · rfl

/-- Nothing is made for a path that has its directory. -/
private theorem makeDirectoriesAlong_of_isDirectory
    (h : tree.isDirectory path = true) (parents : List Path) :
    tree.makeDirectoriesAlong (path :: parents) = (.ok (), tree) := by
  rw [makeDirectoriesAlong, makeDirectory_of_isDirectory h]
  split <;> rfl

/-- The way of a path to a directory, by its steps. -/
theorem leads_steps {place : Place} (h : tree.resolve true path = .ok place)
    (hplace : tree.get? place = some .directory) :
    tree.Leads true maxLinks [] (steps path) place :=
  (resolve_eq_ok_iff.1 h).2.of_steps hplace
    (by rw [steps, List.filter_filter]; simp)

/-- Below a parent that is new, a path leads to a new directory. -/
theorem new_of_parent {paths : List Path} {parent : Path} {name : FileName}
    {place between : Place} (hgrown : tree.Grown paths tree')
    (hsound : tree.Sound) (hsteps : steps path = steps parent ++ [.down name])
    (hplace : tree'.resolve true path = .ok place)
    (hdirectory : tree'.get? place = some .directory)
    (hbetween : tree'.resolve true parent = .ok between)
    (hparent : tree'.get? between = some .directory)
    (hnew : tree.get? between = none) :
    tree.get? place = none := by
  have hleads := leads_steps hplace hdirectory
  rw [hsteps] at hleads
  obtain ⟨other, hother, hname⟩ := hleads.of_append (.inl rfl)
  obtain rfl := hother.unique (leads_steps hbetween hparent)
  have hnone : tree.get? (other ++ [name]) = none := by
    refine hsound.none_below (List.prefix_append _ _) (by simp) ?_
    rw [hnew]
    exact fun h => nomatch h
  have heq : place = other ++ [name] := by
    refine Leads.eq_append_names (fun more path hne hle hlink => ?_)
      (show Leads _ _ _ _ ([name].map .down) _ from hname)
    obtain ⟨rest, rfl, hrest⟩ := (List.prefix_cons_iff.1 hle).resolve_left hne
    rw [List.prefix_nil.1 hrest] at hlink
    rcases hgrown.get?_cases (other ++ [name]) with hsame | ⟨-, hmade, -⟩
    · rw [hsame, hnone] at hlink
      cases hlink
    · rw [hmade] at hlink
      cases hlink
  rw [heq]
  exact hnone

/-- A path that takes no steps leads to the top. -/
theorem isDirectory_of_steps_nil (h : steps path = [])
    (hcheck : checkPath path = .ok ()) :
    tree.isDirectory path = true := by
  have hhere : tree.Leads true maxLinks [] [] [] := .here
  exact isDirectory_iff.2
    ⟨[], resolve_eq_ok_iff.2 ⟨hcheck, hhere.of_steps rfl h⟩, rfl⟩

/-- The last step of a path without ways up is a name, the others are those
of its parent. -/
theorem steps_eq_parent {parent : Path} (hparent : path.parent? = some parent)
    (hnames : .up ∉ steps path) (hne : steps path ≠ []) :
    ∃ name, steps path = steps parent ++ [.down name] := by
  obtain ⟨front, last, hfront⟩ :=
    (List.eq_nil_or_concat (steps path)).resolve_left hne
  rw [List.concat_eq_append] at hfront
  have hlast : last ∈ steps path := by
    rw [hfront]
    exact List.mem_append_right front List.mem_cons_self
  rw [steps_parent hparent, hfront, List.dropLast_concat]
  cases last with
  | stay =>
      have hstep := (List.mem_filter.1 hlast).2
      simp at hstep
  | up => exact absurd hlast hnames
  | down name => exact ⟨name, rfl⟩

/-- A directory that is made is new, also if others were made before it. -/
theorem new_of_makeDirectory {made : FileTree} {place : Place}
    (hextends : tree.Extends made)
    (hmake : made.makeDirectory path = (.ok (), tree'))
    (hplace : tree'.resolve true path = .ok place) :
    tree.get? place = none := by
  obtain ⟨other, hnone, -, hother, -⟩ := makeDirectory_eq_ok hmake
  rw [hplace] at hother
  cases hother
  cases hentry : tree.get? place with
  | none => rfl
  | some entry =>
      obtain ⟨entry', hentry', -⟩ := hextends place entry hentry
      rw [hnone] at hentry'
      cases hentry'

/-- Directories are made only for a path that leads to none. -/
theorem unchanged_or_missing {fuel : Nat}
    (h : tree.makeDirectoriesAlong (path.ancestorsWithin fuel)
      = (.ok (), tree')) :
    tree' = tree ∨ path.isEmpty = false ∧ tree.isDirectory path = false := by
  cases fuel with
  | zero => cases h
  | succ fuel =>
      rw [Path.ancestorsWithin] at h
      cases hempty : path.isEmpty with
      | true =>
          rw [makeDirectoriesAlong, if_pos hempty] at h
          cases h
          exact .inl rfl
      | false =>
          cases hdirectory : tree.isDirectory path with
          | true =>
              rw [makeDirectoriesAlong_of_isDirectory hdirectory] at h
              cases h
              exact .inl rfl
          | false => exact .inr ⟨rfl, rfl⟩

/-- Without ways up, a path that led to no directory leads to a new one
after directories were made for it. -/
theorem isDirectory_or_new {fuel : Nat} (hsound : tree.Sound)
    (hnames : .up ∉ steps path) (hpath : path.isEmpty = false)
    (h : tree.makeDirectoriesAlong (path.ancestorsWithin fuel)
      = (.ok (), tree')) {place : Place}
    (hplace : tree'.resolve true path = .ok place) :
    tree.isDirectory path = true ∨ tree.get? place = none := by
  induction fuel generalizing path tree' place with
  | zero => cases h
  | succ fuel ih =>
      rw [Path.ancestorsWithin] at h
      rcases makeDirectoriesAlong_cases h with ⟨hempty, -⟩ | hmake
        | ⟨made, hparents, hmake | ⟨hdirectory, rfl⟩⟩ | ⟨hdirectory, -⟩
      · rw [hpath] at hempty
        cases hempty
      · exact .inr (new_of_makeDirectory (.refl tree) hmake hplace)
      · have hextends := (makeDirectoriesAlong_eq_ok hparents).1.extends_tree
        exact .inr (new_of_makeDirectory hextends hmake hplace)
      · -- only parents were made, and the path leads on from the nearest
        by_cases hnothing : steps path = []
        · exact .inl
            (isDirectory_of_steps_nil hnothing (resolve_eq_ok_iff.1 hplace).1)
        obtain ⟨parent, hparent⟩ := exists_parent hnothing
        obtain ⟨name, hsteps⟩ := steps_eq_parent hparent hnames hnothing
        rw [hparent] at hparents
        dsimp only at hparents
        rcases unchanged_or_missing hparents with rfl | ⟨hempty, hmissing⟩
        · exact .inl hdirectory
        · obtain ⟨hgrown, hthere⟩ := makeDirectoriesWithin_eq_ok hparents
          obtain ⟨between, hbetween, hat⟩ := isDirectory_iff.1 (hthere hempty)
          have hup : .up ∉ steps parent := fun hmem =>
            hnames (hsteps ▸ List.mem_append_left _ hmem)
          have hnew := (ih hup hempty hparents hbetween).resolve_left
            (Bool.eq_false_iff.1 hmissing)
          obtain ⟨other, hother, hend⟩ := isDirectory_iff.1 hdirectory
          rw [hplace] at hother
          cases hother
          exact .inr
            (new_of_parent hgrown hsound hsteps hplace hend hbetween hat hnew)
      · exact .inl hdirectory

end Datapack.FileTree
