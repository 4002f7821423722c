/-
A build stays in its own entry of the directory that packs go to.

The root of a pack is a name in the directory `out` of packs. What a build
makes, writes and removes is then at the entry that the name starts with or
below it, however the build ends. This rests on four things. The name is made
of names, so that it leads down from `out`. It leads through no link before
its end. The way to `out` does not lead through the pack. And the files of
the pack do not climb out of it. `Shelters` is the first three of them. The
last is true of everything but the tags that methods declare, which can have
any text.

`Guarded` is what holds from the start to the end, and `Settled` what holds
once the root is there. Both are kept by every operation on files, whether it
succeeds or not.
-/
import Datapack.Proofs.Endings
import Datapack.Proofs.InnerFiles

namespace Datapack

open FileTree

-- ================================================================ shelter

private theorem Path.segments_ne_nil (path : Path) : path.segments ≠ [] :=
  splitSlashes_ne_nil path.bytes

/-- The directory `out` of packs, which a path leads to, and the name of a
pack in it. -/
structure Shelters (tree : FileTree) (output : Path) (out : Place)
    (name : Path) : Prop where
  plain : name.Plain
  /-- The way to the directory does not lead through the pack. -/
  leads : (tree.without (out ++ name.segments)).resolve true output = .ok out
  directory : tree.get? out = some .directory
  unlinked : ∀ front target,
    front ≠ [] → front <+: name.segments →
      front ≠ name.segments → tree.get? (out ++ front) ≠ some (.link target)

/-- The place is one that the names lead through. -/
def Along (out : Place) (names : List FileName) (place : Place) : Prop :=
  ∃ front, front ≠ [] ∧ front <+: names ∧ place = out ++ front

/-- Everything outside of the entry that the names start with is as it was
before, and so is the way to the names. -/
structure Guarded (before : FileTree) (out : Place) (names : List FileName)
    (tree : FileTree) : Prop where
  sound : tree.Sound
  kept : (before.without (out ++ names)).Extends tree
  unlinked : ∀ front target, front ≠ [] → front <+: names → front ≠ names →
    tree.get? (out ++ front) ≠ some (.link target)
  outside : ∀ other,
    ¬out ++ names.take 1 <+: other → tree.get? other = before.get? other

namespace Guarded

variable {before tree tree' : FileTree} {out : Place} {names : List FileName}

/-- New directories in the entry keep everything else guarded. -/
private theorem raised {allowed : Place → Prop}
    (h : Guarded before out names tree) (hraised : Raised allowed tree tree')
    (hallowed : ∀ place, allowed place → out ++ names.take 1 <+: place) :
    Guarded before out names tree' where
  sound := hraised.sound h.sound
  kept := h.kept.trans hraised.extends_tree
  unlinked front target hne hle hproper :=
    hraised.unlinked (h.unlinked front target hne hle hproper)
  outside other hother := by
    rcases hraised.get?_cases other with hsame | ⟨-, -, hnew⟩
    · rw [hsame, h.outside other hother]
    · exact absurd (hallowed other hnew) hother

private theorem prefix_names (out : Place) (names : List FileName) :
    out ++ names.take 1 <+: out ++ names :=
  (List.prefix_append_right_inj out).2 (List.take_prefix 1 names)

/-- Directories at the names, as they lead down, guard everything else. -/
theorem raised_along (h : Guarded before out names tree)
    (hraised : Raised (Along out names) tree tree') :
    Guarded before out names tree' := by
  refine h.raised hraised ?_
  rintro _ ⟨front, hne, hle, rfl⟩
  obtain ⟨name, rest, rfl⟩ := List.exists_cons_of_ne_nil hne
  obtain ⟨more, rfl⟩ := hle
  exact ⟨rest, by simp⟩

/-- A name before the last does not lie below all of them. -/
private theorem not_prefix_front {front : List FileName} (hle : front <+: names)
    (hproper : front ≠ names) :
    ¬out ++ names <+: out ++ front := by
  intro h
  exact hproper
    (hle.eq_of_length_le ((List.prefix_append_right_inj out).1 h).length_le)

/-- Clearing the place of the pack keeps everything else guarded. -/
private theorem clears (h : Guarded before out names tree)
    (hclears : tree.Clears (out ++ names) tree') (hnamed : names ≠ []) :
    Guarded before out names tree' where
  sound := hclears.sound
  kept := by
    intro other entry hentry
    have hoff : ¬out ++ names <+: other := by
      intro hbelow
      rw [before.get?_without (List.append_ne_nil_of_right_ne_nil out hnamed),
        if_pos hbelow]
        at hentry
      cases hentry
    rw [hclears.outside other hoff]
    exact h.kept other entry hentry
  unlinked front target hne hle hproper := by
    rw [hclears.outside _ (not_prefix_front hle hproper)]
    exact h.unlinked front target hne hle hproper
  outside other hother := by
    rw [hclears.outside other
      fun hbelow => hother ((prefix_names out names).trans hbelow)]
    exact h.outside other hother

end Guarded

namespace Shelters

variable {before tree tree' : FileTree} {output name : Path} {out place : Place}
  (hshelters : Shelters before output out name)

include hshelters

/-- To begin with, nothing has changed. -/
private theorem guarded (hsound : before.Sound) :
    Guarded before out name.segments before where
  sound := hsound
  kept :=
    extends_of_outside
      (List.append_ne_nil_of_right_ne_nil out name.segments_ne_nil)
      fun _ _ => rfl
  unlinked := hshelters.unlinked
  outside _ _ := rfl

/-- The directory of packs stays where it is. -/
theorem leads_output (h : Guarded before out name.segments tree) :
    tree.Leads true maxLinks [] (steps output) out
      ∧ tree.get? out = some .directory := by
  have hdirectory : (before.without (out ++ name.segments)).get? out
      = some .directory := by
    rw [before.get?_without
      (List.append_ne_nil_of_right_ne_nil out name.segments_ne_nil), if_neg]
    · exact hshelters.directory
    · intro hle
      have hlength := hle.length_le
      have hpos := List.length_pos_iff.2 name.segments_ne_nil
      rw [List.length_append] at hlength
      omega
  exact ⟨h.kept.leads (leads_steps hshelters.leads hdirectory),
    h.kept.directory hdirectory⟩

/-- The root of a pack is reached by going to the output and down its
names. -/
private theorem steps_root :
    steps (output.join name) = steps output ++ name.segments.map .down := by
  rw [steps_join (isAbsolute_of_plain hshelters.plain),
    steps_of_plain hshelters.plain]

/-- The root of the pack is at its names, whatever is there. -/
theorem resolve_false (h : Guarded before out name.segments tree)
    (hplace : tree.resolve false (output.join name) = .ok place) :
    place = out ++ name.segments := by
  obtain ⟨hleads, hdirectory⟩ := hshelters.leads_output h
  obtain ⟨front, hmoves, hfront⟩ :=
    exists_moves_join output (isAbsolute_of_plain hshelters.plain)
  have hroot := (resolve_eq_ok_iff.1 hplace).2
  rw [hmoves, moves_of_plain hshelters.plain] at hroot
  obtain ⟨between, hbetween, hnames⟩ :=
    hroot.of_append
      (.inr fun hnil => name.segments_ne_nil (List.map_eq_nil_iff.1 hnil))
  have hthere : tree.Leads true maxLinks [] front out := by
    refine hleads.of_steps hdirectory ?_
    rw [hfront, steps, List.filter_filter]
    simp
  obtain rfl := hbetween.unique hthere
  exact hnames.eq_append_names_of_last name.segments_ne_nil h.unlinked

/-- Where the root leads, if its end is not a link. -/
theorem resolve_true (h : Guarded before out name.segments tree)
    (hlast : ∀ target, tree.get? (out ++ name.segments) ≠ some (.link target))
    (hplace : tree.resolve true (output.join name) = .ok place)
    (hdirectory : tree.get? place = some .directory) :
    place = out ++ name.segments := by
  have hroot := FileTree.leads_steps hplace hdirectory
  rw [hshelters.steps_root] at hroot
  obtain ⟨between, hbetween, hnames⟩ := hroot.of_append (.inl rfl)
  obtain rfl := hbetween.unique (hshelters.leads_output h).1
  refine hnames.eq_append_names fun more target hne hle => ?_
  by_cases hall : more = name.segments
  · rw [hall]
    exact hlast target
  · exact h.unlinked more target hne hle hall

-- =============================================================== the root

/-- Directories that are made for the root are those that its names lead
to. -/
theorem raised_root (h : Guarded before out name.segments tree)
    {outcome : Except FileFault Unit}
    (hmade : tree.makeDirectories (output.join name) = (outcome, tree')) :
    Raised (Along out name.segments) tree tree' := by
  refine (madeAlong_of_makeDirectoriesAlong hmade).raised ?_
  intro between path directory last hraised hpath hreaches hnone
  have hbetween := h.raised_along hraised
  have hsteps := steps_ancestor hpath
  rw [hshelters.steps_root] at hsteps
  obtain ⟨more, hmore, hleads⟩ :=
    hreaches.beyond hnone (hshelters.leads_output hbetween).1 hsteps
  -- the steps behind the directory of packs are names, and the last is new
  obtain ⟨front, hfront, hmap⟩ := List.prefix_map_iff.1 hmore
  obtain ⟨init, lasts, rfl, rfl, hlasts⟩ := List.map_eq_append_iff.1 hmap.symm
  obtain ⟨_, rfl, hlast⟩ := List.map_eq_singleton_iff.1 hlasts
  cases hlast
  have hproper : init ≠ name.segments := by
    intro heq
    have hlength := hfront.length_le
    rw [← heq, List.length_append, List.length_singleton] at hlength
    omega
  have hinit : init <+: name.segments := (List.prefix_append _ _).trans hfront
  have hdirectory : directory = out ++ init := by
    refine hleads.eq_append_names fun front target hne hle => ?_
    refine hbetween.unlinked front target hne (hle.trans hinit)
      fun heq => hproper ?_
    exact hinit.eq_of_length_le (heq ▸ hle.length_le)
  exact ⟨init ++ [last], concat_ne_nil init last,
    hfront, by rw [hdirectory, List.append_assoc]⟩

end Shelters

/-- The root of the pack is a directory at its names, and there are no links
at it or below. -/
structure Settled (before : FileTree) (root : Path) (out : Place)
    (names : List FileName) (tree : FileTree) : Prop
    extends Guarded before out names tree where
  leads : tree.Leads true maxLinks [] (steps root) (out ++ names)
  ready : tree.get? (out ++ names) = some .directory
  clear : ∀ more target, tree.get? (out ++ names ++ more) ≠ some (.link target)

namespace Shelters

variable {before cleared made : FileTree} {output name : Path} {out : Place}
  {overwrite : Bool} (hshelters : Shelters before output out name)

include hshelters

/-- The root that was made is a directory. -/
private theorem isDirectory_root
    (hmade : cleared.makeDirectories (output.join name) = (.ok (), made)) :
    made.isDirectory (output.join name) = true := by
  refine (makeDirectories_eq_ok hmade).2 (Bool.eq_false_iff.2 fun hempty => ?_)
  have hnames := hshelters.steps_root
  rw [show output.join name
    = ⟨[]⟩ from congrArg Path.mk (List.isEmpty_iff.1 hempty)] at hnames
  have hnil := (List.append_eq_nil_iff.1 hnames.symm).2
  exact name.segments_ne_nil (List.map_eq_nil_iff.1 hnil)

/-- If nothing but a directory was at the names, the root that is made is
settled. -/
theorem settled (h : Guarded before out name.segments cleared)
    (hbelow : ∀ more,
      more ≠ [] → cleared.get? (out ++ name.segments ++ more) = none)
    (hhere : cleared.get? (out ++ name.segments) = none
      ∨ cleared.get? (out ++ name.segments) = some .directory)
    (hmade : cleared.makeDirectories (output.join name) = (.ok (), made)) :
    Settled before (output.join name) out name.segments made := by
  have hraised := hshelters.raised_root h hmade
  have hguarded := h.raised_along hraised
  have hclear : ∀ more target,
      made.get? (out ++ name.segments ++ more) ≠ some (.link target) := by
    intro more target
    refine hraised.unlinked ?_
    by_cases hmore : more = []
    · rw [hmore, List.append_nil]
      rcases hhere with hhere | hhere <;> rw [hhere] <;>
        exact fun hlink => nomatch hlink
    · rw [hbelow more hmore]
      exact fun hlink => nomatch hlink
  obtain ⟨place, hplace, hdirectory⟩ :=
    isDirectory_iff.1 (hshelters.isDirectory_root hmade)
  obtain rfl : place = out ++ name.segments := by
    refine hshelters.resolve_true hguarded (fun target => ?_) hplace hdirectory
    have hlast := hclear [] target
    rwa [List.append_nil] at hlast
  exact ⟨hguarded, FileTree.leads_steps hplace hdirectory, hdirectory, hclear⟩

/-- A root that was found absent is not made where something is: all its
names lead to what was there before. -/
theorem none_of_absent (hsound : before.Sound)
    (habsent : before.contains (output.join name) = false)
    (hmade : before.makeDirectories (output.join name) = (.ok (), made)) :
    before.get? (out ++ name.segments) = none := by
  have hraised := hshelters.raised_root (hshelters.guarded hsound) hmade
  by_contra hsome
  obtain ⟨entry, hentry⟩ := Option.ne_none_iff_exists'.1 hsome
  have hsame : ∀ other, made.get? other = before.get? other := by
    intro other
    rcases hraised.get?_cases other with hsame
      | ⟨hnone, -, front, -, ⟨rest, hrest⟩, rfl⟩
    · exact hsame
    · by_cases hnil : rest = []
      · rw [hnil, List.append_nil] at hrest
        rw [hrest, hentry] at hnone
        cases hnone
      · rw [← hrest, ← List.append_assoc] at hentry
        rw [hsound.directory_of_below hnil (by rw [hentry]; rfl)] at hnone
        cases hnone
  have hextends : made.Extends before :=
    .of_get? fun other entry h => hsame other ▸ h
  obtain ⟨place, hplace, hdirectory⟩ :=
    isDirectory_iff.1 (hshelters.isDirectory_root hmade)
  rw [contains_iff.2 ⟨place, .directory, hextends.resolve hplace,
    hextends.directory hdirectory⟩]
    at habsent
  cases habsent

/-- What a root is cleared of is at its names. -/
theorem clears (hsound : before.Sound)
    (hcleared : DirectoryWriter.Cleared before (output.join name) overwrite
      cleared) :
    before.contains (output.join name) = false ∧ cleared = before
      ∨ before.Clears (out ++ name.segments) cleared := by
  refine (hcleared.cases hsound).imp_right ?_
  rintro ⟨-, place, hplace, hclears⟩
  rwa [hshelters.resolve_false (hshelters.guarded hsound) hplace] at hclears

/-- Making room for the root touches the entry only. -/
private theorem guarded_cleared (hsound : before.Sound)
    (hcleared : DirectoryWriter.Cleared before (output.join name) overwrite
      cleared) :
    Guarded before out name.segments cleared := by
  rcases hshelters.clears hsound hcleared with ⟨-, rfl⟩ | hclears
  · exact hshelters.guarded hsound
  · exact (hshelters.guarded hsound).clears hclears name.segments_ne_nil

/-- Once the root is made the pack is settled: the root is a directory at
its names, and no link is left there. -/
private theorem settled_made (hsound : before.Sound)
    (hcleared : DirectoryWriter.Cleared before (output.join name)
      overwrite cleared)
    (hmade : cleared.makeDirectories (output.join name) = (.ok (), made)) :
    Settled before (output.join name) out name.segments made := by
  refine hshelters.settled (hshelters.guarded_cleared hsound hcleared)
    ?_ ?_ hmade
  · intro more hne
    rcases hshelters.clears hsound hcleared with ⟨habsent, rfl⟩ | hclears
    · refine hsound.none_below (List.prefix_append _ _) (by simpa using hne) ?_
      rw [hshelters.none_of_absent hsound habsent hmade]
      exact fun hdirectory => nomatch hdirectory
    · exact hclears.below _ (List.prefix_append _ _) (by simpa using hne)
  · rcases hshelters.clears hsound hcleared with ⟨habsent, rfl⟩ | hclears
    · exact .inl (hshelters.none_of_absent hsound habsent hmade)
    · exact hclears.here.imp_right And.left

end Shelters

-- ============================================================== the files

namespace Settled

variable {before tree tree' : FileTree} {root file : Path} {out : Place}
  {names : List FileName}

/-- Directories that are made below the root leave it settled. -/
theorem raised (h : Settled before root out names tree)
    (hraised : Raised (out ++ names <+: ·) tree tree') :
    Settled before root out names tree' where
  toGuarded :=
    h.toGuarded.raised hraised
      fun _ hle => (Guarded.prefix_names out names).trans hle
  leads := hraised.extends_tree.leads h.leads
  ready := hraised.kept _ _ h.ready
  clear more target := hraised.unlinked (h.clear more target)

/-- Steps behind the root that do not leave it lead to something below. -/
theorem inside {moves : List Move} {directory : Place}
    (h : Settled before root out names tree)
    (hmoves : staysInside 0 moves = true)
    (hleads : tree.Leads true maxLinks (out ++ names) moves directory) :
    out ++ names <+: directory := by
  rw [← List.append_nil (out ++ names)] at hleads
  have hstart : staysInside ([] : List FileName).length moves = true := hmoves
  exact hleads.inside h.clear hstart

/-- Directories for a file of the pack are made inside it, also if making
them stops halfway. -/
private theorem makeDirectories {parent : Path}
    {outcome : Except FileFault Unit} (h : Settled before root out names tree)
    (hfile : file.Inner) (hparent : (root.join file).parent? = some parent)
    (hmade : tree.makeDirectories parent = (outcome, tree')) :
    Settled before root out names tree' := by
  refine h.raised ((madeAlong_of_makeDirectoriesAlong hmade).raised ?_)
  intro between path directory name hraised hpath hreaches hnone
  have hbetween := h.raised hraised
  have hsteps : steps path <+: steps root ++ steps file := by
    refine (steps_ancestor hpath).trans ?_
    rw [steps_parent hparent, steps_join hfile.relative]
    exact List.dropLast_prefix _
  obtain ⟨more, ⟨rest, hmore⟩, hleads⟩ :=
    hreaches.beyond hnone hbetween.leads hsteps
  have hinside : staysInside 0 more = true := by
    have hall := hfile.inside
    rw [← hmore, List.append_assoc] at hall
    exact staysInside_append hall
  exact (hbetween.inside hinside hleads).trans (List.prefix_append _ _)

/-- A file in a directory of the pack keeps it settled. -/
private theorem set {directory : Place} {name : FileName} {content : List UInt8}
    (h : Settled before root out names tree) (hle : out ++ names <+: directory)
    (hdirectory : tree.get? directory = some .directory)
    (hentry : tree.Extends (tree.set (directory ++ [name]) (.file content))) :
    Settled before root out names
      (tree.set (directory ++ [name]) (.file content)) := by
  have hget := tree.get?_set (concat_ne_nil directory name) (.file content)
  have hbelow : out ++ names <+: directory ++ [name] :=
    hle.trans (List.prefix_append _ _)
  -- the file lies below the names, so nothing else changes
  have hother : ∀ other, ¬out ++ names <+: other →
      (tree.set (directory ++ [name]) (.file content)).get? other
        = tree.get? other := by
    intro other hoff
    rw [hget, if_neg]
    rintro rfl
    exact hoff hbelow
  refine ⟨⟨h.sound.set hentry hdirectory, h.kept.trans hentry, ?_, ?_⟩,
    hentry.leads h.leads, hentry.directory h.ready, ?_⟩
  · intro front target hne hfront hproper
    rw [hother _ (Guarded.not_prefix_front hfront hproper)]
    exact h.unlinked front target hne hfront hproper
  · intro other hoff
    rw [hother other
      fun hin => hoff ((Guarded.prefix_names out names).trans hin)]
    exact h.outside other hoff
  · intro more target
    rw [hget]
    split
    · exact fun hlink => nomatch hlink
    · exact h.clear more target

/-- Writing a file of the pack keeps it settled, whether it succeeds
or not. -/
private theorem write {content : List UInt8} {outcome : Except FileFault Unit}
    (h : Settled before root out names tree) (hfile : file.Inner)
    (hwrite : tree.write (root.join file) content = (outcome, tree')) :
    Settled before root out names tree' := by
  cases outcome with
  | error fault =>
      unfold FileTree.write at hwrite
      split at hwrite <;> cases hwrite
      exact h
  | ok _ =>
      obtain ⟨directory, name, hreaches, hentry⟩ := write_eq_ok hwrite
      obtain ⟨front, last, hfront⟩ :=
        (List.eq_nil_or_concat (steps file)).resolve_left hfile.moves
      rw [List.concat_eq_append] at hfront
      have hpath : steps (root.join file)
          = steps root ++ (front ++ [last]) := by
        rw [steps_join hfile.relative, hfront]
      obtain rfl : last = .down name := by
        rw [hreaches.steps_eq, ← List.append_assoc] at hpath
        exact (List.cons.inj (List.append_inj' hpath rfl).2).1.symm
      have hinside := hfile.inside
      rw [hfront] at hinside
      have hle :=
        h.inside (staysInside_append hinside) (hreaches.behind h.leads hpath)
      rcases hentry with ⟨target, hlink⟩ | ⟨-, rfl⟩
      · obtain ⟨more, rfl⟩ := hle
        rw [List.append_assoc] at hlink
        exact absurd hlink (h.clear _ target)
      · exact h.set hle hreaches.directory (write_extends hwrite)

/-- What is made before a file is written leaves the root settled. -/
theorem made {file : String} (h : Settled before root out names tree)
    (hfile : (Path.ofString file).Inner)
    (hparent : (root.join (.ofString file)).parent? = none ∧ tree' = tree
      ∨ ∃ parent, (root.join (.ofString file)).parent? = some parent
        ∧ tree.makeDirectories parent = (.ok (), tree')) :
        Settled before root out names tree' := by
  rcases hparent with ⟨-, rfl⟩ | ⟨parent, hparent, hmade⟩
  · exact h
  · exact h.makeDirectories hfile hparent hmade

/-- Storing files of the pack, one after the other, keeps it settled. -/
private theorem storedAll {files : List (String × String)}
    (h : Settled before root out names tree)
    (hfiles : ∀ file ∈ files, (Path.ofString file.1).Inner)
    (hstored : DirectoryWriter.StoredAll root files tree tree') :
    Settled before root out names tree' := by
  induction hstored with
  | nil => exact h
  | cons hfile _ ih =>
      obtain ⟨hinner, hrest⟩ := List.forall_mem_cons.1 hfiles
      obtain ⟨between, hparent, hwrite⟩ := hfile
      exact ih ((h.made hinner hparent).write hinner hwrite) hrest

/-- A file that could not be stored leaves the pack settled. -/
private theorem broken {file content : String}
    (h : Settled before root out names tree)
    (hfile : (Path.ofString file).Inner)
    (hbroken : DirectoryWriter.Broken root file content tree tree') :
    Settled before root out names tree' := by
  cases hbroken with
  | parent hparent hmade => exact h.makeDirectories hfile hparent hmade
  | content hparent hwritten =>
      exact (h.made hfile hparent).write hfile hwritten

end Settled

-- =============================================================== the pack

namespace Shelters

variable {before left tree' : FileTree} {output name : Path} {out : Place}
  {overwrite : Bool} (hshelters : Shelters before output out name)

include hshelters

/-- A root that could not be made ready may be cleared, or made in part. -/
theorem guarded_halted (hsound : before.Sound)
    (hhalted : DirectoryWriter.Halted before (output.join name)
      overwrite left) :
    Guarded before out name.segments left := by
  have hguarded := hshelters.guarded hsound
  cases hhalted with
  | refused => exact hguarded
  | directory _ _ hremoved =>
      rcases removeAll_cases hsound hremoved with ⟨-, rfl⟩
        | ⟨place, hplace, hclears⟩
      · exact hguarded
      · rw [hshelters.resolve_false hguarded hplace] at hclears
        exact hguarded.clears hclears name.segments_ne_nil
  | file _ _ _ hremoved =>
      rw [removeFile_eq_error hremoved]
      exact hguarded
  | making hcleared hmade =>
      have hcleared := hshelters.guarded_cleared hsound hcleared
      exact hcleared.raised_along (hshelters.raised_root hcleared hmade)

/-- Writing a pack whose files are inner ones leaves everything else as it
is, whether it succeeds or not. -/
theorem guarded_toDirectory (hsound : before.Sound) {pack : Pack}
    (hfiles : ∀ file ∈ pack.files, (Path.ofString file.1).Inner)
    {outcome : Except ProjectError Nat}
    (h : (pack.toDirectory (m := StateM FileTree) (output.join name)
      overwrite).run.run before
      = (outcome, tree')) : Guarded before out name.segments tree' := by
  cases outcome with
  | ok count =>
      obtain ⟨cleared, made, hcleared, hmade, hstored, -⟩ :=
        Pack.of_toDirectory h
      exact ((hshelters.settled_made hsound hcleared hmade).storedAll hfiles
        hstored).toGuarded
  | error error =>
      rcases (Pack.error_of_toDirectory h).2 with hhalted
        | ⟨cleared, made, front, file, back, between, hcleared, hmade, hsplit,
          hstored, hbroken⟩
      · exact hshelters.guarded_halted hsound hhalted
      · rw [hsplit] at hfiles
        obtain ⟨hfront, hrest⟩ := List.forall_mem_append.1 hfiles
        have hsettled :=
          (hshelters.settled_made hsound hcleared hmade).storedAll
            hfront hstored
        exact (hsettled.broken (hrest file List.mem_cons_self)
          hbroken).toGuarded

end Shelters

/-- No tag that a method declares leads out of the pack. -/
def LoadedProject.TagsInside (loaded : LoadedProject) : Prop :=
  ∀ component ∈ loaded.components,
    ∀ method ∈ component.methods,
      ∀ tag ∈ method.tags.keys,
        (Path.ofString
          (Location.tagFile (Location.qualify loaded.project.space tag))).Inner

instance (loaded : LoadedProject) : Decidable loaded.TagsInside :=
  inferInstanceAs
    (Decidable
      (∀ component ∈ loaded.components,
        ∀ method ∈ component.methods,
          ∀ tag ∈ method.tags.keys,
            (Path.ofString
              (Location.tagFile
                (Location.qualify loaded.project.space tag))).Inner))

/-- Then no file of the pack does. -/
theorem LoadedProject.inner_files {loaded : LoadedProject}
    (hdescribed : loaded.Described) (htags : loaded.TagsInside) {pack : Pack}
    (h : loaded.project.build loaded.components = .ok pack) :
    ∀ file ∈ pack.files, (Path.ofString file.1).Inner := by
  obtain ⟨manifest, files, hproject, hcomponents⟩ := hdescribed
  unfold TagsInside at htags
  rw [hproject, hcomponents] at h htags
  obtain ⟨resolved, hbuilt⟩ := ProjectManifest.built_of_build h
  intro file hfile
  rcases Pack.mem_files.1 hfile with ⟨function, hfunction, rfl⟩
    | ⟨tag, htag, rfl⟩ | rfl
  · obtain ⟨space, path, hnamed⟩ :=
      hbuilt.named_function (manifest.described files) hfunction
    exact hnamed.inner_functionFile
  · rcases hbuilt.named_or_declared (manifest.described files)
      htag with ⟨space, path, hnamed⟩
      | ⟨component, hcomponent, method, hmethod, declared, hdeclared, hlocation⟩
    · exact hnamed.inner_tagFile
    · have hinner :=
        htags component hcomponent method hmethod declared hdeclared
      rw [← hlocation] at hinner
      exact hinner
  · show (Path.ofString Pack.metadataFile).Inner
    decide

namespace Cli

/-- A build changes nothing outside of the entry of the output directory that
the name of the project starts with, however it ends. The name has to consist
of names that lead into the directory, which in turn must not be found by way
of the pack, and no declared tag may lead out of the pack. -/
theorem build_stays_in_entry [JsonDiagnosis] {arguments : List String}
    {directory output : String} {overwrite : Bool} {tree : FileTree}
    {out : Place} {loaded : LoadedProject}
    (hmode : Request.ofArguments arguments
      = .run (.build directory output overwrite)) (hsound : tree.Sound)
    (hload :
      (LoadedProject.load (m := StateM FileTree) (.ofString directory)).run.run
        tree
      = (.ok loaded, tree))
    (hshelters : Shelters tree (.ofString output) out
      (.ofString loaded.project.name))
    (htags : loaded.TagsInside) :
    ∃ outcome tree' entry,
      (run (m := StateM FileTree) arguments).run tree = (outcome, tree')
      ∧ (Path.ofString loaded.project.name).segments.head? = some entry
        ∧ entry ≠ []
      ∧ ∀ other,
        ¬out ++ [entry] <+: other → tree'.get? other = tree.get? other := by
  obtain ⟨entry, rest, hname⟩ :=
    List.exists_cons_of_ne_nil
      (Path.ofString loaded.project.name).segments_ne_nil
  have hentry : entry ≠ [] := by
    rintro rfl
    exact absurd (hshelters.plain [] (hname ▸ List.mem_cons_self)).1 (by decide)
  -- it is enough that the entry guards everything outside of it
  suffices hrun : ∃ outcome tree',
      (run (m := StateM FileTree) arguments).run tree = (outcome, tree')
      ∧ Guarded tree out (entry :: rest) tree' by
    obtain ⟨outcome, tree', hrun, hguarded⟩ := hrun
    exact ⟨outcome, tree', entry,
      hrun, by rw [hname]; rfl, hentry, hguarded.outside⟩
  rw [← hname]
  rcases command_cases (.build directory output overwrite) tree with
    ⟨problem, hrun, -⟩ | ⟨other, pack, hother, hbuild, hbuilt⟩
  · exact ⟨_, tree, run_command hmode hrun, hshelters.guarded hsound⟩
  · have hsame := hload.symm.trans hother
    cases hsame
    rcases hwritten : (pack.toDirectory (m := StateM FileTree)
        ((Path.ofString output).join (.ofString loaded.project.name))
        overwrite).run.run tree
      with ⟨written, tree'⟩
    have hdescribed := (LoadedProject.ends_load _).of_ok hload
    exact ⟨_, tree',
      run_command hmode (run_build_of_toDirectory hbuilt hwritten),
      hshelters.guarded_toDirectory hsound
        (loaded.inner_files hdescribed htags hbuild) hwritten⟩

namespace Cellar

/-- A project of some name, which may have components, and a directory of
packs with two entries. -/
def tree (name : String) (components : List (Place × Entry)) : FileTree where
  entries :=
    [([Text.encode "demo"], .directory),
     ([Text.encode "demo", Text.encode "project.json"],
       .file (Text.encode ("[" ++ Json.quoted name ++ ",\"d\"]"))),
     ([Text.encode "packs"], .directory),
     ([Text.encode "packs", Text.encode "a.txt"], .file (Text.encode "x")),
     ([Text.encode "packs", Text.encode "b.txt"], .file (Text.encode "y"))]
     ++ components

/-- A component with a method that declares a tag. -/
def bell : List (Place × Entry) :=
  [([Text.encode "demo", Text.encode "components"], .directory),
   ([Text.encode "demo", Text.encode "components", Text.encode "bell.json"],
     .file (Text.encode
       "[null,null,false,[[\"ring\",\"public\",[],[\"chime\"]]]]"))]

def building : List String :=
  ["build", "--project-dir", "demo", "--output-dir", "packs", "--overwrite"]

end Cellar

/-- A project whose name is that of a file takes the place of the file, and
the other entry is kept. -/
theorem cellar_keeps_other_entry :
    (Cellar.tree "a.txt" Cellar.bell).Sound
      ∧ ∃ outcome tree', (run (m := StateM FileTree) Cellar.building).run
            (Cellar.tree "a.txt" Cellar.bell) = (outcome, tree')
          ∧ outcome.code = 0
          ∧ tree'.get? [Text.encode "packs", Text.encode "a.txt"]
            = some .directory
          ∧ ∀ other, ¬[Text.encode "packs", Text.encode "a.txt"] <+: other →
            tree'.get? other
              = (Cellar.tree "a.txt" Cellar.bell).get? other := by
  have hmode : Request.ofArguments Cellar.building
      = .run (.build "demo" "packs" true) := by
    decide +kernel
  have hentries : ∀ entry ∈ (Cellar.tree "a.txt" Cellar.bell).entries,
      (Cellar.tree "a.txt" Cellar.bell).get? entry.1.dropLast
        = some .directory := by decide +kernel
  have hsound : (Cellar.tree "a.txt" Cellar.bell).Sound := .of_entries hentries
  have hloads :
      ((LoadedProject.load (m := StateM FileTree) (.ofString "demo")).run.run
        (Cellar.tree "a.txt" Cellar.bell)).1.toOption.map
        (fun loaded =>
          decide (loaded.project.name = "a.txt" ∧ loaded.TagsInside))
          = some true := by
    decide +kernel
  have hends : ((run (m := StateM FileTree) Cellar.building).run
        (Cellar.tree "a.txt" Cellar.bell)).1.code = 0
      ∧ ((run (m := StateM FileTree) Cellar.building).run
        (Cellar.tree "a.txt" Cellar.bell)).2.get?
        [Text.encode "packs", Text.encode "a.txt"] = some .directory := by
        decide +kernel
  have hresolve : ((Cellar.tree "a.txt" Cellar.bell).without
      [Text.encode "packs", Text.encode "a.txt"]).resolve true
      (.ofString "packs")
        = .ok [Text.encode "packs"] := by decide +kernel
  have hload : ∃ loaded,
      (LoadedProject.load (m := StateM FileTree) (.ofString "demo")).run.run
        (Cellar.tree "a.txt" Cellar.bell)
        = (.ok loaded, Cellar.tree "a.txt" Cellar.bell) := by
    rcases loadAndBuild_cases (.ofString "demo")
      (Cellar.tree "a.txt" Cellar.bell) with
      ⟨error, herror, -⟩ | ⟨loaded, hok, -⟩
    · rw [herror] at hloads
      cases hloads
    · exact ⟨loaded, hok⟩
  obtain ⟨loaded, hload⟩ := hload
  rw [hload] at hloads
  obtain ⟨hname, htags⟩ := of_decide_eq_true (Option.some.inj hloads)
  have hshelters : Shelters (Cellar.tree "a.txt" Cellar.bell)
      (.ofString "packs") [Text.encode "packs"]
      (.ofString loaded.project.name) := by
    rw [hname]
    have hsegments : (Path.ofString "a.txt").segments
        = [Text.encode "a.txt"] := by decide +kernel
    refine ⟨by decide +kernel, ?_, by decide +kernel, ?_⟩
    · rw [hsegments]
      exact hresolve
    · intro front target hne hle hproper
      rw [hsegments] at hle hproper
      have hlength := hle.length_le
      have hpos := List.length_pos_iff.2 hne
      rw [List.length_singleton] at hlength
      refine absurd (hle.eq_of_length ?_) hproper
      rw [List.length_singleton]
      omega
  obtain ⟨outcome, tree', entry, hrun, hentry, -, hkept⟩ :=
    build_stays_in_entry hmode hsound hload hshelters htags
  rw [hname] at hentry
  obtain rfl : Text.encode "a.txt" = entry := by
    have hhead : (Path.ofString "a.txt").segments.head?
        = some (Text.encode "a.txt") := by
      decide +kernel
    exact Option.some.inj (hhead.symm.trans hentry)
  rw [hrun] at hends
  exact ⟨hsound, outcome, tree', hrun, hends.1, hends.2, hkept⟩

/-- A project without a name is built into the directory of packs itself, and
both entries are removed. -/
theorem cellar_loses_all_entries :
    ∃ outcome tree',
      (run (m := StateM FileTree) Cellar.building).run (Cellar.tree "" [])
        = (outcome, tree')
      ∧ outcome.code = 0
      ∧ ¬∃ entry, ∀ other, ¬[Text.encode "packs", entry] <+: other →
          tree'.get? other = (Cellar.tree "" []).get? other := by
  have hends :
      ((run (m := StateM FileTree) Cellar.building).run
        (Cellar.tree "" [])).1.code = 0
      ∧ ∀ name ∈ ["a.txt", "b.txt"],
        ((run (m := StateM FileTree) Cellar.building).run
          (Cellar.tree "" [])).2.get?
            [Text.encode "packs", Text.encode name]
          ≠ (Cellar.tree "" []).get?
            [Text.encode "packs", Text.encode name] := by decide +kernel
  rcases hrun : (run (m := StateM FileTree) Cellar.building).run
    (Cellar.tree "" []) with
    ⟨outcome, tree'⟩
  rw [hrun] at hends
  refine ⟨outcome, tree', rfl, hends.1, ?_⟩
  rintro ⟨entry, hkept⟩
  -- each of the two would have to be the entry that may change
  have hchanged : ∀ name ∈ ["a.txt", "b.txt"], Text.encode name = entry := by
    intro name hname
    by_contra hother
    refine hends.2 name hname (hkept _ fun hle => hother ?_)
    have heq := hle.eq_of_length rfl
    exact (List.cons.inj (List.cons.inj heq).2).1.symm
  have hsame : Text.encode "a.txt" = Text.encode "b.txt" :=
    (hchanged "a.txt" (by simp)).trans (hchanged "b.txt" (by simp)).symm
  exact absurd hsame (by decide)

end Cli

end Datapack
