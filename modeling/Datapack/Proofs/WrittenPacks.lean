/-
A pack in a directory and a pack in memory have the same files.

The root of a pack leads to a place, and everything is stored below it. As
long as there are no links below the place, a file of the pack is stored at
the place with the names of the file behind it, and nothing outside changes.
`Filled` says what holds after each file: the files below the place are those
in memory so far. Storing a file keeps it (`Filled.stored`), and so does
storing all of them.

It holds at first only if nothing is left below the place, and that takes
more than that the root led nowhere. A root with a way up in it may lead
nowhere because a name before the way up is missing. Once the name is made, it
leads to a directory that was there all the time, with all that is in it.
`FileTree.Free` excludes this, and roots without ways up are always free.
-/
import Datapack.Proofs.Clearing
import Datapack.Proofs.PackFiles

namespace Datapack

-- ================================================================== files

/-- A text is read back from its bytes. -/
theorem Text.encode_injective {text text' : String}
    (h : encode text = encode text') :
    text = text' := by
  have hdata : text.toUTF8.data = text'.toUTF8.data := Array.toList_inj.1 h
  exact String.toByteArray_inj.1 (ByteArray.ext hdata)

/-- A file is known by the segments of its path. -/
private theorem Path.segments_injective {file file' : String}
    (h : (ofString file).segments = (ofString file').segments) :
    file = file' := by
  have hbytes := congrArg joinSlashes h
  rw [segments, segments, joinSlashes_splitSlashes,
    joinSlashes_splitSlashes] at hbytes
  exact Text.encode_injective hbytes

/-- An absolute path starts with the empty segment. -/
theorem Path.segments_of_isAbsolute {path : Path} (h : path.isAbsolute = true) :
    ∃ more, path.segments = [] :: more := by
  obtain ⟨rest, hbytes⟩ := List.head?_eq_some_iff.1 (beq_iff_eq.1 h)
  refine ⟨splitSlashes rest, ?_⟩
  rw [segments, hbytes, splitSlashes_slash]

/-- The segments of the path are names. -/
def Path.Plain (path : Path) : Prop :=
  ∀ segment ∈ path.segments, isIdle segment = false ∧ segment ≠ dotDot

instance (path : Path) : Decidable path.Plain :=
  inferInstanceAs (Decidable (∀ segment ∈ path.segments,
    Path.isIdle segment = false ∧ segment ≠ Path.dotDot))

namespace FileTree

/-- The moves of a plain path are down its names. -/
theorem moves_of_plain {path : Path} (h : path.Plain) :
    moves path = path.segments.map .down := by
  refine List.map_congr_left fun segment hsegment => ?_
  obtain ⟨hidle, hup⟩ := h segment hsegment
  simp [Move.ofSegment, hidle, hup]

/-- So are its steps. -/
theorem steps_of_plain {path : Path} (h : path.Plain) :
    steps path = path.segments.map .down := by
  rw [steps, moves_of_plain h, List.filter_eq_self]
  intro move hmove
  obtain ⟨name, -, rfl⟩ := List.mem_map.1 hmove
  rfl

/-- A plain path starts where one is. -/
theorem isAbsolute_of_plain {path : Path} (h : path.Plain) :
    path.isAbsolute = false := by
  refine Bool.eq_false_iff.2 fun habsolute => ?_
  obtain ⟨more, hsegments⟩ := Path.segments_of_isAbsolute habsolute
  exact absurd (h [] (hsegments ▸ List.mem_cons_self)).1 (by decide)

/-- The place that is written is behind a link, or it is free for a file. -/
theorem writePlace_eq_ok {tree : FileTree} {n : Nat} {start place : Place}
    {path : Path} (h : tree.writePlace n start path = .ok place) :
    ∃ directory name, tree.directoryOf n start path = .ok directory
      ∧ (finalOf path).last = some (.down name) ∧ name.length ≤ maxName
      ∧ ((∃ k target,
        n = k + 1 ∧ tree.get? (directory ++ [name]) = some (.link target)
            ∧ tree.writePlace k directory target = .ok place)
        ∨ (∀ entry, tree.get? (directory ++ [name]) = some entry →
          ∃ content, entry = .file content)
          ∧ place = directory ++ [name]) := by
  rw [writePlace] at h
  cases hdirectory : tree.directoryOf n start path with
  | error fault =>
      rw [hdirectory] at h
      cases h
  | ok directory =>
      rw [hdirectory] at h
      simp only [bind, Except.bind] at h
      split at h
      · cases h
      · split at h
        · next name hlast =>
          cases hlook : tree.look directory name with
          | error fault =>
              rw [hlook] at h
              cases h
          | ok found =>
              rw [hlook] at h
              obtain ⟨hname, hfound⟩ := look_eq_ok hlook
              refine ⟨directory, name, rfl, hlast, hname, ?_⟩
              rw [hfound]
              dsimp only at h
              split at h
              · cases h
              · next target =>
                -- a directory is not written to, a link is followed, and a
                -- file or nothing is the place
                split at h
                · cases h
                · next k => exact .inl ⟨k, target, rfl, rfl, h⟩
              · next hdirectory hlink =>
                cases h
                refine .inr ⟨fun entry hentry => ?_, rfl⟩
                cases entry with
                | file content => exact ⟨content, rfl⟩
                | directory => exact absurd hentry hdirectory
                | link target => exact absurd hentry (hlink target)
        · cases h

/-- A file that was written is the entry that its path leads to, unless that
is a link. -/
theorem write_eq_ok {tree tree' : FileTree} {path : Path} {content : List UInt8}
    (h : tree.write path content = (.ok (), tree')) :
    ∃ directory name, tree.Reaches path directory name
      ∧ ((∃ target, tree.get? (directory ++ [name]) = some (.link target))
        ∨ tree.get? (directory ++ [name]) ≠ some .directory
          ∧ tree' = tree.set (directory ++ [name]) (.file content)) := by
  unfold write at h
  split at h
  · cases h
  · next place hplace =>
    cases h
    obtain ⟨directory, name, hdirectory, hlast, hname, hentry⟩ :=
      writePlace_eq_ok hplace
    obtain ⟨hcheck, habove, hat⟩ := directoryOf_eq_ok_iff.1 hdirectory
    refine ⟨directory, name, ⟨hcheck, hlast, habove, hat, hname⟩, ?_⟩
    rcases hentry with ⟨k, target, -, hlink, -⟩ | ⟨hfile, rfl⟩
    · exact .inl ⟨target, hlink⟩
    · refine .inr ⟨fun hdirectory => ?_, rfl⟩
      obtain ⟨content, heq⟩ := hfile _ hdirectory
      cases heq

/-- A file is never written in place of a directory or a link. -/
theorem free_of_writePlace {tree : FileTree} {n : Nat} {start place : Place}
    {path : Path} (h : tree.writePlace n start path = .ok place) :
    place ≠ []
      ∧ ∀ entry,
        tree.get? place = some entry → ∃ content, entry = .file content := by
  induction n generalizing start path with
  | zero =>
      obtain ⟨directory, name, -, -, -, ⟨k, _, hk, -⟩ | ⟨hfile, rfl⟩⟩ :=
        writePlace_eq_ok h
      · cases hk
      · exact ⟨concat_ne_nil directory name, hfile⟩
  | succ n ih =>
      obtain ⟨directory, name, -, -, -,
        ⟨k, target, hk, -, hbehind⟩ | ⟨hfile, rfl⟩⟩ :=
        writePlace_eq_ok h
      · cases hk
        exact ih hbehind
      · exact ⟨concat_ne_nil directory name, hfile⟩

/-- Writing a file changes no entry but a file. -/
theorem write_extends {tree tree' : FileTree} {path : Path}
    {content : List UInt8} (h : tree.write path content = (.ok (), tree')) :
    tree.Extends tree' := by
  unfold write at h
  split at h
  · cases h
  · next place hplace =>
    cases h
    obtain ⟨hne, hfile⟩ := free_of_writePlace hplace
    refine extends_set hne fun old hold => ?_
    obtain ⟨before, rfl⟩ := hfile old hold
    exact .file before content

end FileTree

/-- Storing files removes nothing, wherever they are stored. -/
theorem DirectoryWriter.StoredAll.extends_tree {root : Path}
    {files : List (String × String)} {tree tree' : FileTree}
    (h : StoredAll root files tree tree') : tree.Extends tree' := by
  induction h with
  | nil => exact .refl _
  | cons hfile _ ih =>
      obtain ⟨between, hparent, hwrite⟩ := hfile
      refine .trans ?_ (.trans (FileTree.write_extends hwrite) ih)
      rcases hparent with ⟨-, rfl⟩ | ⟨parent, -, hmake⟩
      · exact .refl _
      · exact (FileTree.makeDirectories_eq_ok hmake).1.extends_tree

-- ================================================================ storing

/-- What is found in memory under the names of files once a file was
inserted. -/
theorem MemoryPack.files_insert_iff (memory : MemoryPack) {file text : String}
    {names : List FileName} {content : List UInt8} :
    (∃ other text', (memory.insert file text).get? other = some text'
        ∧ (Path.ofString other).segments = names ∧ Text.encode text' = content)
      ↔ if names = (Path.ofString file).segments then content = Text.encode text
        else ∃ other text', memory.get? other = some text'
          ∧ (Path.ofString other).segments = names
            ∧ Text.encode text' = content := by
  split
  · next heq =>
    subst heq
    constructor
    · rintro ⟨other, text', hother, hsegments, rfl⟩
      obtain rfl := Path.segments_injective hsegments
      rw [Table.get?_insert, if_pos rfl] at hother
      cases hother
      rfl
    · rintro rfl
      exact ⟨file, text, by rw [Table.get?_insert, if_pos rfl], rfl, rfl⟩
  · next hne =>
    have hsame : ∀ other, (Path.ofString other).segments = names →
        (memory.insert file text).get? other = memory.get? other := by
      rintro other rfl
      rw [Table.get?_insert, if_neg]
      rintro rfl
      exact hne rfl
    refine exists_congr
      fun other => exists_congr fun text' => and_congr_left fun h => ?_
    rw [hsame other h.1]

open FileTree

/-- The root leads to the place, below which there are directories and the
files in memory. Everything else is as it was before. -/
structure Filled (root : Path) (place : Place) (before : FileTree)
    (memory : MemoryPack) (tree : FileTree) : Prop where
  sound : tree.Sound
  leads : tree.Leads true maxLinks [] (steps root) place
  directory : tree.get? place = some .directory
  kept : before.Extends tree
  outside : ∀ other, ¬place <+: other → tree.get? other = before.get? other
  unlinked : ∀ names target, tree.get? (place ++ names) ≠ some (.link target)
  files : ∀ names content, tree.get? (place ++ names) = some (.file content)
    ↔ ∃ file text,
      memory.get? file = some text ∧ (Path.ofString file).segments = names
      ∧ Text.encode text = content

namespace Filled

variable {root : Path} {place : Place} {before tree tree' : FileTree}
  {memory : MemoryPack}

/-- Names lead from the place to what has them behind it. -/
theorem eq_of_leads (h : Filled root place before memory tree)
    {names : List FileName} {target : Place}
    (hleads : tree.Leads true maxLinks [] (steps root ++ names.map .down)
      target) :
    target = place ++ names := by
  obtain ⟨between, hbetween, hnames⟩ := hleads.of_append (.inl rfl)
  obtain rfl := hbetween.unique h.leads
  exact hnames.eq_append_names fun more path _ _ => h.unlinked more path

/-- What is made for names behind the root is made below the place: all that
is on the way to the place is there already. -/
theorem below_of_new {paths : List Path} {names : List FileName} {path : Path}
    {other : Place} (h : Filled root place before memory tree)
    (hgrown : tree.Grown paths tree')
    (hunlinked : ∀ names target,
      tree'.get? (place ++ names) ≠ some (.link target))
      (hpath : steps path <+: steps root ++ names.map .down)
      (hnone : tree.get? other = none)
    (hdirectory : tree'.get? other = some .directory)
    (hresolve : tree'.resolve true path = .ok other) : place <+: other := by
  have hother := leads_steps hresolve hdirectory
  have hplace := hgrown.extends_tree.leads h.leads
  rcases List.prefix_or_prefix_of_prefix hpath (List.prefix_append _ _) with
    ⟨more, hmore⟩ | ⟨more, hmore⟩
  · have hleads := h.leads
    rw [← hmore] at hleads
    obtain ⟨between, hbetween, -⟩ := hleads.of_append (.inl rfl)
    obtain rfl := (hgrown.extends_tree.leads hbetween).unique hother
    have hthere := h.sound.isSome_of_leads hbetween rfl
    rw [hnone] at hthere
    cases hthere
  · rw [← hmore] at hpath hother
    obtain ⟨front, -, rfl⟩ :=
      List.prefix_map_iff.1 ((List.prefix_append_right_inj _).1 hpath)
    obtain ⟨between, hbetween, hnames⟩ := hother.of_append (.inl rfl)
    obtain rfl := hbetween.unique hplace
    exact ⟨front,
      (hnames.eq_append_names
        fun more target _ _ => hunlinked more target).symm⟩

/-- Making directories for names behind the root stores no file. -/
theorem grown {paths : List Path} {names : List FileName}
    (h : Filled root place before memory tree)
    (hpaths : ∀ path ∈ paths, steps path <+: steps root ++ names.map .down)
    (hgrown : tree.Grown paths tree') :
    Filled root place before memory tree' := by
  have hunlinked : ∀ names target,
      tree'.get? (place ++ names) ≠ some (.link target) := by
    intro names target
    rcases hgrown.get?_cases (place ++ names) with hsame | ⟨-, hnew, -⟩
    · rw [hsame]
      exact h.unlinked names target
    · rw [hnew]
      exact fun hlink => nomatch hlink
  refine ⟨hgrown.sound h.sound, hgrown.extends_tree.leads h.leads,
    hgrown.kept _ _ h.directory, h.kept.trans hgrown.extends_tree,
    fun other hother => ?_, hunlinked, fun names content => ?_⟩
  · rcases hgrown.get?_cases other with hsame
      | ⟨hnone, hnew, path, hpath, hresolve⟩
    · rw [hsame, h.outside other hother]
    · exact absurd (h.below_of_new hgrown hunlinked (hpaths path hpath) hnone
        hnew hresolve) hother
  · rw [← h.files]
    rcases hgrown.get?_cases (place ++ names) with hsame | ⟨hnone, hnew, -⟩
    · rw [hsame]
    · rw [hnone, hnew]
      simp

/-- A file is stored at its names behind the place. -/
theorem set {file : String} {front : List FileName} {name : FileName}
    (h : Filled root place before memory tree) (text : String)
    (hnames : (Path.ofString file).segments = front ++ [name])
    (hfront : tree.get? (place ++ front) = some .directory)
    (hfree : tree.get? (place ++ front ++ [name]) ≠ some .directory) :
    Filled root place before (memory.insert file text)
      (tree.set (place ++ front ++ [name]) (.file (Text.encode text))) := by
  have hget := tree.get?_set (concat_ne_nil (place ++ front) name)
    (.file (Text.encode text))
  -- a file may replace a file, and nothing else is there
  have hextends : tree.Extends
      (tree.set (place ++ front ++ [name]) (.file (Text.encode text))) := by
    refine extends_set (concat_ne_nil (place ++ front) name) fun old hold => ?_
    cases old with
    | file content => exact .file content _
    | directory => exact absurd hold hfree
    | link target =>
        rw [List.append_assoc] at hold
        exact absurd hold (h.unlinked _ target)
  have hbelow : ∀ {names : List FileName},
      place ++ names = place ++ front ++ [name] ↔ names = front ++ [name] := by
    intro names
    rw [List.append_assoc, List.append_cancel_left_eq]
  refine ⟨h.sound.set hextends hfront, hextends.leads h.leads,
    hextends.directory h.directory, h.kept.trans hextends,
    fun other hother => ?_, fun names target => ?_, fun names content => ?_⟩
  · rw [hget, if_neg]
    · exact h.outside other hother
    · rintro rfl
      exact hother ⟨front ++ [name], (List.append_assoc ..).symm⟩
  · rw [hget]
    split
    · exact fun hlink => nomatch hlink
    · exact h.unlinked names target
  · rw [hget, memory.files_insert_iff, hnames]
    simp only [hbelow]
    split
    · simp [eq_comm]
    · exact h.files names content

/-- Storing a file in the directory is storing it in memory. -/
theorem stored {file text : String} (h : Filled root place before memory tree)
    (hplain : (Path.ofString file).Plain)
    (hstored : DirectoryWriter.Stored root file text tree tree') :
    Filled root place before (memory.insert file text) tree' := by
  obtain ⟨between, hparent, hwrite⟩ := hstored
  have hsteps : steps (root.join (.ofString file))
      = steps root ++ (Path.ofString file).segments.map .down := by
    rw [steps_join (isAbsolute_of_plain hplain), steps_of_plain hplain]
  obtain ⟨front, name, hnames⟩ :=
    (List.eq_nil_or_concat (Path.ofString file).segments).resolve_left
      (Path.splitSlashes_ne_nil _)
  rw [List.concat_eq_append] at hnames
  rw [hnames, List.map_append, ← List.append_assoc] at hsteps
  -- first the directories
  have hgrown : Filled root place before memory between := by
    rcases hparent with ⟨hnone, -⟩ | ⟨parent, hsome, hmake⟩
    · have hne : steps (root.join (.ofString file)) ≠ [] := by
        rw [hsteps]
        exact List.append_ne_nil_of_right_ne_nil _ (List.cons_ne_nil _ _)
      obtain ⟨parent, hsome⟩ := exists_parent hne
      rw [hnone] at hsome
      cases hsome
    · have hfront : steps parent = steps root ++ front.map .down := by
        rw [steps_parent hsome, hsteps, List.map_singleton,
          List.dropLast_concat]
      have hpaths : ∀ path ∈ parent.ancestors,
          steps path <+: steps root ++ front.map .down := by
        intro path hpath
        rw [← hfront]
        exact steps_ancestor hpath
      exact h.grown hpaths (makeDirectories_eq_ok hmake).1
  -- then the file
  obtain ⟨directory, last, hreaches, hentry⟩ := write_eq_ok hwrite
  have hlast := hreaches.steps_eq.symm.trans hsteps
  obtain ⟨habove, hname⟩ := List.append_inj' hlast rfl
  cases hname
  have hdirectory : directory = place ++ front := by
    refine hgrown.eq_of_leads (hreaches.above.of_steps hreaches.directory ?_)
    rw [← habove, List.filter_filter]
    simp
  subst hdirectory
  rcases hentry with ⟨target, hlink⟩ | ⟨hfree, rfl⟩
  · rw [List.append_assoc] at hlink
    exact absurd hlink (hgrown.unlinked _ target)
  · exact hgrown.set text hnames hreaches.directory hfree

/-- Storing files in the directory is storing them in memory. -/
theorem storedAll {files : List (String × String)}
    (h : Filled root place before memory tree)
    (hplain : ∀ file ∈ files, (Path.ofString file.1).Plain)
    (hstored : DirectoryWriter.StoredAll root files tree tree') :
    Filled root place before (memory.writeAll files) tree' := by
  induction hstored generalizing memory with
  | nil => exact h
  | cons hfile _ ih =>
      obtain ⟨hfirst, hrest⟩ := List.forall_mem_cons.1 hplain
      exact ih (h.stored hfirst hfile) hrest

end Filled

-- =============================================================== clearing

/-- Nothing that was at the place is left there once the root is cleared: the
place is new, or it is in what the root led to. -/
def FileTree.Free (tree : FileTree) (root : Path) (place : Place) : Prop :=
  tree.get? place = none
    ∨ tree.contains root = true
      ∧ ∃ removed, tree.resolve false root = .ok removed ∧ removed <+: place

namespace DirectoryWriter.Cleared

variable {tree cleared made : FileTree} {root : Path} {overwrite : Bool}
  {place : Place}

private theorem sound (h : Cleared tree root overwrite cleared)
    (hsound : tree.Sound) :
    cleared.Sound := by
  rcases h.cases hsound with ⟨-, rfl⟩ | ⟨-, removed, -, hclears⟩
  · exact hsound
  · exact hclears.sound

/-- Outside of what the root led to, nothing is removed. -/
theorem get?_outside (h : Cleared tree root overwrite cleared)
    (hsound : tree.Sound)
    (hplace : ∀ removed,
      tree.resolve false root = .ok removed → ¬removed <+: place) :
    cleared.get? place = tree.get? place := by
  rcases h.cases hsound with ⟨-, rfl⟩ | ⟨-, removed, hremoved, hclears⟩
  · rfl
  · exact hclears.outside place (hplace removed hremoved)

/-- Nothing is left below a place that is free. -/
theorem none_below (h : Cleared tree root overwrite cleared)
    (hsound : tree.Sound) (hfree : tree.Free root place) {names : List FileName}
    (hnames : names ≠ []) :
    cleared.get? (place ++ names) = none := by
  have hnew : tree.get? place = none → tree.get? (place ++ names) = none := by
    intro hnone
    refine hsound.none_below (List.prefix_append _ _) (by simpa using hnames) ?_
    rw [hnone]
    exact fun h => nomatch h
  rcases h.cases hsound with ⟨habsent, rfl⟩ | ⟨-, removed, hremoved, hclears⟩
  · rcases hfree with hnone | ⟨hpresent, -⟩
    · exact hnew hnone
    · rw [habsent] at hpresent
      cases hpresent
  · rcases hfree with hnone | ⟨-, other, hother, hle⟩
    · cases hentry : cleared.get? (place ++ names) with
      | none => rfl
      | some entry =>
          obtain ⟨entry', hentry', -⟩ := hclears.extends_tree _ _ hentry
          rw [hnew hnone] at hentry'
          cases hentry'
    · rw [hremoved] at hother
      cases hother
      refine hclears.below _ (hle.trans (List.prefix_append _ _))
        fun heq => hnames ?_
      have hlength := congrArg List.length heq
      have hle := hle.length_le
      rw [List.length_append] at hlength
      exact List.length_eq_zero_iff.1 (by omega)

/-- A root without ways up leads to a place that is free. -/
theorem free (h : Cleared tree root overwrite cleared) (hsound : tree.Sound)
    (hnames : .up ∉ steps root) (hroot : root.isEmpty = false)
    (hmake : cleared.makeDirectories root = (.ok (), made))
    (hplace : made.resolve true root = .ok place) : tree.Free root place := by
  have hgrown := (makeDirectories_eq_ok hmake).1
  rcases isDirectory_or_new (h.sound hsound) hnames hroot hmake
    hplace with hdirectory | hnone
  · -- the root led there all the time, so it was cleared there
    obtain ⟨other, hother, -⟩ := isDirectory_iff.1 hdirectory
    have hthere := hgrown.extends_tree.resolve hother
    rw [hplace] at hthere
    cases hthere
    rcases h.cases hsound with ⟨habsent, rfl⟩
      | ⟨hpresent, removed, hremoved, hclears⟩
    · rw [contains_of_isDirectory hdirectory] at habsent
      cases habsent
    · refine .inr ⟨hpresent, removed, hremoved, ?_⟩
      rw [hclears.resolve_eq hremoved hother]
  · by_cases hbelow : ∃ removed,
      tree.resolve false root = .ok removed ∧ removed <+: place
    · rcases h.cases hsound with ⟨-, rfl⟩ | ⟨hpresent, -⟩
      · exact .inl hnone
      · exact .inr ⟨hpresent, hbelow⟩
    · refine .inl ?_
      rw [← h.get?_outside hsound
        fun removed hremoved hle => hbelow ⟨removed, hremoved, hle⟩]
      exact hnone

end DirectoryWriter.Cleared

/-- Two dots are the only segment that leads up. -/
theorem FileTree.eq_dotDot_of_ofSegment {segment : FileName}
    (h : Move.ofSegment segment = .up) :
    segment = Path.dotDot := by
  unfold Move.ofSegment at h
  split at h
  · cases h
  · split at h
    · next hdots => exact beq_iff_eq.1 hdots
    · cases h

/-- Without two dots a path has no way up. -/
private theorem FileTree.up_notMem_steps {path : Path}
    (h : ∀ segment ∈ path.segments, segment ≠ Path.dotDot) :
    .up ∉ steps path := by
  intro hup
  obtain ⟨segment, hsegment, hmove⟩ := List.mem_map.1 (List.mem_filter.1 hup).1
  exact h segment hsegment (eq_dotDot_of_ofSegment hmove)

/-- Before the first file is stored there are only directories below the
place. -/
theorem Filled.start {tree cleared made : FileTree} {root : Path}
    {overwrite : Bool} {place : Place} {paths : List Path} (hsound : tree.Sound)
    (hcleared : DirectoryWriter.Cleared tree root overwrite cleared)
    (hgrown : cleared.Grown paths made)
    (hplace : made.resolve true root = .ok place)
    (hdirectory : made.get? place = some .directory)
    (hfree : tree.Free root place) :
    Filled root place made Table.empty made := by
  have hbelow : ∀ names, made.get? (place ++ names) = none
      ∨ made.get? (place ++ names) = some .directory := by
    intro names
    by_cases hnames : names = []
    · rw [hnames, List.append_nil]
      exact .inr hdirectory
    · rcases hgrown.get?_cases (place ++ names) with hsame | ⟨-, hnew, -⟩
      · rw [hsame]
        exact .inl (hcleared.none_below hsound hfree hnames)
      · exact .inr hnew
  refine ⟨hgrown.sound (hcleared.sound hsound), leads_steps hplace hdirectory,
    hdirectory, .refl _, fun _ _ => rfl, fun names target hlink => ?_,
    fun names content => ?_⟩
  · rcases hbelow names with h | h <;> rw [h] at hlink <;> cases hlink
  · constructor
    · intro hfile
      rcases hbelow names with h | h <;> rw [h] at hfile <;> cases hfile
    · rintro ⟨file, text, hfile, -⟩
      cases hfile

-- ================================================================== packs

/-- The files of a pack are plain if those of its artifacts are. -/
private theorem Pack.plain_files {pack : Pack}
    (h : ∀ artifact ∈ pack.artifacts, (Path.ofString artifact.file).Plain) :
    ∀ file ∈ pack.files, (Path.ofString file.1).Plain := by
  intro file hfile
  rcases List.mem_append.1 hfile with hfile | hfile
  · obtain ⟨artifact, hartifact, rfl⟩ := List.mem_map.1 hfile
    exact h artifact hartifact
  · have hmetadata : (Path.ofString metadataFile).Plain := by decide +kernel
    rw [List.mem_singleton.1 hfile]
    exact hmetadata

/-- A pack that was written to a directory counts as many files as it has
artifacts and one. Its root then leads to a directory, and if its place was
free, the files below it are the files of the pack in memory, and everything
else is as it was, except for new directories on the way to the root. The
place was free if the root has no way up. -/
theorem Pack.directory_agrees_with_memory (pack : Pack)
    (hplain : ∀ artifact ∈ pack.artifacts, (Path.ofString artifact.file).Plain)
    {tree tree' : FileTree} (hsound : tree.Sound) {root : Path}
    {overwrite : Bool} {count : Nat}
    (h : (pack.toDirectory (m := StateM FileTree) root overwrite).run.run tree
      = (.ok count, tree')) :
    count = pack.functions.length + pack.tags.length + 1
      ∧ (root.isEmpty = false → ∃ place, tree'.resolve true root = .ok place
        ∧ tree'.get? place = some .directory
        ∧ ((∀ segment ∈ root.segments, segment ≠ Path.dotDot) →
          tree.Free root place)
        ∧ (tree.Free root place →
          (∀ names content, tree'.get? (place ++ names) = some (.file content)
            ↔ ∃ file text, pack.inMemory.get? file = some text
              ∧ (Path.ofString file).segments = names
                ∧ Text.encode text = content)
          ∧ ∀ other, ¬place <+: other →
            (∀ removed,
              tree.resolve false root = .ok removed → ¬removed <+: other) →
            tree'.get? other = tree.get? other
              ∨ tree.get? other = none ∧ tree'.get? other = some .directory
                ∧ ∃ ancestor ∈ root.ancestors,
                  tree'.resolve true ancestor = .ok other)) := by
  obtain ⟨cleared, made, hcleared, hmake, hstored, rfl⟩ := of_toDirectory h
  refine ⟨pack.length_files, fun hroot => ?_⟩
  obtain ⟨hgrown, hisDirectory⟩ := makeDirectories_eq_ok hmake
  obtain ⟨place, hplace, hdirectory⟩ := isDirectory_iff.1 (hisDirectory hroot)
  have hextends := hstored.extends_tree
  refine ⟨place, hextends.resolve hplace, hextends.directory hdirectory,
    fun hnames => ?_, fun hfree => ?_⟩
  · exact hcleared.free hsound (up_notMem_steps hnames) hroot hmake hplace
  · -- the files are those in memory from the moment the root is made
    have hfilled :=
      (Filled.start hsound hcleared hgrown hplace hdirectory hfree).storedAll
        (plain_files hplain) hstored
    refine ⟨hfilled.files, fun other hplace hremoved => ?_⟩
    rw [hfilled.outside other hplace, ← hcleared.get?_outside hsound hremoved]
    rcases hgrown.get?_cases other with hsame
      | ⟨hnone, hnew, ancestor, hancestor, hresolve⟩
    · exact .inl hsame
    · exact .inr ⟨hnone, hnew, ancestor, hancestor, hextends.resolve hresolve⟩

namespace Attic

def pack : Pack where
  name := "D"
  space := "d"
  description := "x"
  functions := [⟨"d:a", ["say hi"]⟩]
  tags := [⟨"minecraft:load", ["d:a"]⟩]

/-- A pack that was written before, and a directory with something else. -/
def tree : FileTree where
  entries :=
    [([Text.encode "packs"], .directory),
     ([Text.encode "packs", Text.encode "D"], .directory),
     ([Text.encode "packs", Text.encode "D", Text.encode "stale.txt"],
       .file []),
     ([Text.encode "old"], .directory),
     ([Text.encode "old", Text.encode "stale.txt"], .file [])]

private theorem sound : tree.Sound := by
  have hentries : ∀ entry ∈ tree.entries,
      tree.get? entry.1.dropLast = some .directory := by
    decide +kernel
  exact .of_entries hentries

/-- A run that gives a number of files. -/
theorem run_of_toOption (root : Path) (count : Nat)
    (h : ((pack.toDirectory (m := StateM FileTree) root true).run.run
      tree).1.toOption
      = some count) :
    (pack.toDirectory (m := StateM FileTree) root true).run.run tree
      = (.ok count,
        ((pack.toDirectory (m := StateM FileTree) root true).run.run
          tree).2) := by
  rcases hrun : (pack.toDirectory (m := StateM FileTree) root true).run.run
    tree with
    ⟨outcome, after⟩
  rw [hrun] at h
  cases outcome with
  | error error => cases h
  | ok files =>
      cases h
      rfl

end Attic

/-- The old pack is replaced, and nothing of it is left. -/
theorem Pack.attic_agrees :
    ∃ tree',
      (Attic.pack.toDirectory (m := StateM FileTree) (.ofString "packs/D")
        true).run.run
        Attic.tree = (.ok 3, tree')
      ∧ ∃ place, tree'.resolve true (.ofString "packs/D") = .ok place
        ∧ ∀ names content, tree'.get? (place ++ names) = some (.file content)
          ↔ ∃ file text, Attic.pack.inMemory.get? file = some text
            ∧ (Path.ofString file).segments = names
              ∧ Text.encode text = content := by
  have hrun := Attic.run_of_toOption (.ofString "packs/D") 3 (by decide +kernel)
  have hplain : ∀ artifact ∈ Attic.pack.artifacts,
      (Path.ofString artifact.file).Plain := by
    decide +kernel
  have hnames : ∀ segment ∈ (Path.ofString "packs/D").segments,
      segment ≠ Path.dotDot := by
    decide +kernel
  obtain ⟨-, hroot⟩ :=
    Attic.pack.directory_agrees_with_memory hplain Attic.sound hrun
  obtain ⟨place, hplace, -, hfree, hfiles⟩ := hroot (by decide +kernel)
  exact ⟨_, hrun, place, hplace, (hfiles (hfree hnames)).1⟩

/-- The root leads nowhere because `new` is missing. Once that is made, it
leads to the directory `old`, and what was in it is among the files of the
pack. -/
theorem Pack.attic_keeps_leftovers :
    ∃ tree' place,
      (Attic.pack.toDirectory (m := StateM FileTree) (.ofString "old/new/..")
        true).run.run Attic.tree = (.ok 3, tree')
      ∧ Attic.tree.contains (.ofString "old/new/..") = false
      ∧ tree'.resolve true (.ofString "old/new/..") = .ok place
      ∧ tree'.get? (place ++ [Text.encode "stale.txt"]) = some (.file [])
      ∧ Attic.pack.inMemory.get? "stale.txt" = none := by
  have hrun :=
    Attic.run_of_toOption (.ofString "old/new/..") 3 (by decide +kernel)
  refine ⟨_, [Text.encode "old"], hrun, ?_⟩
  decide +kernel

end Datapack
