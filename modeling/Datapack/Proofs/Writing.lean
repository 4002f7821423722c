/-
What writing a pack to a directory does to a tree of files.

The writer is made of steps that can fail, keep what the writer has done so
far, and change files. For trees of files the three come down to functions
on trees, and the lemmas here say which: what a step leads to from a writer
and a tree, and, of a step that succeeded, what it rested on.
-/
import Datapack.Pack.Writer

namespace Datapack.DirectoryWriter

-- ================================================================== steps

/-- A step from a writer and a tree: its outcome, and both after it. -/
def runOn {α : Type} (step : Writing (StateM FileTree) α)
    (writer : DirectoryWriter) (tree : FileTree) :
    (Except ProjectError α × DirectoryWriter) × FileTree :=
  (step.run.run writer).run tree

variable {α β : Type} {step : Writing (StateM FileTree) α}
  {next : α → Writing (StateM FileTree) β} {writer writer' : DirectoryWriter}
  {tree tree' : FileTree}

/-- A step that succeeds hands its value, its writer and its tree to
the next. -/
theorem runOn_bind_ok {value : α}
    (h : runOn step writer tree = ((.ok value, writer'), tree')) :
    runOn (step >>= next) writer tree = runOn (next value) writer' tree' := by
  show StateT.run (StateT.run (ExceptT.run (step >>= next)) writer) tree = _
  rw [ExceptT.run_bind, StateT.run_bind, StateT.run_bind]
  unfold runOn at h
  rw [h]
  rfl

/-- After a step that fails nothing is done. -/
theorem runOn_bind_error {error : ProjectError}
    (h : runOn step writer tree = ((.error error, writer'), tree')) :
    runOn (step >>= next) writer tree = ((.error error, writer'), tree') := by
  show StateT.run (StateT.run (ExceptT.run (step >>= next)) writer) tree = _
  rw [ExceptT.run_bind, StateT.run_bind, StateT.run_bind]
  unfold runOn at h
  rw [h]
  rfl

/-- Two steps succeed if the first does and the second does after it. -/
theorem of_runOn_bind {value : β}
    (h : runOn (step >>= next) writer tree = ((.ok value, writer'), tree')) :
    ∃ first writer₁ tree₁,
      runOn step writer tree = ((.ok first, writer₁), tree₁)
      ∧ runOn (next first) writer₁ tree₁ = ((.ok value, writer'), tree') := by
  rcases hstep : runOn step writer tree with ⟨⟨outcome, writer₁⟩, tree₁⟩
  cases outcome with
  | error error =>
      rw [runOn_bind_error hstep] at h
      cases h
  | ok first =>
      rw [runOn_bind_ok hstep] at h
      exact ⟨first, writer₁, tree₁, rfl, h⟩

private theorem runOn_lift (action : StateM FileTree α) :
    runOn (liftM action) writer tree
      = ((.ok (action.run tree).1, writer), (action.run tree).2) := rfl

/-- An operation on files, with its fault as an error about the path. -/
theorem runOn_operate (path : Path)
    (operation : StateM FileTree (Except FileFault Unit)) :
    runOn (operate path operation) writer tree
      = (((operation.run tree).1.mapError (ProjectError.access path), writer),
        (operation.run tree).2) := by
  unfold operate
  rw [runOn_bind_ok (runOn_lift operation)]
  cases (operation.run tree).1 <;> rfl

/-- An operation that succeeded gives the tree after it. -/
theorem of_runOn_operate {path : Path}
    {operation : StateM FileTree (Except FileFault Unit)}
    (h : runOn (operate path operation) writer tree
      = ((.ok (), writer'), tree')) :
    writer' = writer ∧ operation.run tree = (.ok (), tree') := by
  rw [runOn_operate] at h
  rcases hoperation : operation.run tree with ⟨outcome, after⟩
  rw [hoperation] at h
  cases outcome with
  | error fault => cases h
  | ok _ =>
      cases h
      exact ⟨rfl, rfl⟩

-- ============================================================== preparing

/-- What is at the root is out of the way: nothing was there, or it was
allowed to remove it. -/
inductive Cleared (tree : FileTree) (root : Path) (overwrite : Bool) :
    FileTree → Prop
  | absent (habsent : tree.contains root = false) :
      Cleared tree root overwrite tree
  | directory {cleared : FileTree} (hoverwrite : overwrite = true)
      (hdirectory : tree.isDirectory root = true)
      (hremoved : tree.removeAll root = (.ok (), cleared)) :
        Cleared tree root overwrite cleared
  | file {cleared : FileTree} (hoverwrite : overwrite = true)
      (hpresent : tree.contains root = true)
      (hfile : tree.isDirectory root = false)
      (hremoved : tree.removeFile root = (.ok (), cleared)) :
        Cleared tree root overwrite cleared

/-- A root is made ready once. -/
theorem runOn_prepare_of_prepared (h : writer.prepared = true) :
    runOn prepare writer tree = ((.ok (), writer), tree) := by
  have hget : runOn (get : Writing (StateM FileTree) DirectoryWriter)
      writer tree
      = ((.ok writer, writer), tree) := rfl
  unfold prepare
  rw [runOn_bind_ok hget, h]
  rfl

/-- A pack that must not be removed is left alone, and so is everything
else. -/
theorem runOn_prepare_of_present (hprepared : writer.prepared = false)
    (hoverwrite : writer.overwrite = false)
    (hpresent : tree.contains writer.root = true) :
    runOn prepare writer tree
      = ((.error (.packExists writer.root), writer), tree) := by
  have hget : runOn (get : Writing (StateM FileTree) DirectoryWriter)
      writer tree
      = ((.ok writer, writer), tree) := rfl
  have hlook :
      runOn (liftM (FileAccess.present (m := StateM FileTree) writer.root))
        writer tree
      = ((.ok true, writer), tree) := by
    rw [runOn_lift, ← hpresent]
    rfl
  unfold prepare
  rw [runOn_bind_ok hget]
  simp only [hprepared, Bool.not_false, if_true]
  rw [runOn_bind_ok hlook]
  simp only [hoverwrite, if_true]
  rfl

/-- What making a root ready rested on, if it succeeded. -/
theorem of_runOn_prepare (hprepared : writer.prepared = false)
    (h : runOn prepare writer tree = ((.ok (), writer'), tree')) :
    writer' = { writer with prepared := true }
      ∧ ∃ cleared, Cleared tree writer.root writer.overwrite cleared
        ∧ cleared.makeDirectories writer.root = (.ok (), tree') := by
  -- once the root is clear, making it and keeping note of it remain
  have hmade : ∀ {cleared : FileTree},
      Cleared tree writer.root writer.overwrite cleared → runOn (do
          operate writer.root (FileAccess.makeDirectories writer.root)
          modify fun writer => { writer with prepared := true }) writer cleared
        = ((.ok (), writer'), tree') →
      writer' = { writer with prepared := true }
        ∧ ∃ cleared, Cleared tree writer.root writer.overwrite cleared
          ∧ cleared.makeDirectories writer.root = (.ok (), tree') := by
    intro cleared hcleared hrun
    obtain ⟨_, _, _, hmake, hmodify⟩ := of_runOn_bind hrun
    obtain ⟨rfl, hmake⟩ := of_runOn_operate hmake
    cases hmodify
    exact ⟨rfl, cleared, hcleared, hmake⟩
  unfold prepare at h
  obtain ⟨_, _, _, hget, h⟩ := of_runOn_bind h
  cases hget
  simp only [hprepared, Bool.not_false, if_true] at h
  obtain ⟨present, _, _, hlook, h⟩ := of_runOn_bind h
  cases hlook
  split at h
  · next hpresent =>
    split at h
    · next hoverwrite =>
      obtain ⟨_, writer₁, cleared, hclear, h⟩ := of_runOn_bind h
      unfold clearRoot at hclear
      obtain ⟨_, _, _, hlook, hclear⟩ := of_runOn_bind hclear
      cases hlook
      split at hclear
      · next hdirectory =>
        obtain ⟨rfl, hremoved⟩ := of_runOn_operate hclear
        exact hmade (.directory hoverwrite hdirectory hremoved) h
      · next hfile =>
        obtain ⟨rfl, hremoved⟩ := of_runOn_operate hclear
        exact hmade
          (.file hoverwrite hpresent (Bool.not_eq_true _ ▸ hfile) hremoved) h
    · cases h
  · next habsent => exact hmade (.absent (Bool.not_eq_true _ ▸ habsent)) h

-- ================================================================ writing

/-- A file is stored in a pack: the directories that it lies in are made,
and then the file is written. -/
def Stored (root : Path) (file content : String)
    (tree tree' : FileTree) : Prop :=
  ∃ between, ((root.join (.ofString file)).parent? = none ∧ between = tree
      ∨ ∃ parent, (root.join (.ofString file)).parent? = some parent
        ∧ tree.makeDirectories parent = (.ok (), between))
    ∧ between.write (root.join (.ofString file)) (Text.encode content)
      = (.ok (), tree')

/-- Files are stored in a pack one after the other. -/
inductive StoredAll (root : Path) :
    List (String × String) → FileTree → FileTree → Prop
  | nil {tree : FileTree} : StoredAll root [] tree tree
  | cons {file : String × String} {rest : List (String × String)}
      {tree between tree' : FileTree}
      (hfile : Stored root file.1 file.2 tree between)
      (hrest : StoredAll root rest between tree') :
        StoredAll root (file :: rest) tree tree'

/-- What writing a file rested on, if it succeeded: a root that is ready
and a file that was stored. -/
theorem of_runOn_write {file content : String}
    (h : runOn (write file content) writer tree = ((.ok (), writer'), tree')) :
    ∃ writer₁ tree₁, runOn prepare writer tree = ((.ok (), writer₁), tree₁)
      ∧ Stored writer₁.root file content tree₁ tree'
      ∧ writer' = { writer₁ with files := writer₁.files + 1 } := by
  unfold write at h
  obtain ⟨_, writer₁, tree₁, hprepare, h⟩ := of_runOn_bind h
  obtain ⟨_, _, _, hget, h⟩ := of_runOn_bind h
  cases hget
  -- the end of both cases below: the file is written and counted
  have hwritten : ∀ {between : FileTree},
      runOn (do
          operate (writer₁.root.join (.ofString file))
            (FileAccess.write (writer₁.root.join (.ofString file))
              (Text.encode content))
          modify fun writer => { writer with files := writer.files + 1 })
            writer₁ between
        = ((.ok (), writer'), tree') →
      between.write (writer₁.root.join (.ofString file)) (Text.encode content)
        = (.ok (), tree')
        ∧ writer' = { writer₁ with files := writer₁.files + 1 } := by
    intro between hrun
    obtain ⟨_, _, _, hwrite, hmodify⟩ := of_runOn_bind hrun
    obtain ⟨rfl, hwrite⟩ := of_runOn_operate hwrite
    cases hmodify
    exact ⟨hwrite, rfl⟩
  refine ⟨writer₁, tree₁, hprepare, ?_⟩
  cases hparent : (writer₁.root.join (.ofString file)).parent? with
  | none =>
      simp only [hparent] at h
      obtain ⟨hwrite, hwriter⟩ := hwritten h
      exact ⟨⟨tree₁, .inl ⟨hparent, rfl⟩, hwrite⟩, hwriter⟩
  | some parent =>
      simp only [hparent] at h
      obtain ⟨_, _, between, hmake, hrest⟩ := of_runOn_bind h
      obtain ⟨rfl, hmade⟩ := of_runOn_operate hmake
      obtain ⟨hwrite, hwriter⟩ := hwritten hrest
      exact ⟨⟨between, .inr ⟨parent, hparent, hmade⟩, hwrite⟩, hwriter⟩

/-- A writer that is prepared stores file after file and counts them. -/
theorem of_runOn_writeAll :
    ∀ {files : List (String × String)} {writer : DirectoryWriter}
      {tree : FileTree}, writer.prepared = true →
    runOn (writeAll files) writer tree = ((.ok (), writer'), tree') →
      StoredAll writer.root files tree tree'
        ∧ writer'.files = writer.files + files.length
  | [], _, _, _, h => by
      cases h
      exact ⟨.nil, rfl⟩
  | file :: rest, writer, tree, hprepared, h => by
      obtain ⟨_, writer₁, tree₁, hwrite, hrest⟩ := of_runOn_bind h
      obtain ⟨_, _, hprepare, hstored, rfl⟩ := of_runOn_write hwrite
      rw [runOn_prepare_of_prepared hprepared] at hprepare
      cases hprepare
      have hkept :
          { writer with files := writer.files + 1 }.prepared = true := hprepared
      obtain ⟨hall, hfiles⟩ := of_runOn_writeAll hkept hrest
      refine ⟨.cons hstored hall, hfiles.trans ?_⟩
      dsimp only
      rw [List.length_cons]
      omega

/-- The first file of many is refused if the root must not be removed. -/
theorem runOn_writeAll_of_present (file : String × String)
    (rest : List (String × String)) (hprepared : writer.prepared = false)
    (hoverwrite : writer.overwrite = false)
    (hpresent : tree.contains writer.root = true) :
    runOn (writeAll (file :: rest)) writer tree
      = ((.error (.packExists writer.root), writer), tree) :=
  runOn_bind_error (runOn_bind_error
    (runOn_prepare_of_present hprepared hoverwrite hpresent))

end Datapack.DirectoryWriter

namespace Datapack.Pack

open DirectoryWriter

/-- A pack has at least the file of its metadata. -/
theorem files_ne_nil (pack : Pack) : pack.files ≠ [] :=
  List.append_ne_nil_of_right_ne_nil _ (List.cons_ne_nil _ _)

/-- A pack is written file by file, and the writer has counted them. -/
theorem run_toDirectory (pack : Pack) (root : Path) (overwrite : Bool)
    {tree tree' : FileTree} {outcome : Except ProjectError Unit}
    {writer : DirectoryWriter}
    (h : runOn (writeAll pack.files)
      { root := root, overwrite := overwrite } tree
      = ((outcome, writer), tree')) :
    (pack.toDirectory (m := StateM FileTree) root overwrite).run.run tree
      = (outcome.map fun _ => writer.files, tree') := by
  unfold runOn at h
  unfold toDirectory
  have hlift :
      ∀ action : StateM FileTree (Except ProjectError Unit × DirectoryWriter),
        (ExceptT.run
          (liftM action : ExceptT ProjectError (StateM FileTree) _)).run tree
        = (.ok (action.run tree).1, (action.run tree).2) := fun _ => rfl
  dsimp only
  rw [ExceptT.run_bind, StateT.run_bind, hlift, h]
  cases outcome <;> rfl

/-- A pack is not written over another that must not be removed. -/
theorem toDirectory_of_present (pack : Pack) {root : Path} {tree : FileTree}
    (hpresent : tree.contains root = true) :
    (pack.toDirectory (m := StateM FileTree) root false).run.run tree
      = (.error (.packExists root), tree) := by
  obtain ⟨file, rest, hfiles⟩ := List.exists_cons_of_ne_nil pack.files_ne_nil
  have hrun : runOn (writeAll pack.files)
      { root := root, overwrite := false } tree
      = ((.error (.packExists root),
        { root := root, overwrite := false }), tree) := by
    rw [hfiles]
    exact runOn_writeAll_of_present file rest rfl rfl hpresent
  rw [pack.run_toDirectory root false hrun]
  rfl

/-- A pack that was written: the root was cleared and made, and all files
were stored and counted. -/
theorem of_toDirectory {pack : Pack} {root : Path} {overwrite : Bool}
    {tree tree' : FileTree} {count : Nat}
    (h : (pack.toDirectory (m := StateM FileTree) root overwrite).run.run tree
      = (.ok count, tree')) :
    ∃ cleared made, Cleared tree root overwrite cleared
      ∧ cleared.makeDirectories root = (.ok (), made)
        ∧ StoredAll root pack.files made tree'
      ∧ count = pack.files.length := by
  rcases hrun : runOn (writeAll pack.files)
    { root := root, overwrite := overwrite } tree with
    ⟨⟨outcome, writer⟩, after⟩
  rw [pack.run_toDirectory root overwrite hrun] at h
  cases outcome with
  | error error => cases h
  | ok _ =>
      cases h
      obtain ⟨file, rest, hfiles⟩ :=
        List.exists_cons_of_ne_nil pack.files_ne_nil
      rw [hfiles] at hrun ⊢
      obtain ⟨_, writer₁, tree₁, hwrite, hrest⟩ := of_runOn_bind hrun
      obtain ⟨_, made, hprepare, hstored, rfl⟩ := of_runOn_write hwrite
      obtain ⟨rfl, cleared, hcleared, hmade⟩ := of_runOn_prepare rfl hprepare
      obtain ⟨hall, hcount⟩ := of_runOn_writeAll rfl hrest
      refine ⟨cleared, made, hcleared, hmade, .cons hstored hall,
        hcount.trans ?_⟩
      dsimp only
      rw [List.length_cons]
      omega

end Datapack.Pack
