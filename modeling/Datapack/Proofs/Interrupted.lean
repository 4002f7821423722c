/-
What is left of a pack that could not be written to its end.

A step of the writer that fails has still changed files: some of what was
at the root may be gone, and some of the directories may be there. The
lemmas here say how far a writer can have got when it ends in an error.
`Halted` is an error before the first file, and `Broken` one at a file; all
files before that one are stored. Together with what `of_toDirectory` says
of a writer that succeeds, this covers every run.
-/
import Datapack.Proofs.Writing

namespace Datapack

/-- The error is about files, and not about what they describe. -/
def ProjectError.AtFiles : ProjectError → Prop
  | .build _ => False
  | _ => True

namespace DirectoryWriter

variable {α β : Type} {step : Writing (StateM FileTree) α}
  {next : α → Writing (StateM FileTree) β} {writer writer' : DirectoryWriter}
  {tree tree' : FileTree} {error : ProjectError}

-- ================================================================== steps

/-- Two steps fail if the first does, or the second does after it. -/
theorem error_of_runOn_bind
    (h : runOn (step >>= next) writer tree = ((.error error, writer'), tree')) :
    runOn step writer tree = ((.error error, writer'), tree')
      ∨ ∃ first writer₁ tree₁,
        runOn step writer tree = ((.ok first, writer₁), tree₁)
        ∧ runOn (next first) writer₁ tree₁
          = ((.error error, writer'), tree') := by
  rcases hstep : runOn step writer tree with ⟨⟨outcome, writer₁⟩, tree₁⟩
  cases outcome with
  | error first =>
      rw [runOn_bind_error hstep] at h
      cases h
      exact .inl rfl
  | ok first =>
      rw [runOn_bind_ok hstep] at h
      exact .inr ⟨first, writer₁, tree₁, rfl, h⟩

/-- An operation on files fails with its own fault, and leaves what it
left. -/
private theorem error_of_runOn_operate {path : Path}
    {operation : StateM FileTree (Except FileFault Unit)}
    (h : runOn (operate path operation) writer tree
      = ((.error error, writer'), tree')) :
    ∃ fault, error = .access path fault
      ∧ operation.run tree = (.error fault, tree') := by
  rw [runOn_operate] at h
  rcases hoperation : operation.run tree with ⟨outcome, after⟩
  rw [hoperation] at h
  cases outcome with
  | ok _ => cases h
  | error fault =>
      cases h
      exact ⟨fault, rfl, rfl⟩

-- ============================================================== preparing

/-- The root could not be made ready: it must not be removed, or could not
be removed or made. -/
inductive Halted (tree : FileTree) (root : Path) (overwrite : Bool) :
    FileTree → Prop
  | refused (hoverwrite : overwrite = false)
      (hpresent : tree.contains root = true) :
      Halted tree root overwrite tree
  | directory {left : FileTree} {fault : FileFault}
      (hoverwrite : overwrite = true)
      (hdirectory : tree.isDirectory root = true)
      (hremoved : tree.removeAll root = (.error fault, left)) :
        Halted tree root overwrite left
  | file {left : FileTree} {fault : FileFault} (hoverwrite : overwrite = true)
      (hpresent : tree.contains root = true)
      (hfile : tree.isDirectory root = false)
      (hremoved : tree.removeFile root = (.error fault, left)) :
        Halted tree root overwrite left
  | making {cleared left : FileTree} {fault : FileFault}
      (hcleared : Cleared tree root overwrite cleared)
      (hmade : cleared.makeDirectories root = (.error fault, left)) :
      Halted tree root overwrite left

/-- Where preparing fails, the root could not be made ready, and that is
about files. -/
private theorem error_of_runOn_prepare
    (h : runOn prepare writer tree = ((.error error, writer'), tree')) :
    error.AtFiles ∧ Halted tree writer.root writer.overwrite tree' := by
  have hmade : ∀ {cleared : FileTree},
      Cleared tree writer.root writer.overwrite cleared → runOn (do
          operate writer.root (FileAccess.makeDirectories writer.root)
          modify fun writer => { writer with prepared := true }) writer cleared
        = ((.error error, writer'), tree') →
      error.AtFiles ∧ Halted tree writer.root writer.overwrite tree' := by
    intro cleared hcleared hrun
    rcases error_of_runOn_bind hrun with hmake | ⟨_, _, _, -, hmodify⟩
    · obtain ⟨fault, rfl, hfailed⟩ := error_of_runOn_operate hmake
      exact ⟨trivial, .making hcleared hfailed⟩
    · cases hmodify
  cases hprepared : writer.prepared with
  | true =>
      rw [runOn_prepare_of_prepared hprepared] at h
      cases h
  | false =>
      -- what only looks at the writer or the files cannot fail
      unfold prepare at h
      obtain hget | ⟨_, _, _, hget, h⟩ := error_of_runOn_bind h
      · cases hget
      cases hget
      simp only [hprepared, Bool.not_false, if_true] at h
      obtain hlook | ⟨present, _, _, hlook, h⟩ := error_of_runOn_bind h
      · cases hlook
      cases hlook
      split at h
      · next hpresent =>
        split at h
        · next hoverwrite =>
          unfold clearRoot at h
          rcases error_of_runOn_bind h with hclear | ⟨_, _, cleared, hclear, h⟩
          · obtain hlook | ⟨_, _, _, hlook, hclear⟩ :=
              error_of_runOn_bind hclear
            · cases hlook
            cases hlook
            split at hclear
            · next hdirectory =>
              obtain ⟨fault, rfl, hremoved⟩ := error_of_runOn_operate hclear
              exact ⟨trivial, .directory hoverwrite hdirectory hremoved⟩
            · next hfile =>
              obtain ⟨fault, rfl, hremoved⟩ := error_of_runOn_operate hclear
              exact ⟨trivial,
                .file hoverwrite hpresent (Bool.not_eq_true _ ▸ hfile) hremoved⟩
          · obtain ⟨_, _, _, hlook, hclear⟩ := of_runOn_bind hclear
            cases hlook
            split at hclear
            · next hdirectory =>
              obtain ⟨rfl, hremoved⟩ := of_runOn_operate hclear
              exact hmade (.directory hoverwrite hdirectory hremoved) h
            · next hfile =>
              obtain ⟨rfl, hremoved⟩ := of_runOn_operate hclear
              exact hmade
                (.file hoverwrite hpresent (Bool.not_eq_true _ ▸ hfile)
                  hremoved) h
        · next hoverwrite =>
          rcases error_of_runOn_bind h with hthrow | ⟨_, _, _, hthrow, -⟩
          · cases hthrow
            exact ⟨trivial, .refused (Bool.not_eq_true _ ▸ hoverwrite) hpresent⟩
          · cases hthrow
      · next habsent => exact hmade (.absent (Bool.not_eq_true _ ▸ habsent)) h

-- ================================================================ writing

/-- A file could not be stored: the directories that it lies in could not be
made, or it could not be written. -/
inductive Broken (root : Path) (file content : String) (tree : FileTree) :
    FileTree → Prop
  | parent {parent : Path} {left : FileTree} {fault : FileFault}
      (hparent : (root.join (.ofString file)).parent? = some parent)
      (hmade : tree.makeDirectories parent = (.error fault, left)) :
      Broken root file content tree left
  | content {between left : FileTree} {fault : FileFault}
      (hparent : (root.join (.ofString file)).parent? = none ∧ between = tree
        ∨ ∃ parent, (root.join (.ofString file)).parent? = some parent
          ∧ tree.makeDirectories parent = (.ok (), between))
      (hwritten : between.write (root.join (.ofString file))
        (Text.encode content)
        = (.error fault, left)) : Broken root file content tree left

/-- Writing a file fails while preparing, or the file could not be stored. -/
private theorem error_of_runOn_write {file content : String}
    (h : runOn (write file content) writer tree
      = ((.error error, writer'), tree')) :
    runOn prepare writer tree = ((.error error, writer'), tree')
      ∨ error.AtFiles
        ∧ ∃ writer₁ tree₁,
          runOn prepare writer tree = ((.ok (), writer₁), tree₁)
        ∧ Broken writer₁.root file content tree₁ tree' := by
  unfold write at h
  rcases error_of_runOn_bind h with hprepare | ⟨_, writer₁, tree₁, hprepare, h⟩
  · exact .inl hprepare
  · obtain hget | ⟨_, _, _, hget, h⟩ := error_of_runOn_bind h
    · cases hget
    cases hget
    -- once its directory is there a file can only fail to be written; this is
    -- the end of both cases below
    have hwritten : ∀ {between : FileTree},
        ((writer₁.root.join (.ofString file)).parent? = none ∧ between = tree₁
          ∨ ∃ parent, (writer₁.root.join (.ofString file)).parent? = some parent
            ∧ tree₁.makeDirectories parent = (.ok (), between)) →
        runOn (do
            operate (writer₁.root.join (.ofString file))
              (FileAccess.write (writer₁.root.join (.ofString file))
                (Text.encode content))
            modify fun writer => { writer with files := writer.files + 1 })
              writer₁ between
          = ((.error error, writer'), tree') →
        error.AtFiles ∧ Broken writer₁.root file content tree₁ tree' := by
      intro between hbetween hrun
      rcases error_of_runOn_bind hrun with hwrite | ⟨_, _, _, -, hmodify⟩
      · obtain ⟨fault, rfl, hfailed⟩ := error_of_runOn_operate hwrite
        exact ⟨trivial, .content hbetween hfailed⟩
      · cases hmodify
    suffices hbroken : error.AtFiles
        ∧ Broken writer₁.root file content tree₁ tree' from
      .inr ⟨hbroken.1, writer₁, tree₁, hprepare, hbroken.2⟩
    cases hparent : (writer₁.root.join (.ofString file)).parent? with
    | none =>
        simp only [hparent] at h
        exact hwritten (.inl ⟨hparent, rfl⟩) h
    | some parent =>
        simp only [hparent] at h
        rcases error_of_runOn_bind h with hmake | ⟨_, _, between, hmake, hrest⟩
        · obtain ⟨fault, rfl, hmade⟩ := error_of_runOn_operate hmake
          exact ⟨trivial, .parent hparent hmade⟩
        · obtain ⟨rfl, hmade⟩ := of_runOn_operate hmake
          exact hwritten (.inr ⟨parent, hparent, hmade⟩) hrest

/-- A writer that is prepared fails at some file, and has stored those
before it. -/
theorem error_of_runOn_writeAll {files : List (String × String)} :
    ∀ {writer : DirectoryWriter} {tree : FileTree}, writer.prepared = true →
      runOn (writeAll files) writer tree = ((.error error, writer'), tree') →
      error.AtFiles
        ∧ ∃ before file after between, files = before ++ file :: after
        ∧ StoredAll writer.root before tree between
        ∧ Broken writer.root file.1 file.2 between tree' := by
  induction files with
  | nil =>
      intro writer tree _ h
      cases h
  | cons file rest ih =>
      intro writer tree hprepared h
      rcases error_of_runOn_bind h with hwrite | ⟨_, _, tree₁, hwrite, hrest⟩
      · rcases error_of_runOn_write hwrite with hprepare
          | ⟨herror, _, _, hprepare, hbroken⟩
        · rw [runOn_prepare_of_prepared hprepared] at hprepare
          cases hprepare
        · rw [runOn_prepare_of_prepared hprepared] at hprepare
          cases hprepare
          exact ⟨herror, [], file, rest, tree, rfl, .nil, hbroken⟩
      · obtain ⟨_, _, hprepare, hstored, rfl⟩ := of_runOn_write hwrite
        rw [runOn_prepare_of_prepared hprepared] at hprepare
        cases hprepare
        obtain ⟨herror, before, broken, after, between, rfl, hall, hbroken⟩ :=
          @ih { writer with files := writer.files + 1 } tree₁ hprepared hrest
        exact ⟨herror, file :: before, broken, after, between, rfl,
          .cons hstored hall, hbroken⟩

end DirectoryWriter

open DirectoryWriter

/-- A pack that was not written: the root could not be made ready, or some
file could not be stored, and those before it are. -/
theorem Pack.error_of_toDirectory {pack : Pack} {root : Path} {overwrite : Bool}
    {tree tree' : FileTree} {error : ProjectError}
    (h : (pack.toDirectory (m := StateM FileTree) root overwrite).run.run tree
      = (.error error, tree')) :
    error.AtFiles ∧ (Halted tree root overwrite tree'
      ∨ ∃ cleared made before file after between,
        Cleared tree root overwrite cleared
        ∧ cleared.makeDirectories root = (.ok (), made)
        ∧ pack.files = before ++ file :: after
          ∧ StoredAll root before made between
        ∧ Broken root file.1 file.2 between tree') := by
  rcases hrun : runOn (writeAll pack.files)
    { root := root, overwrite := overwrite } tree with
    ⟨⟨outcome, writer⟩, left⟩
  rw [pack.run_toDirectory root overwrite hrun] at h
  cases outcome with
  | ok _ => cases h
  | error reason =>
      cases h
      obtain ⟨file, rest, hfiles⟩ :=
        List.exists_cons_of_ne_nil pack.files_ne_nil
      rw [hfiles] at hrun ⊢
      -- the first file makes the root ready, so it can fail in two more ways
      -- than those after it
      rcases error_of_runOn_bind hrun with hwrite
        | ⟨_, writer₁, tree₁, hwrite, hrest⟩
      · rcases error_of_runOn_write hwrite with hprepare
          | ⟨herror, _, made, hprepare, hbroken⟩
        · obtain ⟨herror, hhalted⟩ := error_of_runOn_prepare hprepare
          exact ⟨herror, .inl hhalted⟩
        · obtain ⟨rfl, cleared, hcleared, hmade⟩ :=
            of_runOn_prepare rfl hprepare
          exact ⟨herror,
            .inr ⟨cleared, made, [], file, rest, made, hcleared, hmade, rfl,
              .nil, hbroken⟩⟩
      · obtain ⟨_, made, hprepare, hstored, rfl⟩ := of_runOn_write hwrite
        obtain ⟨rfl, cleared, hcleared, hmade⟩ := of_runOn_prepare rfl hprepare
        obtain ⟨herror, before, broken, after, between, rfl, hall, hbroken⟩ :=
          error_of_runOn_writeAll rfl hrest
        exact ⟨herror,
          .inr ⟨cleared, made, file :: before, broken, after, between, hcleared,
            hmade, rfl, .cons hstored hall, hbroken⟩⟩

end Datapack
