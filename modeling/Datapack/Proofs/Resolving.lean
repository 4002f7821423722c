/-
Where paths lead in a tree of files.

`FileTree.Leads` says it as a relation: the moves of a path are taken one by
one, and a link is replaced by the moves of its target. A path is resolved to
a place exactly if its moves lead there through no more links than allowed
(`follow_eq_ok_iff`). What is said about paths is then an induction over the
way to the place.

Three facts carry the rest. A way in a tree is a way in each tree that has at
least the same entries, up to the content of files. A way falls into one for
the first moves and one for the others. And where a way ends at a directory,
it depends on the steps alone.
-/
import Datapack.Proofs.Steps
import Mathlib.Data.List.Induction

namespace Datapack.FileTree

-- ================================================================= places

private theorem isDirectoryAt_iff {tree : FileTree} {place : Place} :
    tree.isDirectoryAt place = true ↔ tree.get? place = some .directory :=
  beq_iff_eq

-- =================================================================== ways

/-- The moves lead from a place to another, through `n` links at most. A link
that is the very last move is passed only if `final`. -/
inductive Leads (tree : FileTree) (final : Bool) :
    Nat → Place → List Move → Place → Prop
  | here {n : Nat} {place : Place} : Leads tree final n place [] place
  | stay {n : Nat} {place target : Place} {rest : List Move}
      (hplace : tree.get? place = some .directory)
      (h : Leads tree final n place rest target) :
      Leads tree final n place (.stay :: rest) target
  | up {n : Nat} {place target : Place} {rest : List Move}
      (hplace : tree.get? place = some .directory)
      (h : Leads tree final n place.dropLast rest target) :
      Leads tree final n place (.up :: rest) target
  | down {n : Nat} {place target : Place} {name : FileName} {entry : Entry}
      {rest : List Move} (hplace : tree.get? place = some .directory)
      (hname : name.length ≤ maxName)
      (hentry : tree.get? (place ++ [name]) = some entry)
      (hplain : ∀ path, entry ≠ .link path)
      (h : Leads tree final n (place ++ [name]) rest target) :
      Leads tree final n place (.down name :: rest) target
  | link {n : Nat} {place target : Place} {name : FileName} {path : Path}
      {rest : List Move} (hplace : tree.get? place = some .directory)
      (hname : name.length ≤ maxName)
      (hentry : tree.get? (place ++ [name]) = some (.link path))
      (hfinal : final = true ∨ rest ≠ []) (hpath : path.isEmpty = false)
      (h : Leads tree final n (startOf place path) (moves path ++ rest)
        target) :
      Leads tree final (n + 1) place (.down name :: rest) target
  | last {n : Nat} {place : Place} {name : FileName} {path : Path}
      (hplace : tree.get? place = some .directory)
      (hname : name.length ≤ maxName)
      (hentry : tree.get? (place ++ [name]) = some (.link path))
      (hfinal : final = false) :
      Leads tree final n place [.down name] (place ++ [name])

section

variable {tree : FileTree} {final : Bool} {n : Nat} {place target : Place}
  {name : FileName} {rest : List Move}

/-- Moves are followed to their end or to the next link. -/
private theorem follow_eq {moves : List Move} :
    tree.follow final n place moves
      = match tree.advance final place moves with
        | .arrived place => .ok place
        | .blocked fault => .error fault
        | .link directory target rest =>
          match n with
          | 0 => .error .linkLoop
          | n + 1 =>
            if target.isEmpty then .error .noEntry
            else tree.follow final n (startOf directory target)
              (FileTree.moves target ++ rest) :=
  follow.eq_def ..

/-- A move that is taken from a directory. -/
private theorem advance_cons (h : tree.get? place = some .directory)
    (move : Move) :
    tree.advance final place (move :: rest)
      = match move with
        | .stay => tree.advance final place rest
        | .up => tree.advance final place.dropLast rest
        | .down name =>
          match tree.look place name with
          | .error fault => .blocked fault
          | .ok none => .blocked .noEntry
          | .ok (some (.link target)) =>
            if final || !rest.isEmpty then .link place target rest
            else .arrived (place ++ [name])
          | .ok (some _) => tree.advance final (place ++ [name]) rest := by
  rw [advance.eq_def]
  exact if_pos (isDirectoryAt_iff.2 h)

/-- A name that is not too long is looked up in the tree. -/
private theorem advance_down (h : tree.get? place = some .directory)
    (hname : name.length ≤ maxName) :
    tree.advance final place (.down name :: rest)
      = match tree.get? (place ++ [name]) with
        | none => .blocked .noEntry
        | some (.link target) =>
          if final || !rest.isEmpty then .link place target rest
          else .arrived (place ++ [name])
        | some _ => tree.advance final (place ++ [name]) rest := by
  have hlook : tree.look place name = .ok (tree.get? (place ++ [name])) :=
    if_neg (Nat.not_lt.2 hname)
  rw [advance_cons h]
  dsimp only
  rw [hlook]
  cases tree.get? (place ++ [name]) with
  | none => rfl
  | some entry => cases entry <;> rfl

private theorem follow_nil : tree.follow final n place [] = .ok place := by
  rw [follow_eq, advance]

/-- From what is no directory no move is taken. -/
private theorem follow_blocked (h : tree.get? place ≠ some .directory)
    (move : Move) :
    tree.follow final n place (move :: rest) = .error .notDirectory := by
  have hblocked : tree.advance final place (move :: rest)
      = .blocked .notDirectory := by
    rw [advance.eq_def]
    exact if_neg fun hdirectory => h (isDirectoryAt_iff.1 hdirectory)
  rw [follow_eq, hblocked]

private theorem follow_stay (h : tree.get? place = some .directory) :
    tree.follow final n place (.stay :: rest)
      = tree.follow final n place rest := by
  rw [follow_eq, advance_cons h, ← follow_eq]

/-- A move up leads to the directory around. -/
private theorem follow_up (h : tree.get? place = some .directory) :
    tree.follow final n place (.up :: rest)
      = tree.follow final n place.dropLast rest := by
  rw [follow_eq, advance_cons h, ← follow_eq]

/-- A name that is too long is looked for nowhere. -/
private theorem follow_down_tooLong (h : tree.get? place = some .directory)
    (hname : maxName < name.length) :
    tree.follow final n place (.down name :: rest) = .error .nameTooLong := by
  rw [follow_eq, advance_cons h]
  dsimp only
  rw [look, if_pos hname]

/-- A name that is not there ends the way. -/
private theorem follow_down_none (h : tree.get? place = some .directory)
    (hname : name.length ≤ maxName)
    (hentry : tree.get? (place ++ [name]) = none) :
    tree.follow final n place (.down name :: rest) = .error .noEntry := by
  rw [follow_eq, advance_down h hname, hentry]

/-- A name leads down to its entry, if that is no link. -/
private theorem follow_down (h : tree.get? place = some .directory)
    (hname : name.length ≤ maxName) {entry : Entry}
    (hentry : tree.get? (place ++ [name]) = some entry)
    (hplain : ∀ path, entry ≠ .link path) :
    tree.follow final n place (.down name :: rest)
      = tree.follow final n (place ++ [name]) rest := by
  rw [follow_eq, advance_down h hname, hentry]
  cases entry with
  | link path => exact absurd rfl (hplain path)
  | file content =>
      dsimp only
      rw [← follow_eq]
  | directory =>
      dsimp only
      rw [← follow_eq]

private theorem passed_of_final (h : final = true ∨ rest ≠ []) :
    (final || !rest.isEmpty) = true := by
  simpa using h

/-- A link is replaced by the moves of its target. -/
private theorem follow_link (h : tree.get? place = some .directory)
    (hname : name.length ≤ maxName) {path : Path}
    (hentry : tree.get? (place ++ [name]) = some (.link path))
    (hfinal : final = true ∨ rest ≠ []) :
    tree.follow final (n + 1) place (.down name :: rest)
      = if path.isEmpty then .error .noEntry
        else tree.follow final n (startOf place path) (moves path ++ rest) := by
  rw [follow_eq, advance_down h hname, hentry]
  dsimp only
  rw [if_pos (passed_of_final hfinal)]

/-- One link too many ends the way. -/
private theorem follow_link_zero (h : tree.get? place = some .directory)
    (hname : name.length ≤ maxName) {path : Path}
    (hentry : tree.get? (place ++ [name]) = some (.link path))
    (hfinal : final = true ∨ rest ≠ []) :
    tree.follow final 0 place (.down name :: rest) = .error .linkLoop := by
  rw [follow_eq, advance_down h hname, hentry]
  dsimp only
  rw [if_pos (passed_of_final hfinal)]

/-- A link at the end is not passed unless asked for. -/
private theorem follow_last (h : tree.get? place = some .directory)
    (hname : name.length ≤ maxName) {path : Path}
    (hentry : tree.get? (place ++ [name]) = some (.link path)) :
    tree.follow false n place [.down name] = .ok (place ++ [name]) := by
  rw [follow_eq, advance_down h hname, hentry]
  rfl

end

/-- The way that following takes, if it takes one for fewer links. The moves
of a link's target are no part of the moves, so the links are counted
first. -/
theorem leads_of_follow_succ {tree : FileTree} {final : Bool} {n : Nat}
    (hlinks : ∀ k, n = k + 1 → ∀ {moves : List Move} {place target : Place},
      tree.follow final k place moves = .ok target →
        tree.Leads final k place moves target)
    {moves : List Move} {place target : Place}
    (h : tree.follow final n place moves = .ok target) :
    tree.Leads final n place moves target := by
  induction moves generalizing place with
  | nil =>
      rw [follow_nil] at h
      cases h
      exact .here
  | cons move rest ih =>
      -- a move is only taken from a directory
      have hplace : tree.get? place = some .directory := by
        by_cases hblocked : tree.get? place = some .directory
        · exact hblocked
        · rw [follow_blocked hblocked] at h
          cases h
      cases move with
      | stay =>
          rw [follow_stay hplace] at h
          exact .stay hplace (ih h)
      | up =>
          rw [follow_up hplace] at h
          exact .up hplace (ih h)
      | down name =>
          have hname : name.length ≤ maxName := by
            by_cases hlong : maxName < name.length
            · rw [follow_down_tooLong hplace hlong] at h
              cases h
            · exact Nat.not_lt.1 hlong
          cases hentry : tree.get? (place ++ [name]) with
          | none =>
              rw [follow_down_none hplace hname hentry] at h
              cases h
          | some entry =>
              by_cases hplain : ∀ path, entry ≠ .link path
              · rw [follow_down hplace hname hentry hplain] at h
                exact .down hplace hname hentry hplain (ih h)
              · obtain ⟨path, rfl⟩ : ∃ path, entry = .link path := by
                  simpa using hplain
                -- a link is passed unless it is the last move and the last is
                -- not to be passed
                by_cases hfinal : final = true ∨ rest ≠ []
                · cases n with
                  | zero =>
                      rw [follow_link_zero hplace hname hentry hfinal] at h
                      cases h
                  | succ k =>
                      rw [follow_link hplace hname hentry hfinal] at h
                      split at h
                      · cases h
                      · next hpath =>
                        exact .link hplace hname hentry hfinal
                          (Bool.not_eq_true _ ▸ hpath) (hlinks k rfl h)
                · obtain ⟨hfollow, rfl⟩ : final = false ∧ rest = [] := by
                    simpa using hfinal
                  subst hfollow
                  rw [follow_last hplace hname hentry] at h
                  cases h
                  exact .last hplace hname hentry rfl

/-- Following moves takes a way of the relation. The induction is on the
links that are left, and on the moves. -/
private theorem leads_of_follow {tree : FileTree} {final : Bool} {n : Nat}
    {moves : List Move} {place target : Place}
    (h : tree.follow final n place moves = .ok target) :
    tree.Leads final n place moves target := by
  induction n generalizing moves place target with
  | zero =>
      exact leads_of_follow_succ
        (fun k hk => absurd hk (Nat.succ_ne_zero k).symm) h
  | succ n ih =>
      refine leads_of_follow_succ (fun k hk => ?_) h
      obtain rfl := Nat.succ.inj hk
      exact ih

/-- Following moves leads where they lead. -/
theorem follow_eq_ok_iff {tree : FileTree} {final : Bool} {n : Nat}
    {moves : List Move} {place target : Place} :
    tree.follow final n place moves = .ok target
      ↔ tree.Leads final n place moves target := by
  refine ⟨leads_of_follow, fun h => ?_⟩
  induction h with
  | here => exact follow_nil
  | stay hplace _ ih => rw [follow_stay hplace, ih]
  | up hplace _ ih => rw [follow_up hplace, ih]
  | down hplace hname hentry hplain _ ih =>
      rw [follow_down hplace hname hentry hplain, ih]
  | link hplace hname hentry hfinal hpath _ ih =>
      rw [follow_link hplace hname hentry hfinal, hpath, ← ih]
      rfl
  | last hplace hname hentry hfinal =>
      subst hfinal
      exact follow_last hplace hname hentry

-- ========================================================== ways and moves

namespace Leads

variable {tree : FileTree} {final : Bool} {n : Nat} {place target : Place}
  {moves : List Move}

/-- Moves lead to one place at most. -/
theorem unique {other : Place} (h : tree.Leads final n place moves target)
    (h' : tree.Leads final n place moves other) : target = other :=
  Except.ok.inj ((follow_eq_ok_iff.2 h).symm.trans (follow_eq_ok_iff.2 h'))

/-- A way to a directory starts at one. -/
theorem directory_of_target (h : tree.Leads final n place moves target)
    (htarget : tree.get? target = some .directory) :
    tree.get? place = some .directory := by
  cases h with
  | here => exact htarget
  | stay hplace => exact hplace
  | up hplace => exact hplace
  | down hplace => exact hplace
  | link hplace => exact hplace
  | last hplace => exact hplace

/-- A way down to a name passes an entry. -/
theorem entry_of_down {name : FileName}
    (h : tree.Leads final n place (.down name :: moves) target) :
    name.length ≤ maxName
      ∧ ∃ entry, tree.get? (place ++ [name]) = some entry := by
  cases h with
  | down _ hname hentry => exact ⟨hname, _, hentry⟩
  | link _ hname hentry => exact ⟨hname, _, hentry⟩
  | last _ hname hentry => exact ⟨hname, _, hentry⟩

/-- A way is one also if more links are allowed. -/
private theorem more_links {m : Nat} (h : tree.Leads final n place moves target)
    (hle : n ≤ m) :
    tree.Leads final m place moves target := by
  induction h generalizing m with
  | here => exact .here
  | stay hplace _ ih => exact .stay hplace (ih hle)
  | up hplace _ ih => exact .up hplace (ih hle)
  | down hplace hname hentry hplain _ ih =>
      exact .down hplace hname hentry hplain (ih hle)
  | link hplace hname hentry hfinal hpath _ ih =>
      obtain ⟨m, rfl⟩ :=
        Nat.exists_eq_add_of_lt (Nat.lt_of_lt_of_le (Nat.succ_pos _) hle)
      rw [Nat.zero_add] at hle ⊢
      exact .link hplace hname hentry hfinal hpath
        (ih (Nat.le_of_succ_le_succ hle))
  | last hplace hname hentry hfinal => exact .last hplace hname hentry hfinal

/-- One way after another is a way. -/
theorem append {k : Nat} {more : List Move} {other : Place}
    (h : tree.Leads true n place moves target)
    (hmore : tree.Leads final k target more other)
    (hfinal : final = true ∨ more ≠ []) :
    tree.Leads final (n + k) place (moves ++ more) other := by
  induction h with
  | here => exact hmore.more_links (Nat.le_add_left _ _)
  | stay hplace _ ih => exact .stay hplace (ih hmore)
  | up hplace _ ih => exact .up hplace (ih hmore)
  | down hplace hname hentry hplain _ ih =>
      exact .down hplace hname hentry hplain (ih hmore)
  | @link n _ _ _ path rest hplace hname hentry _ hpath _ ih =>
      rw [Nat.add_right_comm]
      refine .link hplace hname hentry (hfinal.imp_right fun hne => ?_) hpath ?_
      · exact List.append_ne_nil_of_right_ne_nil _ hne
      · show tree.Leads final (n + k) _ (FileTree.moves path ++ (rest ++ more))
          other
        rw [← List.append_assoc]
        exact ih hmore
  | last _ _ _ hfalse => cases hfalse

/-- A way falls into one for the first moves and one for the others. -/
theorem of_append {front more : List Move}
    (h : tree.Leads final n place (front ++ more) target)
    (hfinal : final = true ∨ more ≠ []) :
    ∃ between, tree.Leads true n place front between
      ∧ tree.Leads final n between more target := by
  generalize hall : front ++ more = all at h
  induction h generalizing front with
  | here =>
      obtain ⟨rfl, rfl⟩ := List.append_eq_nil_iff.1 hall
      exact ⟨_, .here, .here⟩
  | stay hplace h ih =>
      rcases List.append_eq_cons_iff.1 hall with ⟨rfl, rfl⟩ | ⟨front, rfl, rfl⟩
      · exact ⟨_, .here, .stay hplace h⟩
      · obtain ⟨between, hfront, hmore⟩ := ih rfl
        exact ⟨between, .stay hplace hfront, hmore⟩
  | up hplace h ih =>
      rcases List.append_eq_cons_iff.1 hall with ⟨rfl, rfl⟩ | ⟨front, rfl, rfl⟩
      · exact ⟨_, .here, .up hplace h⟩
      · obtain ⟨between, hfront, hmore⟩ := ih rfl
        exact ⟨between, .up hplace hfront, hmore⟩
  | down hplace hname hentry hplain h ih =>
      rcases List.append_eq_cons_iff.1 hall with ⟨rfl, rfl⟩ | ⟨front, rfl, rfl⟩
      · exact ⟨_, .here, .down hplace hname hentry hplain h⟩
      · obtain ⟨between, hfront, hmore⟩ := ih rfl
        exact ⟨between, .down hplace hname hentry hplain hfront, hmore⟩
  | @link n _ _ _ path _ hplace hname hentry hpassed hpath h ih =>
      rcases List.append_eq_cons_iff.1 hall with ⟨rfl, rfl⟩ | ⟨front, rfl, rfl⟩
      · exact ⟨_, .here, .link hplace hname hentry hpassed hpath h⟩
      · obtain ⟨between, hfront, hmore⟩ :=
          ih (List.append_assoc (FileTree.moves path) front more)
        exact ⟨between, .link hplace hname hentry (.inl rfl) hpath hfront,
          hmore.more_links (Nat.le_succ n)⟩
  | last hplace hname hentry hfalse =>
      rcases List.append_eq_cons_iff.1 hall with ⟨rfl, rfl⟩ | ⟨front, rfl, hnil⟩
      · exact ⟨_, .here, .last hplace hname hentry hfalse⟩
      · -- the last move is in front, so that none is left
        obtain ⟨rfl, rfl⟩ := List.append_eq_nil_iff.1 hnil.symm
        rw [hfalse] at hfinal
        simp at hfinal

/-- Moves that stay can be put in front of a way. -/
private theorem stays (hplace : tree.get? place = some .directory)
    {idle : List Move} (hidle : ∀ move ∈ idle, move = .stay)
    (h : tree.Leads final n place moves target) :
    tree.Leads final n place (idle ++ moves) target := by
  induction idle with
  | nil => exact h
  | cons move idle ih =>
      obtain ⟨rfl, hrest⟩ := List.forall_mem_cons.1 hidle
      exact .stay hplace (ih hrest)

/-- Staying leads nowhere else. -/
theorem replicate_stay (hplace : tree.get? place = some .directory) (k : Nat) :
    tree.Leads final n place (List.replicate k .stay) place := by
  induction k with
  | zero => exact .here
  | succ k ih => exact .stay hplace ih

/-- To stay is possible in a directory only. -/
theorem of_replicate_stay {k : Nat}
    (h : tree.Leads final n place (List.replicate (k + 1) .stay) target) :
    target = place ∧ tree.get? place = some .directory := by
  induction k with
  | zero =>
      cases h with
      | stay hplace h =>
          cases h
          exact ⟨rfl, hplace⟩
  | succ k ih =>
      cases h with
      | stay hplace h => exact ih h

/-- A way to a directory depends on its steps alone. -/
theorem of_steps {moves' : List Move} (h : tree.Leads true n place moves target)
    (htarget : tree.get? target = some .directory)
    (hsteps : moves'.filter (· != .stay) = moves.filter (· != .stay)) :
    tree.Leads true n place moves' target := by
  have hidle : ∀ {idle : List Move}, (∀ move ∈ idle, ¬(move != .stay) = true) →
      ∀ move ∈ idle, move = .stay := fun h move hmove => by
    simpa using h move hmove
  induction h generalizing moves' with
  | @here n place =>
      have hhere : tree.Leads true n place [] place := .here
      have hall := stays htarget (hidle (List.filter_eq_nil_iff.1 hsteps)) hhere
      rwa [List.append_nil] at hall
  | stay _ _ ih => exact ih htarget hsteps
  | up hplace _ ih =>
      obtain ⟨idle, rest, rfl, hstay, -, hrest⟩ :=
        List.filter_eq_cons_iff.1 hsteps
      exact stays hplace (hidle hstay) (.up hplace (ih htarget hrest))
  | down hplace hname hentry hplain _ ih =>
      obtain ⟨idle, rest, rfl, hstay, -, hrest⟩ :=
        List.filter_eq_cons_iff.1 hsteps
      exact stays hplace (hidle hstay)
        (.down hplace hname hentry hplain (ih htarget hrest))
  | link hplace hname hentry _ hpath _ ih =>
      obtain ⟨idle, rest, rfl, hstay, -, hrest⟩ :=
        List.filter_eq_cons_iff.1 hsteps
      refine stays hplace (hidle hstay)
        (.link hplace hname hentry (.inl rfl) hpath ?_)
      exact ih htarget (by rw [List.filter_append, List.filter_append, hrest])
  | last _ _ _ hfalse => cases hfalse

/-- Where there are no links, names lead down to themselves. -/
theorem eq_append_names {names : List FileName}
    (hlinks : ∀ more path, more ≠ [] → more <+: names →
      tree.get? (place ++ more) ≠ some (.link path))
    (h : tree.Leads final n place (names.map .down) target) :
    target = place ++ names := by
  induction names generalizing place with
  | nil =>
      cases h
      rw [List.append_nil]
  | cons name rest ih =>
      have hname : ∀ path, tree.get? (place ++ [name]) ≠ some (.link path) :=
        fun path => hlinks [name] path (List.cons_ne_nil _ _) ⟨rest, rfl⟩
      rw [List.map_cons] at h
      generalize hmoves : rest.map Move.down = moves at h
      cases h with
      | down _ _ _ _ h =>
          subst hmoves
          have hrest : target = place ++ [name] ++ rest := by
            refine ih (fun more path hmore hle => ?_) h
            rw [List.append_assoc]
            exact hlinks (name :: more) path (List.cons_ne_nil _ _)
              (List.cons_prefix_cons.2 ⟨rfl, hle⟩)
          rw [hrest, List.append_assoc]
          rfl
      | link _ _ hentry => exact absurd hentry (hname _)
      | last _ _ hentry => exact absurd hentry (hname _)

end Leads

-- ========================================================== ways and trees

/-- The entries lead on in the same way: files may have other contents. -/
inductive Alike : Entry → Entry → Prop
  | file (content content' : List UInt8) :
      Alike (.file content) (.file content')
  | directory : Alike .directory .directory
  | link (path : Path) : Alike (.link path) (.link path)

theorem Alike.refl (entry : Entry) : Alike entry entry := by
  cases entry <;> constructor

/-- All entries of a tree are entries of another, up to the contents of
files. -/
def Extends (tree tree' : FileTree) : Prop :=
  ∀ place entry, tree.get? place = some entry →
    ∃ entry', tree'.get? place = some entry' ∧ Alike entry entry'

namespace Extends

variable {tree tree' tree'' : FileTree}

/-- A tree extends another if it has all its entries. -/
theorem of_get? (h : ∀ place entry, tree.get? place = some entry →
    tree'.get? place = some entry) : tree.Extends tree' :=
  fun place entry hentry => ⟨entry, h place entry hentry, .refl entry⟩

theorem refl (tree : FileTree) : tree.Extends tree := .of_get? fun _ _ h => h

/-- Extending is transitive. -/
theorem trans (h : tree.Extends tree') (h' : tree'.Extends tree'') :
    tree.Extends tree'' := by
  intro place entry hentry
  obtain ⟨entry', hentry', halike⟩ := h place entry hentry
  obtain ⟨entry'', hentry'', halike'⟩ := h' place entry' hentry'
  refine ⟨entry'', hentry'', ?_⟩
  cases halike <;> cases halike' <;> constructor

/-- A directory is one in every tree that extends the first. -/
theorem directory (h : tree.Extends tree') {place : Place}
    (hplace : tree.get? place = some .directory) :
    tree'.get? place = some .directory := by
  obtain ⟨entry, hentry, halike⟩ := h place _ hplace
  cases halike
  exact hentry

/-- A link is one in every tree that extends the first, with the same
target. -/
private theorem link (h : tree.Extends tree') {place : Place} {path : Path}
    (hplace : tree.get? place = some (.link path)) :
    tree'.get? place = some (.link path) := by
  obtain ⟨entry, hentry, halike⟩ := h place _ hplace
  cases halike
  exact hentry

/-- A way in a tree is a way in every tree that extends it. -/
theorem leads (hextends : tree.Extends tree') {final : Bool} {n : Nat}
    {place target : Place} {moves : List Move}
    (h : tree.Leads final n place moves target) :
    tree'.Leads final n place moves target := by
  induction h with
  | here => exact .here
  | stay hplace _ ih => exact .stay (hextends.directory hplace) ih
  | up hplace _ ih => exact .up (hextends.directory hplace) ih
  | down hplace hname hentry hplain _ ih =>
      obtain ⟨entry', hentry', halike⟩ := hextends _ _ hentry
      refine .down (hextends.directory hplace) hname hentry'
        (fun path hpath => ?_) ih
      subst hpath
      cases halike
      exact hplain path rfl
  | link hplace hname hentry hfinal hpath _ ih =>
      exact .link (hextends.directory hplace) hname (hextends.link hentry)
        hfinal hpath ih
  | last hplace hname hentry hfinal =>
      exact .last (hextends.directory hplace) hname
        (hextends.link hentry) hfinal

end Extends

-- ============================================================= sound trees

/-- Every entry is in a directory. -/
def Sound (tree : FileTree) : Prop :=
  ∀ place name,
    (tree.get? (place ++ [name])).isSome → tree.get? place = some .directory

namespace Sound

variable {tree : FileTree}

/-- A tree is sound if every listed entry is in a directory. -/
theorem of_entries
    (h : ∀ entry ∈ tree.entries, tree.get? entry.1.dropLast = some .directory) :
    tree.Sound := by
  intro place name hsome
  have hne : ¬(place ++ [name]).isEmpty := by simp
  rw [get?, if_neg hne, Option.isSome_map] at hsome
  obtain ⟨entry, hentry⟩ := Option.isSome_iff_exists.1 hsome
  have hdirectory := h entry (List.mem_of_find?_eq_some hentry)
  have hplace := List.find?_some hentry
  rw [beq_iff_eq.1 hplace, List.dropLast_concat] at hdirectory
  exact hdirectory

/-- Something is only below a directory. -/
theorem directory_of_below (h : tree.Sound) {place : Place} :
    ∀ {names : List FileName},
      names ≠ [] → (tree.get? (place ++ names)).isSome →
        tree.get? place = some .directory := by
  intro names hne hsome
  induction names using List.reverseRecOn with
  | nil => exact absurd rfl hne
  | append_singleton front name ih =>
      rw [← List.append_assoc] at hsome
      have hfront := h _ _ hsome
      by_cases hnil : front = []
      · rw [hnil, List.append_nil] at hfront
        exact hfront
      · exact ih hnil (by rw [hfront]; rfl)

/-- Nothing is below what is not a directory. -/
theorem none_below (h : tree.Sound) {place other : Place}
    (hle : place <+: other) (hne : other ≠ place)
    (hplace : tree.get? place ≠ some .directory) :
    tree.get? other = none := by
  obtain ⟨names, rfl⟩ := hle
  cases hother : tree.get? (place ++ names) with
  | none => rfl
  | some entry =>
      refine absurd (h.directory_of_below (fun hnil => hne ?_)
        (by rw [hother]; rfl)) hplace
      rw [hnil, List.append_nil]

/-- Ways end at entries. -/
theorem isSome_of_leads (h : tree.Sound) {final : Bool} {n : Nat}
    {place target : Place} {moves : List Move}
    (hleads : tree.Leads final n place moves target)
    (hplace : (tree.get? place).isSome) : (tree.get? target).isSome := by
  induction hleads with
  | here => exact hplace
  | stay _ _ ih => exact ih hplace
  | @up _ place _ _ hdirectory _ ih =>
      refine ih ?_
      rcases List.eq_nil_or_concat place with rfl | ⟨front, name, rfl⟩
      · rfl
      · rw [List.concat_eq_append, List.dropLast_concat]
        rw [List.concat_eq_append] at hplace
        rw [h _ _ hplace]
        rfl
  | down _ _ hentry _ _ ih => exact ih (by rw [hentry]; rfl)
  | @link _ place _ _ path _ hdirectory _ _ _ _ _ ih =>
      refine ih ?_
      unfold startOf
      split
      · rfl
      · exact hplace
  | last _ _ hentry _ =>
      rw [hentry]
      rfl

end Sound

-- =================================================================== paths

/-- A path is resolved to the place that its moves lead to, through no more
links than are allowed. -/
theorem resolve_eq_ok_iff {tree : FileTree} {final : Bool} {path : Path}
    {place : Place} :
    tree.resolve final path = .ok place
      ↔ checkPath path = .ok ()
        ∧ tree.Leads final maxLinks [] (moves path) place := by
  unfold resolve
  cases hcheck : checkPath path with
  | error fault => simp [bind, Except.bind]
  | ok _ => simpa [bind, Except.bind] using follow_eq_ok_iff

/-- A path is resolved to the same place in every tree that extends
the first. -/
theorem Extends.resolve {tree tree' : FileTree} (hextends : tree.Extends tree')
    {final : Bool} {path : Path} {place : Place}
    (h : tree.resolve final path = .ok place) :
    tree'.resolve final path = .ok place := by
  rw [resolve_eq_ok_iff] at h ⊢
  exact ⟨h.1, hextends.leads h.2⟩

/-- The directory of a path is where the moves before the last name lead. -/
theorem directoryOf_eq_ok_iff {tree : FileTree} {path : Path} {place : Place} :
    tree.directoryOf maxLinks [] path = .ok place
      ↔ checkPath path = .ok ()
        ∧ tree.Leads true maxLinks [] (finalOf path).above place
        ∧ tree.get? place = some .directory := by
  have hstart : startOf [] path = [] := ite_self []
  unfold directoryOf
  rw [hstart]
  cases hcheck : checkPath path with
  | error fault => simp [bind, Except.bind]
  | ok _ =>
      rw [← follow_eq_ok_iff]
      cases hfollow : tree.follow true maxLinks [] (finalOf path).above with
      | error fault => simp [bind, Except.bind]
      | ok directory =>
          by_cases hdirectory : tree.isDirectoryAt directory
          · have hplace := isDirectoryAt_iff.1 hdirectory
            simp only [bind, Except.bind, hdirectory, if_true, pure,
              Except.pure, Except.ok.injEq, true_and]
            exact ⟨fun heq => ⟨heq, heq ▸ hplace⟩, fun h => h.1⟩
          · have hplace : tree.get? directory ≠ some .directory := fun h =>
              hdirectory (isDirectoryAt_iff.2 h)
            simp only [bind, Except.bind, hdirectory, Except.ok.injEq, true_and]
            constructor
            · intro h
              cases h
            · rintro ⟨rfl, h⟩
              exact absurd h hplace

end Datapack.FileTree
