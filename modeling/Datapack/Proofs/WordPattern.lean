/-
Words, found by their kinds and read one character at a time.

A word is found by trying its kinds in their order, and a kind by trying how
much each of its pieces takes. No text needs that much: the first character
of a word and the one behind it tell its kind, and the word goes on as long
as there are characters of one class (`wordLength?_of_small` and the like).
So the words of a text can be read from left to right, with nothing in mind
but the word read so far (`wordsFrom`), and they are the same words
(`words_eq`).
-/
import Datapack.Name

namespace Datapack.Name

-- ============================================================= characters

/-- A character that belongs to some word. -/
def isWordChar (c : Char) : Bool := isSmall c || isCapital c || isDigit c

/-- Characters of words are plain ASCII. -/
private theorem toNat_lt_of_isWordChar {c : Char} (h : isWordChar c = true) :
    c.toNat < 128 := by
  unfold isWordChar isSmall isCapital isDigit at h
  simp only [Bool.or_eq_true, Bool.and_eq_true, decide_eq_true_eq, Char.le_def,
    UInt32.le_iff_toNat_le] at h
  show c.val.toNat < 128
  rcases h with (h | h) | h
  · exact Nat.lt_of_le_of_lt h.2 (by decide)
  · exact Nat.lt_of_le_of_lt h.2 (by decide)
  · exact Nat.lt_of_le_of_lt h.2 (by decide)

/-- Letters and digits are ASCII, so that all can be tried. -/
theorem forall_wordChar {P : Char → Prop}
    (h : ∀ n < 128, isWordChar (Char.ofNat n) = true → P (Char.ofNat n))
    {c : Char} (hc : isWordChar c = true) : P c := by
  have hchar := h c.toNat (toNat_lt_of_isWordChar hc)
  rw [Char.ofNat_toNat] at hchar
  exact hchar hc

/-- A character is in one class at most. -/
theorem classes_disjoint (c : Char) :
    (isSmall c = true → isCapital c = false ∧ isDigit c = false)
      ∧ (isCapital c = true → isSmall c = false ∧ isDigit c = false)
      ∧ (isDigit c = true → isSmall c = false ∧ isCapital c = false) := by
  cases hc : isWordChar c with
  | true =>
      exact forall_wordChar (P := fun c =>
        (isSmall c = true → isCapital c = false ∧ isDigit c = false)
          ∧ (isCapital c = true → isSmall c = false ∧ isDigit c = false)
          ∧ (isDigit c = true → isSmall c = false ∧ isCapital c = false))
        (by decide) hc
  | false =>
      unfold isWordChar at hc
      simp only [Bool.or_eq_false_iff] at hc
      simp [hc.1.1, hc.1.2, hc.2]

-- ================================================================== kinds

section

variable {holds : Char → Bool} {c : Char}

/-- A piece takes nothing where the first character is of another class. -/
private theorem Piece.lengths_of_not (hc : holds c = false) (many : Bool)
    (rest : List Char) : Piece.lengths ⟨holds, many⟩ (c :: rest) = [] := by
  rw [lengths]
  exact if_neg (by simp [hc])

/-- A piece that takes many characters tries all of its class first. -/
theorem Piece.head?_lengths (hc : holds c = true) (rest : List Char) :
    (Piece.lengths ⟨holds, true⟩ (c :: rest)).head?
      = some ((rest.takeWhile holds).length + 1) := by
  induction rest generalizing c with
  | nil =>
      rw [lengths, if_pos hc]
      rfl
  | cons d rest ih =>
      rw [lengths, if_pos hc, if_pos rfl, List.head?_append, List.head?_map,
        List.takeWhile_cons]
      cases hd : holds d with
      | false =>
          rw [lengths_of_not hd]
          rfl
      | true =>
          rw [ih hd]
          rfl

/-- A kind is not found where its first piece takes nothing. -/
private theorem lengthOf?_of_not (hc : holds c = false) (many : Bool)
    (pieces : List Piece) (rest : List Char) :
    lengthOf? (⟨holds, many⟩ :: pieces) (c :: rest) = none := by
  rw [lengthOf?, Piece.lengths_of_not hc]
  rfl

/-- A kind of one piece takes all that it can. -/
private theorem lengthOf?_many (hc : holds c = true) (rest : List Char) :
    lengthOf? [⟨holds, true⟩] (c :: rest)
      = some ((rest.takeWhile holds).length + 1) := by
  rw [← Piece.head?_lengths hc]
  unfold lengthOf?
  cases Piece.lengths ⟨holds, true⟩ (c :: rest) <;> rfl

/-- A piece of one character leaves the rest to those behind it. -/
private theorem lengthOf?_one (hc : holds c = true) (pieces : List Piece)
    (rest : List Char) :
    lengthOf? (⟨holds, false⟩ :: pieces) (c :: rest)
      = (lengthOf? pieces rest).map (1 + ·) := by
  have hlengths : Piece.lengths ⟨holds, false⟩ (c :: rest) = [1] := by
    rw [Piece.lengths, if_pos hc]
    rfl
  rw [lengthOf?, hlengths, List.findSome?_singleton]
  rfl

end

/-- The kinds of words one by one. -/
theorem wordLength?_eq (text : List Char) :
    wordLength? text
      = (lengthOf? [⟨isSmall, true⟩] text).or
          ((lengthOf? [⟨isCapital, false⟩, ⟨isSmall, true⟩] text).or
            ((lengthOf? [⟨isCapital, true⟩] text).or
              (lengthOf? [⟨isDigit, true⟩] text))) := by
  unfold wordLength? wordKinds
  simp only [List.findSome?_cons, List.findSome?_nil]
  cases lengthOf? [⟨isSmall, true⟩] text <;>
    cases lengthOf? [⟨isCapital, false⟩, ⟨isSmall, true⟩] text <;>
      cases lengthOf? [⟨isCapital, true⟩] text <;>
        cases lengthOf? [⟨isDigit, true⟩] text <;> rfl

section

variable {c : Char}

/-- A word that starts with a small letter has small letters only. -/
private theorem wordLength?_of_small (hc : isSmall c = true)
    (rest : List Char) :
    wordLength? (c :: rest) = some ((rest.takeWhile isSmall).length + 1) := by
  rw [wordLength?_eq, lengthOf?_many hc]
  rfl

/-- A word that starts with a digit has digits only. -/
private theorem wordLength?_of_digit (hc : isDigit c = true)
    (rest : List Char) :
    wordLength? (c :: rest) = some ((rest.takeWhile isDigit).length + 1) := by
  obtain ⟨hsmall, hcapital⟩ := (classes_disjoint c).2.2 hc
  rw [wordLength?_eq, lengthOf?_of_not hsmall, lengthOf?_of_not hcapital,
    lengthOf?_of_not hcapital, lengthOf?_many hc]
  rfl

/-- A capital before a small letter opens a word of small letters. -/
theorem wordLength?_of_capital_small (hc : isCapital c = true) {d : Char}
    (hd : isSmall d = true) (rest : List Char) :
    wordLength? (c :: d :: rest)
      = some ((rest.takeWhile isSmall).length + 2) := by
  rw [wordLength?_eq, lengthOf?_of_not ((classes_disjoint c).2.1 hc).1,
    lengthOf?_one hc, lengthOf?_many hd]
  exact congrArg some (Nat.add_comm 1 _)

/-- Any other capital opens a word of capitals. -/
theorem wordLength?_of_capital (hc : isCapital c = true) {rest : List Char}
    (hrest : ∀ d ∈ rest.head?, isSmall d = false) :
    wordLength? (c :: rest) = some ((rest.takeWhile isCapital).length + 1) := by
  have hsecond : lengthOf? [⟨isSmall, true⟩] rest = none := by
    cases rest with
    | nil => rfl
    | cons d rest => exact lengthOf?_of_not (hrest d rfl) true [] rest
  rw [wordLength?_eq, lengthOf?_of_not ((classes_disjoint c).2.1 hc).1,
    lengthOf?_one hc, hsecond, lengthOf?_many hc]
  rfl

/-- No word starts with a character of no class. -/
private theorem wordLength?_of_not (hc : isWordChar c = false)
    (rest : List Char) :
    wordLength? (c :: rest) = none := by
  unfold isWordChar at hc
  simp only [Bool.or_eq_false_iff] at hc
  rw [wordLength?_eq, lengthOf?_of_not hc.1.1, lengthOf?_of_not hc.1.2,
    lengthOf?_of_not hc.1.2, lengthOf?_of_not hc.2]
  rfl

end

-- ============================================================ reading words

/-- The character continues the word read so far. Letters of one case and
digits run on; a small letter also follows a capital that opens its word. -/
def continues (word : List Char) (c : Char) : Bool :=
  match word.getLast? with
  | none => false
  | some last =>
    (isSmall last && isSmall c) || (isCapital last && isCapital c)
      || (isDigit last && isDigit c)
      || (isCapital last && isSmall c && word.length == 1)

/-- The word as a list of its own, unless it is empty. -/
def finished (word : List Char) : List (List Char) :=
  if word.isEmpty then [] else [word]

/-- The words of a text, the first of which has been read up to here. -/
def wordsFrom : List Char → List Char → List (List Char)
  | word, [] => finished word
  | word, c :: rest =>
    if continues word c then wordsFrom (word ++ [c]) rest
    else finished word ++ wordsFrom (if isWordChar c then [c] else []) rest

/-- Between words, a character of a word opens one and all others are
skipped. -/
private theorem wordsFrom_nil_cons (c : Char) (rest : List Char) :
    wordsFrom [] (c :: rest)
      = wordsFrom (if isWordChar c then [c] else []) rest := by
  rw [wordsFrom]
  rfl

section

variable {word : List Char} {last : Char} (hlast : word.getLast? = some last)

include hlast

/-- Behind a small letter a word goes on with small letters. -/
private theorem continues_of_small (h : isSmall last = true) (c : Char) :
    continues word c = isSmall c := by
  obtain ⟨hcapital, hdigit⟩ := (classes_disjoint last).1 h
  unfold continues
  rw [hlast]
  simp [h, hcapital, hdigit]

/-- Behind a digit a word goes on with digits. -/
private theorem continues_of_digit (h : isDigit last = true) (c : Char) :
    continues word c = isDigit c := by
  obtain ⟨hsmall, hcapital⟩ := (classes_disjoint last).2.2 h
  unfold continues
  rw [hlast]
  simp [h, hsmall, hcapital]

/-- Behind a capital a word goes on with capitals, or with a small letter
if the capital opens it. -/
private theorem continues_of_capital (h : isCapital last = true) (c : Char) :
    continues word c = (isCapital c || (isSmall c && word.length == 1)) := by
  obtain ⟨hsmall, hdigit⟩ := (classes_disjoint last).2.1 h
  unfold continues
  rw [hlast]
  simp [h, hsmall, hdigit]

end

/-- A word goes on through all characters of a class, if from its second
character on it is one of the class that continues it. -/
theorem wordsFrom_run {holds : Char → Bool}
    (hholds : ∀ {word : List Char} {last : Char}, word.getLast? = some last →
      holds last = true → 1 < word.length → ∀ c, continues word c = holds c)
    (rest : List Char) {word : List Char} (hne : word ≠ [])
    (hnext : ∀ c ∈ rest.head?, continues word c = holds c) :
    wordsFrom word rest
      = (word ++ rest.takeWhile holds)
        :: wordsFrom [] (rest.dropWhile holds) := by
  have hfinished : finished word = [word] := if_neg (by simpa using hne)
  induction rest generalizing word with
  | nil =>
      rw [wordsFrom, hfinished, List.takeWhile_nil, List.append_nil]
      rfl
  | cons c rest ih =>
      rw [wordsFrom, hnext c rfl, List.takeWhile_cons, List.dropWhile_cons]
      cases hc : holds c with
      | true =>
          have hlength := List.length_pos_iff.2 hne
          have hlong : ∀ d, continues (word ++ [c]) d = holds d :=
            hholds List.getLast?_concat hc (by simp; omega)
          simp only [if_true]
          rw [ih (by simp) (fun d _ => hlong d) (if_neg (by simp)),
            List.append_assoc, List.singleton_append]
      | false =>
          simp only [Bool.false_eq_true, if_false]
          rw [hfinished, List.append_nil, wordsFrom_nil_cons]
          rfl

-- =============================================================== agreement

/-- What is found at the start of a text is read as its first word. -/
theorem exists_word {c : Char} (hc : isWordChar c = true) (rest : List Char) :
    ∃ more after, rest = more ++ after
      ∧ wordLength? (c :: rest) = some (more.length + 1)
      ∧ wordsFrom [c] rest = (c :: more) :: wordsFrom [] after := by
  have hrun : ∀ {holds : Char → Bool},
      wordLength? (c :: rest) = some ((rest.takeWhile holds).length + 1) →
      wordsFrom [c] rest
        = ([c] ++ rest.takeWhile holds) :: wordsFrom [] (rest.dropWhile holds) →
      ∃ more after, rest = more ++ after
        ∧ wordLength? (c :: rest) = some (more.length + 1)
        ∧ wordsFrom [c] rest = (c :: more) :: wordsFrom [] after :=
    fun hlength hread =>
      ⟨_, _, List.takeWhile_append_dropWhile.symm, hlength, hread⟩
  unfold isWordChar at hc
  simp only [Bool.or_eq_true] at hc
  -- the class of the first character tells the kind, but for capitals the
  -- next one is needed too
  rcases hc with (hc | hc) | hc
  · refine hrun (wordLength?_of_small hc rest)
      (wordsFrom_run ?_ rest (by simp) ?_)
    · exact fun hlast hsmall _ => continues_of_small hlast hsmall
    · exact fun d _ => continues_of_small rfl hc d
  · by_cases hnext : ∃ d ∈ rest.head?, isSmall d = true
    · obtain ⟨d, hd, hsmall⟩ := hnext
      obtain ⟨tail, rfl⟩ : ∃ tail, rest = d :: tail := by
        cases rest with
        | nil => cases hd
        | cons e tail => exact ⟨tail, by rw [Option.some.inj hd]⟩
      -- the small letter is the second character, and small letters follow it
      have hopens : continues [c] d = true := by
        rw [continues_of_capital rfl hc, hsmall]
        exact Bool.or_true _
      refine ⟨d :: tail.takeWhile isSmall, tail.dropWhile isSmall, ?_,
        wordLength?_of_capital_small hc hsmall tail, ?_⟩
      · rw [List.cons_append, List.takeWhile_append_dropWhile]
      · rw [wordsFrom, if_pos hopens]
        refine wordsFrom_run ?_ tail (by simp) fun e _ => ?_
        · exact fun hlast hsmall _ => continues_of_small hlast hsmall
        · exact continues_of_small rfl hsmall e
    · have hnone : ∀ d ∈ rest.head?, isSmall d = false := fun d hd =>
        Bool.eq_false_iff.2 fun hsmall => hnext ⟨d, hd, hsmall⟩
      refine hrun (wordLength?_of_capital hc hnone)
        (wordsFrom_run ?_ rest (by simp) ?_)
      · intro word last hlast hcapital hlong d
        rw [continues_of_capital hlast hcapital,
          beq_eq_false_iff_ne.2 (Nat.ne_of_gt hlong), Bool.and_false,
          Bool.or_false]
      · intro d hd
        rw [continues_of_capital rfl hc, hnone d hd, Bool.false_and,
          Bool.or_false]
  · refine hrun (wordLength?_of_digit hc rest)
      (wordsFrom_run ?_ rest (by simp) ?_)
    · exact fun hlast hdigit _ => continues_of_digit hlast hdigit
    · exact fun d _ => continues_of_digit rfl hc d

/-- The characters of the word that was found are skipped. -/
private theorem wordsAfter_append (after : List Char) :
    ∀ more : List Char,
      wordsAfter more.length (more ++ after) = wordsAfter 0 after
  | [] => rfl
  | c :: more => by
      rw [List.cons_append, List.length_cons, wordsAfter,
        wordsAfter_append after more]

/-- The words that are found by their kinds are those that are read from left
to right. -/
theorem words_eq (text : List Char) : words text = wordsFrom [] text := by
  unfold words
  -- on the length, since a word is taken off at once
  induction hlength : text.length using Nat.strongRecOn generalizing text with
  | ind n ih =>
      cases text with
      | nil => rfl
      | cons c rest =>
          rw [wordsFrom_nil_cons, wordsAfter]
          rw [List.length_cons] at hlength
          cases hc : isWordChar c with
          | false =>
              rw [wordLength?_of_not hc]
              exact ih rest.length (by omega) rest rfl
          | true =>
              obtain ⟨more, after, rfl, hfound, hread⟩ := exists_word hc rest
              rw [List.length_append] at hlength
              rw [hfound]
              dsimp only
              rw [if_pos rfl, hread, Nat.add_sub_cancel, wordsAfter_append,
                List.take_succ_cons, List.take_left]
              rw [ih after.length (by omega) after rfl]

end Datapack.Name
