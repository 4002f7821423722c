/-
Words and names in snake case.

The words of a text are letters only or digits only, and in small letters
they are runs. Runs that are joined by underscores are found again, one by
one (`words_intercalate`): a run is read to its end, and the underscore
behind it belongs to no word. So a name in snake case stays as it is
(`snakeCase_snakeCase`). This matters because names are put in snake case
when a component is declared, and again where a body mentions it.

What a name in snake case looks like is read off the same runs
(`snakeCase_form`): they have the letters and digits of the declared name,
and the name is a valid one as soon as there are any.
-/
import Datapack.Proofs.WordPattern

namespace Datapack.Name

-- ============================================================= characters

/-- No letter or digit becomes an underscore. -/
private theorem toLower_ne_underscore {c : Char} (h : isWordChar c = true) :
    c.toLower ≠ '_' :=
  forall_wordChar (P := fun c => c.toLower ≠ '_') (by decide) h

/-- A letter or a digit is one in small letters too. -/
theorem toLower_cases {c : Char} (h : isWordChar c = true) :
    (isDigit c = true ∧ isDigit c.toLower = true)
      ∨ (isDigit c = false ∧ isSmall c.toLower = true) :=
  forall_wordChar (P := fun c => (isDigit c = true ∧ isDigit c.toLower = true)
    ∨ (isDigit c = false ∧ isSmall c.toLower = true)) (by decide) h

private theorem toLower_toLower {c : Char} (h : isWordChar c = true) :
    c.toLower.toLower = c.toLower :=
  forall_wordChar (P := fun c => c.toLower.toLower = c.toLower) (by decide) h

/-- A word is continued by letters and digits only. -/
private theorem isWordChar_of_continues {word : List Char} {c : Char}
    (h : continues word c = true) :
    isWordChar c = true := by
  unfold continues at h
  unfold isWordChar
  split at h
  · cases h
  · simp only [Bool.or_eq_true, Bool.and_eq_true] at h ⊢
    rcases h with ((h | h) | h) | h
    · exact .inl (.inl h.2)
    · exact .inl (.inr h.2)
    · exact .inr h.2
    · exact .inl (.inl h.1.2)

/-- What continues a word is a digit just behind a digit. -/
theorem isDigit_of_continues {word : List Char} {last c : Char}
    (hlast : word.getLast? = some last) (h : continues word c = true) :
    isDigit c = isDigit last := by
  unfold continues at h
  rw [hlast] at h
  have hnot : ∀ d : Char,
      isSmall d = true ∨ isCapital d = true → isDigit d = false := by
    rintro d (hd | hd)
    · exact ((classes_disjoint d).1 hd).2
    · exact ((classes_disjoint d).2.1 hd).2
  simp only [Bool.or_eq_true, Bool.and_eq_true] at h
  rcases h with ((h | h) | h) | h
  · rw [hnot _ (.inl h.1), hnot _ (.inl h.2)]
  · rw [hnot _ (.inr h.1), hnot _ (.inr h.2)]
  · rw [h.1, h.2]
  · rw [hnot _ (.inr h.1.1), hnot _ (.inl h.1.2)]

-- ================================================================== words

/-- The word is not empty and has letters only or digits only. -/
structure Plain (word : List Char) : Prop where
  ne_nil : word ≠ []
  chars : ∀ c ∈ word, isWordChar c = true
  kind : ∀ c ∈ word, ∀ d ∈ word, isDigit c = isDigit d

private theorem Plain.singleton {c : Char} (h : isWordChar c = true) :
    Plain [c] where
  ne_nil := by simp
  chars := by simpa using h
  kind := by simp

private theorem Plain.append {word : List Char} {c : Char} (h : Plain word)
    (hcontinues : continues word c = true) : Plain (word ++ [c]) := by
  obtain ⟨last, hlast⟩ : ∃ last, word.getLast? = some last :=
    ⟨_, List.getLast?_eq_some_getLast h.ne_nil⟩
  have hmem : last ∈ word := List.mem_of_getLast? hlast
  have hkind : ∀ d ∈ word ++ [c], isDigit d = isDigit last := by
    intro d hd
    rcases List.mem_append.1 hd with hd | hd
    · exact h.kind d hd last hmem
    · rw [List.mem_singleton.1 hd]
      exact isDigit_of_continues hlast hcontinues
  refine ⟨by simp, fun d hd => ?_,
    fun d hd e he => (hkind d hd).trans (hkind e he).symm⟩
  rcases List.mem_append.1 hd with hd | hd
  · exact h.chars d hd
  · rw [List.mem_singleton.1 hd]
    exact isWordChar_of_continues hcontinues

/-- The words of a text are plain, if what has been read of the first is. -/
theorem plain_of_mem_wordsFrom : ∀ (text : List Char) {word : List Char},
    word = [] ∨ Plain word → ∀ found ∈ wordsFrom word text, Plain found := by
  have hfinished : ∀ {word : List Char}, word = [] ∨ Plain word →
      ∀ found ∈ finished word, Plain found := by
    intro word hword found hfound
    unfold finished at hfound
    split at hfound
    · cases hfound
    · next hne =>
      rw [List.mem_singleton.1 hfound]
      exact hword.resolve_left fun h => hne (by rw [h]; rfl)
  intro text
  induction text with
  | nil => exact fun hword => hfinished hword
  | cons c rest ih =>
      intro word hword found hfound
      rw [wordsFrom] at hfound
      split at hfound
      · next hcontinues =>
        refine ih (.inr ?_) found hfound
        rcases hword with rfl | hword
        · cases hcontinues
        · exact hword.append hcontinues
      · rcases List.mem_append.1 hfound with hfound | hfound
        · exact hfinished hword found hfound
        · refine ih ?_ found hfound
          split
          · next hc => exact .inr (.singleton hc)
          · exact .inl rfl

/-- Every word of a text is plain. -/
private theorem plain_of_mem_words {text : List Char} :
    ∀ word ∈ words text, Plain word := by
  rw [words_eq]
  exact plain_of_mem_wordsFrom text (.inl rfl)

private theorem flatten_finished (word : List Char) :
    (finished word).flatten = word := by
  unfold finished
  split
  · next hempty => rw [List.isEmpty_iff.1 hempty, List.flatten_nil]
  · rw [List.flatten_singleton]

/-- The words of a text have its letters and digits, in order. -/
private theorem flatten_wordsFrom (text : List Char) : ∀ word : List Char,
    (wordsFrom word text).flatten = word ++ text.filter isWordChar := by
  induction text with
  | nil =>
      intro word
      rw [wordsFrom, flatten_finished, List.filter_nil, List.append_nil]
  | cons c rest ih =>
      intro word
      rw [wordsFrom]
      split
      · next hcontinues =>
        rw [ih, List.filter_cons_of_pos (isWordChar_of_continues hcontinues),
          List.append_assoc]
        rfl
      · rw [List.flatten_append, flatten_finished, ih]
        by_cases hc : isWordChar c = true
        · rw [if_pos hc, List.filter_cons_of_pos hc]
          rfl
        · rw [if_neg hc, List.filter_cons_of_neg hc]
          rfl

/-- The words of a text have its letters and digits, in their order. -/
theorem flatten_words (text : List Char) :
    (words text).flatten = text.filter isWordChar := by
  rw [words_eq, flatten_wordsFrom, List.nil_append]

-- =================================================================== runs

/-- The word has small letters only or digits only. -/
def IsRun (word : List Char) : Prop :=
  word ≠ [] ∧ ((∀ c ∈ word, isSmall c = true) ∨ ∀ c ∈ word, isDigit c = true)

/-- A plain word in small letters is a run. -/
theorem Plain.isRun {word : List Char} (h : Plain word) :
    IsRun (word.map Char.toLower) := by
  refine ⟨by simpa using h.ne_nil, ?_⟩
  obtain ⟨first, rest, rfl⟩ := List.exists_cons_of_ne_nil h.ne_nil
  simp only [List.forall_mem_map]
  have hkind := fun c hc => h.kind c hc first List.mem_cons_self
  rcases toLower_cases (h.chars first List.mem_cons_self) with ⟨hfirst, -⟩
    | ⟨hfirst, -⟩
  · refine .inr fun c hc => ?_
    rcases toLower_cases (h.chars c hc) with ⟨-, hc'⟩ | ⟨hc', -⟩
    · exact hc'
    · rw [hkind c hc, hfirst] at hc'
      cases hc'
  · refine .inl fun c hc => ?_
    rcases toLower_cases (h.chars c hc) with ⟨hc', -⟩ | ⟨-, hc'⟩
    · rw [hkind c hc, hfirst] at hc'
      cases hc'
    · exact hc'

/-- A run is continued up to its end. -/
private theorem IsRun.continues {word : List Char} {c : Char}
    (h : IsRun (word ++ [c])) (hne : word ≠ []) : continues word c = true := by
  obtain ⟨last, hlast⟩ : ∃ last, word.getLast? = some last :=
    ⟨_, List.getLast?_eq_some_getLast hne⟩
  have hmem : last ∈ word := List.mem_of_getLast? hlast
  unfold Name.continues
  rw [hlast]
  rcases h.2 with h | h
  · simp [h last (by simp [hmem]), h c (by simp)]
  · simp [h last (by simp [hmem]), h c (by simp)]

/-- A run is read to its end. -/
theorem IsRun.wordsFrom_append (rest : List Char) :
    ∀ (more word : List Char),
      word ≠ [] → IsRun (word ++ more) →
        wordsFrom word (more ++ rest) = wordsFrom (word ++ more) rest
  | [], word, _, _ => by rw [List.nil_append, List.append_nil]
  | c :: more, word, hne, h => by
      rw [List.append_cons] at h
      have hstart : IsRun (word ++ [c]) :=
        ⟨by simp, h.2.imp (fun hall d hd => hall d (List.mem_append_left _ hd))
          fun hall d hd => hall d (List.mem_append_left _ hd)⟩
      rw [List.cons_append, wordsFrom, if_pos (hstart.continues hne),
        wordsFrom_append rest more (word ++ [c])
          (by simp) h, ← List.append_cons]

/-- A run is read as one word. -/
private theorem IsRun.wordsFrom_nil {word : List Char} (h : IsRun word)
    (rest : List Char) :
    wordsFrom [] (word ++ rest) = wordsFrom word rest := by
  obtain ⟨c, more, rfl⟩ := List.exists_cons_of_ne_nil h.1
  have hc : isWordChar c = true := by
    unfold isWordChar
    rcases h.2 with h | h <;> simp [h c List.mem_cons_self]
  have hopens : ¬Name.continues [] c = true := Bool.false_ne_true
  rw [List.cons_append, wordsFrom, if_neg hopens, if_pos hc]
  exact h.wordsFrom_append rest more [c] (by simp)

/-- A run has digits only if it opens with one. -/
theorem IsRun.all_isDigit {c : Char} {rest : List Char}
    (h : IsRun (c :: rest)) :
    (c :: rest).all isDigit = isDigit c := by
  cases hc : isDigit c with
  | false => rw [List.all_cons, hc, Bool.false_and]
  | true =>
      refine List.all_eq_true.2 (h.2.resolve_left fun hsmall => ?_)
      rw [((classes_disjoint c).1 (hsmall c List.mem_cons_self)).2] at hc
      cases hc

private theorem IsRun.opensName {word : List Char} (h : IsRun word) :
    ∀ c ∈ word, opensName c = true := by
  intro c hc
  unfold Name.opensName
  rcases h.2 with hall | hall
  · rw [hall c hc, Bool.true_or, Bool.true_or]
  · rw [hall c hc, Bool.or_true, Bool.true_or]

/-- Runs that are joined have nothing but letters, digits and underscores. -/
theorem opensName_of_mem_intercalate {c : Char} : ∀ {runs : List (List Char)},
    (∀ word ∈ runs, IsRun word) →
      c ∈ ['_'].intercalate runs → opensName c = true
  | [], _, hc => absurd hc List.not_mem_nil
  | [word], h, hc => by
      rw [List.intercalate_singleton] at hc
      exact (h word List.mem_cons_self).opensName c hc
  | word :: other :: rest, h, hc => by
      rw [List.intercalate_cons_cons, List.append_assoc, List.mem_append,
        List.mem_append, List.mem_singleton] at hc
      rcases hc with hc | rfl | hc
      · exact (h word List.mem_cons_self).opensName c hc
      · rfl
      · exact opensName_of_mem_intercalate
          (fun found hfound => h found (List.mem_cons_of_mem word hfound)) hc

private theorem IsRun.finished {word : List Char} (h : IsRun word) :
    finished word = [word] :=
  if_neg (by simpa using h.1)

/-- An underscore divides words. -/
theorem IsRun.wordsFrom_underscore {word : List Char} (h : IsRun word)
    (rest : List Char) :
    wordsFrom word ('_' :: rest) = word :: wordsFrom [] rest := by
  have hends : ¬Name.continues word '_' = true :=
    fun hcontinues => absurd (isWordChar_of_continues hcontinues) (by decide)
  rw [wordsFrom, if_neg hends, h.finished]
  rfl

/-- Runs that are joined by underscores are found again. -/
theorem words_intercalate :
    ∀ {runs : List (List Char)},
      (∀ word ∈ runs, IsRun word) → words (['_'].intercalate runs) = runs
  | [], _ => rfl
  | [word], h => by
      have hword := h word List.mem_cons_self
      have hend := hword.wordsFrom_nil []
      rw [List.append_nil] at hend
      rw [List.intercalate_singleton, words_eq, hend, wordsFrom, hword.finished]
  | word :: other :: rest, h => by
      have hword := h word List.mem_cons_self
      have hrest :=
        words_intercalate
          fun found hfound => h found (List.mem_cons_of_mem word hfound)
      rw [words_eq] at hrest ⊢
      rw [List.intercalate_cons_cons, List.append_assoc, List.singleton_append,
        hword.wordsFrom_nil, hword.wordsFrom_underscore, hrest]

-- ============================================================ snake case

/-- The words of a text in small letters are runs. -/
theorem isRun_of_mem_map_words {text part : List Char}
    (h : part ∈ (words text).map fun word => word.map Char.toLower) :
    IsRun part := by
  obtain ⟨word, hword, rfl⟩ := List.mem_map.1 h
  exact (plain_of_mem_words word hword).isRun

/-- The words of a name in snake case are those of the name, in small
letters. -/
theorem words_snakeChars (text : List Char) :
    words (snakeChars text)
      = (words text).map fun word => word.map Char.toLower := by
  have hwords :=
    words_intercalate (fun word => @isRun_of_mem_map_words text word)
  unfold snakeChars
  dsimp only
  split
  · next hnil =>
    rw [hnil] at hwords
    exact hwords
  · next c rest hjoined =>
    rw [hjoined] at hwords
    split
    · exact hwords
    · exact hwords

/-- What stands behind a leading underscore of a name in snake case is a
digit. -/
theorem snakeChars_underscore {text rest : List Char} {c : Char}
    (h : snakeChars text = '_' :: c :: rest) : isDigit c = true := by
  unfold snakeChars at h
  cases hsplit : words text with
  | nil =>
      rw [hsplit] at h
      cases h
  | cons word others =>
      have hplain :=
        plain_of_mem_words word (by rw [hsplit]; exact List.mem_cons_self)
      obtain ⟨d, more, rfl⟩ := List.exists_cons_of_ne_nil hplain.ne_nil
      -- the text opens with the first letter of the first word
      obtain ⟨tail, htail⟩ : ∃ tail, ['_'].intercalate
          ((words text).map fun word => word.map Char.toLower)
          = d.toLower :: tail := by
        rw [hsplit, List.map_cons, List.map_cons]
        cases others with
        | nil => exact ⟨_, List.intercalate_singleton⟩
        | cons other rest => exact ⟨_, List.intercalate_cons_cons⟩
      rw [htail] at h
      dsimp only at h
      split at h
      · next hdigit =>
        cases h
        exact hdigit
      · exact absurd (List.cons.inj h).1
          (toLower_ne_underscore (hplain.chars d List.mem_cons_self))

/-- Texts of the same words, up to capitals, are the same in snake case. -/
theorem snakeChars_congr {text other : List Char}
    (h : (words text).map (fun word => word.map Char.toLower)
      = (words other).map fun word => word.map Char.toLower) :
    snakeChars text = snakeChars other := by
  unfold snakeChars
  rw [h]

/-- Snake case of snake case, character by character. -/
private theorem snakeChars_snakeChars (text : List Char) :
    snakeChars (snakeChars text) = snakeChars text := by
  refine snakeChars_congr ?_
  rw [words_snakeChars, List.map_map]
  refine List.map_congr_left fun word hword => ?_
  have hchars := (plain_of_mem_words word hword).chars
  rw [Function.comp_apply, List.map_map]
  exact List.map_congr_left fun c hc => toLower_toLower (hchars c hc)

/-- A name in snake case stays as it is. -/
theorem snakeCase_snakeCase (name : String) :
    snakeCase (snakeCase name) = snakeCase name := by
  unfold snakeCase
  rw [String.toList_ofList, snakeChars_snakeChars]

-- ================================================================== form

/-- The characters of words are letters and digits. -/
private theorem isWordChar_eq_isAlphanum (c : Char) :
    isWordChar c = c.isAlphanum := by
  have hcapital : isCapital c = c.isUpper := (Bool.decide_and ..).symm
  unfold isWordChar Char.isAlphanum Char.isAlpha
  rw [hcapital, Bool.or_comm (isSmall c)]
  rfl

/-- The text is the runs joined by underscores, behind another underscore if
the first of them has digits. -/
theorem snakeChars_of_words {text first : List Char} {rest : List (List Char)}
    (h : (words text).map (fun word => word.map Char.toLower) = first :: rest) :
    snakeChars text
      = (if first.all isDigit then ['_'] else [])
        ++ ['_'].intercalate (first :: rest) := by
  have hfirst : IsRun first := isRun_of_mem_map_words (h ▸ List.mem_cons_self)
  obtain ⟨c, more, rfl⟩ := List.exists_cons_of_ne_nil hfirst.1
  obtain ⟨tail, htail⟩ : ∃ tail,
    ['_'].intercalate ((c :: more) :: rest) = c :: tail := by
    cases rest with
    | nil => exact ⟨_, List.intercalate_singleton⟩
    | cons other others => exact ⟨_, List.intercalate_cons_cons⟩
  rw [hfirst.all_isDigit, htail]
  unfold snakeChars
  rw [h, htail]
  dsimp only
  split <;> rfl

private theorem opensName_of_mem_snakeChars {text : List Char} {c : Char}
    (h : c ∈ snakeChars text) :
    opensName c = true := by
  have hruns := fun word => @isRun_of_mem_map_words text word
  cases hwords : (words text).map fun word => word.map Char.toLower with
  | nil =>
      unfold snakeChars at h
      rw [hwords] at h
      exact absurd h List.not_mem_nil
  | cons first rest =>
      rw [snakeChars_of_words hwords, List.mem_append] at h
      rw [hwords] at hruns
      rcases h with hfront | hjoined
      · split at hfront
        · rw [List.mem_singleton.1 hfront]
          rfl
        · exact absurd hfront List.not_mem_nil
      · exact opensName_of_mem_intercalate hruns hjoined

/-- A name in snake case is valid unless it is empty. -/
private theorem isValid_snakeCase {name : String} (h : snakeCase name ≠ "") :
    isValid (snakeCase name) = true := by
  have hopens : ∀ c ∈ (snakeCase name).toList, opensName c = true := by
    intro c hc
    unfold snakeCase at hc
    rw [String.toList_ofList] at hc
    exact opensName_of_mem_snakeChars hc
  unfold isValid
  cases htext : (snakeCase name).toList with
  | nil => exact absurd (String.toList_inj.1 htext) h
  | cons c rest =>
      rw [htext] at hopens
      obtain ⟨hfirst, hrest⟩ := List.forall_mem_cons.1 hopens
      show (opensName c && rest.all isNameChar) = true
      rw [hfirst, Bool.true_and]
      refine List.all_eq_true.2 fun d hd => ?_
      unfold isNameChar
      rw [hrest d hd, Bool.true_or, Bool.true_or]

/-- The letters and digits of a text are those of its words. -/
theorem words_eq_nil_iff {text : List Char} :
    words text = [] ↔ ∀ c ∈ text, c.isAlphanum = false := by
  have hletters := flatten_words text
  constructor
  · intro hnil c hc
    rw [hnil, List.flatten_nil] at hletters
    have hc' := List.filter_eq_nil_iff.1 hletters.symm c hc
    rw [isWordChar_eq_isAlphanum] at hc'
    exact Bool.eq_false_iff.2 hc'
  · intro hnone
    have hfilter : text.filter isWordChar = [] := by
      refine List.filter_eq_nil_iff.2 fun c hc => ?_
      rw [isWordChar_eq_isAlphanum, hnone c hc]
      exact Bool.false_ne_true
    rw [hfilter, List.flatten_eq_nil_iff] at hletters
    exact List.eq_nil_iff_forall_not_mem.2 fun word hword =>
      (plain_of_mem_words word hword).ne_nil (hletters word hword)

/-- A declared name without letters and digits is empty in snake case. Any
other becomes its letters and digits in parts, each of small letters only or
of digits only, which single underscores join; one more underscore leads if
the first part has digits. Such a name is valid, and in snake case already. -/
theorem snakeCase_form (name : String) :
    (snakeCase name = "" ↔ ∀ c ∈ name.toList, c.isAlphanum = false)
    ∧ (snakeCase name = "" ∨ ∃ first rest,
        (∀ part ∈ first :: rest, part ≠ []
          ∧ (part.all Char.isLower = true ∨ part.all Char.isDigit = true))
        ∧ (first :: rest).flatten
          = (name.toList.filter Char.isAlphanum).map Char.toLower
        ∧ (snakeCase name).toList
            = (if first.all Char.isDigit then ['_'] else [])
              ++ ['_'].intercalate (first :: rest)
        ∧ isValid (snakeCase name) = true)
    ∧ snakeCase (snakeCase name) = snakeCase name := by
  have hchars : (snakeCase name).toList = snakeChars name.toList :=
    String.toList_ofList
  rw [← words_eq_nil_iff]
  cases hwords : (words name.toList).map fun word => word.map Char.toLower with
  | nil =>
      have hnil : words name.toList = [] := List.map_eq_nil_iff.1 hwords
      have hempty : snakeCase name = "" := by
        unfold snakeCase snakeChars
        rw [hwords]
        rfl
      exact ⟨⟨fun _ => hnil, fun _ => hempty⟩, .inl hempty,
        snakeCase_snakeCase name⟩
  | cons first rest =>
      have hruns := fun part => @isRun_of_mem_map_words name.toList part
      rw [hwords] at hruns
      have hform := hchars.trans (snakeChars_of_words hwords)
      -- a first word was found, and it would be found again in the name
      have hne : snakeCase name ≠ "" := by
        intro hempty
        rw [hempty] at hform
        have hjoined := (List.append_eq_nil_iff.1 hform.symm).2
        have hfound := words_intercalate hruns
        rw [hjoined] at hfound
        cases hfound
      have hsome : words name.toList ≠ [] := fun hnil => by
        rw [hnil] at hwords
        cases hwords
      refine ⟨⟨fun hempty => absurd hempty hne, fun hnil => absurd hnil hsome⟩,
        .inr ⟨first, rest, fun part hpart => ?_, ?_, hform,
          isValid_snakeCase hne⟩,
        snakeCase_snakeCase name⟩
      · obtain ⟨hpart, hkind⟩ := hruns part hpart
        exact ⟨hpart, hkind.imp List.all_eq_true.2 List.all_eq_true.2⟩
      · rw [← hwords, ← List.map_flatten, flatten_words,
          funext isWordChar_eq_isAlphanum]

end Datapack.Name
