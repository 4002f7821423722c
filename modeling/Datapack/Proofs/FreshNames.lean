/-
When the names of a stream repeat.

A name is the template with the digits of its number in place of every
placeholder. The digits get longer as the numbers grow, and the text
around them can be anything, further placeholders and digits included, so
a name cannot be cut at fixed places to read its number off.

The argument needs the first placeholder only. Up to there all names are
the template's own text, and there the digits begin. If two numbers have
digits of different lengths, so have their names, since no placeholder
adds less for the longer digits (`length_replaceFrom_le`). If the lengths
agree, equal names have equal digits at the first placeholder.
-/
import Datapack.Proofs.Places
import Mathlib.Logic.Function.Iterate

namespace Datapack

-- ============================================================ replacing

namespace Text

variable {pattern text : List Char}

/-- Skipping characters is starting behind them. -/
private theorem replaceFrom_eq_replaceAll (pattern replacement : List Char) :
    ∀ (skip : Nat) (text : List Char),
      replaceFrom pattern replacement skip text
        = replaceAll pattern replacement (text.drop skip)
  | 0, _ => rfl
  | _ + 1, [] => rfl
  | skip + 1, _ :: rest =>
    replaceFrom_eq_replaceAll pattern replacement skip rest

/-- A text without the pattern is left as it is. -/
private theorem replaceAll_of_not_infix (replacement : List Char)
    (h : ¬pattern <:+: text) :
    replaceAll pattern replacement text = text := by
  induction text with
  | nil => rfl
  | cons c rest ih =>
      have hhere : ¬pattern.isPrefixOf (c :: rest) = true :=
        fun hstarts => h (List.isPrefixOf_iff_prefix.1 hstarts).isInfix
      have hrest : ¬pattern <:+: rest :=
        fun hlater => h (hlater.trans (List.suffix_cons c rest).isInfix)
      unfold replaceAll at ih ⊢
      rw [replaceFrom, if_neg hhere, ih hrest]

/-- The text before the first pattern, what is put in its place, and the text
behind it. -/
theorem exists_replaceAll (hne : pattern ≠ []) (h : pattern <:+: text) :
    ∃ front back, ∀ replacement,
      replaceAll pattern replacement text
        = front ++ (replacement ++ replaceAll pattern replacement back) := by
  induction text with
  | nil => exact absurd (List.infix_nil.1 h) hne
  | cons c rest ih =>
      by_cases hhere : pattern.isPrefixOf (c :: rest) = true
      · refine ⟨[], rest.drop (pattern.length - 1), fun replacement => ?_⟩
        rw [List.nil_append, ← replaceFrom_eq_replaceAll]
        unfold replaceAll
        rw [replaceFrom, if_pos hhere]
      · have hrest : pattern <:+: rest := by
          rcases List.infix_cons_iff.1 h with hstarts | hlater
          · exact absurd (List.isPrefixOf_iff_prefix.2 hstarts) hhere
          · exact hlater
        obtain ⟨front, back, heq⟩ := ih hrest
        refine ⟨c :: front, back, fun replacement => ?_⟩
        rw [List.cons_append, ← heq]
        unfold replaceAll
        rw [replaceFrom, if_neg hhere]

/-- A longer replacement makes no shorter text. -/
theorem length_replaceFrom_le (pattern : List Char) {first second : List Char}
    (h : first.length ≤ second.length) (skip : Nat) (text : List Char) :
    (replaceFrom pattern first skip text).length
      ≤ (replaceFrom pattern second skip text).length := by
  fun_induction replaceFrom pattern first skip text with
  | case1 skip => exact Nat.zero_le _
  | case2 skip c rest ih =>
      rw [replaceFrom]
      exact ih
  | case3 c rest hhere ih =>
      rw [replaceFrom, if_pos hhere, List.length_append, List.length_append]
      exact Nat.add_le_add h ih
  | case4 c rest hhere ih =>
      rw [replaceFrom, if_neg hhere, List.length_cons, List.length_cons]
      exact Nat.succ_le_succ ih

/-- What replaces a pattern can be told from the text that comes of it. -/
theorem replaceAll_injective (hne : pattern ≠ []) (h : pattern <:+: text) :
    Function.Injective
      fun replacement => replaceAll pattern replacement text := by
  intro first second heq
  obtain ⟨front, back, hsplit⟩ := exists_replaceAll hne h
  have hbehind : first ++ replaceAll pattern first back
      = second ++ replaceAll pattern second back := by
    have hwhole := heq
    dsimp only at hwhole
    rw [hsplit, hsplit] at hwhole
    exact List.append_cancel_left hwhole
  have hlengths := congrArg List.length hbehind
  rw [List.length_append, List.length_append] at hlengths
  have hsame : first.length = second.length := by
    rcases Nat.le_total first.length second.length with hle | hle
    · have hback := length_replaceFrom_le pattern hle 0 back
      unfold replaceAll at hlengths
      omega
    · have hback := length_replaceFrom_le pattern hle 0 back
      unfold replaceAll at hlengths
      omega
  exact (List.append_inj hbehind hsame).1

end Text

-- ============================================================== streams

namespace NameStream

/-- The name that is given out after `i` others. -/
def get (names : NameStream) (i : Nat) : String :=
  (tail^[i] names).head

/-- The template has the placeholder somewhere. -/
def HasPlaceholder (template : String) : Prop :=
  ∃ front back, template = front ++ Location.placeholder ++ back

/-- Taking names one by one is dropping them. -/
private theorem iterate_tail (names : NameStream) (i : Nat) :
    tail^[i] names = names.drop i := by
  induction i with
  | zero => rfl
  | succ i ih =>
      rw [Function.iterate_succ_apply', ih]
      rfl

/-- The name at a position is the template with the number in place of the
pattern. -/
private theorem get_ofTemplate (template : String) (i : Nat) :
    (ofTemplate template).get i = nameAt template i := by
  unfold get
  rw [iterate_tail]
  show nameAt template (0 + i) = nameAt template i
  rw [Nat.zero_add]

/-- A template has the placeholder if its characters have. -/
private theorem hasPlaceholder_iff {template : String} :
    HasPlaceholder template
      ↔ Location.placeholder.toList <:+: template.toList := by
  constructor
  · rintro ⟨front, back, rfl⟩
    rw [String.toList_append, String.toList_append]
    exact ⟨front.toList, back.toList, rfl⟩
  · rintro ⟨front, back, heq⟩
    refine ⟨String.ofList front, String.ofList back, ?_⟩
    apply String.toList_injective
    rw [String.toList_append, String.toList_append, String.toList_ofList,
      String.toList_ofList]
    exact heq.symm

/-- Different numbers give different names, since their digits can be
read back. -/
private theorem get_injective {template : String}
    (h : HasPlaceholder template) :
    Function.Injective (ofTemplate template).get := by
  intro i j heq
  rw [get_ofTemplate, get_ofTemplate] at heq
  have hdigits := Text.replaceAll_injective (by decide) (hasPlaceholder_iff.1 h)
    (String.ofList_injective heq)
  exact digits_injective hdigits

/-- Without a placeholder all names are the template itself. -/
private theorem get_eq_template {template : String}
    (h : ¬HasPlaceholder template) (i : Nat) :
    (ofTemplate template).get i = template := by
  rw [get_ofTemplate]
  unfold nameAt
  rw [Text.replaceAll_of_not_infix _ (mt hasPlaceholder_iff.2 h)]
  exact String.ofList_toList

/-- The names of a template are all different if it has the placeholder, and
are all the template itself if it has not. In particular those at the
positions of a counter of 64 bits are. -/
theorem repeats_iff (template : String) :
    (Function.Injective (ofTemplate template).get ↔ HasPlaceholder template)
      ∧ ((∀ i, (ofTemplate template).get i = template)
        ↔ ¬HasPlaceholder template) := by
  have hnot : Function.Injective (ofTemplate template).get →
      ¬∀ i, (ofTemplate template).get i = template := by
    intro hinjective hconstant
    have heq : (0 : Nat) = 1 :=
      hinjective ((hconstant 0).trans (hconstant 1).symm)
    cases heq
  refine ⟨⟨fun hinjective => ?_, get_injective⟩,
    ⟨fun hconstant h => ?_, get_eq_template⟩⟩
  · by_contra h
    exact hnot hinjective (get_eq_template h)
  · exact hnot (get_injective h) hconstant

-- The digits grow past eight, in every place alike.
example : nameAt "\x7bname\x7d0.\x7bname\x7d" 4294967296
    = "1000000000.100000000" := by
  decide +kernel

end NameStream

end Datapack
