/-
The places of functions, and why no two share a location.

A function of a pack is a method of a component, the function that
attaches or detaches a component, or a generated one. A location spells
the place out, segment by segment behind the namespace, with slashes
between the segments. The text determines the place again for three
reasons.

- No segment has a slash in it. Names that are registered have none, and a
  generated name is a number in hexadecimal.
- The first segment says which kind of place it is.
- For a method, one segment more than its component and its name may be
  the ancestor that it comes from, or the mark of private methods. They
  cannot be confused: a name in snake case has a letter behind a leading
  underscore at no time, so none is `_private`.
-/
import Datapack.NameStream
import Datapack.Proofs.SnakeCase

namespace Datapack

-- ================================================================= names

namespace Name

/-- No name in snake case is the mark of private methods. -/
theorem snakeCase_ne_private (name : String) :
    (snakeCase name).toList ≠ ['_', 'p', 'r', 'i', 'v', 'a', 't', 'e'] := by
  unfold snakeCase
  rw [String.toList_ofList]
  exact fun h => absurd (snakeChars_underscore h) (by decide)

/-- No character of a valid name divides segments or opens a placeholder. -/
theorem notMem_of_isValid {name : String} (h : isValid name = true) {c : Char}
    (hc : isNameChar c = false) : c ∉ name.toList := by
  unfold isValid at h
  intro hmem
  split at h
  · cases h
  · next first rest htext =>
    rw [Bool.and_eq_true] at h
    rw [htext, List.mem_cons] at hmem
    rcases hmem with rfl | hmem
    · unfold isNameChar at hc
      rw [h.1] at hc
      cases hc
    · rw [List.all_eq_true.1 h.2 c hmem] at hc
      cases hc

/-- A valid namespace has only characters of names. -/
theorem notMem_of_isValidNamespace {space : String}
    (h : isValidNamespace space = true) {c : Char} (hc : isNameChar c = false) :
    c ∉ space.toList := by
  unfold isValidNamespace at h
  intro hmem
  split at h
  · cases h
  · rw [List.all_eq_true.1 h c hmem] at hc
    cases hc

end Name

-- ================================================================ numbers

namespace NameStream

/-- The number that hexadecimal digits stand for. -/
def value (hex : List Char) : Nat :=
  hex.foldl
    (fun n c => 16 * n + if Name.isDigit c then c.toNat - 48 else c.toNat - 87)
    0

/-- One more digit multiplies the value and adds to it. -/
private theorem value_append_digit (hex : List Char) {d : Nat} (h : d < 16) :
    value (hex ++ [d.digitChar]) = 16 * value hex + d := by
  have hall : ∀ d < 16, (if Name.isDigit d.digitChar then d.digitChar.toNat - 48
      else d.digitChar.toNat - 87) = d := by decide
  unfold value
  rw [List.foldl_append, List.foldl_cons, List.foldl_nil, hall d h]

/-- The value of the digits of a number is the number. -/
private theorem value_toDigits (n : Nat) : value (Nat.toDigits 16 n) = n := by
  induction n using Nat.strongRecOn with
  | ind n ih =>
      rw [Nat.toDigits_eq_if (by decide)]
      split
      · next hlt => exact (value_append_digit [] hlt).trans (by simp [value])
      · next hge =>
        rw [value_append_digit _
          (Nat.mod_lt n (by decide)), ih (n / 16) (by omega)]
        omega

/-- Filling up with zeros does not change the number. -/
theorem value_digits (n : Nat) : value (digits n) = n := by
  have hzeros : ∀ zeros, value (List.replicate zeros '0') = 0 := by
    intro zeros
    induction zeros with
    | zero => rfl
    | succ zeros ih =>
        rw [List.replicate_succ']
        exact (value_append_digit _ (d := 0) (by decide)).trans (by rw [ih])
  unfold digits
  dsimp only
  unfold value at hzeros ⊢
  rw [List.foldl_append, hzeros]
  exact value_toDigits n

/-- A number is read back from its digits. -/
theorem digits_injective {n m : Nat} (h : digits n = digits m) : n = m := by
  rw [← value_digits n, h, value_digits]

/-- Every digit stands for a number below the base. -/
theorem exists_of_mem_digits {n : Nat} {c : Char} (h : c ∈ digits n) :
    ∃ d < 16, c = d.digitChar := by
  have hhex : ∀ n, c ∈ Nat.toDigits 16 n → ∃ d < 16, c = d.digitChar := by
    intro n
    induction n using Nat.strongRecOn with
    | ind n ih =>
        rw [Nat.toDigits_eq_if (by decide)]
        split
        · next hlt =>
          intro hmem
          exact ⟨n, hlt, List.mem_singleton.1 hmem⟩
        · next hge =>
          rw [List.mem_append, List.mem_singleton]
          rintro (hmem | heq)
          · exact ih (n / 16) (by omega) hmem
          · exact ⟨n % 16, Nat.mod_lt n (by decide), heq⟩
  unfold digits at h
  rcases List.mem_append.1 h with hmem | hmem
  · exact ⟨0, by decide, List.eq_of_mem_replicate hmem⟩
  · exact hhex n hmem

private theorem slash_notMem_digits (n : Nat) : '/' ∉ digits n := by
  intro h
  obtain ⟨d, hd, heq⟩ := exists_of_mem_digits h
  have hall : ∀ d < 16, '/' ≠ d.digitChar := by decide
  exact hall d hd heq

end NameStream

namespace Text

private theorem replaceFrom_length (pattern replacement : List Char) :
    ∀ text : List Char, replaceFrom pattern replacement text.length text = []
  | [] => rfl
  | _ :: rest => replaceFrom_length pattern replacement rest

/-- A pattern at the end of a text that does not have its first character
before. -/
theorem replaceAll_append {c : Char} {pattern replacement : List Char} :
    ∀ {text : List Char}, c ∉ text →
      replaceAll (c :: pattern) replacement (text ++ c :: pattern)
        = text ++ replacement
  | [], _ => by
      unfold replaceAll
      rw [List.nil_append, replaceFrom, if_pos (by simp), List.length_cons,
        Nat.add_sub_cancel, replaceFrom_length]
      simp
  | d :: rest, h => by
      rw [List.mem_cons, not_or] at h
      have ih := @replaceAll_append c pattern replacement rest h.2
      unfold replaceAll at ih ⊢
      rw [List.cons_append, replaceFrom, if_neg (by simp [h.1]), ih]
      rfl

end Text

-- ================================================================= places

/-- What a function of a pack is. -/
inductive FunctionPlace where
  | method (component : String) (origin : Option String)
      (visibility : Visibility) (name : String)
  | attach (component : String)
  | detach (component : String)
  | generated (number : Nat)
  deriving DecidableEq

namespace FunctionPlace

def privateMark : List Char := ['_', 'p', 'r', 'i', 'v', 'a', 't', 'e']

def location (space : String) : FunctionPlace → String
  | .method component origin visibility name =>
    Location.ofMethod space component origin visibility name
  | .attach component => Location.ofAttach space component
  | .detach component => Location.ofDetach space component
  | .generated number =>
    NameStream.nameAt (Location.functionTemplate space) number

/-- The segment of private methods, for those that have it. -/
def marks : Visibility → List (List Char)
  | .anyone => []
  | .owner => [privateMark]

/-- The segments of the location behind the namespace. -/
def segments : FunctionPlace → List (List Char)
  | .method component origin visibility name =>
    "component".toList :: component.toList
      :: (origin.toList.map String.toList ++ marks visibility ++ [name.toList])
  | .attach component => ["attach".toList, component.toList]
  | .detach component => ["detach".toList, component.toList]
  | .generated number => ["generated".toList, NameStream.digits number]

/-- The names of the place are such that its location can be read back. -/
def Readable : FunctionPlace → Prop
  | .method component origin _ name =>
    '/' ∉ component.toList ∧ '/' ∉ name.toList
      ∧ ∀ ancestor ∈ origin,
        '/' ∉ ancestor.toList ∧ ancestor.toList ≠ privateMark
  | .attach component => '/' ∉ component.toList
  | .detach component => '/' ∉ component.toList
  | .generated _ => True

/-- A generated name: the namespace, the directory of generated functions
and the digits of the number. -/
theorem nameAt_functionTemplate {space : String}
    (hspace : '\x7b' ∉ space.toList) (n : Nat) :
    (NameStream.nameAt (Location.functionTemplate space) n).toList
      = space.toList ++ ":generated/".toList ++ NameStream.digits n := by
  have htemplate : (Location.functionTemplate space).toList
      = (space.toList ++ ":generated/".toList)
        ++ Location.placeholder.toList := by
    unfold Location.functionTemplate
    simp [toString, String.toList_append]
  unfold NameStream.nameAt
  rw [String.toList_ofList, htemplate]
  -- the placeholder opens with a brace, which nothing before it has
  refine Text.replaceAll_append ?_
  rw [List.mem_append, not_or]
  exact ⟨hspace, by decide⟩

/-- A location is its segments behind the namespace. -/
theorem toList_location {space : String} (hspace : '\x7b' ∉ space.toList)
    (place : FunctionPlace) :
    (place.location space).toList
      = space.toList ++ ':' :: ['/'].intercalate place.segments := by
  cases place with
  | method component origin visibility name =>
      unfold FunctionPlace.location Location.ofMethod
      cases origin <;> cases visibility <;>
        simp [segments, marks, privateMark, toString, String.toList_append,
          List.intercalate_cons_cons, List.intercalate_singleton]
  | attach component =>
      unfold FunctionPlace.location Location.ofAttach FunctionPlace.segments
      simp [toString, String.toList_append, List.intercalate_cons_cons,
        List.intercalate_singleton]
  | detach component =>
      unfold FunctionPlace.location Location.ofDetach FunctionPlace.segments
      simp [toString, String.toList_append, List.intercalate_cons_cons,
        List.intercalate_singleton]
  | generated number =>
      unfold FunctionPlace.location FunctionPlace.segments
      rw [nameAt_functionTemplate hspace]
      simp [List.intercalate_cons_cons, List.intercalate_singleton]

/-- The segments of a place that can be read back have no slash. -/
private theorem slash_notMem_segments {place : FunctionPlace}
    (h : place.Readable) :
    ∀ segment ∈ place.segments, '/' ∉ segment := by
  intro segment hmem
  cases place with
  | method component origin visibility name =>
      obtain ⟨hcomponent, hname, horigin⟩ := h
      simp only [segments, List.mem_append, List.mem_cons, List.not_mem_nil,
        or_false, List.mem_map, Option.mem_toList] at hmem
      rcases hmem with rfl | rfl | (⟨ancestor, hancestor, rfl⟩ | hmark) | rfl
      · decide
      · exact hcomponent
      · exact (horigin ancestor hancestor).1
      · cases visibility with
        | anyone => cases hmark
        | owner =>
            rw [List.mem_singleton.1 hmark]
            unfold privateMark
            decide
      · exact hname
  | attach component =>
      rcases List.mem_cons.1 hmem with rfl | hmem
      · decide
      · rw [List.mem_singleton.1 hmem]
        exact h
  | detach component =>
      rcases List.mem_cons.1 hmem with rfl | hmem
      · decide
      · rw [List.mem_singleton.1 hmem]
        exact h
  | generated number =>
      rcases List.mem_cons.1 hmem with rfl | hmem
      · decide
      · rw [List.mem_singleton.1 hmem]
        exact NameStream.slash_notMem_digits number

/-- The segments say what the place is. -/
theorem segments_injective {place other : FunctionPlace} (h : place.Readable)
    (h' : other.Readable) (heq : place.segments = other.segments) :
    place = other := by
  cases place with
  | method component origin visibility name =>
      cases other with
      | method component' origin' visibility' name' =>
          obtain ⟨-, -, horigin⟩ := h
          obtain ⟨-, -, horigin'⟩ := h'
          -- an origin and the mark of private methods both stand before the
          -- name; the origin is not
          -- the mark, and so the number of segments and the first of them
          -- tell which there are
          cases origin <;> cases origin' <;> cases visibility <;>
            cases visibility' <;>
            simp_all [segments, marks, String.toList_inj]
      | _ => exact absurd (List.cons.inj heq).1 (by decide)
  | attach component =>
      cases other with
      | attach component' => simpa [segments, String.toList_inj] using heq
      | _ => exact absurd (List.cons.inj heq).1 (by decide)
  | detach component =>
      cases other with
      | detach component' => simpa [segments, String.toList_inj] using heq
      | _ => exact absurd (List.cons.inj heq).1 (by decide)
  | generated number =>
      cases other with
      | generated number' =>
          have hdigits : NameStream.digits number
              = NameStream.digits number' := by
            simpa [segments] using heq
          rw [NameStream.digits_injective hdigits]
      | _ => exact absurd (List.cons.inj heq).1 (by decide)

/-- Different places have different locations. -/
theorem location_injective {space : String} (hspace : '\x7b' ∉ space.toList)
    {place other : FunctionPlace} (h : place.Readable) (h' : other.Readable)
    (heq : place.location space = other.location space) : place = other := by
  have hne : ∀ place : FunctionPlace, place.segments ≠ [] := by
    intro place
    cases place <;> simp [segments]
  have htext := congrArg String.toList heq
  rw [toList_location hspace, toList_location hspace] at htext
  have hpath := (List.cons.inj (List.append_cancel_left htext)).2
  -- no segment has a slash, so the path falls into its segments again
  refine segments_injective h h' ?_
  rw [← List.splitOn_intercalate '/' (slash_notMem_segments h) (hne place),
    hpath, List.splitOn_intercalate '/' (slash_notMem_segments h') (hne other)]

/-- The text that generated locations open with. -/
def generatedText (space : String) : List Char :=
  space.toList ++ ":generated/".toList

/-- Exactly the generated places have a location that opens as generated
ones do. -/
theorem generated_prefix_iff {space : String} (hspace : '\x7b' ∉ space.toList)
    (place : FunctionPlace) :
    generatedText space <+: (place.location space).toList
      ↔ ∃ n, place = .generated n := by
  have hopen : ∀ place : FunctionPlace,
      generatedText space <+: (place.location space).toList
        ↔ "generated/".toList <+: ['/'].intercalate place.segments := by
    intro place
    rw [toList_location hspace place]
    unfold generatedText
    rw [List.prefix_append_right_inj]
    exact List.prefix_cons_inj ':'
  rw [hopen]
  constructor
  · intro hpre
    cases place with
    | generated n => exact ⟨n, rfl⟩
    | method component origin visibility name =>
        simp only [segments, List.intercalate_cons_cons] at hpre
        exact absurd (List.cons_prefix_cons.1 hpre).1 (by decide)
    | attach component =>
        exact absurd (List.cons_prefix_cons.1 hpre).1 (by decide)
    | detach component =>
        exact absurd (List.cons_prefix_cons.1 hpre).1 (by decide)
  · rintro ⟨n, rfl⟩
    simp only [segments, List.intercalate_cons_cons, List.intercalate_singleton]
    exact ⟨NameStream.digits n, rfl⟩

end FunctionPlace

end Datapack
