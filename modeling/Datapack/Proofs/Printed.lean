/-
JSON that is printed is read back.

The reader takes a value from the front of its input, so what is said about
it is said for any input that continues behind the printed value. Texts come
first: `escape` writes a character as a piece that the reader takes for this
character again, whether it stands for itself or is escaped by a letter or
by its number. Values follow, those without numbers, which is all that
manifests are made of (`Verbal`).

The reader spends fuel, one unit for a value and one for an item or member.
Two units for each printed character are enough: an item or a member is
followed by a comma or by a closing bracket, which pays for its own unit.
-/
import Mathlib.Tactic.SplitIfs
import Mathlib.Tactic.Conv
import Datapack.Json.Decoder
import Datapack.Json.Printer

namespace Datapack.Json

-- ================================================================== texts

/-- A digit is read back as its value. -/
private theorem hexValue?_hexDigit :
    ∀ n < 16, hexValue? (hexDigit n) = some n := by decide

/-- A control character is escaped by the number that it has. -/
theorem unit?_control {n : Nat} (h : n < 32) :
    unit? '0' '0' (hexDigit (n / 16)) (hexDigit (n % 16)) = some n := by
  have hzero : hexValue? '0' = some 0 := by decide
  unfold unit?
  rw [hzero,
    hexValue?_hexDigit _
      (by omega), hexValue?_hexDigit _ (Nat.mod_lt n (by decide))]
  exact congrArg some (by omega)

/-- No control character is left where one was escaped. -/
theorem le_of_mem_escape {c d : Char} (h : d ∈ escape c) : 32 ≤ d.toNat := by
  have hhex : ∀ n < 16, 32 ≤ (hexDigit n).toNat := by decide
  have hshort : ∀ letter : Char,
      32 ≤ letter.toNat → d ∈ ['\\', letter] → 32 ≤ d.toNat := by
    intro letter hletter hd
    rw [List.mem_cons, List.mem_singleton] at hd
    rcases hd with rfl | rfl
    · decide
    · exact hletter
  unfold escape at h
  split_ifs at h with hquote hslash hb hf hn hr ht hcontrol
  iterate 7 exact hshort _ (by decide) h
  · simp only [List.mem_cons, List.not_mem_nil, or_false] at h
    rcases h with rfl | rfl | rfl | rfl | rfl | rfl
    iterate 4 decide
    · exact hhex _ (by omega)
    · exact hhex _ (by omega)
  · rw [List.mem_singleton.1 h]
    omega

/-- A quoted text has no control characters. -/
theorem le_of_mem_quote {d : Char} {text : List Char} (h : d ∈ quote text) :
    32 ≤ d.toNat := by
  have hmark : 32 ≤ '"'.toNat := by decide
  unfold quote at h
  rw [List.mem_append, List.mem_cons, List.mem_flatMap, List.mem_singleton] at h
  rcases h with (rfl | ⟨c, -, hd⟩) | rfl
  · exact hmark
  · exact le_of_mem_escape hd
  · exact hmark

/-- What is written is read as a piece, wherever it stands, and the piece
stands for the character. -/
structure StandsFor (written : List Char) (piece : Piece) (c : Char) :
    Prop where
  read : ∀ input, readPieces (written ++ input)
    = (readPieces input).map fun read => (piece :: read.1, read.2)
  joined : ∀ pieces,
    joinPieces (piece :: pieces) = (joinPieces pieces).map (c :: ·)

/-- A character that is escaped by a letter is read back. -/
private theorem standsFor_short {letter c : Char}
    (h : shortEscape? letter = some c) (hletter : letter ≠ 'u') :
    StandsFor ['\\', letter] (.char c) c where
  read input := by
    show readPieces ('\\' :: letter :: input) = _
    rw [readPieces.eq_4 _ _
      (by simpa using fun a b c d rest hu => absurd hu hletter), h]
    cases readPieces input <;> rfl
  joined _ := rfl

/-- A character that stands for itself is read back. -/
private theorem standsFor_self {c : Char} (hquote : c ≠ '"') (hslash : c ≠ '\\')
    (hplain : ¬c.toNat < 32) :
    StandsFor [c] (.char c) c where
  read input := by
    show readPieces (c :: input) = _
    rw [readPieces.eq_5 _ _ hquote (fun _ _ _ _ _ h => absurd h hslash)
      (fun _ _ h => absurd h hslash), if_neg (by simp [hslash, hplain])]
    cases readPieces input <;> rfl
  joined _ := rfl

/-- The number of a control character is no half of a surrogate pair. -/
theorem standsFor_control {c : Char} (h : c.toNat < 32) :
    StandsFor ['\\', 'u', '0', '0', hexDigit (c.toNat / 16),
      hexDigit (c.toNat % 16)]
      (.unit c.toNat) c where
  read input := by
    show readPieces ('\\' :: 'u' :: '0' :: '0' :: _ :: _ :: input) = _
    rw [readPieces.eq_3, unit?_control h]
    cases readPieces input <;> rfl
  joined pieces := by
    have hleading : isLeading c.toNat = false := by
      unfold isLeading
      simp only [Bool.and_eq_false_iff, decide_eq_false_iff_not]
      omega
    have htrailing : isTrailing c.toNat = false := by
      unfold isTrailing
      simp only [Bool.and_eq_false_iff, decide_eq_false_iff_not]
      omega
    conv_lhs => unfold joinPieces
    simp only [hleading, htrailing, Char.ofNat_toNat, Bool.false_eq_true,
      if_false]

/-- A printed character is read as the character. -/
theorem standsFor_escape (c : Char) :
    ∃ piece, StandsFor (escape c) piece c := by
  unfold escape
  split_ifs with hquote hslash hb hf hn hr ht hcontrol
  · subst hquote
    exact ⟨_, standsFor_short (by decide) (by decide)⟩
  · subst hslash
    exact ⟨_, standsFor_short (by decide) (by decide)⟩
  · subst hb
    exact ⟨_, standsFor_short (by decide) (by decide)⟩
  · subst hf
    exact ⟨_, standsFor_short (by decide) (by decide)⟩
  · subst hn
    exact ⟨_, standsFor_short (by decide) (by decide)⟩
  · subst hr
    exact ⟨_, standsFor_short (by decide) (by decide)⟩
  · subst ht
    exact ⟨_, standsFor_short (by decide) (by decide)⟩
  · exact ⟨_, standsFor_control hcontrol⟩
  · exact ⟨_, standsFor_self hquote hslash hcontrol⟩

/-- An escaped text is read up to the quote that ends it, piece by piece. -/
private theorem readPieces_escapes (text input : List Char) :
    ∃ pieces,
      readPieces (text.flatMap escape ++ '"' :: input) = some (pieces, input)
      ∧ joinPieces pieces = some text := by
  induction text with
  | nil => exact ⟨[], rfl, rfl⟩
  | cons c rest ih =>
      obtain ⟨pieces, hread, hjoined⟩ := ih
      obtain ⟨piece, hpiece⟩ := standsFor_escape c
      refine ⟨piece :: pieces, ?_, ?_⟩
      · rw [List.flatMap_cons, List.append_assoc, hpiece.read, hread]
        rfl
      · rw [hpiece.joined, hjoined]
        rfl

/-- A quoted text is read back, whatever characters it has. -/
theorem readText_quote (text : String) (input : List Char) :
    ∃ body, textChars (some text) ++ input = '"' :: body
      ∧ readText body = some (some text, input) := by
  obtain ⟨pieces, hread, hjoined⟩ := readPieces_escapes text.toList input
  refine ⟨text.toList.flatMap escape ++ '"' :: input, ?_, ?_⟩
  · simp [textChars, quote]
  · unfold readText
    rw [hread]
    show some ((joinPieces pieces).map String.ofList, input) = _
    rw [hjoined, Option.map_some, String.ofList_toList]

-- ================================================================= values

/-- The value has no numbers, and each of its texts stands for a string. -/
inductive Verbal : Json → Prop where
  | null : Verbal .null
  | bool (value : Bool) : Verbal (.bool value)
  | string (text : String) : Verbal (.string (some text))
  | array {items : List Json}
      (h : ∀ item ∈ items, Verbal item) : Verbal (.array items)
  | object {members : List (Json.Text × Json)}
      (hnames : ∀ member ∈ members, member.1.isSome)
      (h : ∀ member ∈ members, Verbal member.2) : Verbal (.object members)

/-- The printed value is read back from the front of any input, with two
units of fuel for each of its characters. -/
def ReadBack (json : Json) : Prop :=
  ∀ fuel input, 2 * json.chars.length ≤ fuel →
    readValue fuel (json.chars ++ input) = some (json, input)

/-- What the first character of a printed value may be: neither a blank nor
a closing bracket, so that an array that has items is not taken for an empty
one. -/
theorem Verbal.chars_eq {json : Json} (h : json.Verbal) :
    ∃ c rest, json.chars = c :: rest ∧ isSpace c = false ∧ c ≠ ']' := by
  cases h with
  | null => exact ⟨_, _, rfl, by decide, by decide⟩
  | bool value => cases value <;> exact ⟨_, _, rfl, by decide, by decide⟩
  | string text => exact ⟨'"', _, rfl, by decide, by decide⟩
  | array _ => exact ⟨'[', _, by rw [chars], by decide, by decide⟩
  | object _ _ => exact ⟨'\x7b', _, by rw [chars], by decide, by decide⟩

private theorem skipSpaces_of_not {c : Char} (h : isSpace c = false)
    (input : List Char) :
    skipSpaces (c :: input) = c :: input := by
  unfold skipSpaces
  rw [List.dropWhile_cons_of_neg (by rw [h]; decide)]

private theorem itemsChars_cons (item next : Json) (rest : List Json) :
    itemsChars (item :: next :: rest)
      = item.chars ++ ',' :: itemsChars (next :: rest) := by
  rw [itemsChars]
  intro h
  cases h

private theorem membersChars_cons (member next : Json.Text × Json)
    (rest : List (Json.Text × Json)) :
    membersChars (member :: next :: rest)
      = textChars member.1 ++ ':' :: member.2.chars
        ++ ',' :: membersChars (next :: rest) := by
  rw [membersChars]
  intro h
  cases h

/-- The items of an array are read back, if each of them is. The comma or
bracket behind an item pays for its unit of fuel. -/
private theorem readItems_itemsChars : ∀ {items : List Json}, items ≠ [] →
    (∀ item ∈ items, ReadBack item) →
      ∀ fuel input, 2 * (itemsChars items).length ≤ fuel →
        readItems fuel (itemsChars items ++ input) = some (items, input)
  | [item], _, hitems, 0, input, hfuel => by
      simp [itemsChars] at hfuel
  | [item], _, hitems, fuel + 1, input, hfuel => by
      have hlength : (itemsChars [item]).length = item.chars.length + 1 := by
        simp [itemsChars]
      rw [readItems, itemsChars, List.append_assoc,
        hitems item List.mem_cons_self fuel _ (by omega)]
      rfl
  | item :: next :: rest, _, hitems, 0, input, hfuel => by
      simp [itemsChars_cons] at hfuel
  | item :: next :: rest, _, hitems, fuel + 1, input, hfuel => by
      have hlength : (itemsChars (item :: next :: rest)).length
          = item.chars.length + 1 + (itemsChars (next :: rest)).length := by
        rw [itemsChars_cons, List.length_append, List.length_cons]
        omega
      have hrest := readItems_itemsChars (List.cons_ne_nil next rest)
        (fun other hother => hitems other (List.mem_cons_of_mem _ hother)) fuel
        input (by omega)
      rw [readItems, itemsChars_cons, List.append_assoc,
        hitems item List.mem_cons_self fuel _ (by omega)]
      show (readItems fuel (itemsChars (next :: rest) ++ input)).bind _ = _
      rw [hrest]
      rfl

/-- The members of an object are read back, if their values are. -/
private theorem readMembers_membersChars :
    ∀ {members : List (Json.Text × Json)},
      members ≠ [] →
        (∀ member ∈ members, member.1.isSome) →
          (∀ member ∈ members, ReadBack member.2) →
            ∀ fuel input,
              2 * (membersChars members).length ≤ fuel →
                readMembers fuel (membersChars members ++ input)
                  = some (members, input)
  | [(name, value)], _, hnames, hmembers, 0, input, hfuel => by
      simp [membersChars] at hfuel
  | [(some name, value)], _, hnames, hmembers, fuel + 1, input, hfuel => by
      have hlength : value.chars.length + 2
          ≤ (membersChars [(some name, value)]).length := by
        simp [membersChars]
      have hvalue : ReadBack value := hmembers _ List.mem_cons_self
      obtain ⟨body, hquote, hname⟩ :=
        readText_quote name (':' :: (value.chars ++ '\x7d' :: input))
      have htext : membersChars [(some name, value)] ++ input
          = '"' :: body := by
        rw [← hquote]
        simp [membersChars]
      rw [readMembers, htext]
      -- the name, the colon and the value are read in this order
      show (readText body).bind _ = _
      rw [hname]
      show (readValue fuel (value.chars ++ '\x7d' :: input)).bind _ = _
      rw [hvalue fuel _ (by omega)]
      rfl
  | member :: next :: rest, _, hnames, hmembers, 0, input, hfuel => by
      simp [membersChars_cons] at hfuel
  | (some name, value) :: next :: rest, _, hnames, hmembers, fuel + 1, input,
      hfuel => by
      have hlength :
          value.chars.length + 2 + (membersChars (next :: rest)).length
          ≤ (membersChars ((some name, value) :: next :: rest)).length := by
        simp [membersChars_cons]
        omega
      have hvalue : ReadBack value := hmembers _ List.mem_cons_self
      obtain ⟨body, hquote, hname⟩ :=
        readText_quote name
          (':' :: (value.chars
            ++ ',' :: (membersChars (next :: rest) ++ input)))
      have htext : membersChars ((some name, value) :: next :: rest) ++ input
          = '"' :: body := by
        rw [← hquote]
        simp [membersChars_cons]
      have hrest := readMembers_membersChars (List.cons_ne_nil next rest)
        (fun other hother => hnames other (List.mem_cons_of_mem _ hother))
        (fun other hother => hmembers other (List.mem_cons_of_mem _ hother))
        fuel input (by omega)
      rw [readMembers, htext]
      show (readText body).bind _ = _
      rw [hname]
      show (readValue fuel
        (value.chars ++ ',' :: (membersChars (next :: rest) ++ input))).bind _
        = _
      rw [hvalue fuel _ (by omega)]
      show (readMembers fuel (membersChars (next :: rest) ++ input)).bind _ = _
      rw [hrest]
      rfl
  | (none, value) :: rest, _, hnames, _, _, _, _ =>
      absurd (hnames _ List.mem_cons_self) (by simp)

/-- There is fuel for the value itself, since it is printed as something. -/
theorem ReadBack.of_succ {json : Json} (hprinted : 0 < json.chars.length)
    (h : ∀ fuel input, 2 * json.chars.length ≤ fuel + 1 →
      readValue (fuel + 1) (json.chars ++ input) = some (json, input)) :
      ReadBack json := by
  intro fuel input hfuel
  obtain ⟨less, rfl⟩ : ∃ less, fuel = less + 1 := ⟨fuel - 1, by omega⟩
  exact h less input hfuel

/-- Behind an opening bracket, what is neither a blank nor the end of the
array opens its first item. -/
theorem readValue_items {c : Char} (hspace : isSpace c = false)
    (hclose : c ≠ ']') (fuel : Nat) (input : List Char) :
    readValue (fuel + 1) ('[' :: c :: input)
      = (readItems fuel (c :: input)).map
        fun read => (.array read.1, read.2) := by
  have hopen : isSpace '[' = false := by decide
  simp only [readValue, skipSpaces_of_not hopen, skipSpaces_of_not hspace]
  split
  · next heq => exact absurd (List.cons.inj heq).1 hclose
  · rfl

private theorem readValue_members (fuel : Nat) (input : List Char) :
    readValue (fuel + 1) ('\x7b' :: '"' :: input)
      = (readMembers fuel ('"' :: input)).map
        fun read => (.object read.1, read.2) := by
  rfl

/-- An array is read back if its items are. -/
private theorem readBack_array {items : List Json}
    (hverbal : ∀ item ∈ items, Verbal item)
    (hitems : ∀ item ∈ items, ReadBack item) : ReadBack (.array items) := by
  refine .of_succ (by rw [chars]; simp) fun fuel input hfuel => ?_
  cases items with
  | nil => rfl
  | cons item rest =>
      have hread := readItems_itemsChars (List.cons_ne_nil item rest) hitems
        fuel input (by
          rw [chars, List.length_cons] at hfuel
          omega)
      obtain ⟨c, more, hchars, hspace, hclose⟩ :=
        (hverbal item List.mem_cons_self).chars_eq
      obtain ⟨tail, htail⟩ : ∃ tail,
        itemsChars (item :: rest) ++ input = c :: tail := by
        cases rest with
        | nil => exact ⟨_, by rw [itemsChars, hchars]; rfl⟩
        | cons next rest => exact ⟨_, by rw [itemsChars_cons, hchars]; rfl⟩
      rw [htail] at hread
      rw [chars, List.cons_append, htail, readValue_items hspace hclose, hread]
      rfl

/-- An object is read back if its names are strings and its values are
read back. -/
private theorem readBack_object {members : List (Json.Text × Json)}
    (hnames : ∀ member ∈ members, member.1.isSome)
    (hmembers : ∀ member ∈ members, ReadBack member.2) :
    ReadBack (.object members) := by
  refine .of_succ (by rw [chars]; simp) fun fuel input hfuel => ?_
  cases members with
  | nil => rfl
  | cons member rest =>
      have hread := readMembers_membersChars (List.cons_ne_nil member rest)
        hnames hmembers fuel input (by
          rw [chars, List.length_cons] at hfuel
          omega)
      obtain ⟨_ | name, value⟩ := member
      · cases hnames _ List.mem_cons_self
      obtain ⟨tail, htail⟩ : ∃ tail,
        membersChars ((some name, value) :: rest) ++ input
          = '"' :: tail := by
        cases rest with
        | nil => exact ⟨_, by rw [membersChars]; rfl⟩
        | cons next rest => exact ⟨_, by rw [membersChars_cons]; rfl⟩
      rw [htail] at hread
      rw [chars, List.cons_append, htail, readValue_members, hread]
      rfl

/-- A value without numbers is read back. -/
theorem Verbal.readBack {json : Json} (h : json.Verbal) : ReadBack json := by
  induction h with
  | null => exact .of_succ (by decide) fun _ _ _ => rfl
  | bool value => cases value <;> exact .of_succ (by decide) fun _ _ _ => rfl
  | string text =>
      refine .of_succ
        (by rw [chars]; simp [textChars, quote]) fun fuel input _ => ?_
      obtain ⟨body, hquote, hread⟩ := readText_quote text input
      rw [chars, hquote, readValue]
      show (readText body).map _ = _
      rw [hread]
      rfl
  | array h ih => exact readBack_array h ih
  | object hnames h ih => exact readBack_object hnames ih

/-- What a printed value is read as. -/
theorem Verbal.read_chars {json : Json} (h : json.Verbal) :
    Json.read json.chars = some json := by
  unfold Json.read
  rw [← List.append_nil json.chars,
    h.readBack _ [] (by rw [List.append_nil]; omega)]
  rfl

-- ================================================================ measures

/-- An item is not higher than all items are. -/
theorem height_le_itemsHeight {item : Json} :
    ∀ {items : List Json}, item ∈ items → item.height ≤ itemsHeight items
  | first :: rest, h => by
      rw [itemsHeight]
      rcases List.mem_cons.1 h with rfl | h
      · exact Nat.le_max_left ..
      · exact Nat.le_trans (height_le_itemsHeight h) (Nat.le_max_right ..)

/-- Items are as high as the highest of them. -/
theorem itemsHeight_le {bound : Nat} : ∀ {items : List Json},
    (∀ item ∈ items, item.height ≤ bound) → itemsHeight items ≤ bound
  | [], _ => by simp [itemsHeight]
  | first :: rest, h => by
      rw [itemsHeight]
      exact Nat.max_le.2 ⟨h first List.mem_cons_self,
        itemsHeight_le fun item hitem => h item (List.mem_cons_of_mem _ hitem)⟩

/-- A member is not higher than all members are. -/
theorem height_le_membersHeight {member : Json.Text × Json} :
    ∀ {members : List (Json.Text × Json)}, member ∈ members →
      member.2.height ≤ membersHeight members
  | (name, value) :: rest, h => by
      rw [membersHeight]
      rcases List.mem_cons.1 h with rfl | h
      · exact Nat.le_max_left ..
      · exact Nat.le_trans (height_le_membersHeight h) (Nat.le_max_right ..)

/-- Members are as high as the highest of them. -/
theorem membersHeight_le {bound : Nat} : ∀ {members : List (Json.Text × Json)},
    (∀ member ∈ members, member.2.height ≤ bound) →
      membersHeight members ≤ bound
  | [], _ => by simp [membersHeight]
  | (name, value) :: rest, h => by
      rw [membersHeight]
      exact Nat.max_le.2 ⟨h (name, value) List.mem_cons_self,
        membersHeight_le
          fun member hmember => h member (List.mem_cons_of_mem _ hmember)⟩

private theorem itemsDefinite_of_forall : ∀ {items : List Json},
    (∀ item ∈ items, item.isDefinite = true) → itemsDefinite items = true
  | [], _ => by rw [itemsDefinite]
  | first :: rest, h => by
      rw [itemsDefinite, h first List.mem_cons_self,
        itemsDefinite_of_forall
          fun item hitem => h item (List.mem_cons_of_mem _ hitem)]
      rfl

/-- Members are definite if their names are strings and their values are
definite. -/
private theorem membersDefinite_of_forall :
    ∀ {members : List (Json.Text × Json)},
      (∀ member ∈ members, member.1.isSome) →
    (∀ member ∈ members, member.2.isDefinite = true) →
      membersDefinite members = true
  | [], _, _ => by rw [membersDefinite]
  | (name, value) :: rest, hnames, h => by
      have hname : name.isSome = true := hnames _ List.mem_cons_self
      have hvalue : value.isDefinite = true := h _ List.mem_cons_self
      rw [membersDefinite, hname, hvalue, membersDefinite_of_forall
        (fun member hmember => hnames member (List.mem_cons_of_mem _ hmember))
        (fun member hmember => h member (List.mem_cons_of_mem _ hmember))]
      rfl

/-- Every part of a value without numbers stands for something. -/
theorem Verbal.isDefinite {json : Json} (h : json.Verbal) :
    json.isDefinite = true := by
  induction h with
  | null | bool _ | string _ => rfl
  | array _ ih => exact itemsDefinite_of_forall ih
  | object hnames _ ih => exact membersDefinite_of_forall hnames ih

end Datapack.Json
