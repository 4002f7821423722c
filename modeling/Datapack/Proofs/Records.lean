/-
Records as JSON: what is written is looked at as the same fields again, and
how deeply it is nested.

A type that is stored as JSON has one written form, and there may be several
that it is read from. `RoundTrips` says that the two go together. It takes
three facts about the type (`RoundTrips.of`): its written form has no
numbers, so that the text is read back as the value it was written from; that
value is looked at as what was encoded, provided that it is not nested too
deeply; and whatever was read, from whichever form, is not nested too deeply
when it is written. The last is the reason why writing a value that was read
never makes it unreadable.
-/
import Datapack.Proofs.Printed

namespace Datapack

namespace Json

-- ================================================================ formats

/-- A text read and written again. -/
def normalize {α : Type} (toJson : α → Json) (ofJson? : Json → Option α)
    (text : String) :
    Option String :=
  (decode? ofJson? text).map fun value => (toJson value).render

/-- Writing and reading are inverse to each other, as far as nesting allows:
what is not nested too deeply is read back, and so is whatever was read. -/
structure RoundTrips {α : Type} (toJson : α → Json)
    (ofJson? : Json → Option α) : Prop where
  value : ∀ value, (toJson value).height ≤ maxHeight →
    decode? ofJson? (toJson value).render = some value
  text : ∀ text value, decode? ofJson? text = some value →
    decode? ofJson? (toJson value).render = some value
  idempotent : ∀ text written, normalize toJson ofJson? text = some written →
    normalize toJson ofJson? written = some written

section

variable {α : Type} {toJson : α → Json} {ofJson? : Json → Option α}

/-- A text that was written is looked at as the value it was written from. -/
private theorem decode?_render (verbal : ∀ value, (toJson value).Verbal)
    (value : α) :
    decode? ofJson? (toJson value).render = ofJson? (toJson value) := by
  unfold decode? render
  rw [String.toList_ofList, (verbal value).read_chars]
  rfl

/-- The three facts that make writing and reading inverse to each other. -/
theorem RoundTrips.of (verbal : ∀ value, (toJson value).Verbal)
    (back : ∀ value,
      (toJson value).height ≤ maxHeight → ofJson? (toJson value) = some value)
    (bounded : ∀ json value,
      ofJson? json = some value → (toJson value).height ≤ maxHeight) :
    RoundTrips toJson ofJson? := by
  have htext : ∀ text value, decode? ofJson? text = some value →
      decode? ofJson? (toJson value).render = some value := by
    intro text value h
    obtain ⟨json, -, hlook⟩ := Option.bind_eq_some_iff.1 h
    rw [decode?_render verbal]
    exact back value (bounded json value hlook)
  refine ⟨fun value h => ?_, htext, fun text written h => ?_⟩
  · rw [decode?_render verbal]
    exact back value h
  · obtain ⟨value, hvalue, rfl⟩ := Option.map_eq_some_iff.1 h
    unfold normalize
    rw [htext text value hvalue]
    rfl

end

-- ================================================================ writing

/-- A string has no numbers. -/
@[simp] theorem verbal_ofString (text : String) : (ofString text).Verbal :=
  .string text

/-- Nor has one that may be left out. -/
@[simp] theorem verbal_ofOption (text : Option String) :
    (ofOption text).Verbal := by
  cases text with
  | none => exact .null
  | some text => exact .string text

/-- Nor has a list of strings. -/
@[simp] theorem verbal_ofStrings (texts : List String) :
    (ofStrings texts).Verbal := by
  refine .array fun item hitem => ?_
  obtain ⟨text, -, rfl⟩ := List.mem_map.1 hitem
  exact .string text

/-- A record has no numbers if its fields have none. -/
theorem verbal_ofMembers {members : List (String × Json)}
    (h : ∀ member ∈ members, member.2.Verbal) : (ofMembers members).Verbal := by
  refine .object (fun member hmember => ?_) fun member hmember => ?_
  · obtain ⟨member, -, rfl⟩ := List.mem_map.1 hmember
    rfl
  · obtain ⟨written, hwritten, rfl⟩ := List.mem_map.1 hmember
    exact h written hwritten

/-- Nor has a record with a tag. -/
theorem verbal_ofTagged (kind : String) {members : List (String × Json)}
    (h : ∀ member ∈ members, member.2.Verbal) :
    (ofTagged kind members).Verbal := by
  refine verbal_ofMembers fun member hmember => ?_
  rcases List.mem_cons.1 hmember with rfl | hmember
  · exact .string kind
  · exact h member hmember

-- ================================================================ reading

/-- The members of a written object that have a name. -/
theorem filter_ofMembers (members : List (String × Json)) (name : String) :
    (members.map
      fun member => ((some member.1, member.2) : Json.Text × Json)).filter
        (fun member => member.1 == some name)
      = (members.filter fun member => member.1 == name).map
          fun member => (some member.1, member.2) := by
  rw [List.filter_map]
  rfl

/-- A field that was written is found under its name, if names are
different. -/
private theorem member?_ofMembers {member : String × Json} :
    ∀ {members : List (String × Json)},
      (members.map Prod.fst).Nodup → member ∈ members →
    member? (members.map fun member => (some member.1, member.2)) member.1
      = some (some member.2) := by
  intro members hnodup hmember
  have honly : (members.filter fun other => other.1 == member.1)
      = [member] := by
    induction members with
    | nil => cases hmember
    | cons first rest ih =>
        obtain ⟨hfirst, hrest⟩ := List.nodup_cons.1 hnodup
        rcases List.mem_cons.1 hmember with rfl | hmember
        · rw [List.filter_cons_of_pos (by simp), List.filter_eq_nil_iff.2]
          intro other hother hsame
          exact hfirst (beq_iff_eq.1 hsame ▸ List.mem_map_of_mem hother)
        · have hne : first.1 ≠ member.1 := fun heq =>
            hfirst (heq ▸ List.mem_map_of_mem hmember)
          rw [List.filter_cons_of_neg (by simpa using hne), ih hrest hmember]
  unfold member?
  rw [filter_ofMembers, honly]
  rfl

/-- All elements of a list can be looked at if each can. -/
private theorem mapM_some {α β : Type} {look : α → Option β} {value : α → β} :
    ∀ {list : List α}, (∀ a ∈ list, look a = some (value a)) →
      list.mapM look = some (list.map value)
  | [], _ => rfl
  | a :: rest, h => by
      rw [List.mapM_cons, h a List.mem_cons_self,
        mapM_some fun b hb => h b (List.mem_cons_of_mem _ hb)]
      rfl

/-- Every value that was read comes from an element. -/
theorem exists_of_mapM {α β : Type} {look : α → Option β} :
    ∀ {list : List α} {values : List β}, list.mapM look = some values →
      ∀ value ∈ values, ∃ a ∈ list, look a = some value
  | [], values, h => by
      cases h
      simp
  | a :: rest, values, h => by
      rw [List.mapM_cons] at h
      obtain ⟨first, hfirst, h⟩ := Option.bind_eq_some_iff.1 h
      obtain ⟨others, hothers, h⟩ := Option.bind_eq_some_iff.1 h
      cases h
      intro value hvalue
      rcases List.mem_cons.1 hvalue with rfl | hvalue
      · exact ⟨a, List.mem_cons_self, hfirst⟩
      · obtain ⟨b, hb, hlook⟩ := exists_of_mapM hothers value hvalue
        exact ⟨b, List.mem_cons_of_mem _ hb, hlook⟩

/-- The fields of a written record. -/
theorem fields?_ofMembers {members : List (String × Json)}
    (h : (members.map Prod.fst).Nodup) :
    (ofMembers members).fields? (members.map Prod.fst)
      = some (members.map fun member => some member.2) := by
  have hnames :
      (members.map
        fun member => ((some member.1, member.2) : Json.Text × Json)).all
        (fun member => member.1.isSome) = true := by
    simp
  show fieldsOfMembers? _ _ = _
  unfold fieldsOfMembers?
  rw [if_pos hnames, List.mapM_map]
  exact mapM_some fun member hmember => member?_ofMembers h hmember

/-- The tag of an object, and the object without it. -/
private theorem tagged?_object {members : List (Json.Text × Json)} {tag : Json}
    (h : member? members tagName = some (some tag)) :
    (Json.object members).tagged?
      = some (tag,
        .object (members.filter fun member => member.1 != some tagName)) := by
  simp only [tagged?, h]

/-- The tag of a written value, and the record behind it. -/
theorem tagged?_ofTagged (kind : String) {members : List (String × Json)}
    (h : tagName ∉ members.map Prod.fst) :
    (ofTagged kind members).tagged?
      = some (ofString kind, ofMembers members) := by
  have hother : ∀ member ∈ members, member.1 ≠ tagName :=
    fun member hmember heq => h (heq ▸ List.mem_map_of_mem hmember)
  have htag : member? (((tagName, ofString kind) :: members).map
      fun member => (some member.1, member.2)) tagName
      = some (some (ofString kind)) := by
    have hnone : (members.filter fun member => member.1 == tagName) = [] :=
      List.filter_eq_nil_iff.2
        fun member hmember => by simpa using hother member hmember
    unfold member?
    rw [filter_ofMembers, List.filter_cons_of_pos (by simp), hnone]
    rfl
  unfold ofTagged ofMembers
  rw [tagged?_object htag, List.map_cons, List.filter_cons_of_neg (by simp),
    List.filter_eq_self.2]
  intro member hmember
  obtain ⟨written, hwritten, rfl⟩ := List.mem_map.1 hmember
  simpa using hother written hwritten

@[simp] theorem tagWord?_ofString (nested : Bool) (kinds : List String)
    (kind : String) :
    (ofString kind).tagWord? nested kinds = some kind := rfl

@[simp] theorem asWord?_ofString {α : Type} (ofWord? : String → Option α)
    (word : String) :
    (ofString word).asWord? ofWord? = ofWord? word := rfl

@[simp] theorem required_some {α : Type} (look? : Json → Option α)
    (json : Json) :
    required look? (some json) = look? json := rfl

@[simp] theorem defaulted_some {α : Type} (default : α)
    (look? : Json → Option α) (json : Json) :
    defaulted default look? (some json) = look? json := rfl

/-- A list is read back if its elements are. -/
theorem asList?_array {α : Type} {item? : Json → Option α} {write : α → Json}
    {values : List α} (h : ∀ value ∈ values, item? (write value) = some value) :
    (Json.array (values.map write)).asList? item? = some values := by
  show (values.map write).mapM item? = _
  rw [List.mapM_map]
  have hread : values.mapM (item? ∘ write) = some (values.map id) := mapM_some h
  rw [List.map_id] at hread
  exact hread

@[simp] theorem asString?_ofString (text : String) :
    (ofString text).asString? = some text := rfl

/-- A list of strings is read back. -/
@[simp] theorem asStrings?_ofStrings (texts : List String) :
    (ofStrings texts).asStrings? = some texts :=
  asList?_array fun text _ => asString?_ofString text

/-- A string that may be left out is read back, and so is its absence. -/
@[simp] theorem optional_ofOption (text : Option String) :
    optional asString? (some (ofOption text)) = some text := by
  cases text <;> rfl

-- ================================================================= height

theorem height_array (items : List Json) :
    (Json.array items).height = 1 + itemsHeight items := by
  rw [height]

theorem height_object (members : List (Json.Text × Json)) :
    (Json.object members).height = 1 + membersHeight members := by
  rw [height]

private theorem exists_of_member? {members : List (Json.Text × Json)}
    {name : String} {value : Json}
    (h : member? members name = some (some value)) :
    ∃ member ∈ members, member.2 = value := by
  unfold member? at h
  split at h
  · cases h
  · next member heq =>
    cases h
    have hmember :
        member ∈ members.filter fun member => member.1 == some name := by
      rw [heq]
      exact List.mem_cons_self
    exact ⟨member, (List.mem_filter.1 hmember).1, rfl⟩
  · cases h

/-- The fields of a record in the form of an array are items of the array. -/
private theorem mem_of_fieldsOfItems? {field : Json} :
    ∀ {names : List String} {items : List Json} {fields : List (Option Json)},
      fieldsOfItems? names items = some fields →
        some field ∈ fields → field ∈ items
  | [], [], fields, h, hfield => by
      cases h
      cases hfield
  | _ :: names, [], fields, h, hfield => by
      obtain ⟨others, hothers, rfl⟩ := Option.map_eq_some_iff.1 h
      rcases List.mem_cons.1 hfield with heq | hfield
      · cases heq
      · exact mem_of_fieldsOfItems? hothers hfield
  | _ :: names, item :: items, fields, h, hfield => by
      obtain ⟨others, hothers, rfl⟩ := Option.map_eq_some_iff.1 h
      rcases List.mem_cons.1 hfield with heq | hfield
      · cases heq
        exact List.mem_cons_self
      · exact List.mem_cons_of_mem _ (mem_of_fieldsOfItems? hothers hfield)

/-- A field of a record is nested less deeply than the record. -/
theorem height_lt_of_field {json : Json} {names : List String}
    {fields : List (Option Json)} (h : json.fields? names = some fields)
    {field : Json} (hfield : some field ∈ fields) :
    field.height < json.height := by
  unfold fields? at h
  split at h
  · unfold fieldsOfMembers? at h
    split at h
    · obtain ⟨name, -, hname⟩ := exists_of_mapM h _ hfield
      obtain ⟨member, hmember, rfl⟩ := exists_of_member? hname
      have hle := height_le_membersHeight hmember
      rw [height_object]
      omega
    · cases h
  · have hle := height_le_itemsHeight (mem_of_fieldsOfItems? h hfield)
    rw [height_array]
    omega
  · cases h

/-- What stands behind a tag is nested no deeper than the tagged value. -/
theorem height_of_tagged? {json tag rest : Json}
    (h : json.tagged? = some (tag, rest)) :
    0 < json.height ∧ rest.height ≤ json.height := by
  unfold tagged? at h
  split at h
  · next members =>
    split at h
    · cases h
      have hle :
          membersHeight (members.filter fun member => member.1 != some tagName)
          ≤ membersHeight members :=
        membersHeight_le fun member hmember =>
          height_le_membersHeight (List.mem_filter.1 hmember).1
      rw [height_object, height_object]
      omega
    · cases h
  · next items =>
    cases h
    simp only [height_array, itemsHeight]
    omega
  · cases h

/-- A list is read from an array, item by item. -/
theorem asList?_eq_some {α : Type} {item? : Json → Option α} {json : Json}
    {values : List α} (h : json.asList? item? = some values) :
    ∃ items, json = .array items ∧ items.mapM item? = some values := by
  unfold asList? at h
  split at h
  · exact ⟨_, rfl, h⟩
  · cases h

/-- A list that was read is nested no deeper when it is written, if its items
are not. -/
theorem height_le_of_asList? {α : Type} {item? : Json → Option α}
    {write : α → Json} {json : Json} {values : List α}
    (h : json.asList? item? = some values)
    (hitem : ∀ item value,
      item? item = some value → (write value).height ≤ item.height) :
    (Json.array (values.map write)).height ≤ json.height := by
  obtain ⟨items, rfl, hvalues⟩ := asList?_eq_some h
  have hle : itemsHeight (values.map write) ≤ itemsHeight items := by
    refine itemsHeight_le fun written hwritten => ?_
    obtain ⟨value, hvalue, rfl⟩ := List.mem_map.1 hwritten
    obtain ⟨item, hmem, hlook⟩ := exists_of_mapM hvalues value hvalue
    exact Nat.le_trans (hitem item value hlook) (height_le_itemsHeight hmem)
  rw [height_array, height_array]
  omega

/-- A list of strings is written no higher than what it was read from. -/
theorem height_ofStrings_le {json : Json} {texts : List String}
    (h : json.asStrings? = some texts) :
    (ofStrings texts).height ≤ json.height :=
  height_le_of_asList? h fun _ _ _ => Nat.zero_le _

@[simp] theorem height_ofString (text : String) : (ofString text).height = 0 :=
  rfl

@[simp] theorem height_ofOption (text : Option String) :
    (ofOption text).height = 0 := by
  cases text <;> rfl

@[simp] theorem height_ofStrings (texts : List String) :
    (ofStrings texts).height = 1 := by
  have hitems : itemsHeight (texts.map ofString) ≤ 0 := by
    refine itemsHeight_le fun item hitem => ?_
    obtain ⟨text, -, rfl⟩ := List.mem_map.1 hitem
    exact Nat.le_refl 0
  unfold ofStrings
  rw [height_array]
  omega

/-- A record is nested at most one level deeper than its members. -/
theorem height_ofMembers_le {members : List (String × Json)} (bound : Nat)
    (h : ∀ member ∈ members, member.2.height ≤ bound) :
    (ofMembers members).height ≤ 1 + bound := by
  have hle : membersHeight (members.map fun member => (some member.1, member.2))
      ≤ bound := by
    refine membersHeight_le fun written hwritten => ?_
    obtain ⟨member, hmember, rfl⟩ := List.mem_map.1 hwritten
    exact h member hmember
  unfold ofMembers
  rw [height_object]
  omega

/-- A record is one higher than its fields at most. -/
theorem height_ofTagged_le {kind : String} {members : List (String × Json)}
    (bound : Nat) (h : ∀ member ∈ members, member.2.height ≤ bound) :
    (ofTagged kind members).height ≤ 1 + bound :=
  height_ofMembers_le bound (List.forall_mem_cons.2 ⟨Nat.zero_le bound, h⟩)

/-- A field is less high than its record. -/
theorem height_lt_ofMembers {members : List (String × Json)}
    {member : String × Json} (h : member ∈ members) :
    member.2.height < (ofMembers members).height := by
  have hle := height_le_membersHeight
    (List.mem_map_of_mem
      (f := fun member : String × Json => (some member.1, member.2)) h)
  unfold ofMembers
  rw [height_object]
  dsimp only at hle
  omega

/-- An item is less high than its array. -/
theorem height_lt_array {items : List Json} {item : Json} (h : item ∈ items) :
    item.height < (Json.array items).height := by
  have hle := height_le_itemsHeight h
  rw [height_array]
  omega

/-- A record of a list and of members that are nested no deeper than a list
of texts: the record and the list make two levels around the items. -/
theorem height_ofMembers_le_iff {front : List (String × Json)} (name : String)
    {items : List Json} {bound : Nat}
    (hfront : ∀ member ∈ front, member.2.height ≤ 1) :
    (ofMembers (front ++ [(name, .array items)])).height ≤ 2 + bound
      ↔ ∀ item ∈ items, item.height ≤ bound := by
  constructor
  · intro h item hitem
    have hinside := height_lt_array hitem
    have hlast : (name, .array items) ∈ front ++ [(name, .array items)] :=
      List.mem_append_right front List.mem_cons_self
    have hlist := height_lt_ofMembers hlast
    dsimp only at hlist
    omega
  · intro h
    have hitems : itemsHeight items ≤ bound := itemsHeight_le h
    refine Nat.le_trans (height_ofMembers_le (1 + bound) ?_) (by omega)
    intro member hmember
    rcases List.mem_append.1 hmember with hmember | hmember
    · exact Nat.le_trans (hfront member hmember) (by omega)
    · rw [List.mem_singleton.1 hmember]
      dsimp only
      rw [height_array]
      omega

end Json

end Datapack
