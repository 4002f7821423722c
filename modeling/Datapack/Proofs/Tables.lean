/-
Tables through their lookup.

A table is sorted by name, so it has one entry for a name at most, and
everything about it can be said through `get?`. There is one equation for
each operation; what a table filled from a list holds then follows by
induction over the list.
-/
import Datapack.Table
import Mathlib.Data.List.Pairwise
import Mathlib.Data.List.Perm.Subperm

namespace Datapack.Table

variable {α : Type} {table : Table α} {name other : String} {value : α}

-- ================================================================ entries

/-- In a sorted list no later entry has the name of the first. -/
theorem find?_insertEntry (name : String) (value : α) (other : String) :
    ∀ {entries : List (String × α)}, entries.Pairwise (fun a b => a.1 < b.1) →
      ((insertEntry name value entries).find? fun entry => entry.1 == other).map
        Prod.snd
        = if other = name then some value
          else (entries.find? fun entry => entry.1 == other).map Prod.snd
  | [], _ => by
      by_cases h : other = name
      · simp [insertEntry, h]
      · simp [insertEntry, h, Ne.symm h]
  | entry :: rest, hsorted => by
      obtain ⟨hfirst, hrest⟩ := List.pairwise_cons.1 hsorted
      have ih := find?_insertEntry name value other hrest
      simp only [insertEntry]
      by_cases hlt : name < entry.1
      · rw [if_pos hlt]
        by_cases h : other = name
        · simp [h]
        · rw [if_neg h, List.find?_cons_of_neg (by simpa using Ne.symm h)]
      · rw [if_neg hlt]
        by_cases hgt : entry.1 < name
        · rw [if_pos hgt]
          by_cases hentry : entry.1 = other
          · have hne : other ≠ name := fun h => by
              rw [hentry, h] at hgt
              exact String.lt_irrefl _ hgt
            rw [if_neg hne, List.find?_cons_of_pos (by simpa using hentry),
              List.find?_cons_of_pos (by simpa using hentry)]
          · rw [List.find?_cons_of_neg (by simpa using hentry),
              List.find?_cons_of_neg (by simpa using hentry), ih]
        · -- neither is smaller, so the new entry replaces this one
          have hsame : entry.1 = name :=
            String.le_antisymm (String.not_lt.1 hlt) (String.not_lt.1 hgt)
          rw [if_neg hgt]
          by_cases h : other = name
          · simp [h]
          · rw [if_neg h, List.find?_cons_of_neg (by simpa using Ne.symm h),
              List.find?_cons_of_neg (by rw [hsame]; simpa using Ne.symm h)]

@[simp] theorem get?_empty (name : String) :
    (empty : Table α).get? name = none := rfl

/-- What is found in a table after a value was inserted. -/
theorem get?_insert (table : Table α) (name : String) (value : α)
    (other : String) :
    (table.insert name value).get? other
      = if other = name then some value else table.get? other :=
  find?_insertEntry name value other table.sorted

/-- A table contains a name if something is found under it. -/
theorem contains_eq (table : Table α) (name : String) :
    table.contains name = (table.get? name).isSome := by
  unfold contains get?
  rw [Option.isSome_map, Bool.eq_iff_iff, List.find?_isSome, List.any_eq_true]

/-- What is found after an insertion that gives way. -/
theorem get?_insertNew (table : Table α) (name : String) (value : α)
    (other : String) :
    (table.insertNew name value).get? other
      = if other = name then some ((table.get? name).getD value)
        else table.get? other := by
  unfold insertNew
  rw [contains_eq]
  cases hfound : table.get? name with
  | none => simp [get?_insert]
  | some found =>
      by_cases h : other = name
      · simp [h, hfound]
      · simp [h]

/-- The entries of a table are what is found in it. -/
theorem mem_entries_iff :
    (name, value) ∈ table.entries ↔ table.get? name = some value := by
  unfold get?
  obtain ⟨entries, hsorted⟩ := table
  dsimp only
  induction entries with
  | nil => simp
  | cons entry rest ih =>
      obtain ⟨hfirst, hrest⟩ := List.pairwise_cons.1 hsorted
      by_cases h : entry.1 = name
      · rw [List.find?_cons_of_pos (by simpa using h), Option.map_some]
        refine ⟨fun hmem => ?_, fun hval => ?_⟩
        · rcases List.mem_cons.1 hmem with heq | hmem
          · rw [← heq]
          · have hlt := hfirst _ hmem
            rw [h] at hlt
            exact absurd hlt (String.lt_irrefl _)
        · refine List.mem_cons.2 (.inl ?_)
          obtain ⟨key, val⟩ := entry
          cases hval
          rw [← h]
      · rw [List.find?_cons_of_neg
          (by simpa using h), ← ih hrest, List.mem_cons]
        refine ⟨fun hmem =>
          hmem.resolve_left fun heq => h (by rw [← heq]), .inr⟩

/-- The values of a table are what is found under some name. -/
theorem mem_values_iff :
    value ∈ table.values ↔ ∃ name, table.get? name = some value := by
  unfold values
  rw [List.mem_map]
  constructor
  · rintro ⟨⟨name, found⟩, hmem, rfl⟩
    exact ⟨name, mem_entries_iff.1 hmem⟩
  · rintro ⟨name, h⟩
    exact ⟨(name, value), mem_entries_iff.2 h, rfl⟩

/-- What is found after many steps was there before, or one of the steps made
it. -/
theorem get?_foldl {β : Type} {step : Table α → β → Table α}
    {made : β → α → Prop}
    (hstep : ∀ table b value, (step table b).get? name = some value →
      table.get? name = some value ∨ made b value) :
    ∀ (list : List β) {table : Table α},
      (list.foldl step table).get? name = some value →
        table.get? name = some value ∨ ∃ b ∈ list, made b value
  | [], _, h => .inl h
  | b :: rest, table, h => by
      rcases get?_foldl hstep rest h with h | ⟨other, hother, hmade⟩
      · exact (hstep table b value h).imp_right
          fun hmade => ⟨b, List.mem_cons_self, hmade⟩
      · exact .inr ⟨other, List.mem_cons_of_mem _ hother, hmade⟩

/-- A new name adds an entry. -/
theorem length_insert (h : table.get? name = none) (value : α) :
    (table.insert name value).entries.length = table.entries.length + 1 := by
  have hlength : ∀ {entries : List (String × α)},
      (∀ entry ∈ entries, entry.1 ≠ name) →
        (insertEntry name value entries).length = entries.length + 1 := by
    intro entries
    induction entries with
    | nil => intro _; rfl
    | cons entry rest ih =>
        intro hne
        obtain ⟨hfirst, hrest⟩ := List.forall_mem_cons.1 hne
        rw [insertEntry]
        split
        · rfl
        · next hlt =>
          split
          · rw [List.length_cons, ih hrest, List.length_cons]
          · next hgt =>
            exact absurd (String.le_antisymm (String.not_lt.1 hlt)
              (String.not_lt.1 hgt)) hfirst
  refine hlength fun entry hentry heq => ?_
  subst heq
  rw [mem_entries_iff.1 hentry] at h
  cases h

-- ================================================================ equality

private theorem nodup_entries (table : Table α) : table.entries.Nodup :=
  table.sorted.imp fun {a b} hlt heq => by
    rw [heq] at hlt
    exact String.lt_irrefl _ hlt

/-- A table is determined by what is found in it. -/
theorem ext_get? {table other : Table α}
    (h : ∀ name, table.get? name = other.get? name) :
    table = other := by
  have hperm : table.entries.Perm other.entries := by
    rw [List.perm_ext_iff_of_nodup table.nodup_entries other.nodup_entries]
    rintro ⟨name, value⟩
    rw [mem_entries_iff, mem_entries_iff, h]
  have heq : table.entries = other.entries :=
    hperm.eq_of_pairwise (fun a b _ _ hab hba =>
      absurd (String.lt_trans hab hba) (String.lt_irrefl _)) table.sorted
      other.sorted
  obtain ⟨entries, _⟩ := table
  obtain ⟨entries', _⟩ := other
  cases heq
  rfl

/-- Inserting what is there changes nothing. -/
theorem insert_eq_self {table : Table α} {name : String} {value : α}
    (h : table.get? name = some value) : table.insert name value = table := by
  refine ext_get? fun other => ?_
  rw [get?_insert]
  by_cases hsame : other = name
  · rw [if_pos hsame, hsame, h]
  · rw [if_neg hsame]

/-- What is inserted last under a name stays. -/
theorem insert_insert (table : Table α) (name : String) (value next : α) :
    (table.insert name value).insert name next = table.insert name next := by
  refine ext_get? fun other => ?_
  simp only [get?_insert]
  split <;> rfl

/-- Values under different names can be inserted in any order. -/
theorem insert_comm (table : Table α) {name other : String} (h : name ≠ other)
    (value next : α) :
    (table.insert name value).insert other
      next = (table.insert other next).insert name value := by
  refine ext_get? fun found => ?_
  simp only [get?_insert]
  by_cases hname : found = name
  · rw [if_pos hname, if_pos hname, if_neg (hname ▸ h)]
  · rw [if_neg hname, if_neg hname]

end Datapack.Table
