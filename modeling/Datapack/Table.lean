/-
Tables from names to values, kept in increasing order of the names. The
order of names is that of their code points, which is also the order of
their UTF-8 bytes. Because the order is part of the type, two tables with
the same entries are equal, however they were filled.
-/
namespace Datapack

/-- Entries in strictly increasing order of their names. -/
structure Table (α : Type) where
  entries : List (String × α)
  sorted : entries.Pairwise fun a b => a.1 < b.1

namespace Table

variable {α β : Type}

-- =================================================== the sorted insertion

/-- Puts the entry in its place, over an entry of the same name. -/
def insertEntry (name : String) (value : α) :
    List (String × α) → List (String × α)
  | [] => [(name, value)]
  | entry :: rest =>
    if name < entry.1 then (name, value) :: entry :: rest
    else if entry.1 < name then entry :: insertEntry name value rest
    else (name, value) :: rest

/-- An inserted list holds the new entry and entries it held before. -/
theorem mem_insertEntry {name : String} {value : α}
    {entries : List (String × α)} {entry : String × α}
    (h : entry ∈ insertEntry name value entries) :
    entry = (name, value) ∨ entry ∈ entries := by
  induction entries with
  | nil => simpa [insertEntry] using h
  | cons head rest ih =>
    simp only [insertEntry] at h
    split at h
    · simpa using h
    · split at h
      · rcases List.mem_cons.1 h with h | h
        · exact Or.inr (List.mem_cons.2 (Or.inl h))
        · exact (ih h).imp_right (List.mem_cons_of_mem head)
      · rcases List.mem_cons.1 h with h | h
        · exact Or.inl h
        · exact Or.inr (List.mem_cons_of_mem head h)

/-- Insertion keeps the order. -/
theorem sorted_insertEntry (name : String) (value : α)
    {entries : List (String × α)} (h : entries.Pairwise fun a b => a.1 < b.1) :
    (insertEntry name value entries).Pairwise fun a b => a.1 < b.1 := by
  induction entries with
  | nil => simp [insertEntry]
  | cons head rest ih =>
    obtain ⟨hhead, hrest⟩ := List.pairwise_cons.1 h
    simp only [insertEntry]
    split
    · next hlt =>
      refine List.pairwise_cons.2 ⟨fun entry hentry => ?_, h⟩
      rcases List.mem_cons.1 hentry with rfl | hentry
      · exact hlt
      · exact String.lt_trans hlt (hhead entry hentry)
    · split
      · next hgt =>
        refine List.pairwise_cons.2 ⟨fun entry hentry => ?_, ih hrest⟩
        rcases mem_insertEntry hentry with rfl | hentry
        · exact hgt
        · exact hhead entry hentry
      · next hlt hgt =>
        have same : name = head.1 :=
          String.le_antisymm (String.not_lt.1 hgt) (String.not_lt.1 hlt)
        exact List.pairwise_cons.2
          ⟨fun entry hentry => same ▸ hhead entry hentry, hrest⟩

-- ============================================================ operations

/-- The table without entries. -/
def empty : Table α := ⟨[], List.Pairwise.nil⟩

instance : Inhabited (Table α) := ⟨empty⟩

/-- The value under a name. -/
def get? (table : Table α) (name : String) : Option α :=
  (table.entries.find? fun entry => entry.1 == name).map Prod.snd

/-- The table has a value under the name. -/
def contains (table : Table α) (name : String) : Bool :=
  table.entries.any fun entry => entry.1 == name

/-- The table with the value under the name, in place of an earlier one. -/
def insert (table : Table α) (name : String) (value : α) : Table α :=
  ⟨insertEntry name value table.entries,
    sorted_insertEntry name value table.sorted⟩

/-- The table with the value under the name, unless it has one already. -/
def insertNew (table : Table α) (name : String) (value : α) : Table α :=
  if table.contains name then table else table.insert name value

/-- The names in increasing order. -/
def keys (table : Table α) : List String :=
  table.entries.map Prod.fst

/-- The values in increasing order of their names. -/
def values (table : Table α) : List α :=
  table.entries.map Prod.snd

/-- The table has no entries. -/
def isEmpty (table : Table α) : Bool :=
  table.entries.isEmpty

/-- A value that the table gives is one of its values. -/
theorem mem_values_of_get? {table : Table α} {name : String} {value : α}
    (h : table.get? name = some value) : value ∈ table.values := by
  simp only [get?, Option.map_eq_some_iff] at h
  obtain ⟨entry, hfind, rfl⟩ := h
  exact List.mem_map.2 ⟨entry, List.mem_of_find?_eq_some hfind, rfl⟩

end Table

-- ============================================================ sets of names

/-- A set of names is a table without values. -/
abbrev NameSet := Table Unit

/-- The set of the names listed. -/
def NameSet.ofList (names : List String) : NameSet :=
  names.foldl (fun set name => set.insert name ()) Table.empty

end Datapack
