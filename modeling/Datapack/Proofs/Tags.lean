/-
The tags of a pack, read off the outline.

Tags are collected piece by piece: a piece that lists members in a tag adds
those that the tag does not have yet. What a tag has in the end is decided
by its own pieces alone, and by their order: it is all that they list, one
after the other, each member where it is listed first (`get?_tagTable`).
-/
import Datapack.Proofs.Packs
import Datapack.Proofs.Tables
import Mathlib.Data.List.Nodup

namespace Datapack

-- ================================================================ members

namespace Project

private theorem addNew_cons (known : List String) (other : String)
    (rest : List String) :
    addNew known (other :: rest)
      = addNew (if known.contains other then known else known ++ [other])
        rest := rfl

/-- Members are added in two parts. -/
private theorem addNew_append (known first second : List String) :
    addNew known (first ++ second) = addNew (addNew known first) second :=
  List.foldl_append

/-- Further elements are added where they come first, if they are new. -/
theorem addNew_eq : ∀ (others known : List String),
    addNew known others = known ++ (others.removeAll known).eraseDups
  | [], known => by simp [addNew]
  | other :: rest, known => by
      rw [addNew_cons, addNew_eq rest]
      by_cases hknown : other ∈ known
      · simp [hknown, List.cons_removeAll]
      · have hrest : rest.removeAll (known ++ [other])
            = (rest.removeAll known).filter fun value => !value == other := by
          unfold List.removeAll
          rw [List.filter_filter]
          refine List.filter_congr fun value _ => ?_
          by_cases hvalue : value = other <;> simp [hvalue]
        simp [hknown, List.cons_removeAll, hrest, List.eraseDups_cons]

/-- Adding members to none leaves each where it comes first. -/
private theorem addNew_nil (others : List String) :
    addNew [] others = others.eraseDups := by
  have hall : others.removeAll [] = others :=
    List.filter_eq_self.2 fun _ _ => rfl
  rw [addNew_eq, List.nil_append, hall]

/-- Adding new members only keeps all of them different. -/
private theorem nodup_addNew : ∀ {others known : List String}, known.Nodup →
    (addNew known others).Nodup
  | [], _, h => h
  | other :: rest, known, h => by
      rw [addNew_cons]
      refine nodup_addNew ?_
      split
      · exact h
      · next hnew =>
        refine List.nodup_append_comm.1 (List.nodup_cons.2 ⟨?_, h⟩)
        simpa using hnew

end Project

-- ================================================================= pieces

/-- The members that the piece lists in the tag of a location. -/
def Piece.listed? (location : String) : Piece → Option (List String)
  | .tag other members => if other = location then some members else none
  | _ => none

namespace Outline

/-- What is listed in the tag of a location, piece by piece. -/
def listed (outline : Outline) (location : String) : List (List String) :=
  outline.pieces.filterMap (Piece.listed? location)

/-- What two outlines list, in a row. -/
@[simp] theorem listed_append (first second : Outline) (location : String) :
    (first ++ second).listed location
      = first.listed location ++ second.listed location := by
  unfold listed
  rw [pieces_append, List.filterMap_append]

/-- What is listed at a location is listed there by a piece. -/
private theorem mem_listed {outline : Outline} {location : String}
    {members : List String} :
    members ∈ outline.listed location
      ↔ Piece.tag location members ∈ outline.pieces := by
  unfold listed
  rw [List.mem_filterMap]
  constructor
  · rintro ⟨piece, hpiece, hlisted⟩
    cases piece with
    | tag other found =>
        obtain ⟨rfl, rfl⟩ : other = location ∧ found = members := by
          simpa [Piece.listed?] using hlisted
        exact hpiece
    | _ => cases hlisted
  · exact fun h => ⟨_, h, by simp [Piece.listed?]⟩

end Outline

/-- The tag of a location after a piece was collected. -/
theorem NodeContent.get?_addTags (tags : Table (List String)) (piece : Piece)
    (location : String) :
    (piece.content.addTags tags).get? location
      = match piece.listed? location with
        | none => tags.get? location
        | some members =>
            some (Project.addNew ((tags.get? location).getD []) members) := by
  cases piece with
  | tag other members =>
      show (tags.insert other _).get? location = _
      rw [Table.get?_insert]
      unfold Piece.listed?
      by_cases hsame : location = other
      · subst hsame
        simp
      · simp [hsame, Ne.symm hsame]
  | _ => rfl

/-- The tag of a location after pieces were collected. -/
theorem NodeContent.get?_foldl_addTags (location : String) :
    ∀ (pieces : List Piece) (tags : Table (List String)),
      (pieces.foldl (fun tags piece => piece.content.addTags tags) tags).get?
        location
        = match pieces.filterMap (Piece.listed? location) with
          | [] => tags.get? location
          | listed =>
            some (Project.addNew ((tags.get? location).getD [])
              listed.flatten)
  | [], _ => rfl
  | piece :: rest, tags => by
      rw [List.foldl_cons, get?_foldl_addTags location rest, get?_addTags]
      cases hpiece : piece.listed? location with
      | none => rw [List.filterMap_cons_none hpiece]
      | some members =>
          rw [List.filterMap_cons_some hpiece]
          -- what the piece lists comes before what the others list
          cases hrest : rest.filterMap (Piece.listed? location) with
          | nil => simp
          | cons first others => simp [Project.addNew_append]

namespace Outline

/-- The tag of a location has all that is listed in it, where it is listed
first. -/
theorem get?_tagTable (outline : Outline) (location : String) :
    outline.tagTable.get? location
      = if outline.listed location = [] then none
        else some (outline.listed location).flatten.eraseDups := by
  unfold tagTable
  rw [NodeContent.get?_foldl_addTags]
  show (match outline.listed location with | [] => _ | listed => _) = _
  cases outline.listed location with
  | nil => rfl
  | cons first others =>
      rw [if_neg (by simp), Table.get?_empty, ← Project.addNew_nil]; rfl

end Outline

-- ================================================================== packs

namespace Project

variable {project : Project} {outline : Outline}

/-- The tags of a pack are those that something is listed in, with all that
is listed. -/
theorem mem_tags_packOf {tag : PackTag} :
    tag ∈ (project.packOf outline).tags ↔ outline.listed tag.location ≠ []
      ∧ tag.members = (outline.listed tag.location).flatten.eraseDups := by
  have hentry : tag ∈ (project.packOf outline).tags
      ↔ outline.tagTable.get? tag.location = some tag.members := by
    unfold packOf
    rw [← Table.mem_entries_iff, List.mem_map]
    constructor
    · rintro ⟨entry, hmem, rfl⟩
      exact hmem
    · exact fun hmem => ⟨_, hmem, rfl⟩
  rw [hentry, Outline.get?_tagTable]
  by_cases hnone : outline.listed tag.location = []
  · simp [hnone]
  · rw [if_neg hnone, Option.some_inj]
    exact ⟨fun h => ⟨hnone, h.symm⟩, fun h => h.2.symm⟩

/-- What the tags of a pack list is listed in the outline. -/
theorem listed_of_packOf {tag : PackTag}
    (htag : tag ∈ (project.packOf outline).tags) {value : String}
    (hvalue : value ∈ tag.members) :
    ∃ listed, Piece.tag tag.location listed ∈ outline.pieces
      ∧ value ∈ listed := by
  rw [(mem_tags_packOf.1 htag).2, List.mem_eraseDups,
    List.mem_flatten] at hvalue
  obtain ⟨listed, hlisted, hmem⟩ := hvalue
  exact ⟨listed, Outline.mem_listed.1 hlisted, hmem⟩

/-- What is listed in the outline is in a tag of the pack. -/
theorem mem_packOf_of_listed (project : Project) {outline : Outline}
    {location value : String} {listed : List String}
    (h : Piece.tag location listed ∈ outline.pieces) (hvalue : value ∈ listed) :
    ∃ tag ∈ (project.packOf outline).tags,
      tag.location = location ∧ value ∈ tag.members := by
  rw [← Outline.mem_listed] at h
  refine ⟨⟨location, (outline.listed location).flatten.eraseDups⟩,
    mem_tags_packOf.2 ⟨List.ne_nil_of_mem h, rfl⟩, rfl, ?_⟩
  exact List.mem_eraseDups.2 (List.mem_flatten.2 ⟨listed, h, hvalue⟩)

/-- The tags of a pack are sorted by location. -/
theorem sorted_tags :
    ((project.packOf outline).tags.map PackTag.location).Pairwise (· < ·) := by
  unfold packOf
  rw [List.map_map, List.pairwise_map]
  exact outline.tagTable.sorted

/-- A pack has one tag for a location. -/
theorem nodup_tags :
    ((project.packOf outline).tags.map PackTag.location).Nodup :=
  sorted_tags.imp String.ne_of_lt

/-- A tag lists nothing twice. -/
theorem nodup_members {tag : PackTag}
    (htag : tag ∈ (project.packOf outline).tags) :
    tag.members.Nodup := by
  rw [(mem_tags_packOf.1 htag).2, ← addNew_nil]
  exact nodup_addNew .nil

end Project

end Datapack
