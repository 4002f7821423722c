/-
The files of a pack, and which of them could be the same.

The file of a function or a tag is put together of the namespace and the
path of its location, with directories around them. Functions are all in
the project's own namespace, so their files differ as their paths do. A tag
may be in any namespace that a method's declaration names, and nothing
stops such a namespace from having slashes in it. Two tags can then share a
file: with `a` and `b/tags/functions/c`, the same text comes out as with
`a/tags/functions/b` and `c`, and the one that is written later stays.

This is the only way in which files come together (`tagFile_injective`):
the namespace of one of the two tags has to have the directories of tags in
it. Where no declaration names such a namespace, every artifact of a pack
has a file of its own.
-/
import Datapack.Pack.Writer
import Datapack.Proofs.Memberships
import Mathlib.Data.List.TakeWhile

namespace Datapack

-- ============================================================== locations

namespace Location

/-- The directories between the namespace of a tag and its path. -/
def tagDirectories : List Char :=
  ['/', 't', 'a', 'g', 's', '/', 'f', 'u', 'n', 'c', 't', 'i', 'o', 'n', 's']

/-- The namespace of the location has the directories of tags in it. -/
def NestsTags (location : String) : Prop :=
  tagDirectories <:+: (split location).1.toList

instance (location : String) : Decidable (NestsTags location) :=
  inferInstanceAs (Decidable (tagDirectories <:+: (split location).1.toList))

/-- A location that names a namespace is its namespace and its path. -/
theorem toList_eq_split {location : String} (h : ':' ∈ location.toList) :
    location.toList
      = (split location).1.toList ++ ':' :: (split location).2.toList := by
  have hdrop : location.toList.dropWhile (· != ':') ≠ [] := fun hnil =>
    absurd (List.dropWhile_eq_nil_iff.1 hnil ':' h) (by decide)
  obtain ⟨c, path, hpath⟩ := List.exists_cons_of_ne_nil hdrop
  have hcolon : c = ':' := by
    have hhead := List.head_dropWhile_not (· != ':') hdrop
    simpa [hpath] using hhead
  have hsplit : split location
      = (String.ofList (location.toList.takeWhile (· != ':')),
        String.ofList path) := by
    unfold split
    simp only [hpath]
  rw [hcolon] at hpath
  rw [hsplit, String.toList_ofList, String.toList_ofList, ← hpath,
    List.takeWhile_append_dropWhile]

/-- Where the namespace ends is given by the first colon. -/
theorem split_eq {location : String} {space path : List Char}
    (hspace : ':' ∉ space) (h : location.toList = space ++ ':' :: path) :
    split location = (String.ofList space, String.ofList path) := by
  have hall : ∀ c ∈ space, (c != ':') = true := fun c hc =>
    bne_iff_ne.2 fun heq => hspace (heq ▸ hc)
  have hdrop : location.toList.dropWhile (· != ':') = ':' :: path := by
    rw [h, List.dropWhile_append_of_pos hall,
      List.dropWhile_cons_of_neg (by decide)]
  have htake : location.toList.takeWhile (· != ':') = space := by
    rw [h, List.takeWhile_append_of_pos hall,
      List.takeWhile_cons_of_neg (by decide), List.append_nil]
  unfold split
  simp only [hdrop, htake]

/-- The file of a function, character by character. -/
theorem toList_functionFile (location : String) :
    (functionFile location).toList
      = "data/".toList ++ ((split location).1.toList ++ ("/functions/".toList
        ++ ((split location).2.toList ++ ".mcfunction".toList))) := by
  unfold functionFile
  simp [toString, String.toList_append]

/-- The file of a tag, character by character. -/
theorem toList_tagFile (location : String) :
    (tagFile location).toList
      = "data/".toList
        ++ ((split location).1.toList
          ++ (tagDirectories
            ++ '/' :: ((split location).2.toList ++ ".json".toList))) := by
  unfold tagFile tagDirectories
  simp [toString, String.toList_append]

/-- Functions of one namespace have different files. -/
theorem functionFile_injective {location other : String}
    (h : ':' ∈ location.toList) (h' : ':' ∈ other.toList)
    (hspace : (split location).1 = (split other).1)
    (heq : functionFile location = functionFile other) : location = other := by
  have htext := congrArg String.toList heq
  rw [toList_functionFile, toList_functionFile, hspace] at htext
  have hpath : (split location).2.toList = (split other).2.toList :=
    List.append_cancel_right (List.append_cancel_left (List.append_cancel_left
      (List.append_cancel_left htext)))
  rw [← String.toList_inj, toList_eq_split h, toList_eq_split h', hspace, hpath]

/-- The directories of tags cannot be shifted into themselves: two ways to
read a text with them differ by at least all of them. -/
theorem tagDirectories_prefix {shift rest rest' : List Char}
    (h : tagDirectories ++ '/' :: rest
      = shift ++ (tagDirectories ++ '/' :: rest')) :
    shift = [] ∨ tagDirectories <+: shift := by
  rcases List.append_eq_append_iff.1 h with ⟨more, hshift, -⟩
    | ⟨tail, hwhole, htail⟩
  · exact .inr ⟨more, hshift.symm⟩
  · have hdrop : tail = tagDirectories.drop shift.length := by
      rw [hwhole, List.drop_left]
    cases tail with
    | nil =>
        rw [List.append_nil] at hwhole
        exact .inr ⟨[], by rw [List.append_nil, hwhole]⟩
    | cons first tail =>
        -- the directories would start again inside themselves, with the same
        -- two characters
        have hlength : shift.length < tagDirectories.length := by
          rw [hwhole, List.length_append, List.length_cons]
          omega
        have hnone : ∀ k < tagDirectories.length,
            (tagDirectories.drop k ++ ['/']).take 2 = tagDirectories.take 2 →
              k = 0 := by decide
        have htwo : (first :: tail ++ ['/']).take 2
            = tagDirectories.take 2 := by
          have hheads := congrArg (List.take 2) htail
          cases tail <;> simpa [tagDirectories] using hheads.symm
        rw [hdrop] at htwo
        exact .inl (List.length_eq_zero_iff.1 (hnone _ hlength htwo))

/-- Namespaces without the directories of tags are found again in front of
them. -/
theorem space_eq_of_append {space space' rest rest' : List Char}
    (h : ¬tagDirectories <:+: space) (h' : ¬tagDirectories <:+: space')
    (heq : space ++ (tagDirectories ++ '/' :: rest)
      = space' ++ (tagDirectories ++ '/' :: rest')) :
    space = space' := by
  -- one namespace is the other with something behind it, in which the
  -- directories start
  rcases List.append_eq_append_iff.1 heq with ⟨shift, rfl, hrest⟩
    | ⟨shift, rfl, hrest⟩
  · rcases tagDirectories_prefix hrest with rfl | hbefore
    · rw [List.append_nil]
    · exact absurd (hbefore.isInfix.trans (List.suffix_append _ _).isInfix) h'
  · rcases tagDirectories_prefix hrest with rfl | hbefore
    · rw [List.append_nil]
    · exact absurd (hbefore.isInfix.trans (List.suffix_append _ _).isInfix) h

/-- Tags have different files, unless the namespace of one of them has the
directories of tags in it. -/
theorem tagFile_injective {location other : String} (h : ':' ∈ location.toList)
    (h' : ':' ∈ other.toList) (hplain : ¬NestsTags location)
    (hplain' : ¬NestsTags other) (heq : tagFile location = tagFile other) :
    location = other := by
  have htext := congrArg String.toList heq
  rw [toList_tagFile, toList_tagFile] at htext
  have htext := List.append_cancel_left htext
  have hspace := space_eq_of_append hplain hplain' htext
  rw [hspace] at htext
  have hpath : (split location).2.toList = (split other).2.toList :=
    List.append_cancel_right (List.cons.inj (List.append_cancel_left
      (List.append_cancel_left htext))).2
  rw [← String.toList_inj, toList_eq_split h, toList_eq_split h', hspace, hpath]

/-- A function and a tag never share a file, since their names end
differently. -/
private theorem functionFile_ne_tagFile (location other : String) :
    functionFile location ≠ tagFile other := by
  intro heq
  have htext := congrArg (fun text => (String.toList text).reverse.take 4) heq
  simp [toList_functionFile, toList_tagFile] at htext

end Location

-- ================================================================= memory

namespace MemoryPack

private theorem writeAll_cons (memory : MemoryPack) (file : String × String)
    (rest : List (String × String)) :
    memory.writeAll (file :: rest)
      = MemoryPack.writeAll (memory.insert file.1 file.2) rest := rfl

/-- Writing files leaves all other files as they are. -/
private theorem get?_writeAll_of_notMem {name : String} :
    ∀ {files : List (String × String)},
      (∀ file ∈ files, file.1 ≠ name) → ∀ memory : MemoryPack,
        (memory.writeAll files).get? name = memory.get? name
  | [], _, _ => rfl
  | file :: rest, h, memory => by
      obtain ⟨hfile, hrest⟩ := List.forall_mem_cons.1 h
      rw [writeAll_cons, get?_writeAll_of_notMem hrest, Table.get?_insert,
        if_neg hfile.symm]

/-- A file keeps what is written to it, if nothing else is. -/
theorem get?_writeAll {name content : String} :
    ∀ {files : List (String × String)}, (name, content) ∈ files →
      (∀ file ∈ files, file.1 = name → file.2 = content) →
        ∀ memory : MemoryPack, (memory.writeAll files).get? name = some content
  | file :: rest, hmem, honly, memory => by
      obtain ⟨hfile, hrest⟩ := List.forall_mem_cons.1 honly
      rw [writeAll_cons]
      by_cases hagain : ∃ other ∈ rest, other.1 = name
      · obtain ⟨⟨other, text⟩, hother, rfl⟩ := hagain
        rw [← hrest _ hother rfl]
        exact get?_writeAll hother
          (fun next hnext heq =>
            (hrest next hnext heq).trans (hrest _ hother rfl).symm) _
      · have hnone : ∀ other ∈ rest, other.1 ≠ name := fun other hother heq =>
          hagain ⟨other, hother, heq⟩
        have hname : file = (name, content) :=
          ((List.mem_cons.1 hmem).resolve_right fun hin => hnone _ hin rfl).symm
        rw [get?_writeAll_of_notMem hnone, hname, Table.get?_insert, if_pos rfl]

/-- Files of different names are as many as were written. -/
theorem length_writeAll :
    ∀ {files : List (String × String)} {memory : MemoryPack},
      (files.map Prod.fst).Nodup →
        (∀ file ∈ files, memory.get? file.1 = none) →
          (memory.writeAll files).entries.length
            = memory.entries.length + files.length
  | [], _, _, _ => rfl
  | file :: rest, memory, hnodup, hnew => by
      obtain ⟨hfile, hrest⟩ := List.forall_mem_cons.1 hnew
      obtain ⟨hother, hnodup⟩ := List.nodup_cons.1 hnodup
      have hnext : ∀ other ∈ rest,
          (memory.insert file.1 file.2).get? other.1 = none := by
        intro other hmem
        have hne : other.1 ≠ file.1 :=
          fun heq => hother (heq ▸ List.mem_map_of_mem hmem)
        rw [Table.get?_insert, if_neg hne]
        exact hrest other hmem
      rw [writeAll_cons, length_writeAll hnodup hnext,
        Table.length_insert hfile, List.length_cons]
      omega

end MemoryPack

-- ================================================================= packs

/-- A tag lists something because a method is a callback, because a method's
declaration names the tag, or because the game runs it. -/
theorem mem_memberships {resolved : List (Component × List Member)}
    {dispatcher : String → Hook → String} {location value : String}
    (h : (location, value) ∈ memberships resolved dispatcher) :
    (∃ entry ∈ resolved,
      ∃ hook, location = Location.callbackTag entry.1.space hook entry.1.name)
      ∨ (∃ entry ∈ resolved,
        ∃ member ∈ entry.2, ∃ tag ∈ member.method.tags.keys,
          location = Location.qualify entry.1.space tag)
      ∨ location ∈ Hook.gameTags := by
  obtain ⟨entry, hentry, hmem⟩ := List.mem_flatMap.1 h
  rcases List.mem_append.1 hmem with hmethod | hgame
  · obtain ⟨member, hmember, hmem⟩ := List.mem_flatMap.1 hmethod
    rcases List.mem_append.1 hmem with hhook | htag
    · obtain ⟨hook, -, heq⟩ := List.mem_map.1 hhook
      exact .inl ⟨entry, hentry, hook, (congrArg Prod.fst heq).symm⟩
    · obtain ⟨tag, hdeclared, heq⟩ := List.mem_map.1 htag
      exact .inr (.inl ⟨entry, hentry, member, hmember, tag, hdeclared,
        (congrArg Prod.fst heq).symm⟩)
  · refine .inr (.inr ?_)
    unfold Component.gameMemberships at hgame
    split at hgame
    · cases hgame
    · simp only [List.mem_append, List.mem_ite_nil_right, List.mem_singleton,
        Prod.mk.injEq]
        at hgame
      rcases hgame with ⟨-, rfl, -⟩ | ⟨-, rfl, -⟩ <;> decide

namespace Location

/-- A namespace without colons and slashes is found again, and it does not
have the directories of tags in it. -/
theorem plain_of_space {location : String} {space path : List Char}
    (hcolon : ':' ∉ space) (hslash : '/' ∉ space)
    (h : location.toList = space ++ ':' :: path) :
    ':' ∈ location.toList ∧ ¬NestsTags location := by
  refine ⟨by simp [h], fun hnests => ?_⟩
  rw [NestsTags, split_eq hcolon h, String.toList_ofList] at hnests
  exact hslash (hnests.subset (by decide))

/-- The tag of a hook starts with the namespace. -/
private theorem toList_callbackTag (space : String) (hook : Hook)
    (component : String) :
    ∃ path, (callbackTag space hook component).toList
      = space.toList ++ ':' :: path := by
  refine ⟨"component/callback/".toList ++ hook.word.toList
    ++ '/' :: component.toList, ?_⟩
  unfold callbackTag
  simp [toString, String.toList_append]

/-- A tag that names its namespace stays as it is, another one comes into the
namespace of its component. -/
theorem plain_qualify {space tag : String} (hcolon : ':' ∉ space.toList)
    (hslash : '/' ∉ space.toList) (hplain : ¬NestsTags tag) :
    ':' ∈ (qualify space tag).toList ∧ ¬NestsTags (qualify space tag) := by
  unfold qualify
  split
  · next hnamed => exact ⟨List.contains_iff_mem.1 hnamed, hplain⟩
  · have htext : (s!"{space}:{tag}").toList
        = space.toList ++ ':' :: tag.toList := by
      simp [toString, String.toList_append]
    exact plain_of_space hcolon hslash htext

end Location

namespace Pack

variable {pack : Pack}

/-- The files of a pack are those of its functions, those of its tags and
the metadata. -/
theorem mem_files {file : String × String} :
    file ∈ pack.files
      ↔ (∃ function ∈ pack.functions, file = (function.file, function.content))
        ∨ (∃ tag ∈ pack.tags, file = (tag.file, tag.content))
        ∨ file = (metadataFile, renderMetadata pack.description) := by
  simp only [files, artifacts, List.map_append, List.map_map, List.mem_append,
    List.mem_map, List.mem_singleton, or_assoc, eq_comm, Function.comp_apply]
  rfl

/-- The names of the files, in the order in which they are written. -/
private theorem map_fst_files :
    pack.files.map Prod.fst
      = pack.functions.map PackFunction.file ++ pack.tags.map PackTag.file
        ++ [metadataFile] := by
  simp only [files, artifacts, List.map_append, List.map_map]
  rfl

/-- The description of a pack is not among its data. -/
theorem metadataFile_ne (location : String) :
    metadataFile ≠ Location.functionFile location
      ∧ metadataFile ≠ Location.tagFile location := by
  constructor <;> intro heq <;>
    exact absurd (congrArg (fun text => (String.toList text).head?) heq) (by
      simp [metadataFile, Location.toList_functionFile,
        Location.toList_tagFile])

/-- The metadata is written last, so nothing is written over it. -/
private theorem inMemory_get?_metadataFile :
    pack.inMemory.get? metadataFile
      = some (renderMetadata pack.description) := by
  refine MemoryPack.get?_writeAll (mem_files.2 (.inr (.inr rfl)))
    (fun file hfile heq => ?_) _
  rcases mem_files.1 hfile with ⟨function, -, rfl⟩ | ⟨tag, -, rfl⟩ | rfl
  · exact absurd heq.symm (metadataFile_ne function.location).1
  · exact absurd heq.symm (metadataFile_ne tag.location).2
  · rfl

end Pack

namespace Project.Built

variable {project : Project} {components : List Component}
  {resolved : List (Component × List Member)} {pack : Pack}
  (h : project.Built components resolved pack)
  (hdescribed : ∀ component ∈ components, component.Described project.space)

include h hdescribed

/-- All functions are in the namespace of the project. -/
theorem space_function {function : PackFunction}
    (hfunction : function ∈ pack.functions) :
    ':' ∈ function.location.toList
      ∧ (Location.split function.location).1 = project.space := by
  have hcolon : ':' ∉ project.space.toList :=
    Name.notMem_of_isValidNamespace h.space (by decide)
  have hmem := List.mem_map_of_mem (f := PackFunction.location) hfunction
  rw [h.map_location_functions, (h.perm_locations hdescribed).mem_iff] at hmem
  obtain ⟨place, -, hplace⟩ := List.mem_map.1 hmem
  have htext := FunctionPlace.toList_location
    (Name.notMem_of_isValidNamespace h.space (by decide)) place
  rw [hplace] at htext
  refine ⟨by simp [htext], ?_⟩
  rw [Location.split_eq hcolon htext, String.ofList_toList]

/-- Functions that share a file are one. -/
theorem function_eq_of_file {function other : PackFunction}
    (hfunction : function ∈ pack.functions) (hother : other ∈ pack.functions)
    (heq : function.file = other.file) : function = other := by
  obtain ⟨hcolon, hspace⟩ := h.space_function hdescribed hfunction
  obtain ⟨hcolon', hspace'⟩ := h.space_function hdescribed hother
  have hnodup := (h.locations_distinct hdescribed).1
  rw [← h.map_location_functions] at hnodup
  exact List.inj_on_of_nodup_map hnodup hfunction hother
    (Location.functionFile_injective hcolon hcolon' (hspace.trans hspace'.symm)
      heq)

/-- The file of a function has its content: no other artifact has that
file. -/
private theorem get?_functionFile {function : PackFunction}
    (hfunction : function ∈ pack.functions) :
    pack.inMemory.get? function.file = some function.content := by
  refine MemoryPack.get?_writeAll
    (Pack.mem_files.2 (.inl ⟨function, hfunction, rfl⟩))
    (fun file hfile heq => ?_) _
  rcases Pack.mem_files.1 hfile with ⟨other, hother, rfl⟩ | ⟨tag, -, rfl⟩ | rfl
  · rw [h.function_eq_of_file hdescribed hother hfunction heq]
  · exact absurd heq.symm (Location.functionFile_ne_tagFile _ _)
  · exact absurd heq (Pack.metadataFile_ne _).1

section

variable (hplain : ∀ component ∈ components, ∀ method ∈ component.methods,
  ∀ tag ∈ method.tags.keys, ¬Location.NestsTags tag)

include hplain

/-- Where no declaration names a namespace with the directories of tags, no
tag is in one. -/
theorem plain_tag {tag : PackTag} (htag : tag ∈ pack.tags) :
    ':' ∈ tag.location.toList ∧ ¬Location.NestsTags tag.location := by
  obtain ⟨dispatcher, hlists, -⟩ :=
    Plan.lists_components resolved _ h.resolution.sorted h.result
  rw [h.pack] at htag
  obtain ⟨⟨value, hlisted⟩, -⟩ := (hlists.mem_tags project).1 htag
  have hspace : ∀ entry ∈ resolved, entry.1.space = project.space :=
    fun entry hentry => (hdescribed _ (h.resolution.mem hentry)).space
  have hcolon : ':' ∉ project.space.toList :=
    Name.notMem_of_isValidNamespace h.space (by decide)
  have hslash : '/' ∉ project.space.toList :=
    Name.notMem_of_isValidNamespace h.space (by decide)
  rcases mem_memberships hlisted with ⟨entry, hentry, hook, hlocation⟩
    | ⟨entry, hentry, member, hmember, named, hnamed, hlocation⟩ | hgame
  · obtain ⟨path, htext⟩ :=
      Location.toList_callbackTag entry.1.space hook entry.1.name
    rw [hspace entry hentry] at htext hlocation
    rw [hlocation]
    exact Location.plain_of_space hcolon hslash htext
  · obtain ⟨component, hcomponent, hmethod⟩ :=
      h.resolution.declared hentry hmember
    rw [hlocation, hspace entry hentry]
    exact Location.plain_qualify hcolon hslash
      (hplain component hcomponent _ hmethod named hnamed)
  · have hplainGame : ∀ location ∈ Hook.gameTags,
        ':' ∈ location.toList ∧ ¬Location.NestsTags location := by decide
    exact hplainGame _ hgame

/-- Tags with one file are the same, if no namespace nests the directories
of tags. -/
private theorem tag_eq_of_file {tag other : PackTag} (htag : tag ∈ pack.tags)
    (hother : other ∈ pack.tags) (heq : tag.file = other.file) :
    tag = other := by
  obtain ⟨hcolon, htagPlain⟩ := h.plain_tag hdescribed hplain htag
  obtain ⟨hcolon', hotherPlain⟩ := h.plain_tag hdescribed hplain hother
  have hnodup : (pack.tags.map PackTag.location).Nodup := by
    rw [h.pack]
    exact Project.nodup_tags
  exact List.inj_on_of_nodup_map hnodup htag hother
    (Location.tagFile_injective hcolon hcolon' htagPlain hotherPlain heq)

/-- The file of a tag has its content, on the same condition. -/
private theorem get?_tagFile {tag : PackTag} (htag : tag ∈ pack.tags) :
    pack.inMemory.get? tag.file = some tag.content := by
  refine MemoryPack.get?_writeAll
    (Pack.mem_files.2 (.inr (.inl ⟨tag, htag, rfl⟩)))
    (fun file hfile heq => ?_) _
  rcases Pack.mem_files.1 hfile with ⟨function, -, rfl⟩
    | ⟨other, hother, rfl⟩ | rfl
  · exact absurd heq (Location.functionFile_ne_tagFile _ _)
  · rw [h.tag_eq_of_file hdescribed hplain hother htag heq]
  · exact absurd heq (Pack.metadataFile_ne _).2

/-- No two artifacts share a file. -/
theorem nodup_files : (pack.files.map Prod.fst).Nodup := by
  have hfunctions : (pack.functions.map PackFunction.file).Nodup := by
    have hnodup := (h.locations_distinct hdescribed).1
    rw [← h.map_location_functions] at hnodup
    exact hnodup.of_map.map_on
      fun a ha b hb => h.function_eq_of_file hdescribed ha hb
  have htags : (pack.tags.map PackTag.file).Nodup := by
    have hnodup : (pack.tags.map PackTag.location).Nodup := by
      rw [h.pack]
      exact Project.nodup_tags
    exact hnodup.of_map.map_on
      fun a ha b hb => h.tag_eq_of_file hdescribed hplain ha hb
  rw [Pack.map_fst_files, List.nodup_append, List.nodup_append]
  refine ⟨⟨hfunctions, htags, ?_⟩, List.nodup_singleton _, ?_⟩
  · intro file hfile other hother heq
    obtain ⟨function, -, rfl⟩ := List.mem_map.1 hfile
    obtain ⟨tag, -, rfl⟩ := List.mem_map.1 hother
    exact Location.functionFile_ne_tagFile _ _ heq
  · intro file hfile other hother heq
    rw [List.mem_singleton.1 hother] at heq
    rcases List.mem_append.1 hfile with hfile | hfile
    · obtain ⟨function, -, rfl⟩ := List.mem_map.1 hfile
      exact (Pack.metadataFile_ne _).1 heq.symm
    · obtain ⟨tag, -, rfl⟩ := List.mem_map.1 hfile
      exact (Pack.metadataFile_ne _).2 heq.symm

end

end Project.Built

/-- There is one file for each artifact, and the metadata. -/
theorem Pack.length_files (pack : Pack) :
    pack.files.length = pack.functions.length + pack.tags.length + 1 := by
  simp [files, artifacts, Nat.add_assoc]

/-- In memory, a pack has all its functions and its description. If no method
is declared with a tag whose namespace has the directories of tags in it, the
pack has all its tags too: no two artifacts share a file. -/
theorem ProjectManifest.artifacts_kept (manifest : ProjectManifest)
    (files : List (String × ComponentManifest)) {pack : Pack}
    (h : manifest.toProject.build (manifest.components files) = .ok pack) :
    (∀ function ∈ pack.functions,
      pack.inMemory.get? function.file = some function.content)
      ∧ pack.inMemory.get? Pack.metadataFile
        = some (Pack.renderMetadata pack.description)
      ∧ ((∀ file ∈ files, ∀ method ∈ file.2.methods, ∀ tag ∈ method.tags.keys,
            ¬Location.NestsTags tag) →
          (∀ tag ∈ pack.tags, pack.inMemory.get? tag.file = some tag.content)
          ∧ (pack.files.map Prod.fst).Nodup
          ∧ pack.inMemory.entries.length
            = pack.functions.length + pack.tags.length + 1) := by
  obtain ⟨resolved, hbuilt⟩ := built_of_build h
  have hdescribed := manifest.described files
  refine ⟨fun function hfunction =>
    hbuilt.get?_functionFile hdescribed hfunction,
    Pack.inMemory_get?_metadataFile, fun hfiles => ?_⟩
  -- the methods of a component are declared with the tags of its manifest
  have hplain : ∀ component ∈ manifest.components files,
      ∀ method ∈ component.methods,
        ∀ tag ∈ method.tags.keys, ¬Location.NestsTags tag := by
    intro component hcomponent method hmethod
    obtain ⟨file, hfile, rfl⟩ := List.mem_map.1 hcomponent
    obtain ⟨declared, hdeclared, rfl⟩ := List.mem_map.1 hmethod
    exact hfiles file hfile declared hdeclared
  have hnodup := hbuilt.nodup_files hdescribed hplain
  refine ⟨fun tag htag => hbuilt.get?_tagFile hdescribed hplain htag,
    hnodup, ?_⟩
  rw [Pack.inMemory, MemoryPack.length_writeAll hnodup fun _ _ => rfl,
    pack.length_files]
  exact Nat.zero_add _

/-- No tag that is declared here nests the directories of tags, and all
four tags of the pack keep their files. -/
theorem ProjectManifest.beacons_kept :
    ∃ pack, Beacons.manifest.toProject.build
      (Beacons.manifest.components Beacons.files) = .ok pack
      ∧ (∀ file ∈ Beacons.files,
        ∀ method ∈ file.2.methods, ∀ tag ∈ method.tags.keys,
          ¬Location.NestsTags tag)
      ∧ (∀ tag ∈ Beacons.tags, pack.inMemory.get? tag.file = some tag.content)
      ∧ pack.inMemory.entries.length = pack.functions.length + 5 := by
  obtain ⟨pack, hbuild, htags⟩ := Beacons.build
  have hplain : ∀ file ∈ Beacons.files,
      ∀ method ∈ file.2.methods,
        ∀ tag ∈ method.tags.keys, ¬Location.NestsTags tag := by decide
  obtain ⟨-, -, hkept⟩ := artifacts_kept Beacons.manifest Beacons.files hbuild
  obtain ⟨hcontents, -, hlength⟩ := hkept hplain
  rw [htags] at hcontents hlength
  exact ⟨pack, hbuild, hplain, hcontents, hlength⟩

namespace Towns

def manifest : ProjectManifest := { name := "Demo", space := "demo" }

/-- Two methods, each in a tag of its own. The namespace of the second tag has
the directories of tags in it. -/
def files : List (String × ComponentManifest) :=
  [("Town",
    { methods :=
        [{ name := "east", tags := .ofList ["a:b/tags/functions/c"] },
         { name := "west", tags := .ofList ["a/tags/functions/b:c"] }] })]

end Towns

set_option maxRecDepth 100000 in
/-- Of two tags that share a file, one is lost. -/
theorem ProjectManifest.towns_lose_a_tag :
    ∃ pack, Towns.manifest.toProject.build
      (Towns.manifest.components Towns.files) = .ok pack
      ∧ pack.tags.length = 2
      ∧ pack.inMemory.entries.length
        < pack.functions.length + pack.tags.length + 1
      ∧ ∃ tag ∈ pack.tags, pack.inMemory.get? tag.file ≠ some tag.content := by
  have hbuild : ∃ pack ∈ (Towns.manifest.toProject.build
      (Towns.manifest.components Towns.files)).toOption, pack.tags.length = 2
      ∧ pack.inMemory.entries.length
        < pack.functions.length + pack.tags.length + 1
      ∧ ∃ tag ∈ pack.tags, pack.inMemory.get? tag.file ≠ some tag.content := by
      decide +kernel
  obtain ⟨pack, hpack, hlost⟩ := hbuild
  refine ⟨pack, ?_, hlost⟩
  cases hbuild : Towns.manifest.toProject.build
    (Towns.manifest.components Towns.files) with
  | error failure =>
      rw [hbuild] at hpack
      cases hpack
  | ok pack =>
      rw [hbuild] at hpack
      cases hpack
      rfl

end Datapack
