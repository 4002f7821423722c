/-
The files of a pack are in the pack.

A file is given by a text, and its path is made of the bytes of that text. A
slash is a byte of its own, so that the segments of the path are the pieces of
the text between slashes (`Path.segments_ofString`). None of the pieces that a
named location is stored under is a step up, except for the namespace, which
may be two dots. It stands below the directory of all namespaces, so that it
leads back to the pack and not out of it.
-/
import Datapack.Proofs.Artifacts
import Datapack.Proofs.Confinement

namespace Datapack

open FileTree

-- ================================================================== bytes

namespace Text

private theorem encode_ofList (text : List Char) :
    encode (String.ofList text) = text.flatMap String.utf8EncodeChar := by
  unfold encode
  simp [String.toUTF8, String.toByteArray_ofList, List.utf8Encode]

/-- No other character has a slash among its bytes: all bytes of those
beyond the ASCII characters are high. -/
theorem slash_notMem_utf8EncodeChar {c : Char} (h : c ≠ '/') :
    Path.slash ∉ String.utf8EncodeChar c := by
  have hbyte : ∀ {n : Nat}, Path.slash = UInt8.ofNat n → n % 256 = 47 := by
    intro n hn
    have hnat := congrArg UInt8.toNat hn
    rw [UInt8.toNat_ofNat'] at hnat
    exact hnat.symm
  intro hslash
  unfold String.utf8EncodeChar at hslash
  dsimp only at hslash
  split_ifs at hslash with hone htwo hthree
  · have hcode := hbyte (List.mem_singleton.1 hslash)
    refine h (Char.ext (UInt32.toNat_inj.1 ?_))
    show c.val.toNat = 47
    omega
  all_goals
    simp only [List.mem_cons, List.not_mem_nil, or_false] at hslash
  · rcases hslash with hslash | hslash <;> have hcode := hbyte hslash <;> omega
  · rcases hslash with hslash | hslash | hslash <;>
      have hcode := hbyte hslash <;> omega
  · rcases hslash with hslash | hslash | hslash | hslash <;>
      have hcode := hbyte hslash <;> omega

/-- A text without slashes has none in its bytes. -/
private theorem slash_notMem_encode {text : List Char} (h : '/' ∉ text) :
    Path.slash ∉ encode (String.ofList text) := by
  rw [encode_ofList, List.mem_flatMap]
  rintro ⟨c, hc, hslash⟩
  exact slash_notMem_utf8EncodeChar (fun heq => h (heq ▸ hc)) hslash

end Text

/-- The segments of a path are the pieces of its text between slashes. -/
theorem Path.segments_ofString {pieces : List (List Char)} (hne : pieces ≠ [])
    (h : ∀ piece ∈ pieces, '/' ∉ piece) :
    (ofString (String.ofList (['/'].intercalate pieces))).segments
      = pieces.map fun piece => Text.encode (String.ofList piece) := by
  have hslash : String.utf8EncodeChar '/' = [slash] := by decide
  induction pieces with
  | nil => exact absurd rfl hne
  | cons piece rest ih =>
      obtain ⟨hpiece, hrest⟩ := List.forall_mem_cons.1 h
      cases rest with
      | nil =>
          rw [List.intercalate_singleton]
          exact splitSlashes_of_notMem (Text.slash_notMem_encode hpiece)
      | cons next rest =>
          have hnext := ih (List.cons_ne_nil _ _) hrest
          unfold segments ofString at hnext ⊢
          rw [Text.encode_ofList] at hnext ⊢
          rw [List.intercalate_cons_cons, List.append_assoc,
            List.flatMap_append, List.flatMap_append, List.flatMap_singleton,
            hslash, List.singleton_append, splitSlashes_append, hnext,
            ← Text.encode_ofList,
            splitSlashes_of_notMem (Text.slash_notMem_encode hpiece)]
          rfl

-- ================================================================== inner

/-- The path of a file that is looked for in a directory and does not lead
out of it. -/
structure Path.Inner (file : Path) : Prop where
  relative : file.isAbsolute = false
  moves : steps file ≠ []
  inside : staysInside 0 (steps file) = true

instance (file : Path) : Decidable file.Inner :=
  decidable_of_iff
    (file.isAbsolute = false
      ∧ steps file ≠ [] ∧ staysInside 0 (steps file) = true)
      ⟨fun h => ⟨h.1, h.2.1, h.2.2⟩, fun h => ⟨h.relative, h.moves, h.inside⟩⟩

namespace FileTree

/-- Steps that stay in place do not matter for where moves lead. -/
private theorem staysInside_filter (depth : Nat) (moves : List Move) :
    staysInside depth (moves.filter (· != .stay))
      = staysInside depth moves := by
  induction moves generalizing depth with
  | nil => rfl
  | cons move rest ih =>
      cases move with
      | stay => exact ih depth
      | up =>
          cases depth with
          | zero => rfl
          | succ depth => exact ih depth
      | down name => exact ih (depth + 1)

end FileTree

-- ============================================================== locations

namespace Location

/-- The text is made of pieces between slashes, and none of them is a step
up. -/
def Downward (text : List Char) : Prop :=
  ∃ pieces, pieces ≠ [] ∧ text = ['/'].intercalate pieces
    ∧ ∀ piece ∈ pieces, '/' ∉ piece ∧ piece ≠ "..".toList

/-- A single piece leads down unless it is the step up. -/
private theorem Downward.single {piece : List Char} (hslash : '/' ∉ piece)
    (hdots : piece ≠ "..".toList) :
    Downward piece := by
  refine ⟨[piece], List.cons_ne_nil _ _, ?_,
    List.forall_mem_singleton.2 ⟨hslash, hdots⟩⟩
  rw [List.intercalate_singleton]

/-- A text that leads down does so from a directory as well. -/
private theorem Downward.under {text : List Char} (h : Downward text)
    {directory : List Char} (hslash : '/' ∉ directory)
    (hdots : directory ≠ "..".toList) :
    Downward (directory ++ '/' :: text) := by
  obtain ⟨pieces, hne, rfl, hpieces⟩ := h
  refine ⟨directory :: pieces, List.cons_ne_nil _ _, ?_,
    List.forall_mem_cons.2 ⟨⟨hslash, hdots⟩, hpieces⟩⟩
  rw [List.intercalate_cons_of_ne_nil hne, List.append_assoc,
    List.singleton_append]

/-- Names under each other lead down, and so does the last of them with an
ending. -/
theorem downward_names {path : List (List Char)}
    (hpath : ∀ name ∈ path, Name.isValid (String.ofList name) = true)
    {ending : List Char} (hslash : '/' ∉ ending) (hlength : 2 < ending.length) :
    Downward (['/'].intercalate path ++ ending) := by
  have hlong : ∀ name : List Char, name ++ ending ≠ "..".toList := by
    intro name heq
    have htwo := congrArg List.length heq
    rw [List.length_append, show "..".toList.length = 2 from rfl] at htwo
    omega
  induction path with
  | nil => exact .single hslash (hlong [])
  | cons name rest ih =>
      obtain ⟨hvalid, hrest⟩ := List.forall_mem_cons.1 hpath
      have hname := Name.notMem_of_isValid hvalid (c := '/') (by decide)
      rw [String.toList_ofList] at hname
      by_cases hnil : rest = []
      · rw [hnil, List.intercalate_singleton]
        refine .single ?_ (hlong name)
        rw [List.mem_append, not_or]
        exact ⟨hname, hslash⟩
      · rw [List.intercalate_cons_of_ne_nil hnil, List.append_assoc,
          List.append_assoc, List.singleton_append]
        refine (ih hrest).under hname ?_
        rintro rfl
        exact absurd hvalid (by decide)

/-- The directory of all namespaces. -/
def dataDirectory : List Char := "data".toList

/-- What leads down from a namespace is in the pack, also if the namespace
leads up. -/
theorem inner_of_downward {text : String} {space rest : List Char}
    (htext : text.toList = dataDirectory ++ '/' :: (space ++ '/' :: rest))
    (hspace : '/' ∉ space) (hrest : Downward rest) :
    (Path.ofString text).Inner := by
  obtain ⟨more, hne, rfl, hmore⟩ := hrest
  have hpieces : ∀ piece ∈ dataDirectory :: space :: more, '/' ∉ piece :=
    List.forall_mem_cons.2 ⟨by decide, List.forall_mem_cons.2
      ⟨hspace, fun piece hmem => (hmore piece hmem).1⟩⟩
  have hsegments := Path.segments_ofString (List.cons_ne_nil _ _) hpieces
  rw [List.intercalate_cons_cons, List.intercalate_cons_of_ne_nil hne,
    List.append_assoc, List.append_assoc, List.singleton_append,
    List.singleton_append, ← htext, String.ofList_toList] at hsegments
  let rest :=
    more.map fun piece => Move.ofSegment (Text.encode (String.ofList piece))
  have hmoves : moves (Path.ofString text)
      = .down (Text.encode "data")
        :: .ofSegment (Text.encode (String.ofList space)) :: rest := by
    rw [moves, hsegments, List.map_cons, List.map_cons, List.map_map]
    rfl
  have hup : .up ∉ rest := by
    intro hup
    obtain ⟨piece, hpiece, hmove⟩ := List.mem_map.1 hup
    refine (hmore piece hpiece).2 ?_
    have hdots : Text.encode (String.ofList piece) = Text.encode ".." :=
      (eq_dotDot_of_ofSegment hmove).trans (by decide)
    rw [← Text.encode_injective hdots, String.toList_ofList]
  refine ⟨?_, ?_, ?_⟩
  · refine Bool.eq_false_iff.2 fun habsolute => ?_
    obtain ⟨others, hothers⟩ := Path.segments_of_isAbsolute habsolute
    rw [hsegments] at hothers
    exact absurd (List.cons.inj hothers).1 (by decide)
  · rw [steps, hmoves]
    exact List.cons_ne_nil _ _
  · rw [steps, staysInside_filter, hmoves, staysInside]
    -- one name deep, the namespace may climb back
    cases Move.ofSegment (Text.encode (String.ofList space)) with
    | stay => exact staysInside_of_notMem hup 1
    | up => exact staysInside_of_notMem hup 0
    | down name => exact staysInside_of_notMem hup 2

namespace Named

variable {location space : String} {path : List (List Char)}
  (h : Named location space path)

include h

/-- A location is divided at its colon into the namespace and the path. -/
private theorem split_eq :
    split location = (space, String.ofList (['/'].intercalate path)) := by
  rw [Location.split_eq
    (Name.notMem_of_isValidNamespace h.valid (by decide)) h.text,
    String.ofList_toList]

private theorem slash_notMem_space : '/' ∉ space.toList :=
  Name.notMem_of_isValidNamespace h.valid (by decide)

/-- The file of a function lies in the directory of its pack. -/
theorem inner_functionFile : (Path.ofString (functionFile location)).Inner := by
  have hrest : Downward ("functions".toList ++ '/' ::
      (['/'].intercalate path ++ ".mcfunction".toList)) :=
    (downward_names h.names
      (by decide) (by decide)).under (by decide) (by decide)
  refine inner_of_downward ?_ h.slash_notMem_space hrest
  rw [toList_functionFile, h.split_eq]
  simp [dataDirectory]

/-- The file of a tag lies in the directory of its pack. -/
theorem inner_tagFile : (Path.ofString (tagFile location)).Inner := by
  have hfunctions : Downward ("functions".toList ++ '/' ::
      (['/'].intercalate path ++ ".json".toList)) :=
    (downward_names h.names
      (by decide) (by decide)).under (by decide) (by decide)
  have hrest : Downward ("tags".toList ++ '/' :: ("functions".toList ++ '/' ::
      (['/'].intercalate path ++ ".json".toList))) :=
    hfunctions.under (by decide) (by decide)
  refine inner_of_downward ?_ h.slash_notMem_space hrest
  rw [toList_tagFile, h.split_eq]
  simp [dataDirectory, tagDirectories]

end Named

end Location

end Datapack
