/-
What the locations of a pack's artifacts are made of.

Namespaces, components and methods have names of few characters, and most
locations are put together of them: those of functions, of callbacks and of
the tags that the game calls. `Location.Named` says so of a location. The
tags that methods declare are the exception. Their texts go into the pack
as they are, whatever characters they have, and every one of them does
(`Project.Built.exists_tag`).
-/
import Datapack.Proofs.PackFiles

namespace Datapack

-- ================================================================== names

namespace Name

/-- The digits of a number are a name. -/
theorem isValid_digits (n : Nat) :
    isValid (String.ofList (NameStream.digits n)) = true := by
  have hdigit : ∀ c ∈ NameStream.digits n, opensName c = true := by
    intro c hc
    obtain ⟨d, hd, rfl⟩ := NameStream.exists_of_mem_digits hc
    have hall : ∀ d < 16, opensName d.digitChar = true := by decide
    exact hall d hd
  have hne : NameStream.digits n ≠ [] :=
    List.append_ne_nil_of_right_ne_nil _ Nat.toDigits_ne_nil
  obtain ⟨c, rest, hdigits⟩ := List.exists_cons_of_ne_nil hne
  rw [hdigits] at hdigit
  obtain ⟨hfirst, hrest⟩ := List.forall_mem_cons.1 hdigit
  unfold isValid
  rw [String.toList_ofList, hdigits]
  dsimp only
  rw [hfirst, Bool.true_and, List.all_eq_true]
  intro d hd
  unfold isNameChar
  rw [hrest d hd]
  rfl

end Name

-- ============================================================== locations

/-- The location is a namespace and a path of names. -/
structure Location.Named (location space : String) (path : List (List Char)) :
    Prop where
  valid : Name.isValidNamespace space = true
  names : ∀ name ∈ path, Name.isValid (String.ofList name) = true
  text : location.toList = space.toList ++ ':' :: ['/'].intercalate path

namespace Location

variable {location space tag : String} {path : List (List Char)} {c : Char}

/-- A named location has the characters of names, and those between them. -/
theorem Named.notMem (h : Named location space path)
    (hname : Name.isNameChar c = false) (hcolon : c ≠ ':') (hslash : c ≠ '/') :
    c ∉ location.toList := by
  have hpath : ∀ segments : List (List Char), (∀ name ∈ segments, c ∉ name) →
      c ∉ ['/'].intercalate segments := by
    intro segments hsegments
    induction segments with
    | nil => exact List.not_mem_nil
    | cons name rest ih =>
        obtain ⟨hfirst, hrest⟩ := List.forall_mem_cons.1 hsegments
        cases rest with
        | nil => rwa [List.intercalate_singleton]
        | cons next rest =>
            rw [List.intercalate_cons_cons, List.mem_append, List.mem_append,
              not_or, not_or]
            exact ⟨⟨hfirst, by simpa using hslash⟩, ih hrest⟩
  rw [h.text, List.mem_append, List.mem_cons, not_or, not_or]
  refine ⟨Name.notMem_of_isValidNamespace h.valid hname, hcolon,
    hpath path fun name hmem => ?_⟩
  have hvalid := Name.notMem_of_isValid (h.names name hmem) hname
  rwa [String.toList_ofList] at hvalid

/-- A qualified tag has the characters of the tag, apart from those of the
namespace and the colon. -/
theorem mem_qualify (hspace : c ∉ space.toList) (hcolon : c ≠ ':') :
    c ∈ (qualify space tag).toList ↔ c ∈ tag.toList := by
  unfold qualify
  split
  · rfl
  · simp [toString, String.toList_append, hspace, hcolon]

/-- The tag of a hook is named by the hook and the component. -/
private theorem named_callbackTag {component : String}
    (hspace : Name.isValidNamespace space = true)
    (hcomponent : Name.isValid component = true) (hook : Hook) :
    Named (callbackTag space hook component) space
      ["component".toList, "callback".toList, hook.word.toList,
        component.toList] := by
  refine ⟨hspace, ?_, ?_⟩
  · simp only [List.forall_mem_cons, String.ofList_toList, List.not_mem_nil,
      false_implies, implies_true, and_true]
    refine ⟨by decide, by decide, ?_, hcomponent⟩
    cases hook <;> decide
  · unfold callbackTag
    simp [toString, String.toList_append, List.intercalate_cons_cons,
      List.intercalate_singleton]

/-- The tags of the game have names of the same form. -/
private theorem named_gameTag (h : location ∈ Hook.gameTags) :
    ∃ space path, Named location space path := by
  simp only [Hook.gameTags, List.mem_cons, List.not_mem_nil, or_false] at h
  rcases h with rfl | rfl
  · exact ⟨"minecraft", ["tick".toList], by decide, by decide, by decide⟩
  · exact ⟨"minecraft", ["load".toList], by decide, by decide, by decide⟩

end Location

-- ================================================================= places

/-- The names that a place is given by. -/
def FunctionPlace.names : FunctionPlace → List String
  | .method component origin _ name => component :: (origin.toList ++ [name])
  | .attach component => [component]
  | .detach component => [component]
  | .generated _ => []

/-- A function is named by its namespace and the segments of its place. -/
private theorem FunctionPlace.named_location {space : String}
    (hspace : Name.isValidNamespace space = true) {place : FunctionPlace}
    (h : ∀ name ∈ place.names, Name.isValid name = true) :
    Location.Named (place.location space) space place.segments := by
  have hbrace : '\x7b' ∉ space.toList :=
    Name.notMem_of_isValidNamespace hspace (by decide)
  refine ⟨hspace, ?_, toList_location hbrace place⟩
  cases place with
  | method component origin visibility name =>
      -- the mark of a private method is a valid name too
      have hmark : ∀ mark ∈ marks visibility,
          Name.isValid (String.ofList mark) = true := by
        cases visibility <;> decide
      simp only [names, List.forall_mem_cons, List.forall_mem_append,
        List.not_mem_nil, false_implies, implies_true, and_true] at h
      simp only [segments, List.forall_mem_cons, List.forall_mem_append,
        List.forall_mem_map, String.ofList_toList, List.not_mem_nil,
        false_implies, implies_true, and_true]
      exact ⟨by decide, h.1, ⟨h.2.1, hmark⟩, h.2.2⟩
  | attach component =>
      simp only [names, List.forall_mem_cons, List.not_mem_nil, false_implies,
        implies_true, and_true] at h
      simp only [segments, List.forall_mem_cons, String.ofList_toList,
        List.not_mem_nil, false_implies, implies_true, and_true]
      exact ⟨by decide, h⟩
  | detach component =>
      simp only [names, List.forall_mem_cons, List.not_mem_nil, false_implies,
        implies_true, and_true] at h
      simp only [segments, List.forall_mem_cons, String.ofList_toList,
        List.not_mem_nil, false_implies, implies_true, and_true]
      exact ⟨by decide, h⟩
  | generated number =>
      simp only [segments, List.forall_mem_cons, List.not_mem_nil,
        false_implies, implies_true, and_true]
      exact ⟨by decide, Name.isValid_digits number⟩

-- ================================================================== packs

namespace Project.Built

variable {project : Project} {components : List Component}
  {resolved : List (Component × List Member)} {pack : Pack}
  (h : project.Built components resolved pack)

include h

/-- The names at the places of a build are valid, since those of its
components and methods are. -/
private theorem isValid_names {place : FunctionPlace}
    (hplace : place ∈ resolved.flatMap fun entry => entry.1.places entry.2) :
    ∀ name ∈ place.names, Name.isValid name = true := by
  obtain ⟨entry, hentry, hplace⟩ := List.mem_flatMap.1 hplace
  obtain ⟨bases, hmembers, hmem, hsub, -⟩ := h.resolution.lineage hentry
  have hname : ∀ component ∈ components, Name.isValid component.name = true :=
    fun component hcomponent => (h.registrable.valid component hcomponent).name
  have hmethod : ∀ component ∈ components, ∀ method ∈ component.methods,
      Name.isValid method.name = true :=
    fun component hcomponent =>
      (h.registrable.valid component hcomponent).methods
  -- a place names the component, and a method together with the base it is
  -- inherited from
  rcases Component.mem_places.1 hplace with ⟨member, hmember, rfl⟩
    | ⟨-, rfl | rfl⟩
  · rw [hmembers] at hmember
    rcases Component.mem_membersAlong hmember with
      ⟨method, hdeclared, rfl⟩ | ⟨base, hbase, method, hdeclared, names, rfl⟩
    · intro name hnames
      rcases List.mem_cons.1 hnames with rfl | hnames
      · exact hname _ hmem
      · rw [List.mem_singleton.1 hnames]
        exact hmethod _ hmem method hdeclared
    · intro name hnames
      rcases List.mem_cons.1 hnames with rfl | hnames
      · exact hname _ hmem
      · rcases List.mem_cons.1 hnames with rfl | hnames
        · exact hname base (hsub hbase)
        · rw [List.mem_singleton.1 hnames]
          exact hmethod base (hsub hbase) method hdeclared
  · exact List.forall_mem_singleton.2 (hname _ hmem)
  · exact List.forall_mem_singleton.2 (hname _ hmem)

variable (hdescribed : ∀ component ∈ components,
  component.Described project.space)

include hdescribed

/-- Functions are at named locations. -/
theorem named_function {function : PackFunction}
    (hfunction : function ∈ pack.functions) :
    ∃ space path, Location.Named function.location space path := by
  have hmem := List.mem_map_of_mem (f := PackFunction.location) hfunction
  rw [h.map_location_functions, (h.perm_locations hdescribed).mem_iff] at hmem
  obtain ⟨place, hplace, hlocation⟩ := List.mem_map.1 hmem
  rw [← hlocation]
  refine ⟨project.space, place.segments,
    FunctionPlace.named_location h.space ?_⟩
  rcases List.mem_append.1 hplace with hfixed | hgenerated
  · exact h.isValid_names hfixed
  · obtain ⟨number, -, rfl⟩ := List.mem_map.1 hgenerated
    exact List.forall_mem_nil _

/-- A tag is at a named location, or a method declares it. -/
theorem named_or_declared {tag : PackTag} (htag : tag ∈ pack.tags) :
    (∃ space path, Location.Named tag.location space path)
      ∨ ∃ component ∈ components,
        ∃ method ∈ component.methods, ∃ declared ∈ method.tags.keys,
          tag.location = Location.qualify project.space declared := by
  obtain ⟨dispatcher, hlists, -⟩ :=
    Plan.lists_components resolved _ h.resolution.sorted h.result
  rw [h.pack] at htag
  obtain ⟨⟨value, hlisted⟩, -⟩ := (hlists.mem_tags project).1 htag
  have hspace : ∀ entry ∈ resolved, entry.1.space = project.space :=
    fun entry hentry => (hdescribed _ (h.resolution.mem hentry)).space
  rcases mem_memberships hlisted with ⟨entry, hentry, hook, hlocation⟩
    | ⟨entry, hentry, member, hmember, declared, hdeclared, hlocation⟩ | hgame
  · rw [hlocation, hspace entry hentry]
    have hname := (h.registrable.valid _ (h.resolution.mem hentry)).name
    exact .inl ⟨_, _, Location.named_callbackTag h.space hname hook⟩
  · obtain ⟨component, hcomponent, hmethod⟩ :=
      h.resolution.declared hentry hmember
    refine .inr ⟨component, hcomponent, _, hmethod, declared, hdeclared, ?_⟩
    rw [hlocation, hspace entry hentry]
  · exact .inl (Location.named_gameTag hgame)

/-- Every tag that a method declares is a tag of the pack. -/
theorem exists_tag {component : Component} (hcomponent : component ∈ components)
    {method : Method} (hmethod : method ∈ component.methods) {declared : String}
    (hdeclared : declared ∈ method.tags.keys) :
    ∃ tag ∈ pack.tags,
      tag.location = Location.qualify project.space declared := by
  obtain ⟨dispatcher, hlists, -⟩ :=
    Plan.lists_components resolved _ h.resolution.sorted h.result
  obtain ⟨entry, hentry, rfl⟩ :=
    List.mem_map.1 (h.resolution.perm.mem_iff.2 hcomponent)
  obtain ⟨bases, hmembers, -, -, -⟩ := h.resolution.lineage hentry
  have hmember : entry.1.member none [] method ∈ entry.2 := by
    rw [hmembers]
    exact List.mem_append_left _ (List.mem_map_of_mem hmethod)
  have hlisted : (Location.qualify project.space declared,
      (entry.1.member none [] method).location)
      ∈ memberships resolved dispatcher := by
    rw [← (hdescribed _ hcomponent).space]
    refine List.mem_flatMap.2 ⟨entry, hentry, List.mem_append_left _ ?_⟩
    refine List.mem_flatMap.2 ⟨_, hmember, List.mem_append_right _ ?_⟩
    exact List.mem_map.2 ⟨declared, hdeclared, rfl⟩
  rw [h.pack]
  let location := Location.qualify project.space declared
  let tag : PackTag :=
    { location := location
      members :=
        (listedAt location (memberships resolved dispatcher)).eraseDups }
  exact ⟨tag, (hlists.mem_tags project).2 ⟨⟨_, hlisted⟩, rfl⟩, rfl⟩

end Project.Built

end Datapack
