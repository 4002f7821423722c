/-
What functions do to an entity.

An entity is the set of its tags, and running functions leaves a log. A
line is read as a command behind tests of tags: tags are added and taken
off, functions are called, and a function tag is called by calling its
members in order. Some functions are not looked into. They are callbacks: a
call of one is logged, with the tags at the time, and what it does to the
tags is given from outside.

# Depth

A function can call itself, so a run is bounded by the depth of calls, and
it has no result if the bound is not enough. Neither has it one if a
function or a tag that is called is not in the pack, or if a line cannot be
read. A result is therefore more than that nothing bad was logged: every
line up to the end was understood.

# Lines

A pack has its lines as text. `words_render` reads tokens without blanks
back from the line of a command, so everything after it is about tokens.
-/
import Datapack.Proofs.Places
import Datapack.Pack
import Datapack.Command.Builtin
import Datapack.ExecutionContext
import Mathlib.Data.Finset.Erase
import Mathlib.Data.Finset.Insert

namespace Datapack

-- ================================================================== lines

/-- The words of a line, divided by blanks. -/
def Text.words (line : String) : List String :=
  ((line.toList.splitOnP isBlank).filter fun word => !word.isEmpty).map
    String.ofList

/-- The token stands on a line as one word. -/
def Text.IsWord (token : String) : Prop :=
  token.toList ≠ [] ∧ ∀ c ∈ token.toList, isBlank c = false

/-- The same as a check. -/
def Text.isWord (token : String) : Bool :=
  !token.toList.isEmpty && token.toList.all fun c => !isBlank c

/-- The check for a word is right. -/
private theorem Text.isWord_iff {token : String} :
    isWord token = true ↔ IsWord token := by
  simp [isWord, IsWord]

instance (token : String) : Decidable (Text.IsWord token) :=
  decidable_of_iff _ Text.isWord_iff

namespace Text.IsWord

variable {token : String}

private theorem trim_eq {text : List Char} (h : ∀ c ∈ text, isBlank c = false) :
    trim text = text := by
  have hstart : ∀ {text : List Char}, (∀ c ∈ text, isBlank c = false) →
      text.dropWhile isBlank = text := by
    intro text h
    cases text with
    | nil => rfl
    | cons c rest =>
        rw [List.dropWhile_cons_of_neg (by simp [h c List.mem_cons_self])]
  unfold trim trimStart trimEnd
  rw [hstart h, hstart fun c hc => h c (List.mem_reverse.1 hc),
    List.reverse_reverse]

/-- A word is written on a line as it is. -/
private theorem renderToken_eq (h : IsWord token) :
    Command.renderToken token = token := by
  have hmap : token.toList.map (fun c => if c = '\n' then ' ' else c)
      = token.toList := by
    refine (List.map_congr_left fun c hc => if_neg ?_).trans (List.map_id _)
    rintro rfl
    exact absurd (h.2 _ hc) (by decide)
  unfold Command.renderToken
  rw [hmap, trim_eq h.2, String.ofList_toList]

/-- A word can be made longer by anything but blanks. -/
theorem append {other : String} (h : IsWord token)
    (hother : ∀ c ∈ other.toList, isBlank c = false) :
    IsWord (token ++ other) := by
  unfold IsWord
  rw [String.toList_append]
  refine ⟨List.append_ne_nil_of_left_ne_nil h.1 _, fun c hc => ?_⟩
  exact (List.mem_append.1 hc).elim (h.2 c) (hother c)

end Text.IsWord

/-- Words that are joined by spaces are found again. -/
theorem Text.splitOnP_intercalate : ∀ {words : List (List Char)}, words ≠ [] →
    (∀ word ∈ words, ∀ c ∈ word, isBlank c = false) →
    ([' '].intercalate words).splitOnP isBlank = words
  | [word], _, h => by
      rw [List.intercalate_singleton]
      exact List.splitOnP_eq_singleton (h word List.mem_cons_self)
  | word :: other :: rest, _, h => by
      rw [List.intercalate_cons_cons, List.append_assoc, List.singleton_append,
        List.splitOnP_append_cons_of_forall_mem (h word List.mem_cons_self) ' '
          (by decide),
        splitOnP_intercalate
          (by simp) fun inner hinner => h inner (List.mem_cons_of_mem _ hinner)]

/-- Tokens that are words stand on the line as they are. -/
theorem Command.render_eq {command : Command}
    (h : ∀ token ∈ command.tokens, Text.IsWord token) :
    command.render = " ".intercalate command.tokens := by
  unfold render
  rw [List.map_congr_left fun token htoken => (h token htoken).renderToken_eq,
    List.map_id']

/-- A wrapper and the command behind it divide the line. -/
theorem Command.render_behind {wrapper : List String} {command : Command}
    (hwrapper : wrapper ≠ []) (hne : command.tokens ≠ []) :
    (command.behind wrapper).render
      = (⟨wrapper⟩ : Command).render ++ " " ++ command.render := by
  unfold behind render
  rw [List.map_append,
    String.intercalate_append_of_ne_nil
      (by simpa using hwrapper) (by simpa using hne)]

/-- The words of a line are the tokens of its command, if these have no
blanks. -/
theorem Command.words_render {command : Command} (hne : command.tokens ≠ [])
    (h : ∀ token ∈ command.tokens, Text.IsWord token) :
    Text.words command.render = command.tokens := by
  have hsplit : ([' '].intercalate (command.tokens.map String.toList)).splitOnP
      Text.isBlank
      = command.tokens.map String.toList := by
    refine Text.splitOnP_intercalate (by simpa using hne) fun word hword => ?_
    obtain ⟨token, htoken, rfl⟩ := List.mem_map.1 hword
    exact (h token htoken).2
  have hfilter : (command.tokens.map String.toList).filter
      (fun word => !word.isEmpty)
      = command.tokens.map String.toList := by
    refine List.filter_eq_self.2 fun word hword => ?_
    obtain ⟨token, htoken, rfl⟩ := List.mem_map.1 hword
    simpa using (h token htoken).1
  unfold Text.words
  rw [render_eq h, String.toList_intercalate]
  show ((([' '].intercalate _).splitOnP Text.isBlank).filter _).map _ = _
  rw [hsplit, hfilter, List.map_map]
  exact (List.map_congr_left
    fun token _ => String.ofList_toList).trans (List.map_id _)

-- ============================================================= locations

/-- No character of a name is blank. -/
private theorem Name.isNameChar_of_isBlank {c : Char}
    (h : Text.isBlank c = true) :
    isNameChar c = false := by
  by_contra hname
  rw [Bool.not_eq_false] at hname
  -- the characters of names lie between the space and the first blank beyond it
  have hrange : 33 ≤ c.toNat ∧ c.toNat ≤ 122 := by
    simp only [isNameChar, opensName, isSmall, isDigit, Bool.or_eq_true,
      Bool.and_eq_true, decide_eq_true_eq, beq_iff_eq, Char.le_def,
      UInt32.le_iff_toNat_le] at hname
    rcases hname with ((((⟨hlow, hhigh⟩ | ⟨hlow, hhigh⟩) | rfl) | rfl) | rfl)
    · exact ⟨Nat.le_trans (by decide) hlow, hhigh⟩
    · exact ⟨Nat.le_trans (by decide) hlow, Nat.le_trans hhigh (by decide)⟩
    · decide
    · decide
    · decide
  simp only [Text.isBlank, Text.blankRanges, List.any_cons, List.any_nil,
    Bool.or_eq_true, Bool.and_eq_true, decide_eq_true_eq, Bool.or_false] at h
  omega

/-- A valid name has no blanks. -/
private theorem Name.not_isBlank_of_isValid {name : String}
    (h : isValid name = true) :
    ∀ c ∈ name.toList, Text.isBlank c = false := by
  intro c hc
  by_contra hblank
  exact notMem_of_isValid h (isNameChar_of_isBlank (by simpa using hblank)) hc

/-- A valid namespace has no blanks. -/
theorem Name.not_isBlank_of_isValidNamespace {space : String}
    (h : isValidNamespace space = true) :
    ∀ c ∈ space.toList, Text.isBlank c = false := by
  intro c hc
  by_contra hblank
  exact notMem_of_isValidNamespace h
    (isNameChar_of_isBlank (by simpa using hblank)) hc

private theorem Name.isWord_of_isValidNamespace {space : String}
    (h : isValidNamespace space = true) :
    Text.IsWord space := by
  refine ⟨fun hnil => ?_, not_isBlank_of_isValidNamespace h⟩
  unfold isValidNamespace at h
  rw [hnil] at h
  cases h

section

variable {space : String} (hspace : Name.isValidNamespace space = true)

include hspace

/-- A generated name is one word. -/
theorem NameStream.isWord_nameAt (n : Nat) :
    Text.IsWord (nameAt (Location.functionTemplate space) n) := by
  have htext := FunctionPlace.nameAt_functionTemplate
    (Name.notMem_of_isValidNamespace hspace (by decide)) n
  have hdigits : ∀ d < 16, Text.isBlank d.digitChar = false := by decide
  unfold Text.IsWord
  rw [htext]
  refine ⟨by simp, fun c hc => ?_⟩
  simp only [List.mem_append] at hc
  rcases hc with (hc | hc) | hc
  · exact Name.not_isBlank_of_isValidNamespace hspace c hc
  · exact (by decide : Text.IsWord ":generated/").2 c hc
  · obtain ⟨d, hd, rfl⟩ := exists_of_mem_digits hc
    exact hdigits d hd

/-- A generated name is never read as that of a tag. -/
theorem NameStream.sign_notMem_nameAt (n : Nat) :
    '#' ∉ (nameAt (Location.functionTemplate space) n).toList := by
  have hdigits : ∀ d < 16, '#' ≠ d.digitChar := by decide
  rw [FunctionPlace.nameAt_functionTemplate
    (Name.notMem_of_isValidNamespace hspace (by decide)) n]
  simp only [List.mem_append]
  rintro ((hc | hc) | hc)
  · exact Name.notMem_of_isValidNamespace hspace (by decide) hc
  · exact absurd hc (by decide)
  · obtain ⟨d, hd, heq⟩ := exists_of_mem_digits hc
    exact hdigits d hd heq

/-- The marker of a component is one word. -/
theorem Location.isWord_marker {component : String}
    (hname : Name.isValid component = true) :
    Text.IsWord (marker space component) := by
  show Text.IsWord (space ++ ".component." ++ component)
  have hstart := (Name.isWord_of_isValidNamespace hspace).append
    (by decide : Text.IsWord ".component.").2
  exact hstart.append (Name.not_isBlank_of_isValid hname)

/-- The tag of a hook is one word. -/
theorem Location.isWord_callbackTag {component : String} (hook : Hook)
    (hname : Name.isValid component = true) :
    Text.IsWord (callbackTag space hook component) := by
  have hword : Text.IsWord hook.word := by cases hook <;> decide
  show Text.IsWord
    (space ++ ":component/callback/" ++ hook.word ++ "/" ++ component)
  have hstart := (Name.isWord_of_isValidNamespace hspace).append
    (by decide : Text.IsWord ":component/callback/").2
  exact ((hstart.append hword.2).append (by decide : Text.IsWord "/").2).append
    (Name.not_isBlank_of_isValid hname)

end

-- =========================================================== instructions

/-- What a command does. -/
inductive Operation where
  | addTag (tag : String)
  | removeTag (tag : String)
  | function (location : String)
  | functionTag (location : String)
  deriving DecidableEq

/-- Calls a function, or the members of a tag if there is a number sign in
front. -/
def Operation.ofTarget (target : String) : Operation :=
  match target.toList with
  | '#' :: location => .functionTag (String.ofList location)
  | _ => .function target

def Operation.ofTokens? : List String → Option Operation
  | ["tag", "@s", "add", tag] => some (.addTag tag)
  | ["tag", "@s", "remove", tag] => some (.removeTag tag)
  | ["function", target] => some (.ofTarget target)
  | _ => none

/-- The command of an operation. -/
def Operation.command : Operation → Command
  | .addTag tag => .addTag tag
  | .removeTag tag => .removeTag tag
  | .function location => .function location
  | .functionTag location => .functionTag location

/-- A target behind a number sign is a tag. -/
private theorem Operation.ofTarget_tag (location : String) :
    Operation.ofTarget s!"#{location}" = .functionTag location := by
  have htext : (s!"#{location}").toList = '#' :: location.toList := by
    show ("#" ++ location).toList = _
    simp
  unfold Operation.ofTarget
  simp only [htext, String.ofList_toList]

/-- A target without a number sign is a function. -/
private theorem Operation.ofTarget_function {location : String}
    (h : '#' ∉ location.toList) :
    Operation.ofTarget location = .function location := by
  unfold Operation.ofTarget
  split
  · next htext => simp [htext] at h
  · rfl

/-- A test whether the executing entity has a tag or does not have it. -/
structure TagTest where
  tag : String
  present : Bool
  deriving DecidableEq

namespace TagTest

def holds (test : TagTest) (tags : Finset String) : Bool :=
  decide (test.tag ∈ tags) == test.present

/-- The tag of a selector of the executing entity. -/
def selected? (selector : String) : Option String :=
  match selector.toList with
  | '@' :: 's' :: '[' :: 't' :: 'a' :: 'g' :: '=' :: rest =>
    if rest.getLast? = some ']' then some (String.ofList rest.dropLast)
      else none
  | _ => none

/-- The tag of a selector is read back. -/
private theorem selected?_eq (tag : String) :
    selected? s!"@s[tag={tag}]" = some tag := by
  have htext : (s!"@s[tag={tag}]").toList
      = '@' :: 's'
        :: '[' :: 't' :: 'a' :: 'g' :: '=' :: (tag.toList ++ [']']) := by
    show ("@s[tag=" ++ tag ++ "]").toList = _
    simp
  unfold selected?
  simp only [htext, List.getLast?_concat, if_true, List.dropLast_concat,
    String.ofList_toList]

def ofWords? (condition selector : String) : Option TagTest := do
  let tag ← selected? selector
  match condition with
  | "if" => return ⟨tag, true⟩
  | "unless" => return ⟨tag, false⟩
  | _ => none

/-- A test that the tag is there. -/
theorem ofWords?_if (tag : String) :
    ofWords? "if" s!"@s[tag={tag}]" = some ⟨tag, true⟩ := by
  unfold ofWords?
  rw [selected?_eq]
  rfl

/-- A test that the tag is not there. -/
theorem ofWords?_unless (tag : String) :
    ofWords? "unless" s!"@s[tag={tag}]" = some ⟨tag, false⟩ := by
  unfold ofWords?
  rw [selected?_eq]
  rfl

end TagTest

/-- An operation behind tests. -/
structure Instruction where
  tests : List TagTest
  operation : Operation
  deriving DecidableEq

namespace Instruction

def ofTokens? : List String → Option Instruction
  | "execute" :: condition :: "entity" :: selector :: "run" :: rest => do
    let test ← TagTest.ofWords? condition selector
    let instruction ← ofTokens? rest
    return { instruction with tests := test :: instruction.tests }
  | tokens => do
    let operation ← Operation.ofTokens? tokens
    return ⟨[], operation⟩

def ofLine? (line : String) : Option Instruction :=
  ofTokens? (Text.words line)

/-- All tests hold. -/
def applies (instruction : Instruction) (tags : Finset String) : Bool :=
  instruction.tests.all fun test => test.holds tags

/-- The command is read as the operation, by itself and behind tests. -/
structure Reads (command : Command) (operation : Operation) : Prop where
  words : ∀ token ∈ command.tokens, Text.IsWord token
  tokens : ofTokens? command.tokens = some ⟨[], operation⟩

variable {command : Command} {operation : Operation}

/-- The command that adds a tag is read as such. -/
theorem Reads.addTag {tag : String} (h : Text.IsWord tag) :
    Reads (Operation.addTag tag).command (.addTag tag) where
  words := by
    simp only [Operation.command, Command.addTag, List.forall_mem_cons]
    exact ⟨by decide, by decide, by decide, h, fun _ hnil => (nomatch hnil)⟩
  tokens := rfl

/-- The command that removes a tag is read as such. -/
theorem Reads.removeTag {tag : String} (h : Text.IsWord tag) :
    Reads (Operation.removeTag tag).command (.removeTag tag) where
  words := by
    simp only [Operation.command, Command.removeTag, List.forall_mem_cons]
    exact ⟨by decide, by decide, by decide, h, fun _ hnil => (nomatch hnil)⟩
  tokens := rfl

/-- The call of a function is read as such. -/
theorem Reads.function {location : String} (h : Text.IsWord location)
    (hsign : '#' ∉ location.toList) :
    Reads (Operation.function location).command (.function location) where
  words := by
    simp only [Operation.command, Command.function, List.forall_mem_cons]
    exact ⟨by decide, h, fun _ hnil => (nomatch hnil)⟩
  tokens := by
    show some (Instruction.mk [] (Operation.ofTarget location)) = _
    rw [Operation.ofTarget_function hsign]

/-- The call of the functions of a tag is read as such. -/
theorem Reads.functionTag {location : String}
    (h : ∀ c ∈ location.toList, Text.isBlank c = false) :
    Reads (Operation.functionTag location).command (.functionTag location) where
  words := by
    simp only [Operation.command, Command.functionTag, List.forall_mem_cons]
    exact ⟨by decide, (by decide : Text.IsWord "#").append h,
      fun _ hnil => (nomatch hnil)⟩
  tokens := by
    show some (Instruction.mk [] (Operation.ofTarget _)) = _
    rw [Operation.ofTarget_tag]

/-- The line of a command is read as its operation, behind no test. -/
private theorem Reads.ofLine? (h : Reads command operation) :
    Instruction.ofLine? command.render = some ⟨[], operation⟩ := by
  have hne : command.tokens ≠ [] := by
    intro hnil
    have htokens := h.tokens
    rw [hnil] at htokens
    cases htokens
  unfold Instruction.ofLine?
  rw [Command.words_render hne h.words, h.tokens]

/-- The line of a command behind a test is read as its operation
behind the test. -/
theorem Reads.ofLine?_behind (h : Reads command operation)
    {condition tag : String} (hcondition : Text.IsWord condition)
    (htag : ∀ c ∈ tag.toList, Text.isBlank c = false) {present : Bool}
    (htest : TagTest.ofWords? condition s!"@s[tag={tag}]"
      = some ⟨tag, present⟩) :
    Instruction.ofLine?
        (command.behind
          (Clause.wrapper [⟨[condition, "entity", s!"@s[tag={tag}]"]⟩])).render
      = some ⟨[⟨tag, present⟩], operation⟩ := by
  have htokens : (command.behind
        (Clause.wrapper [⟨[condition, "entity", s!"@s[tag={tag}]"]⟩])).tokens
      = "execute"
        :: condition
          :: "entity" :: s!"@s[tag={tag}]" :: "run" :: command.tokens := rfl
  have hselector : Text.IsWord s!"@s[tag={tag}]" :=
    ((by decide : Text.IsWord "@s[tag=").append htag).append
      (by decide : Text.IsWord "]").2
  unfold Instruction.ofLine?
  rw [Command.words_render
    (by rw [htokens]; simp), htokens, Instruction.ofTokens?, htest]
  · simp [h.tokens]
  · rw [htokens]
    simp only [List.forall_mem_cons]
    exact ⟨by decide, hcondition, by decide, hselector, by decide, h.words⟩

end Instruction

-- =================================================================== runs

/-- An entity, with what was called for it and the tags that it had then. -/
structure Entity where
  tags : Finset String
  log : List (String × Finset String) := []
  deriving DecidableEq

/-- A pack, the functions of it that are not looked into, and what these do
to the tags of an entity. -/
structure World where
  pack : Pack
  callbacks : List String
  effect : String → Entity → Finset String

namespace World

variable (world : World)

/-- A callback is called. -/
def notify (entity : Entity) (location : String) : Entity where
  tags := world.effect location entity
  log := entity.log ++ [(location, entity.tags)]

/-- Carries out an operation, with `call` for calls of functions. -/
def perform (call : Entity → String → Option Entity) (entity : Entity) :
    Operation → Option Entity
  | .addTag tag => some { entity with tags := insert tag entity.tags }
  | .removeTag tag => some { entity with tags := entity.tags.erase tag }
  | .function location => call entity location
  | .functionTag location => do
    let tag ← world.pack.tag? location
    tag.members.foldlM call entity

def runLine (call : Entity → String → Option Entity) (entity : Entity)
    (line : String) :
    Option Entity := do
  let instruction ← Instruction.ofLine? line
  if instruction.applies
    entity.tags then world.perform call entity instruction.operation
  else return entity

/-- Runs the function of a location, with calls nested to the depth at
most. -/
def run : Nat → Entity → String → Option Entity
  | 0, _, _ => none
  | depth + 1, entity, location =>
    if location ∈ world.callbacks then some (world.notify entity location)
    else do
      let function ← world.pack.function? location
      function.commands.foldlM (world.runLine (run depth)) entity

-- ============================================================== callbacks

variable {world}

/-- A callback is logged, and does to the tags what it is said to do. -/
private theorem run_callback {location : String}
    (h : location ∈ world.callbacks) (depth : Nat) (entity : Entity) :
    world.run (depth + 1) entity location
      = some (world.notify entity location) := by
  rw [run, if_pos h]

/-- Callbacks in a row are logged in their order, and none of them fails. -/
theorem foldlM_run_callbacks (depth : Nat) :
    ∀ {locations : List String} (entity : Entity),
      (∀ location ∈ locations, location ∈ world.callbacks) →
    locations.foldlM (world.run (depth + 1)) entity
      = some (locations.foldl world.notify entity)
  | [], _, _ => rfl
  | location :: rest, entity, h => by
      rw [List.foldlM_cons, run_callback (h location List.mem_cons_self)]
      exact foldlM_run_callbacks depth _
        fun other hother => h other (List.mem_cons_of_mem _ hother)

/-- Callbacks that leave a tag alone are logged in order, all with the tag or
all without it. -/
theorem foldl_notify {tag : String} :
    ∀ {locations : List String} (entity : Entity),
      (∀ location ∈ locations,
        ∀ entity, tag ∈ world.effect location entity ↔ tag ∈ entity.tags) →
    (tag ∈ (locations.foldl world.notify entity).tags ↔ tag ∈ entity.tags)
      ∧ ∃ events,
        (locations.foldl world.notify entity).log = entity.log ++ events
        ∧ events.map Prod.fst = locations
        ∧ ∀ event ∈ events, (tag ∈ event.2 ↔ tag ∈ entity.tags)
  | [], entity, _ =>
    ⟨.rfl, [], (List.append_nil _).symm, rfl, fun _ h => (nomatch h)⟩
  | location :: rest, entity, h => by
      have hfirst : tag ∈ (world.notify entity location).tags
          ↔ tag ∈ entity.tags :=
        h location List.mem_cons_self entity
      obtain ⟨htags, events, hlog, hlocations, hevents⟩ :=
        foldl_notify (world.notify entity location)
          fun other hother => h other (List.mem_cons_of_mem _ hother)
      refine ⟨htags.trans hfirst, (location, entity.tags) :: events, ?_, ?_, ?_⟩
      · rw [List.foldl_cons, hlog]
        show entity.log ++ [_] ++ events = _
        rw [List.append_assoc, List.singleton_append]
      · rw [List.map_cons, hlocations]
      · intro event hevent
        rcases List.mem_cons.1 hevent with rfl | hevent
        · exact .rfl
        · exact (hevents event hevent).trans hfirst

-- ================================================================== packs

/-- Where keys do not repeat, the element of a key is found by it. -/
theorem find?_key {α : Type} {key : α → String} {a : α} :
    ∀ {list : List α}, (list.map key).Nodup → a ∈ list →
      list.find? (fun other => key other == key a) = some a
  | first :: rest, hnodup, hmem => by
      rw [List.map_cons, List.nodup_cons] at hnodup
      rcases List.mem_cons.1 hmem with rfl | hmem
      · rw [List.find?_cons_of_pos (by simp)]
      · have hne : key first ≠ key a := fun heq =>
          hnodup.1 (heq ▸ List.mem_map_of_mem hmem)
        rw [List.find?_cons_of_neg
          (by simpa using hne), find?_key hnodup.2 hmem]

/-- A function of the pack that is no callback runs its lines, one call
deeper. -/
theorem run_function
    (hdistinct : (world.pack.functions.map PackFunction.location).Nodup)
      {function : PackFunction} (hmem : function ∈ world.pack.functions)
    (hcallback : function.location ∉ world.callbacks) (depth : Nat)
    (entity : Entity) :
    world.run (depth + 1) entity function.location
      = function.commands.foldlM (world.runLine (world.run depth)) entity := by
  have hfound : world.pack.function? function.location = some function :=
    find?_key hdistinct hmem
  rw [run, if_neg hcallback, hfound]
  rfl

/-- Running the line of a command performs its operation. -/
theorem runLine_reads {command : Command} {operation : Operation}
    (h : Instruction.Reads command operation)
    (call : Entity → String → Option Entity) (entity : Entity) :
    world.runLine call entity command.render
      = world.perform call entity operation := by
  unfold runLine
  rw [h.ofLine?]
  rfl

end World

end Datapack
