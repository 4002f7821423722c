/-
Messages that are shown to everyone arrive as they were written.

A message is put into a JSON object, and the object is a token of a command.
Two things happen to it before it is read again. Printing escapes quotes,
backslashes and all control characters, so no line feed is left for the
rendering of the command to replace. And the object opens with a brace and
closes with one, so the rendering has nothing to trim, whatever blanks the
message starts or ends with. The line therefore ends with the very text that
was printed, and reading that text gives the message back (`Json.Verbal`).
-/
import Datapack.Proofs.Emission
import Datapack.Proofs.Entity
import Datapack.Proofs.Printed

namespace Datapack

-- =============================================================== trimming

namespace Text

/-- There are no blanks to skip where the text does not start with one. -/
private theorem dropWhile_isBlank_eq {text : List Char}
    (h : ∀ c, text.head? = some c → isBlank c = false) :
    text.dropWhile isBlank = text := by
  cases text with
  | nil => rfl
  | cons c rest => rw [List.dropWhile_cons_of_neg (by simp [h c rfl])]

/-- A text that neither opens nor ends with a blank is trimmed already. -/
theorem trim_eq_self {text : List Char}
    (hfirst : ∀ c, text.head? = some c → isBlank c = false)
    (hlast : ∀ c, text.getLast? = some c → isBlank c = false) :
    trim text = text := by
  unfold trim trimStart trimEnd
  have hend : ∀ c, text.reverse.head? = some c → isBlank c = false := by
    intro c hc
    rw [List.head?_reverse] at hc
    exact hlast c hc
  rw [dropWhile_isBlank_eq hfirst, dropWhile_isBlank_eq hend,
    List.reverse_reverse]

end Text

/-- A token without line feeds that is trimmed already stands on the line as
it is. -/
theorem Command.renderToken_eq_self {token : String}
    (hfeed : '\n' ∉ token.toList)
    (htrim : Text.trim token.toList = token.toList) :
    renderToken token = token := by
  have hmap : token.toList.map (fun c => if c = '\n' then ' ' else c)
      = token.toList := by
    refine (List.map_congr_left fun c hc => if_neg ?_).trans (List.map_id _)
    rintro rfl
    exact hfeed hc
  unfold renderToken
  rw [hmap, htrim, String.ofList_toList]

-- ================================================================ payload

/-- The text in the colour as the object that the game is told. -/
def Command.payload (color text : String) : Json :=
  .ofMembers [("color", .ofString color), ("text", .ofString text)]

namespace Command

variable (color text : String)

/-- The payload of an announcement is made of texts only. -/
private theorem verbal_payload : (payload color text).Verbal := by
  refine .object (by simp) ?_
  simp only [List.map_cons, List.map_nil, List.forall_mem_cons]
  exact ⟨.string color, .string text, List.forall_mem_nil _⟩

/-- The payload is written between braces and has no control character in
between. -/
private theorem chars_payload :
    ∃ middle, (payload color text).chars = '\x7b' :: middle ++ ['\x7d']
    ∧ ∀ c ∈ middle, 32 ≤ c.toNat := by
  refine ⟨Json.quote "color".toList ++ ':' :: Json.quote color.toList
    ++ ',' :: Json.quote "text".toList ++ ':' :: Json.quote text.toList, ?_, ?_⟩
  · simp [payload, Json.ofMembers, Json.ofString, Json.chars, Json.membersChars,
      Json.textChars]
  · intro c hc
    simp only [List.mem_append, List.mem_cons] at hc
    rcases hc with ((hc | rfl | hc) | rfl | hc) | rfl | hc
    · exact Json.le_of_mem_quote hc
    · decide
    · exact Json.le_of_mem_quote hc
    · decide
    · exact Json.le_of_mem_quote hc
    · decide
    · exact Json.le_of_mem_quote hc

/-- No control character is written in a payload. -/
private theorem le_of_mem_payload {c : Char}
    (h : c ∈ (payload color text).chars) : 32 ≤ c.toNat := by
  obtain ⟨middle, hchars, hmiddle⟩ := chars_payload color text
  rw [hchars, List.cons_append, List.mem_cons, List.mem_append,
    List.mem_singleton] at h
  rcases h with rfl | h | rfl
  · decide
  · exact hmiddle c h
  · decide

/-- Rendering leaves the printed object as it is. -/
theorem renderToken_payload :
    renderToken (payload color text).render = (payload color text).render := by
  obtain ⟨middle, hchars, -⟩ := chars_payload color text
  have htext : (payload color text).render.toList
      = (payload color text).chars :=
    String.toList_ofList
  refine renderToken_eq_self ?_ ?_
  · rw [htext]
    exact fun h => absurd (le_of_mem_payload color text h) (by decide)
  · rw [htext]
    refine Text.trim_eq_self (fun c hc => ?_) fun c hc => ?_
    · rw [hchars] at hc
      cases hc
      decide
    · rw [hchars, List.getLast?_append_of_ne_nil _ (List.cons_ne_nil _ _)] at hc
      cases hc
      decide

/-- The line of an announcement ends with the printed object. -/
theorem render_announce (message color heading : String) :
    (announce message color heading).render
      = "tellraw @a "
        ++ (payload color (heading ++ " " ++ message)).render := by
  have hstart : (⟨["tellraw", "@a"]⟩ : Command).render ++ " "
      = "tellraw @a " := by decide
  have hobject :
      (⟨[(payload color (heading ++ " " ++ message)).render]⟩ : Command).render
      = (payload color (heading ++ " " ++ message)).render := by
    show " ".intercalate [renderToken _] = _
    rw [renderToken_payload, String.intercalate_singleton]
  calc (announce message color heading).render
      = ((⟨[(payload color (heading ++ " " ++ message)).render]⟩ :
        Command).behind
          ["tellraw", "@a"]).render := rfl
    _ = (⟨["tellraw", "@a"]⟩ : Command).render ++ " "
          ++ (payload color (heading ++ " " ++ message)).render := by
        rw [render_behind (List.cons_ne_nil _ _) (List.cons_ne_nil _ _),
          hobject]
    _ = "tellraw @a "
      ++ (payload color (heading ++ " " ++ message)).render := by
        rw [hstart]

end Command

-- =============================================================== emission

/-- What stands on a line in front of a command under the clauses. -/
def Clause.lead (clauses : List Clause) : String :=
  if clauses.isEmpty then ""
    else (⟨Clause.wrapper clauses⟩ : Command).render ++ " "

/-- A command under clauses stands behind their lead as it does alone. -/
theorem Command.render_under {command : Command} (hne : command.tokens ≠ [])
    (clauses : List Clause) :
    (command.behind (Clause.wrapper clauses)).render
      = Clause.lead clauses ++ command.render := by
  unfold Clause.lead
  by_cases hclauses : clauses = []
  · subst hclauses
    show command.render = "" ++ command.render
    rw [String.empty_append]
  · have hwrapper : Clause.wrapper clauses ≠ [] := by
      unfold Clause.wrapper
      rw [if_neg (by simpa using hclauses)]
      apply List.cons_ne_nil
    rw [if_neg (by simpa using hclauses), render_behind hwrapper hne]

/-- A command under further clauses than those of the function that is being
built becomes the last of its lines. -/
theorem Build.emitUnder_writes {state : BuildState} {node : NodeId}
    {draft : Draft} (hfocus : state.focus.function = some node)
    (hdraft : state.tree.draft? node = .ok draft)
    (hopen : draft.stage = .opened) {context : ExecutionContext}
    {clauses : List Clause}
    (hcontext : context.clauses = draft.base.clauses ++ clauses)
    (command : Command) :
    ∃ state' draft', Build.emitUnder context command state = .ok () state'
      ∧ state'.tree.draft? node = .ok draft'
      ∧ draft'.commands
        = draft.commands ++ [command.behind (Clause.wrapper clauses)] := by
  have hcurrent : Build.currentFunction state = .ok node state := by
    unfold Build.currentFunction
    rw [Build.bind_get, hfocus]
    rfl
  have hinside : draft.base.clauses <+: context.clauses := by
    rw [hcontext]
    apply List.prefix_append
  have hregister := Draft.register_eq hopen hinside command .action
  refine ⟨_, _,
    (Build.bind_ok hcurrent).trans (Build.modifyDraft_apply hdraft hregister),
    BuildTree.draft?_setDraft hdraft _, ?_⟩
  show draft.commands ++ [command.behind (Clause.wrapper
    (context.clauses.drop draft.base.clauses.length))] = _
  rw [hcontext, List.drop_left]

-- ========================================================== announcements

/-- The command tells everyone a text in a colour. What it tells them is the
end of its line, on which there are no control characters, and JSON for an
object of just the two. It is so under any clauses, and wherever the command
is emitted. -/
structure Command.Tells (command : Command) (color text : String)
    (told : String) : Prop where
  printable : ∀ c ∈ told.toList, ' ' ≤ c
  decoded : Json.decode? some told
    = some (.object [(some "color", .string (some color)),
      (some "text", .string (some text))])
  rendered : ∀ clauses, (command.behind (Clause.wrapper clauses)).render
    = Clause.lead clauses ++ "tellraw @a " ++ told
  emitted : ∀ {state : BuildState} {node : NodeId} {draft : Draft},
    state.focus.function = some node → state.tree.draft? node = .ok draft →
    draft.stage = .opened →
      ∀ {context : ExecutionContext} {clauses : List Clause},
    context.clauses = draft.base.clauses ++ clauses →
    ∃ state' draft', Build.emitUnder context command state = .ok () state'
      ∧ state'.tree.draft? node = .ok draft'
      ∧ draft'.commands.map render
          = draft.commands.map render
            ++ [Clause.lead clauses ++ "tellraw @a " ++ told]

/-- An announcement tells its heading and its message, in its color. -/
private theorem Command.tells_announce (message color heading : String) :
    (announce message color heading).Tells color (heading ++ " " ++ message)
      (payload color (heading ++ " " ++ message)).render := by
  have hne : (announce message color heading).tokens ≠ [] :=
    List.cons_ne_nil _ _
  have hrendered : ∀ clauses,
      ((announce message color heading).behind (Clause.wrapper clauses)).render
        = Clause.lead clauses ++ "tellraw @a "
          ++ (payload color (heading ++ " " ++ message)).render := by
    intro clauses
    rw [render_under hne, render_announce]
    exact (String.append_assoc ..).symm
  refine ⟨fun c hc => ?_, ?_, hrendered,
    fun hfocus hdraft hopen _ _ hcontext => ?_⟩
  · rw [Json.render, String.toList_ofList] at hc
    exact le_of_mem_payload _ _ hc
  · unfold Json.decode? Json.render
    rw [String.toList_ofList, (verbal_payload _ _).read_chars]
    rfl
  · obtain ⟨state', draft', hemit, hdraft', hcommands⟩ :=
      Build.emitUnder_writes hfocus hdraft hopen hcontext
        (announce message color heading)
    refine ⟨state', draft', hemit, hdraft', ?_⟩
    rw [hcommands, List.map_append, List.map_singleton, hrendered]

/-- Messages are told as they are, whatever characters they have: in any
colour behind any heading, and as messages and errors of the log. -/
theorem Command.messages_told (message color heading : String) :
    (∃ told, (announce message color heading).Tells color
      (heading ++ " " ++ message) told)
    ∧ (∃ told, (log message).Tells "gray" ("[LOG] " ++ message) told)
    ∧ ∃ told, (error message).Tells "red" ("[ERR] " ++ message) told := by
  have hlog : "[LOG]" ++ " " = "[LOG] " := by decide
  have herror : "[ERR]" ++ " " = "[ERR] " := by decide
  refine ⟨⟨_, tells_announce message color heading⟩, ?_, ?_⟩
  · rw [← hlog]
    exact ⟨_, tells_announce message "gray" "[LOG]"⟩
  · rw [← herror]
    exact ⟨_, tells_announce message "red" "[ERR]"⟩

namespace Bulletin

/-- A function is being built that is called without clauses. -/
def state : BuildState :=
  { BuildState.initial "demo" Table.empty with
    tree := BuildTree.empty.insert none "f"
      (.function { location := some "demo:f", base := .empty })
    focus := ({} : Focus).set .function (some 0) }

def message : String := " \"a\\b\"\r\n\t"

end Bulletin

/-- Quotes, a backslash, the end of a line and the blanks around all of them
come back. -/
theorem Command.bulletin_told :
    ∃ state' draft',
      Build.emitUnder ⟨[⟨["as", "@a"]⟩]⟩ (.error Bulletin.message)
        Bulletin.state
        = .ok () state'
      ∧ state'.tree.draft? 0 = .ok draft'
      ∧ ∃ told,
        draft'.commands.map render = ["execute as @a run tellraw @a " ++ told]
        ∧ Json.decode? some told
          = some (.object [(some "color", .string (some "red")),
            (some "text", .string (some "[ERR]  \"a\\b\"\r\n\t"))]) := by
  obtain ⟨-, -, told, htold⟩ := messages_told Bulletin.message "red" "[ERR]"
  have hdraft : Bulletin.state.tree.draft? 0
      = .ok { location := some "demo:f", base := .empty } :=
    rfl
  have hlead : Clause.lead [⟨["as", "@a"]⟩] ++ "tellraw @a "
      = "execute as @a run tellraw @a " := by
    decide
  obtain ⟨state', draft', hemit, hdraft', hlines⟩ :=
    htold.emitted rfl hdraft
      rfl (show (⟨[⟨["as", "@a"]⟩]⟩ : ExecutionContext).clauses
        = [] ++ [⟨["as", "@a"]⟩] from rfl)
  refine ⟨state', draft', hemit, hdraft', told, ?_, ?_⟩
  · rw [hlines, hlead]
    rfl
  · have htext : "[ERR] " ++ Bulletin.message = "[ERR]  \"a\\b\"\r\n\t" := by
      decide
    rw [← htext]
    exact htold.decoded

end Datapack
