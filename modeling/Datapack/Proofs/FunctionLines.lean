/-
A function's file has one line for each of its commands.

Whatever the tokens of a command are, its line has no line feed, because
the line feeds of a token become spaces. Nor does it end with a carriage
return: a token is trimmed at both ends, and a carriage return is a blank.
So a line that is read back is cut off at the line feed that was put behind
it, and nothing that was its own is taken for a part of the line's end. A
token that is blank throughout leaves a space or an empty line, which is a
line as any other.

A carriage return inside a line divides nothing, and other characters that
are said to end lines, such as U+2028, do not end one here.
-/
import Datapack.Proofs.Leftovers

namespace Datapack

-- ========================================================== reading lines

namespace Text

/-- The line without a carriage return at its end. -/
def withoutReturn (line : List Char) : List Char :=
  if line.getLast? = some '\r' then line.dropLast else line

/-- The lines of a text, the first of which has been read up to here. A line
ends with a line feed, in front of which a carriage return does not count;
behind the last line feed there is a line only if there is any text. -/
def linesFrom : List Char → List Char → List (List Char)
  | line, [] => if line.isEmpty then [] else [line]
  | line, c :: rest =>
    if c = '\n' then withoutReturn line :: linesFrom [] rest
      else linesFrom (line ++ [c]) rest

/-- The lines of a text. -/
def lines (text : String) : List String :=
  (linesFrom [] text.toList).map String.ofList

/-- The text stands on a line without a change: no line feed ends it early,
and no carriage return at its end is lost. -/
structure IsLine (text : List Char) : Prop where
  lineFeed : '\n' ∉ text
  ending : text.getLast? ≠ some '\r'

private theorem IsLine.nil : IsLine [] where
  lineFeed := List.not_mem_nil
  ending := nofun

/-- What stands up to a line feed is read as one line. -/
theorem linesFrom_append {line : List Char} (h : '\n' ∉ line)
    (start rest : List Char) :
    linesFrom start (line ++ '\n' :: rest)
      = withoutReturn (start ++ line) :: linesFrom [] rest := by
  induction line generalizing start with
  | nil => rw [List.nil_append, List.append_nil, linesFrom, if_pos rfl]
  | cons c more ih =>
      rw [List.mem_cons, not_or] at h
      rw [List.cons_append, linesFrom, if_neg (Ne.symm h.1), ih h.2,
        List.append_assoc]
      rfl

/-- The first line of a text ends at the first line feed. -/
private theorem IsLine.linesFrom_append {line : List Char} (h : IsLine line)
    (rest : List Char) :
    linesFrom [] (line ++ '\n' :: rest) = line :: linesFrom [] rest := by
  rw [Text.linesFrom_append h.lineFeed, List.nil_append, withoutReturn,
    if_neg h.ending]

/-- Lines with a line feed between them and one behind the last are read
back. -/
theorem linesFrom_intercalate : ∀ {texts : List (List Char)}, texts ≠ [] →
    (∀ text ∈ texts, IsLine text) →
      linesFrom [] (['\n'].intercalate texts ++ ['\n']) = texts
  | [text], _, h => by
      rw [List.intercalate_singleton,
        (h text List.mem_cons_self).linesFrom_append]
      rfl
  | text :: other :: rest, _, h => by
      rw [List.intercalate_cons_cons, List.append_assoc, List.append_assoc,
        List.singleton_append, (h text List.mem_cons_self).linesFrom_append,
        linesFrom_intercalate (List.cons_ne_nil other rest) fun found hfound =>
          h found (List.mem_cons_of_mem text hfound)]

end Text

/-- A file of commands that are lines is read back. -/
theorem PackFunction.lines_content {function : PackFunction}
    (hne : function.commands ≠ [])
    (h : ∀ command ∈ function.commands, Text.IsLine command.toList) :
    Text.lines function.content = function.commands := by
  have htext : function.content.toList
      = ['\n'].intercalate (function.commands.map String.toList) ++ ['\n'] := by
    unfold content
    rw [String.toList_append, String.toList_intercalate]
    rfl
  have hread : Text.linesFrom [] function.content.toList
      = function.commands.map String.toList := by
    rw [htext]
    refine Text.linesFrom_intercalate (by simpa using hne) fun text htext => ?_
    obtain ⟨command, hcommand, rfl⟩ := List.mem_map.1 htext
    exact h command hcommand
  unfold Text.lines
  rw [hread, List.map_map]
  exact (List.map_congr_left
    fun command _ => String.ofList_toList).trans (List.map_id _)

/-- The file of a function without commands has one line, which is empty. -/
theorem PackFunction.lines_content_of_nil {function : PackFunction}
    (h : function.commands = []) :
    Text.lines function.content = [""] := by
  unfold content
  rw [h]
  rfl

-- ======================================================= rendered commands

namespace Text

/-- Trimming adds no characters. -/
private theorem mem_of_mem_trim {c : Char} {text : List Char}
    (h : c ∈ trim text) : c ∈ text := by
  unfold trim trimEnd trimStart at h
  have hend := (List.dropWhile_sublist _).mem (List.mem_reverse.1 h)
  exact (List.dropWhile_sublist _).mem (List.mem_reverse.1 hend)

/-- A trimmed text does not end with a blank. -/
theorem not_isBlank_getLast?_trim {c : Char} {text : List Char}
    (h : (trim text).getLast? = some c) : isBlank c = false := by
  unfold trim trimEnd at h
  rw [List.getLast?_reverse] at h
  have hhead := List.head?_dropWhile_not isBlank (trimStart text).reverse
  rw [h] at hhead
  exact hhead

end Text

namespace Command

/-- A token is on one line. -/
theorem isLine_renderToken (token : String) :
    Text.IsLine (renderToken token).toList := by
  unfold renderToken
  rw [String.toList_ofList]
  constructor
  · intro hmem
    obtain ⟨c, -, hc⟩ := List.mem_map.1 (Text.mem_of_mem_trim hmem)
    split at hc
    · exact absurd hc (by decide)
    · next hne => exact hne hc
  · intro hlast
    exact absurd (Text.not_isBlank_getLast?_trim hlast) (by decide)

/-- Lines that are joined by spaces are one line: it ends as the last of them
does, or with a space. -/
theorem isLine_intercalate :
    ∀ {texts : List (List Char)},
      (∀ text ∈ texts, Text.IsLine text) → Text.IsLine ([' '].intercalate texts)
  | [], _ => .nil
  | [text], h => by
      rw [List.intercalate_singleton]
      exact h text List.mem_cons_self
  | text :: other :: rest, h => by
      have hfirst := h text List.mem_cons_self
      have hrest := isLine_intercalate fun found hfound =>
        h found (List.mem_cons_of_mem text hfound)
      rw [List.intercalate_cons_cons, List.append_assoc]
      constructor
      · simp only [List.mem_append, List.mem_singleton, not_or]
        exact ⟨hfirst.lineFeed, by decide, hrest.lineFeed⟩
      · rw [List.getLast?_append, List.getLast?_append]
        cases hlast : ([' '].intercalate (other :: rest)).getLast? with
        | none =>
            show some ' ' ≠ some '\r'
            decide
        | some c =>
            rw [Option.some_or, Option.some_or, ← hlast]
            exact hrest.ending

/-- The line of a command is one line, whatever its tokens are. -/
theorem isLine_render (command : Command) :
    Text.IsLine command.render.toList := by
  unfold render
  rw [String.toList_intercalate, List.map_map]
  refine isLine_intercalate fun text htext => ?_
  obtain ⟨token, -, rfl⟩ := List.mem_map.1 htext
  exact isLine_renderToken token

end Command

-- ================================================================== packs

/-- The lines of a function's file are its commands, one for each that was
registered: the command behind the clauses that the function is not called
in. Only a function without commands has a line more, an empty one. -/
theorem Project.functions_read_by_lines {project : Project}
    {components : List Component} {pack : Pack}
    (h : project.build components = .ok pack) :
    ∃ resolved tree root, project.Makes components resolved tree root
      ∧ pack = project.collect tree root
      ∧ ∀ function ∈ pack.functions,
        ∃ draft ∈ tree.drafts root, draft.artifact? = some function
          ∧ draft.commands = (draft.sources.map fun source =>
              source.2.behind
                (Clause.wrapper (source.1.clauses.drop draft.base.length)))
          ∧ function.commands = draft.commands.map Command.render
          ∧ (function.commands ≠ [] →
            Text.lines function.content = function.commands)
          ∧ (function.commands = [] → Text.lines function.content = [""]) := by
  obtain ⟨resolved, tree, hmakes, hshows, rfl, -, -⟩ := stages_of_build h
  refine ⟨resolved, tree, 0, hmakes, (collect_eq _ hshows).symm,
    fun function hfunction => ?_⟩
  obtain ⟨sheet, hsheet, hartifact⟩ := List.mem_filterMap.1 hfunction
  have hcommands : function.commands
      = sheet.draft.commands.map Command.render := by
    unfold Sheet.artifact? Draft.artifact? at hartifact
    split at hartifact
    · obtain ⟨location, -, rfl⟩ := Option.map_eq_some_iff.1 hartifact
      rfl
    · cases hartifact
  refine ⟨sheet.draft, ?_, hartifact, ?_, hcommands, fun hne => ?_,
    PackFunction.lines_content_of_nil⟩
  · rw [BuildTree.drafts_eq hshows]
    exact List.mem_map_of_mem hsheet
  · show sheet.entries.map _ = (sheet.entries.map _).map _
    rw [List.map_map]
    rfl
  · -- no command has a line feed in it once it is rendered
    refine PackFunction.lines_content hne fun line hline => ?_
    rw [hcommands] at hline
    obtain ⟨command, -, rfl⟩ := List.mem_map.1 hline
    exact command.isLine_render

namespace Wordy

def project : Project := { name := "Demo", space := "demo" }

/-- Line feeds, carriage returns and blank tokens, in commands and around
them. -/
def component : Component where
  space := "demo"
  name := "c"
  methods :=
    [{ name := "go"
       body :=
         [.perform (.run ["say", "one\r\nsay two\r"]),
          .execute [⟨["as", "\n@a\r\n"]⟩] [.perform (.say " \r\n")],
          .perform (.run ["\n"])] },
     { name := "idle" }]

def pack : Pack where
  name := "Demo"
  space := "demo"
  description := "An endermite project\n\nVersion 0.1.0\nBy N/A"
  functions :=
    [⟨"demo:component/c/go",
      ["say one\r say two", "execute as @a run say ", ""]⟩,
     ⟨"demo:component/c/idle", []⟩,
     ⟨"demo:attach/c",
      ["execute unless entity @s[tag=demo.component.c] run tag @s add demo.component.c"]⟩,
     ⟨"demo:detach/c",
      ["execute if entity @s[tag=demo.component.c] run tag @s remove demo.component.c"]⟩]
  tags := []

set_option maxRecDepth 100000 in
private theorem build : project.build [component] = .ok pack := by
  decide +kernel

end Wordy

/-- Three commands are three lines, one with a carriage return inside, one
that ends with a space and one that is empty. -/
theorem Project.wordy_lines :
    Wordy.project.build [Wordy.component] = .ok Wordy.pack
      ∧ ∃ function ∈ Wordy.pack.functions,
          function.content = "say one\r say two\nexecute as @a run say \n\n"
          ∧ Text.lines function.content
            = ["say one\r say two", "execute as @a run say ", ""] := by
  obtain ⟨resolved, tree, root, -, -, hlines⟩ :=
    Project.functions_read_by_lines Wordy.build
  have hmem :
      (⟨"demo:component/c/go", ["say one\r say two", "execute as @a run say ",
        ""]⟩ : PackFunction) ∈ Wordy.pack.functions := by decide
  obtain ⟨draft, -, -, -, -, hread, -⟩ := hlines _ hmem
  exact ⟨Wordy.build, _, hmem, by decide +kernel, hread (List.cons_ne_nil _ _)⟩

end Datapack
