/-
Manifests survive being written and read.

For statements the bound on nesting is exact (`Statement.height_toJson_le`):
the written form of a statement is nested no deeper than the value it was
read from. All other types add a fixed number of levels around statements,
and reading allots them.
-/
import Datapack.Manifest.Codec
import Datapack.Pack.Codec
import Datapack.Proofs.Records
import Datapack.Proofs.Tables

namespace Datapack

-- =============================================================== commands

/-- A command is looked at as the tokens that were written. -/
private theorem Command.ofJson?_toJson (command : Command) :
    Command.ofJson? command.toJson = some command := by
  unfold Command.ofJson? Command.toJson
  rw [Json.asStrings?_ofStrings]
  rfl

/-- Commands survive being written and read. -/
private theorem Command.roundTrips :
    Json.RoundTrips Command.toJson Command.ofJson? :=
  .of (fun command => Json.verbal_ofStrings command.tokens)
    (fun command _ => command.ofJson?_toJson)
    fun _ command _ =>
      Nat.le_trans (Nat.le_of_eq (Json.height_ofStrings command.tokens))
        (by decide)

private theorem Clause.ofJson?_toJson (clause : Clause) :
    Clause.ofJson? clause.toJson = some clause := by
  unfold Clause.ofJson? Clause.toJson
  rw [Json.asStrings?_ofStrings]
  rfl

/-- Clauses survive being written and read. -/
private theorem Clause.roundTrips :
    Json.RoundTrips Clause.toJson Clause.ofJson? :=
  .of (fun clause => Json.verbal_ofStrings clause.tokens)
    (fun clause _ => clause.ofJson?_toJson)
    fun _ clause _ =>
      Nat.le_trans (Nat.le_of_eq (Json.height_ofStrings clause.tokens))
        (by decide)

/-- A clause is written no higher than what it was read from. -/
private theorem Clause.height_toJson_le {json : Json} {clause : Clause}
    (h : Clause.ofJson? json = some clause) :
    clause.toJson.height ≤ json.height := by
  obtain ⟨tokens, htokens, rfl⟩ := Option.map_eq_some_iff.1 h
  exact Json.height_ofStrings_le htokens

-- ============================================================= statements

namespace Statement

/-- A body is written statement by statement. -/
private theorem toJsons_eq_map :
    ∀ body : List Statement, toJsons body = body.map toJson
  | [] => by rw [toJsons, List.map_nil]
  | statement :: rest => by rw [toJsons, toJsons_eq_map rest, List.map_cons]

mutual

/-- A written statement has no numbers. -/
private theorem verbal_toJson : ∀ statement : Statement, statement.toJson.Verbal
  | .run tokens => Json.verbal_ofTagged _ (by simp)
  | .say _ | .log _ | .error _ | .addTag _ | .removeTag _ | .function _
  | .functionTag _ | .invoke _ | .call _ _ | .attach _
  | .detach _ => Json.verbal_ofTagged _ (by simp)
  | .execute clauses body => by
      have hclauses : (Json.array (clauses.map Clause.toJson)).Verbal := by
        refine .array fun item hitem => ?_
        obtain ⟨clause, -, rfl⟩ := List.mem_map.1 hitem
        exact Json.verbal_ofStrings _
      have hbody : (Json.array (toJsons body)).Verbal :=
        .array (verbal_toJsons body)
      rw [toJson]
      refine Json.verbal_ofTagged _ ?_
      simp only [List.forall_mem_cons]
      exact ⟨hclauses, hbody, List.forall_mem_nil _⟩

private theorem verbal_toJsons : ∀ body : List Statement,
  ∀ item ∈ toJsons body, item.Verbal
  | [], _, h => by
      rw [toJsons] at h
      cases h
  | statement :: rest, item, h => by
      rw [toJsons] at h
      rcases List.mem_cons.1 h with rfl | h
      · exact verbal_toJson statement
      · exact verbal_toJsons rest item h

end

/-- A statement with one text is read back. -/
private theorem ofText?_ofMembers (make : String → Statement)
    (field text : String) :
    ofText? make field (.ofMembers [(field, .ofString text)])
      = some (make text) := by
  have hfields : (Json.ofMembers [(field, .ofString text)]).fields? [field]
      = some [some (.ofString text)] :=
    Json.fields?_ofMembers (by simp)
  unfold ofText?
  rw [hfields]
  rfl

private theorem ofText?_eq_some {make : String → Statement} {field : String}
    {rest : Json} {statement : Statement}
    (h : ofText? make field rest = some statement) :
    ∃ text, statement = make text := by
  obtain ⟨fields, -, h⟩ := Option.bind_eq_some_iff.1 h
  split at h
  · obtain ⟨text, -, h⟩ := Option.bind_eq_some_iff.1 h
    cases h
    exact ⟨text, rfl⟩
  · cases h

/-- The statements of a block are nested less deeply than the block. -/
theorem height_lt_execute (clauses : List Clause) {body : List Statement}
    {inner : Statement} (h : inner ∈ body) :
    inner.toJson.height + 1 < (execute clauses body).toJson.height := by
  have hbody := Json.height_lt_array (List.mem_map_of_mem (f := toJson) h)
  have hblock : (Json.array (body.map toJson)).height
      < (execute clauses body).toJson.height := by
    rw [toJson, toJsons_eq_map]
    have hlast : ("body",
        Json.array (body.map toJson)) ∈ [("kind", Json.ofString "execute"),
        ("clauses", .array (clauses.map Clause.toJson)),
        ("body", .array (body.map toJson))] := by
      simp
    exact Json.height_lt_ofMembers hlast
  omega

/-- A written statement is read back when blocks may be nested deeply
enough. The induction is on the bound, which is spent on blocks only. -/
theorem ofDefinite?_toJson :
    ∀ (depth : Nat) (nested : Bool) (statement : Statement),
      statement.toJson.height < depth →
        ofDefinite? depth nested statement.toJson = some statement
  | 0, _, _, h => absurd h (Nat.not_lt_zero _)
  | depth + 1, nested, statement, h => by
      cases statement with
      -- most statements have one text; the others have fields of their own
      | run tokens =>
          have hfields :
              (Json.ofMembers [("tokens", .ofStrings tokens)]).fields?
                ["tokens"]
              = some [some (.ofStrings tokens)] :=
            Json.fields?_ofMembers (by simp)
          simp [toJson, ofDefinite?, Json.tagged?_ofTagged,
            Json.tagName, hfields]
      | say message =>
          rw [toJson, ofDefinite?,
            Json.tagged?_ofTagged _ (by simp [Json.tagName])]
          exact ofText?_ofMembers .say "message" message
      | log message =>
          rw [toJson, ofDefinite?,
            Json.tagged?_ofTagged _ (by simp [Json.tagName])]
          exact ofText?_ofMembers .log "message" message
      | error message =>
          rw [toJson, ofDefinite?,
            Json.tagged?_ofTagged _ (by simp [Json.tagName])]
          exact ofText?_ofMembers .error "message" message
      | addTag tag =>
          rw [toJson, ofDefinite?,
            Json.tagged?_ofTagged _ (by simp [Json.tagName])]
          exact ofText?_ofMembers .addTag "tag" tag
      | removeTag tag =>
          rw [toJson, ofDefinite?,
            Json.tagged?_ofTagged _ (by simp [Json.tagName])]
          exact ofText?_ofMembers .removeTag "tag" tag
      | function location =>
          rw [toJson, ofDefinite?,
            Json.tagged?_ofTagged _ (by simp [Json.tagName])]
          exact ofText?_ofMembers .function "location" location
      | functionTag location =>
          rw [toJson, ofDefinite?,
            Json.tagged?_ofTagged _ (by simp [Json.tagName])]
          exact ofText?_ofMembers .functionTag "location" location
      | invoke method =>
          rw [toJson, ofDefinite?,
            Json.tagged?_ofTagged _ (by simp [Json.tagName])]
          exact ofText?_ofMembers .invoke "method" method
      | call component method =>
          have hfields : (Json.ofMembers [("component", .ofString component),
              ("method", .ofString method)]).fields? ["component", "method"]
              = some [some (.ofString component), some (.ofString method)] :=
            Json.fields?_ofMembers (by simp)
          simp [toJson, ofDefinite?, Json.tagged?_ofTagged,
            Json.tagName, hfields]
      | attach component =>
          rw [toJson, ofDefinite?,
            Json.tagged?_ofTagged _ (by simp [Json.tagName])]
          exact ofText?_ofMembers .attach "component" component
      | detach component =>
          rw [toJson, ofDefinite?,
            Json.tagged?_ofTagged _ (by simp [Json.tagName])]
          exact ofText?_ofMembers .detach "component" component
      | execute clauses body =>
          have hfields :
              (Json.ofMembers [("clauses", .array (clauses.map Clause.toJson)),
                ("body", .array (body.map toJson))]).fields? ["clauses", "body"]
              = some [some (.array (clauses.map Clause.toJson)),
                some (.array (body.map toJson))] :=
            Json.fields?_ofMembers (by simp)
          have hclauses : (Json.array (clauses.map Clause.toJson)).asList?
              Clause.ofJson?
              = some clauses :=
            Json.asList?_array fun clause _ => clause.ofJson?_toJson
          -- a statement in the body is less high than the block, so there is
          -- room for it one level further down
          have hbody : (Json.array (body.map toJson)).asList?
              (ofDefinite? depth true)
              = some body := by
            refine Json.asList?_array
              fun inner hinner => ofDefinite?_toJson depth true inner ?_
            have hless := height_lt_execute clauses hinner
            omega
          simp [toJson, toJsons_eq_map, ofDefinite?, Json.tagged?_ofTagged,
            Json.tagName, hfields, hclauses, hbody]

/-- A statement that was read is nested no deeper when it is written. -/
theorem height_toJson_le :
    ∀ {depth : Nat} {nested : Bool} {json : Json} {statement : Statement},
      ofDefinite? depth nested json = some statement →
        statement.toJson.height ≤ json.height
  | 0, _, _, _, h => by cases h
  | depth + 1, nested, json, statement, h => by
      rw [ofDefinite?] at h
      obtain ⟨⟨tag, rest⟩, htagged, h⟩ := Option.bind_eq_some_iff.1 h
      obtain ⟨hpositive, hrest⟩ := Json.height_of_tagged? htagged
      obtain ⟨word, -, h⟩ := Option.bind_eq_some_iff.1 h
      have htext : ∀ {make : String → Statement} {field : String},
          ofText? make field rest = some statement →
          (∀ text, (make text).toJson.height = 1) →
            statement.toJson.height ≤ json.height := by
        intro make field hmake hheight
        obtain ⟨text, rfl⟩ := ofText?_eq_some hmake
        rw [hheight]
        exact hpositive
      split at h
      · obtain ⟨fields, hfields, h⟩ := Option.bind_eq_some_iff.1 h
        split at h
        · next field =>
          obtain ⟨tokens, htokens, h⟩ := Option.bind_eq_some_iff.1 h
          cases h
          obtain ⟨written, rfl, hwritten⟩ := Option.bind_eq_some_iff.1 htokens
          have hfield := Json.height_lt_of_field hfields List.mem_cons_self
          have htokens := Json.height_ofStrings_le hwritten
          refine Nat.le_trans (Json.height_ofTagged_le (json.height - 1) ?_)
            (by omega)
          simp only [List.forall_mem_cons]
          exact ⟨by omega, List.forall_mem_nil _⟩
        · cases h
      · exact htext h fun _ => rfl
      · exact htext h fun _ => rfl
      · exact htext h fun _ => rfl
      · exact htext h fun _ => rfl
      · exact htext h fun _ => rfl
      · exact htext h fun _ => rfl
      · exact htext h fun _ => rfl
      · exact htext h fun _ => rfl
      · obtain ⟨fields, -, h⟩ := Option.bind_eq_some_iff.1 h
        split at h
        · obtain ⟨component, -, h⟩ := Option.bind_eq_some_iff.1 h
          obtain ⟨method, -, h⟩ := Option.bind_eq_some_iff.1 h
          cases h
          exact hpositive
        · cases h
      · exact htext h fun _ => rfl
      · exact htext h fun _ => rfl
      · obtain ⟨fields, hfields, h⟩ := Option.bind_eq_some_iff.1 h
        split at h
        · next clausesField bodyField =>
          obtain ⟨clauses, hclauses, h⟩ := Option.bind_eq_some_iff.1 h
          obtain ⟨body, hbody, h⟩ := Option.bind_eq_some_iff.1 h
          cases h
          obtain ⟨written, rfl, hwritten⟩ := Option.bind_eq_some_iff.1 hclauses
          have hfield := Json.height_lt_of_field hfields List.mem_cons_self
          have hheight : (Json.array (clauses.map Clause.toJson)).height
              ≤ written.height :=
            Json.height_le_of_asList? hwritten
              fun _ _ => Clause.height_toJson_le
          have hblock : (Json.array (body.map toJson)).height + 1
              ≤ json.height := by
            cases bodyField with
            | none =>
                -- a block without a body is written with an empty one, beside
                -- the clauses
                cases hbody
                obtain ⟨items, rfl, -⟩ := Json.asList?_eq_some hwritten
                simp only [List.map_nil, Json.height,
                  Json.itemsHeight] at hfield ⊢
                omega
            | some field =>
                have hinside := Json.height_lt_of_field hfields
                  (List.mem_cons_of_mem _ List.mem_cons_self)
                have hle : (Json.array (body.map toJson)).height
                    ≤ field.height :=
                  Json.height_le_of_asList? hbody fun _ _ => height_toJson_le
                omega
          rw [toJson, toJsons_eq_map]
          refine Nat.le_trans (Json.height_ofTagged_le (json.height - 1) ?_)
            (by omega)
          simp only [List.forall_mem_cons]
          exact ⟨by omega, by omega, List.forall_mem_nil _⟩
        · cases h
      · cases h

/-- A statement is read back if there is room for its blocks. -/
private theorem ofJson?_toJson {room : Nat} {statement : Statement}
    (h : statement.toJson.height ≤ room) :
    ofJson? room statement.toJson = some statement := by
  have hfits : statement.toJson.fits room = true := by
    unfold Json.fits
    rw [(verbal_toJson statement).isDefinite, decide_eq_true h]
    rfl
  unfold ofJson?
  rw [if_pos hfits]
  exact ofDefinite?_toJson _ false statement (Nat.lt_succ_self _)

/-- What was read as a statement fits the room it was read in. -/
private theorem height_le_room {room : Nat} {json : Json}
    {statement : Statement} (h : ofJson? room json = some statement) :
    statement.toJson.height ≤ room := by
  unfold ofJson? at h
  split at h
  · next hfits =>
    unfold Json.fits at hfits
    rw [Bool.and_eq_true, decide_eq_true_iff] at hfits
    exact Nat.le_trans (height_toJson_le h) hfits.1
  · cases h

/-- Statements survive being written and read. -/
private theorem roundTrips : Json.RoundTrips toJson (ofJson? Json.maxHeight) :=
  .of verbal_toJson (fun _ => ofJson?_toJson) fun _ _ => height_le_room

end Statement

-- ================================================================ methods

/-- A set of hooks is read back from its list. -/
private theorem HookSet.ofList_toList (hooks : HookSet) :
    HookSet.ofList hooks.toList = hooks := by
  obtain ⟨init, destroy, tick, load⟩ := hooks
  revert init destroy tick load
  decide

/-- A hook is read back from its word. -/
private theorem Hook.ofWord?_word (hook : Hook) :
    Hook.ofWord? hook.word = some hook := by
  cases hook <;> decide

/-- A visibility is read back from its word. -/
private theorem Visibility.ofWord?_word (visibility : Visibility) :
    Visibility.ofWord? visibility.word = some visibility := by
  cases visibility <;> decide

private theorem NameSet.get?_ofList (names : List String) (name : String) :
    (NameSet.ofList names).get? name
      = if name ∈ names then some () else none := by
  have hfrom : ∀ set : NameSet,
      (names.foldl (fun set name => set.insert name ()) set).get? name
        = if name ∈ names then some () else set.get? name := by
    induction names with
    | nil => intro set; simp
    | cons first rest ih =>
        intro set
        rw [List.foldl_cons, ih, Table.get?_insert]
        by_cases hrest : name ∈ rest <;> by_cases hfirst : name = first <;>
          simp [hrest, hfirst]
  exact hfrom Table.empty

/-- A set of names is read back from its list. -/
private theorem NameSet.ofList_keys (names : NameSet) :
    NameSet.ofList names.keys = names := by
  refine Table.ext_get? fun name => ?_
  rw [NameSet.get?_ofList]
  split
  · next hmem =>
    obtain ⟨⟨key, value⟩, hentry, rfl⟩ := List.mem_map.1 hmem
    exact (Table.mem_entries_iff.1 hentry).symm
  · next hmem =>
    cases hget : names.get? name with
    | none => rfl
    | some value =>
        exact absurd (List.mem_map_of_mem (Table.mem_entries_iff.2 hget)) hmem

namespace MethodManifest

/-- A written method has no numbers. -/
private theorem verbal_toJson (manifest : MethodManifest) :
    manifest.toJson.Verbal := by
  refine Json.verbal_ofMembers ?_
  simp only [List.forall_mem_cons]
  exact ⟨.string _, .string _, Json.verbal_ofStrings _,
    Json.verbal_ofStrings _, .bool _, .array (Statement.verbal_toJsons _),
    List.forall_mem_nil _⟩

/-- A method is nested two levels deeper than its statements. -/
theorem height_toJson_le_iff {manifest : MethodManifest} {bound : Nat} :
    manifest.toJson.height ≤ 2 + bound
      ↔ ∀ statement ∈ manifest.body, statement.toJson.height ≤ bound := by
  have hfront : ∀ member ∈ [("name", Json.ofString manifest.name),
      ("visibility", .ofString manifest.visibility.word),
      ("hooks", .ofStrings (manifest.hooks.toList.map Hook.word)),
      ("tags", .ofStrings manifest.tags.keys),
      ("guarded", .bool manifest.guarded)],
      member.2.height ≤ 1 := by
    simp [Json.height]
  refine (Json.height_ofMembers_le_iff "body" hfront).trans ?_
  rw [Statement.toJsons_eq_map, List.forall_mem_map]

/-- A method is read back if there is room for its body. -/
private theorem ofJson?_toJson {depth : Nat} {manifest : MethodManifest}
    (h : ∀ statement ∈ manifest.body,
      statement.toJson.height ≤ Json.maxHeight - depth - 2) :
    ofJson? depth manifest.toJson = some manifest := by
  have hfields : manifest.toJson.fields?
      ["name", "visibility", "hooks", "tags", "guarded", "body"]
      = some [some (.ofString manifest.name),
        some (.ofString manifest.visibility.word),
          some (.ofStrings (manifest.hooks.toList.map Hook.word)),
          some (.ofStrings manifest.tags.keys), some (.bool manifest.guarded),
          some (.array (Statement.toJsons manifest.body))] :=
    Json.fields?_ofMembers (by simp)
  have hhooks : (Json.ofStrings (manifest.hooks.toList.map Hook.word)).asList?
      (Json.asWord? Hook.ofWord?) = some manifest.hooks.toList := by
    unfold Json.ofStrings
    rw [List.map_map]
    exact Json.asList?_array fun hook _ => hook.ofWord?_word
  have hbody : (Json.array (Statement.toJsons manifest.body)).asList?
      (Statement.ofJson? (Json.maxHeight - depth - 2))
      = some manifest.body := by
    rw [Statement.toJsons_eq_map]
    exact Json.asList?_array
      fun statement hmem => Statement.ofJson?_toJson (h statement hmem)
  have hguarded : Json.asBool? (.bool manifest.guarded)
      = some manifest.guarded := rfl
  unfold ofJson?
  simp [hfields, hhooks, hbody, hguarded, Visibility.ofWord?_word,
    HookSet.ofList_toList, NameSet.ofList_keys]

/-- The body of a method that was read fits below it. -/
private theorem height_le_of_ofJson? {depth : Nat} {json : Json}
    {manifest : MethodManifest} (h : ofJson? depth json = some manifest) :
    ∀ statement ∈ manifest.body,
      statement.toJson.height ≤ Json.maxHeight - depth - 2 := by
  unfold ofJson? at h
  obtain ⟨fields, hfields, h⟩ := Option.bind_eq_some_iff.1 h
  split at h
  · next name visibility hooks tags guarded body =>
    obtain ⟨_, -, h⟩ := Option.bind_eq_some_iff.1 h
    obtain ⟨_, -, h⟩ := Option.bind_eq_some_iff.1 h
    obtain ⟨_, -, h⟩ := Option.bind_eq_some_iff.1 h
    obtain ⟨_, -, h⟩ := Option.bind_eq_some_iff.1 h
    obtain ⟨_, -, h⟩ := Option.bind_eq_some_iff.1 h
    obtain ⟨statements, hbody, h⟩ := Option.bind_eq_some_iff.1 h
    cases h
    intro statement hmem
    cases body with
    | none =>
        cases hbody
        cases hmem
    | some written =>
        obtain ⟨items, -, hitems⟩ := Json.asList?_eq_some hbody
        obtain ⟨item, -, hitem⟩ := Json.exists_of_mapM hitems statement hmem
        exact Statement.height_le_room hitem
  · cases h

/-- Methods survive being written and read. -/
private theorem roundTrips : Json.RoundTrips toJson (ofJson? 0) :=
  .of verbal_toJson (fun _ h => ofJson?_toJson (height_toJson_le_iff.1 h))
    fun _ _ h => height_toJson_le_iff.2 (height_le_of_ofJson? h)

end MethodManifest

-- ============================================================= components

namespace ComponentManifest

/-- A written component has no numbers. -/
private theorem verbal_toJson (manifest : ComponentManifest) :
    manifest.toJson.Verbal := by
  refine Json.verbal_ofMembers ?_
  simp only [List.forall_mem_cons]
  refine ⟨Json.verbal_ofOption _, Json.verbal_ofOption _, .bool _,
    .array fun item hitem => ?_, List.forall_mem_nil _⟩
  obtain ⟨method, -, rfl⟩ := List.mem_map.1 hitem
  exact method.verbal_toJson

/-- A component is nested two levels deeper than its methods. -/
theorem height_toJson_le_iff {manifest : ComponentManifest} {bound : Nat} :
    manifest.toJson.height ≤ 2 + bound
      ↔ ∀ method ∈ manifest.methods, method.toJson.height ≤ bound := by
  have hfront : ∀ member ∈ [("name", Json.ofOption manifest.name),
      ("base", .ofOption manifest.base),
      ("abstract", .bool manifest.isAbstract)],
      member.2.height ≤ 1 := by
    simp [Json.height]
  refine (Json.height_ofMembers_le_iff "methods" hfront).trans ?_
  rw [List.forall_mem_map]

/-- A component is read back if it is not nested too deeply. -/
private theorem ofJson?_toJson {manifest : ComponentManifest}
    (h : manifest.toJson.height ≤ Json.maxHeight) :
    ofJson? manifest.toJson = some manifest := by
  have hfields : manifest.toJson.fields? ["name", "base", "abstract", "methods"]
      = some [some (.ofOption manifest.name), some (.ofOption manifest.base),
          some (.bool manifest.isAbstract),
          some (.array (manifest.methods.map MethodManifest.toJson))] :=
    Json.fields?_ofMembers (by simp)
  have hmethods :
      (Json.array (manifest.methods.map MethodManifest.toJson)).asList?
        (MethodManifest.ofJson? 2) = some manifest.methods :=
    Json.asList?_array fun method hmem => MethodManifest.ofJson?_toJson
      (MethodManifest.height_toJson_le_iff.1
        (height_toJson_le_iff.1 h method hmem))
  have habstract : Json.asBool? (.bool manifest.isAbstract)
      = some manifest.isAbstract := rfl
  unfold ofJson?
  simp [hfields, hmethods, habstract]

/-- A component that was read is not nested too deeply when it is written. -/
private theorem height_le_of_ofJson? {json : Json}
    {manifest : ComponentManifest} (h : ofJson? json = some manifest) :
    manifest.toJson.height ≤ Json.maxHeight := by
  unfold ofJson? at h
  obtain ⟨fields, -, h⟩ := Option.bind_eq_some_iff.1 h
  split at h
  · next name base isAbstract methods =>
    obtain ⟨_, -, h⟩ := Option.bind_eq_some_iff.1 h
    obtain ⟨_, -, h⟩ := Option.bind_eq_some_iff.1 h
    obtain ⟨_, -, h⟩ := Option.bind_eq_some_iff.1 h
    obtain ⟨read, hmethods, h⟩ := Option.bind_eq_some_iff.1 h
    cases h
    have hroom : Json.maxHeight = 2 + (Json.maxHeight - 2) := rfl
    rw [hroom, height_toJson_le_iff]
    intro method hmem
    cases methods with
    | none =>
        cases hmethods
        cases hmem
    | some written =>
        obtain ⟨items, -, hitems⟩ := Json.asList?_eq_some hmethods
        obtain ⟨item, -, hitem⟩ := Json.exists_of_mapM hitems method hmem
        exact MethodManifest.height_toJson_le_iff.2
          (MethodManifest.height_le_of_ofJson? hitem)
  · cases h

/-- Components survive being written and read. -/
private theorem roundTrips : Json.RoundTrips toJson ofJson? :=
  .of verbal_toJson (fun _ => ofJson?_toJson) fun _ _ => height_le_of_ofJson?

end ComponentManifest

-- ============================================================== artifacts

namespace Artifact

private theorem verbal_toJson (artifact : Artifact) :
    artifact.toJson.Verbal := by
  cases artifact with
  | function f => exact Json.verbal_ofTagged _ (by simp)
  | tag t => exact Json.verbal_ofTagged _ (by simp)

private theorem height_toJson (artifact : Artifact) :
    artifact.toJson.height ≤ 2 := by
  cases artifact with
  | function f =>
      unfold toJson
      exact Json.height_ofTagged_le 1 (by simp)
  | tag t =>
      unfold toJson
      exact Json.height_ofTagged_le 1 (by simp)

private theorem ofJson?_toJson (artifact : Artifact) :
    ofJson? artifact.toJson = some artifact := by
  have hfits : artifact.toJson.fits Json.maxHeight = true := by
    unfold Json.fits
    rw [(verbal_toJson artifact).isDefinite, decide_eq_true]
    · rfl
    · exact Nat.le_trans artifact.height_toJson (by decide)
  cases artifact with
  | function f =>
      have hfields : (Json.ofMembers [("location", .ofString f.location),
          ("commands", .ofStrings f.commands)]).fields? ["location", "commands"]
          = some [some (.ofString f.location), some (.ofStrings f.commands)] :=
        Json.fields?_ofMembers (by simp)
      unfold ofJson?
      rw [hfits]
      simp [toJson, Json.tagged?_ofTagged, Json.tagName, hfields]
  | tag t =>
      have hfields : (Json.ofMembers [("location", .ofString t.location),
          ("members", .ofStrings t.members)]).fields? ["location", "members"]
          = some [some (.ofString t.location), some (.ofStrings t.members)] :=
        Json.fields?_ofMembers (by simp)
      unfold ofJson?
      rw [hfits]
      simp [toJson, Json.tagged?_ofTagged, Json.tagName, hfields]

/-- Artifacts survive being written and read. -/
private theorem roundTrips : Json.RoundTrips toJson ofJson? :=
  .of verbal_toJson (fun artifact _ => artifact.ofJson?_toJson)
    fun _ artifact _ => Nat.le_trans artifact.height_toJson (by decide)

end Artifact

-- ============================================================== projects

namespace ProjectManifest

private theorem verbal_toJson (manifest : ProjectManifest) :
    manifest.toJson.Verbal :=
  Json.verbal_ofMembers (by simp)

private theorem height_toJson (manifest : ProjectManifest) :
    manifest.toJson.height ≤ 1 := by
  unfold toJson
  exact Json.height_ofMembers_le 0 (by simp)

private theorem ofJson?_toJson (manifest : ProjectManifest) :
    ofJson? manifest.toJson = some manifest := by
  have hfields : manifest.toJson.fields?
      ["name", "namespace", "description", "author", "version"]
      = some [some (.ofString manifest.name), some (.ofString manifest.space),
          some (.ofOption manifest.description),
          some (.ofOption manifest.author),
          some (.ofOption manifest.version)] := Json.fields?_ofMembers (by simp)
  unfold ofJson?
  simp [hfields]

/-- The manifest of a project survives being written and read. -/
private theorem roundTrips : Json.RoundTrips toJson ofJson? :=
  .of verbal_toJson (fun manifest _ => manifest.ofJson?_toJson)
    fun _ manifest _ => Nat.le_trans manifest.height_toJson (by decide)

end ProjectManifest

-- =========================================================== all together

/-- Everything that is stored as JSON survives being written and read. What is
written of a value that is not nested too deeply is read as that value; and
whatever form a text has, the value it is read as is written in a form that is
read as the same value again. -/
theorem manifests_round_trip :
    Json.RoundTrips ProjectManifest.toJson ProjectManifest.ofJson?
      ∧ Json.RoundTrips ComponentManifest.toJson ComponentManifest.ofJson?
      ∧ Json.RoundTrips MethodManifest.toJson (MethodManifest.ofJson? 0)
      ∧ Json.RoundTrips Statement.toJson (Statement.ofJson? Json.maxHeight)
      ∧ Json.RoundTrips Artifact.toJson Artifact.ofJson?
      ∧ Json.RoundTrips Command.toJson Command.ofJson?
      ∧ Json.RoundTrips Clause.toJson Clause.ofJson? :=
  ⟨ProjectManifest.roundTrips, ComponentManifest.roundTrips,
    MethodManifest.roundTrips, Statement.roundTrips, Artifact.roundTrips,
    Command.roundTrips, Clause.roundTrips⟩

end Datapack
