/-
Inheriting from a component.

An heir that declares no methods has those of its base, and their bodies are
built once more, with the heir as the caller. What a body attaches and
detaches does not depend on the caller. A method that it invokes without
naming a component is one of the caller's own, and the heir has one under
every name under which the base has one. What remains are calls that name a
component: they lead where they led, but a private method may be called by
its own component only, and the heir is not its base.

So a project can be extended by an heir exactly when no method of the base
calls a private method of the base by the name of the base
(`ProjectManifest.heir_builds_iff`). Such a call is fine in the base, which
is why the project was built before, and it is not in the heir, where the
build stops at it (`ProjectManifest.heir_refused`).
-/
import Datapack.Proofs.Extension
import Datapack.Proofs.Independence

namespace Datapack

-- ============================================================== found names

namespace ComponentCalls

/-- A method is added under its key and under its name. -/
theorem isSome_insertMember (methods : Table CallTarget) (member : Member)
    (name : String) :
    ((insertMember methods member).get? name).isSome = true
      ↔ (methods.get? name).isSome = true
        ∨ name = member.key ∨ name = member.method.name := by
  unfold insertMember
  rw [Table.get?_insertNew, Table.get?_insert, Table.get?_insert]
  by_cases hname : name = member.method.name
  · simp [hname]
  · rw [if_neg hname]
    by_cases hkey : name = member.key <;> simp [hname, hkey]

/-- The names that calls find are the keys and the names of methods. -/
theorem isSome_ofMembers {isAbstract : Bool} {members : List Member}
    {name : String} :
    ((ofMembers isAbstract members).methods.get? name).isSome = true
      ↔ ∃ member ∈ members, name = member.key ∨ name = member.method.name := by
  have hfold : ∀ (members : List Member) (methods : Table CallTarget),
      ((members.foldl insertMember methods).get? name).isSome = true
        ↔ (methods.get? name).isSome = true
          ∨ ∃ member ∈ members,
            name = member.key ∨ name = member.method.name := by
    intro members
    induction members with
    | nil => simp
    | cons member rest ih =>
        intro methods
        rw [List.foldl_cons, ih, isSome_insertMember, List.exists_mem_cons_iff,
          or_assoc]
  unfold ofMembers
  rw [hfold members Table.empty]
  simp

end ComponentCalls

-- ================================================================ methods

namespace Component

/-- The method of another component as the component has it. -/
def adopt (component : Component) (member : Member) : Member :=
  { member with
    location := Location.ofMethod component.space component.name member.origin
      member.method.visibility member.method.name }

/-- Methods of the same bases differ only in where they are built. -/
theorem inheritedMembers_eq (component other : Component) :
    ∀ (bases : List Component) (nearer : List String),
      component.inheritedMembers nearer bases
        = (other.inheritedMembers nearer bases).map component.adopt
  | [], _ => rfl
  | base :: rest, nearer => by
      rw [inheritedMembers, inheritedMembers, List.map_append, List.map_map,
        inheritedMembers_eq component other rest]
      rfl

variable {heir base : Component} {bases : List Component}

/-- An heir without methods has those of its base, taken over. -/
private theorem membersAlong_heir (hmethods : heir.methods = []) :
    heir.membersAlong (heir :: base :: bases)
      = base.methods.map (heir.member (some base.name) [])
        ++ (base.inheritedMembers (base.methods.map Method.name) bases).map
          heir.adopt := by
  unfold membersAlong
  rw [hmethods, ← heir.inheritedMembers_eq base]
  rfl

/-- What the heir has the base has too. -/
theorem exists_own (hmethods : heir.methods = []) {member : Member}
    (hmember : member ∈ heir.membersAlong (heir :: base :: bases)) :
    ∃ own ∈ base.membersAlong (base :: bases), own.method = member.method := by
  rw [membersAlong_heir hmethods, List.mem_append] at hmember
  unfold membersAlong
  simp only [List.mem_append]
  rcases hmember with hmember | hmember
  · obtain ⟨method, hmethod, rfl⟩ := List.mem_map.1 hmember
    exact ⟨_, .inl (List.mem_map_of_mem hmethod), rfl⟩
  · obtain ⟨own, hown, rfl⟩ := List.mem_map.1 hmember
    exact ⟨own, .inr hown, rfl⟩

/-- What the base has the heir has too, under the same key or under a key of
its own if that of the base was only the name. -/
theorem exists_adopted (hmethods : heir.methods = []) {own : Member}
    (hown : own ∈ base.membersAlong (base :: bases)) :
    ∃ member ∈ heir.membersAlong (heir :: base :: bases),
      member.method = own.method
      ∧ (own.key = own.method.name ∨ member.key = own.key) := by
  rw [membersAlong_heir hmethods]
  unfold membersAlong at hown
  simp only [List.mem_append] at hown ⊢
  rcases hown with hown | hown
  · obtain ⟨method, hmethod, rfl⟩ := List.mem_map.1 hown
    exact ⟨_, .inl (List.mem_map_of_mem hmethod), rfl, .inl rfl⟩
  · exact ⟨_, .inr (List.mem_map_of_mem hown), rfl, .inr rfl⟩

/-- Calls find in the heir whatever they find in the base. -/
theorem isSome_heir (hmethods : heir.methods = []) {name : String}
    (h : ((ComponentCalls.ofMembers base.isAbstract
      (base.membersAlong (base :: bases))).methods.get? name).isSome = true) :
    ((ComponentCalls.ofMembers heir.isAbstract
      (heir.membersAlong (heir :: base :: bases))).methods.get? name).isSome
      = true := by
  obtain ⟨own, hown, hname⟩ := ComponentCalls.isSome_ofMembers.1 h
  obtain ⟨member, hmember, hmethod, hkey⟩ := exists_adopted hmethods hown
  refine ComponentCalls.isSome_ofMembers.2 ⟨member, hmember, ?_⟩
  rw [hmethod]
  rcases hname with rfl | rfl
  · exact hkey.symm.imp_left Eq.symm
  · exact .inr rfl

end Component

-- ================================================================== heirs

/-- The component declares nothing but its base, and has a name that can be
registered. -/
structure Component.IsHeir (heir : Component) (components : List Component)
    (base : Component) : Prop where
  base : heir.base = some base.name
  methods : heir.methods = []
  valid : Name.isValid heir.name = true
  fresh : ∀ other ∈ components, other.name ≠ heir.name

/-- The statement calls a private method of the component by the component's
name. -/
def Statement.CallsPrivate (table : CallTable) (component : String) :
    Statement → Prop
  | .call name method => Name.snakeCase name = component ∧ ∃ calls target,
      table.get? component = some calls
        ∧ calls.methods.get? method = some target
        ∧ target.visibility = .owner
  | _ => False

/-- From anywhere but the component itself, such a call is refused. -/
theorem Statement.CallsPrivate.command_eq {table whole : CallTable}
    {component caller : String} {statement : Statement}
    (h : statement.CallsPrivate table component) (hpart : table.PartOf whole)
    (hcaller : caller ≠ component) (space : String) :
    ∃ method, statement.command ⟨space, whole, caller⟩
      = .error (.privateMethod component method) := by
  cases statement with
  | call name method =>
      obtain ⟨hname, calls, target, hcalls, hmethod, howner⟩ := h
      refine ⟨method, ?_⟩
      have hrefused : whole.resolve (some caller) component method
          = .error (.privateMethod component method) := by
        unfold CallTable.resolve CallTable.component?
        rw [hpart _ _ hcalls]
        simp [bind, Except.bind, hmethod, howner, hcaller]
      show Ground.call ⟨space, whole, caller⟩ name method = _
      unfold Ground.call
      dsimp only
      rw [hname, hrefused]
      rfl
  | _ => exact h.elim

section

variable {space : String} {components whole : List Component}
  {base heir : Component} {resolved resolved' : List (Component × List Member)}
  {members members' : List Member}

/-- The bases of an heir are its base and the bases of that. -/
theorem Resolution.members_heir (hhouse : Household space whole)
    (hsub : components ⊆ whole) (h : Resolution components resolved)
    (h' : Resolution whole resolved') (hbase : heir.base = some base.name)
    (hentry : (base, members) ∈ resolved)
    (hentry' : (heir, members') ∈ resolved') :
    ∃ bases, members = base.membersAlong (base :: bases)
      ∧ members' = heir.membersAlong (heir :: base :: bases) := by
  obtain ⟨lineage, hwalk, hmembers⟩ := h.members _ hentry
  obtain ⟨bases, rfl, -, -⟩ := hwalk.lineage_eq (List.nodup_singleton _) rfl
  obtain ⟨lineage', hwalk', hmembers'⟩ := h'.members _ hentry'
  refine ⟨bases, hmembers, ?_⟩
  cases hwalk' with
  | root hroot =>
      rw [hbase] at hroot
      cases hroot
  | @climb _ _ found rest hfound hmem _ hrest =>
      obtain rfl : base = found := by
        rw [hbase] at hfound
        exact hhouse.eq_of_name (hsub (h.mem hentry)) hmem
          (Option.some.inj hfound)
      have hsame : base :: bases = rest :=
        hhouse.lineage_unique (hwalk.mono hsub rfl) rfl hrest
      rw [hsame]
      exact hmembers'

/-- A leaf of the base comes to a command in the heir, unless it calls a
private method of the base by name. -/
theorem Statement.command_heir_iff (hhouse : Household space whole)
    (hsub : components ⊆ whole) (h : Resolution components resolved)
    (h' : Resolution whole resolved') (hheir : heir.IsHeir components base)
    (hsnake : Name.snakeCase base.name = base.name)
    (hsnake' : Name.snakeCase heir.name = heir.name)
    (hentry : (base, members) ∈ resolved)
    (hentry' : (heir, members') ∈ resolved') {statement : Statement}
    {command : Command}
    (hok : statement.command ⟨space, .ofComponents resolved, base.name⟩
      = .ok command) :
    (∃ command', statement.command ⟨space, .ofComponents resolved', heir.name⟩
      = .ok command')
      ↔ ¬statement.CallsPrivate (.ofComponents resolved) base.name := by
  have hpart :=
    CallTable.partOf_ofComponents h'.nodup_names (h.subset hhouse hsub h')
  have hrefused :
      (∃ command', statement.command ⟨space, .ofComponents resolved', heir.name⟩
      = .ok command') →
      ¬statement.CallsPrivate (.ofComponents resolved) base.name := by
    rintro ⟨command', hok'⟩ hprivate
    obtain ⟨method, herror⟩ :=
      hprivate.command_eq hpart (hheir.fresh base (h.mem hentry)).symm space
    rw [herror] at hok'
    cases hok'
  cases statement with
  | call name method =>
      obtain ⟨target, htarget, -⟩ := Ground.call_eq_ok.1 hok
      obtain ⟨calls, hcalls, hmethod, howner⟩ :=
        CallTable.resolve_eq_ok.1 htarget
      refine ⟨hrefused, fun hnone => ?_⟩
      refine ⟨_, Ground.call_eq_ok.2 ⟨target, CallTable.resolve_eq_ok.2
        ⟨calls, hpart _ _ hcalls, hmethod, fun hprivate => ?_⟩, rfl⟩⟩
      have hname : Name.snakeCase name = base.name :=
        (Option.some.inj (howner hprivate)).symm
      exact absurd ⟨hname, calls, target, hname ▸ hcalls, hmethod, hprivate⟩
        hnone
  | invoke method =>
      obtain ⟨target, htarget, -⟩ := Ground.call_eq_ok.1 hok
      obtain ⟨calls, hcalls, hmethod, -⟩ := CallTable.resolve_eq_ok.1 htarget
      obtain ⟨bases, rfl, rfl⟩ :=
        h.members_heir hhouse hsub h' hheir.base hentry hentry'
      have hown := CallTable.get?_of_mem h.nodup_names hentry
      dsimp only at hcalls hown
      rw [hsnake, hown] at hcalls
      cases hcalls
      -- the heir has a method of this name, and calls it as its own
      obtain ⟨target', htarget'⟩ := Option.isSome_iff_exists.1
        (Component.isSome_heir hheir.methods (Option.isSome_of_eq_some hmethod))
      refine iff_of_true
        ⟨_, Ground.call_eq_ok.2
          ⟨target', CallTable.resolve_eq_ok.2 ⟨_, ?_, htarget', fun _ => ?_⟩,
            rfl⟩⟩ not_false
      · rw [hsnake']
        exact CallTable.get?_of_mem h'.nodup_names hentry'
      · rw [hsnake']
  | attach name =>
      obtain ⟨calls, hcalls, habstract, -⟩ := Ground.onEntity_eq_ok.1 hok
      exact iff_of_true
        ⟨_, Ground.onEntity_eq_ok.2 ⟨calls, hpart _ _ hcalls, habstract, rfl⟩⟩
        not_false
  | detach name =>
      obtain ⟨calls, hcalls, habstract, -⟩ := Ground.onEntity_eq_ok.1 hok
      exact iff_of_true
        ⟨_, Ground.onEntity_eq_ok.2 ⟨calls, hpart _ _ hcalls, habstract, rfl⟩⟩
        not_false
  | _ => exact iff_of_true ⟨command, hok⟩ not_false

/-- A component that may join others can be registered with them. -/
theorem Component.IsHeir.registrable (hheir : heir.IsHeir components base)
    (h : Registrable components)
    (hspace : Name.isValidNamespace heir.space = true) :
    Registrable (heir :: components) where
  valid component hmem := by
    rcases List.mem_cons.1 hmem with rfl | hmem
    · have hmethods := hheir.methods
      exact ⟨hspace, hheir.valid, by simp [hmethods], by simp [hmethods]⟩
    · exact h.valid component hmem
  distinct := List.pairwise_cons.2
    ⟨fun other hother hsame => hheir.fresh other hother hsame.2.symm,
      h.distinct⟩

/-- A project with an heir more is prepared, as it was without. -/
theorem Component.IsHeir.prepared {project : Project}
    (hheir : heir.IsHeir components base)
    (hprepared : project.Prepared components resolved)
    (hbase : base ∈ components) (hperm : whole.Perm (heir :: components))
    (hspace : ∀ component ∈ whole, component.space = project.space) :
    ∃ resolved', project.Prepared whole resolved' := by
  have hsub : components ⊆ whole :=
    fun c hc => hperm.mem_iff.2 (List.mem_cons_of_mem heir hc)
  have hheirSpace : heir.space = project.space :=
    hspace heir (hperm.mem_iff.2 List.mem_cons_self)
  have hreg : Registrable whole := (hheir.registrable hprepared.registrable
    (hheirSpace ▸ hprepared.space)).perm hperm.symm
  have hends : ∀ component ∈ components, BaseChainEnds whole component := by
    intro component hmem
    obtain ⟨members, hentry⟩ := hprepared.resolution.exists_entry hmem
    obtain ⟨lineage, hwalk, -⟩ := hprepared.resolution.members _ hentry
    exact (hwalk.ends rfl).mono hsub
  have hallEnd : ∀ component ∈ whole, BaseChainEnds whole component := by
    intro component hmem
    rcases List.mem_cons.1 (hperm.mem_iff.1 hmem) with rfl | hmem
    · exact .climb hheir.base (hsub hbase) (hends base hbase)
    · exact hends component hmem
  obtain ⟨registry, -, hholds⟩ := Registry.registerAll_ok hreg
  have hhouse : Household project.space whole := ⟨hreg, hspace⟩
  obtain ⟨resolved', hresolution⟩ := hhouse.exists_resolution hholds hallEnd
  exact ⟨resolved', hreg, hprepared.space, hresolution⟩

/-- The heir's methods are those of the base, so they can be built if none of
them makes such a call. -/
theorem Component.IsHeir.resolves_iff (hheir : heir.IsHeir components base)
    (hhouse : Household space whole) (hsub : components ⊆ whole)
    (h : Resolution components resolved) (h' : Resolution whole resolved')
    (hsnake : Name.snakeCase base.name = base.name)
    (hsnake' : Name.snakeCase heir.name = heir.name)
    (hentry : (base, members) ∈ resolved)
    (hentry' : (heir, members') ∈ resolved')
    (hresolves : ∀ member ∈ members,
      member.Resolves ⟨space, .ofComponents resolved, base.name⟩) :
    (∀ member ∈ members',
      member.Resolves ⟨space, .ofComponents resolved', heir.name⟩)
      ↔ ∀ member ∈ members, ∀ leaf ∈ member.method.leaves,
          ¬leaf.2.CallsPrivate (.ofComponents resolved) base.name := by
  have hleaf : ∀ member ∈ members, ∀ leaf ∈ member.method.leaves,
      (∃ command, leaf.2.command ⟨space, .ofComponents resolved', heir.name⟩
        = .ok command)
        ↔ ¬leaf.2.CallsPrivate (.ofComponents resolved) base.name := by
    intro member hmember leaf hleaf
    obtain ⟨command, hok⟩ := hresolves member hmember leaf hleaf
    exact Statement.command_heir_iff hhouse hsub h h' hheir hsnake hsnake'
      hentry hentry' hok
  -- the heir has the methods of the base and no others
  obtain ⟨bases, rfl, rfl⟩ :=
    h.members_heir hhouse hsub h' hheir.base hentry hentry'
  constructor
  · intro hall member hmember leaf hmem
    obtain ⟨adopted, hadopted, hmethod, -⟩ :=
      exists_adopted hheir.methods hmember
    exact (hleaf member hmember leaf hmem).1
      (hall adopted hadopted leaf (hmethod ▸ hmem))
  · intro hnone member hmember leaf hmem
    obtain ⟨own, hown, hmethod⟩ := exists_own hheir.methods hmember
    have hmem' : leaf ∈ own.method.leaves := hmethod ▸ hmem
    exact (hleaf own hown leaf hmem').2 (hnone own hown leaf hmem')

/-- The others have the methods that they had, and these can be built as
before. -/
theorem Component.IsHeir.resolves_others (hhouse : Household space whole)
    (hsub : components ⊆ whole) (h : Resolution components resolved)
    (h' : Resolution whole resolved')
    (hresolves : ∀ entry ∈ resolved, ∀ member ∈ entry.2,
      member.Resolves ⟨space, .ofComponents resolved, entry.1.name⟩)
    {entry : Component × List Member} (hentry : entry ∈ resolved')
    (hold : entry.1 ∈ components) :
    ∀ member ∈ entry.2,
      member.Resolves ⟨space, .ofComponents resolved', entry.1.name⟩ := by
  have hpart :=
    CallTable.partOf_ofComponents h'.nodup_names (h.subset hhouse hsub h')
  intro member hmember leaf hleaf
  obtain ⟨command, hcommand⟩ :=
    hresolves _ (h.mem_of_mem hhouse hsub h' hentry hold) member hmember
      leaf hleaf
  exact ⟨command, hpart.command hcommand⟩

/-- It is for the heir alone whether all methods can be built. -/
theorem Component.IsHeir.resolves_all_iff (hheir : heir.IsHeir components base)
    (hhouse : Household space whole) (hwhole : whole.Perm (heir :: components))
    (h : Resolution components resolved) (h' : Resolution whole resolved')
    (hsnake : Name.snakeCase base.name = base.name)
    (hsnake' : Name.snakeCase heir.name = heir.name)
    (hentry : (base, members) ∈ resolved)
    (hresolves : ∀ entry ∈ resolved, ∀ member ∈ entry.2,
      member.Resolves ⟨space, .ofComponents resolved, entry.1.name⟩) :
    (∀ entry ∈ resolved', ∀ member ∈ entry.2,
        member.Resolves ⟨space, .ofComponents resolved', entry.1.name⟩)
      ↔ ∀ member ∈ members, ∀ leaf ∈ member.method.leaves,
          ¬leaf.2.CallsPrivate (.ofComponents resolved) base.name := by
  have hsub : components ⊆ whole :=
    fun c hc => hwhole.mem_iff.2 (List.mem_cons_of_mem heir hc)
  obtain ⟨members', hentry'⟩ :=
    h'.exists_entry (hwhole.mem_iff.2 List.mem_cons_self)
  rw [← hheir.resolves_iff hhouse hsub h h' hsnake hsnake' hentry hentry'
    (hresolves _ hentry)]
  refine ⟨fun hall => hall _ hentry', fun hnew => ?_⟩
  rintro ⟨component, found⟩ hfound
  rcases List.mem_cons.1 (hwhole.mem_iff.1 (h'.mem hfound)) with heq | hold
  · obtain rfl : component = heir := heq
    obtain rfl := h'.members_eq hhouse (List.Subset.refl _) h' hfound hentry'
    exact hnew
  · exact resolves_others hhouse hsub h h' hresolves hfound hold

/-- What fails is a method of the heir, and it fails at a call of a private
method of the base. -/
theorem Component.IsHeir.eq_of_bodyFailure {project : Project}
    (hheir : heir.IsHeir components base)
    (hhouse : Household project.space whole)
    (hwhole : whole.Perm (heir :: components))
    (h : Resolution components resolved) (h' : Resolution whole resolved')
    (hsnake : Name.snakeCase base.name = base.name)
    (hsnake' : Name.snakeCase heir.name = heir.name)
    (hentry : (base, members) ∈ resolved)
    (hresolves : ∀ entry ∈ resolved, ∀ member ∈ entry.2,
      member.Resolves (project.groundOf resolved entry.1))
    {failure : Failure} (hfailure : project.BodyFailure resolved' failure) :
    ∃ key method : String, failure = .step s!"component \"{heir.name}\""
      (.step s!"component method \"{key}\""
        (.defect (.privateMethod base.name method))) := by
  have hsub : components ⊆ whole :=
    fun c hc => hwhole.mem_iff.2 (List.mem_cons_of_mem heir hc)
  cases hfailure with
  | @leaf before after component earlier later member leaves others leaf defect
      hsplit _ _ hleaves _ hdefect =>
      have hfound : (component, earlier ++ member :: later) ∈ resolved' := by
        rw [hsplit]
        exact List.mem_append_right _ List.mem_cons_self
      have hmember : member ∈ earlier ++ member :: later :=
        List.mem_append_right _ List.mem_cons_self
      have hleaf : leaf ∈ member.method.leaves := by
        rw [hleaves]
        exact List.mem_append_right _ List.mem_cons_self
      rcases List.mem_cons.1 (hwhole.mem_iff.1 (h'.mem hfound)) with heq | hold
      · obtain rfl : component = heir := heq
        -- the method is one of the base, where the call was allowed
        obtain ⟨bases, rfl, hmembers⟩ :=
          h.members_heir hhouse hsub h' hheir.base hentry hfound
        rw [hmembers] at hmember
        obtain ⟨own, hown, hmethod⟩ := exists_own hheir.methods hmember
        obtain ⟨command, hok⟩ :=
          hresolves _ hentry own hown leaf (hmethod ▸ hleaf)
        have hprivate : leaf.2.CallsPrivate (.ofComponents resolved)
            base.name := by
          by_contra hnone
          obtain ⟨command', hok'⟩ :=
            (Statement.command_heir_iff hhouse hsub h h' hheir hsnake hsnake'
              hentry hfound hok).2 hnone
          exact nomatch hok'.symm.trans hdefect
        obtain ⟨method, herror⟩ := hprivate.command_eq
          (CallTable.partOf_ofComponents h'.nodup_names
            (h.subset hhouse hsub h'))
          (hheir.fresh base (h.mem hentry)).symm project.space
        obtain rfl := Except.error.inj (hdefect.symm.trans herror)
        exact ⟨member.key, method, rfl⟩
      · obtain ⟨command, hok⟩ :=
          resolves_others hhouse hsub h h' hresolves hfound hold member hmember
            leaf hleaf
        exact nomatch hok.symm.trans hdefect

end

/-- The name of a described component is in snake case already. -/
theorem Component.Described.snakeCase_name {space : String}
    {component : Component} (h : component.Described space) :
    Name.snakeCase component.name = component.name := by
  obtain ⟨declared, hname⟩ := h.name
  rw [hname, Name.snakeCase_snakeCase]

/-- A project that builds can be extended by an heir without methods of any of
its components, with any name that is valid and not taken, exactly when no
method of that component calls a private method of it by its name. Otherwise
the build fails in a method of the heir, and the defect is that call. -/
theorem ProjectManifest.heir_builds_iff (manifest : ProjectManifest)
    (files : List (String × ComponentManifest)) {pack : Pack}
    (h : manifest.toProject.build (manifest.components files) = .ok pack)
    {base : Component} (hbase : base ∈ manifest.components files)
    (file : String) (heir : ComponentManifest)
    (hheir : (heir.toComponent manifest.space file).IsHeir
      (manifest.components files) base)
    {files' : List (String × ComponentManifest)}
    (hperm : files'.Perm ((file, heir) :: files)) :
    ((∃ pack',
      manifest.toProject.build (manifest.components files') = .ok pack')
      ↔ ∀ resolved members, Resolution (manifest.components files) resolved →
          (base, members) ∈ resolved →
            ∀ member ∈ members, ∀ leaf ∈ member.method.leaves,
              ¬leaf.2.CallsPrivate (CallTable.ofComponents resolved) base.name)
      ∧ ∀ failure,
        manifest.toProject.build (manifest.components files') = .error failure →
          ∃ key method : String,
            failure = .step s!"project \"{manifest.name}\""
              (.step
                s!"component \"{(heir.toComponent manifest.space file).name}\""
                (.step s!"component method \"{key}\""
                  (.defect (.privateMethod base.name method)))) := by
  have hspace := manifest.space_components files'
  have hdescribed := manifest.described files'
  have hwhole : (manifest.components files').Perm
      (heir.toComponent manifest.space file :: manifest.components files) :=
    hperm.map _
  obtain ⟨resolved, hbuilt⟩ := built_of_build h
  obtain ⟨resolved', hprepared⟩ :=
    hheir.prepared hbuilt.toPrepared hbase hwhole hspace
  obtain ⟨members, hentry⟩ := hbuilt.resolution.exists_entry hbase
  have hold := (hbuilt.toPrepared.result_ok_iff
    fun component hmem => (manifest.described files component hmem).bodies).1
    hbuilt.result
  have hsnake :=
    (hdescribed base (hwhole.mem_iff.2 (.tail _ hbase))).snakeCase_name
  have hsnake' :=
    (hdescribed _ (hwhole.mem_iff.2 List.mem_cons_self)).snakeCase_name
  have hbodies : ∀ component ∈ manifest.components files',
      ∀ method ∈ component.methods, method.IsStatements :=
    fun component hmem => (hdescribed component hmem).bodies
  constructor
  · have hall := hheir.resolves_all_iff ⟨hprepared.registrable, hspace⟩ hwhole
      hbuilt.resolution hprepared.resolution hsnake hsnake' hentry hold
    refine (hprepared.build_iff hbodies hspace).trans
      (hall.trans
        ⟨?_, fun hnone => hnone resolved members hbuilt.resolution hentry⟩)
    -- there is one resolution, and in it the base has one list of methods
    intro hnone other found hother hfound
    have hhouse : Household manifest.space (manifest.components files) :=
      ⟨hbuilt.registrable, manifest.space_components files⟩
    obtain rfl := hother.unique hhouse hbuilt.resolution
    obtain rfl :=
      hother.members_eq hhouse (List.Subset.refl _) hother hfound hentry
    exact hnone
  · intro failure hfailure
    rw [hprepared.build_eq hspace] at hfailure
    split at hfailure
    · next inner hresult =>
      obtain ⟨key, method, rfl⟩ :=
        hheir.eq_of_bodyFailure ⟨hprepared.registrable, hspace⟩ hwhole
          hbuilt.resolution hprepared.resolution hsnake hsnake' hentry hold
        ((hprepared.result_error_iff hbodies).1 hresult)
      exact ⟨key, method, (Except.error.inj hfailure).symm⟩
    · cases hfailure

-- =============================================================== an example

namespace Safes

def manifest : ProjectManifest := { name := "Demo", space := "demo" }

def safe (body : List Statement) : ComponentManifest where
  methods :=
    [{ name := "open", body := body },
     { name := "unlock", visibility := .owner, body := [.say "click"] }]

/-- A safe that calls its private method without a name. -/
def invoking : List (String × ComponentManifest) :=
  [("Safe", safe [.invoke "unlock"])]

/-- A safe that calls its private method by its own name. -/
def calling : List (String × ComponentManifest) :=
  [("Safe", safe [.call "Safe" "unlock"])]

def vault : ComponentManifest := { base := some "Safe" }

private theorem isHeir (body : List Statement) :
    (vault.toComponent "demo" "Vault").IsHeir
      [(safe body).toComponent "demo" "Safe"]
      ((safe body).toComponent "demo" "Safe") where
  base := rfl
  methods := rfl
  valid := by decide
  fresh other hother := by
    rw [List.mem_singleton.1 hother]
    show Name.snakeCase "Safe" ≠ Name.snakeCase "Vault"
    decide

set_option maxRecDepth 100000 in
/-- The base whose method invokes a private one builds. -/
private theorem build_invoking :
    ∃ pack, manifest.toProject.build (manifest.components invoking)
      = .ok pack :=
  exists_of_isOk (by decide +kernel)

set_option maxRecDepth 100000 in
/-- The base whose method calls a private one by its own name builds. -/
private theorem build_calling :
    ∃ pack, manifest.toProject.build (manifest.components calling) = .ok pack :=
  exists_of_isOk (by decide +kernel)

set_option maxRecDepth 100000 in
/-- With the heir the same call comes from outside and fails. -/
private theorem build_vault :
    manifest.toProject.build (manifest.components (("Vault", vault) :: calling))
      = .error (.step "project \"Demo\"" (.step "component \"vault\""
          (.step "component method \"safe/open\""
            (.defect (.privateMethod "safe" "unlock"))))) := by
  decide +kernel

end Safes

/-- The vault inherits a body that invokes its private method. -/
theorem ProjectManifest.vault_builds :
    (∃ pack,
      Safes.manifest.toProject.build (Safes.manifest.components Safes.invoking)
        = .ok pack)
      ∧ ∃ pack, Safes.manifest.toProject.build
          (Safes.manifest.components (("Vault", Safes.vault) :: Safes.invoking))
          = .ok pack := by
  obtain ⟨pack, hbuild⟩ := Safes.build_invoking
  refine ⟨⟨pack, hbuild⟩,
    (heir_builds_iff Safes.manifest Safes.invoking hbuild List.mem_cons_self
      "Vault" Safes.vault (Safes.isHeir _) (.refl _)).1.2 ?_⟩
  intro resolved members hresolution hentry member hmember leaf hleaf
  -- all methods are declared by the safe, and none of their leaves calls by
  -- name
  obtain ⟨component, hcomponent, hmethod⟩ := hresolution.declared hentry hmember
  rw [List.mem_singleton.1 hcomponent] at hmethod
  rcases List.mem_cons.1 hmethod with heq | hmethod
  · rw [heq] at hleaf
    rw [List.mem_singleton.1 hleaf]
    exact not_false
  · rw [List.mem_singleton.1 hmethod] at hleaf
    rw [List.mem_singleton.1 hleaf]
    exact not_false

/-- The vault cannot inherit a body that calls a private method of the safe by
the safe's name. -/
theorem ProjectManifest.heir_refused :
    (∃ pack,
      Safes.manifest.toProject.build (Safes.manifest.components Safes.calling)
        = .ok pack)
      ∧ (∃ base ∈ Safes.manifest.components Safes.calling,
          (Safes.vault.toComponent "demo" "Vault").IsHeir
            (Safes.manifest.components Safes.calling) base)
      ∧ ¬∃ pack, Safes.manifest.toProject.build
          (Safes.manifest.components (("Vault", Safes.vault) :: Safes.calling))
          = .ok pack := by
  refine ⟨Safes.build_calling, ⟨_, List.mem_cons_self, Safes.isHeir _⟩, ?_⟩
  rintro ⟨pack, hbuild⟩
  rw [Safes.build_vault] at hbuild
  cases hbuild

end Datapack
