/-
Projects that grow.

A component that joins a project changes nothing for those that are there.
Their bases are where they were, so they have the methods that they had
(`Resolution.subset`), and the call table has all that it had. A call that
led somewhere leads there still, since the table is asked for one component
and one method at a time (`CallTable.PartOf.command`). What can go wrong is
only with the component that is new.
-/
import Datapack.Proofs.Calls

namespace Datapack

-- ================================================================== bases

variable {components whole : List Component}

/-- A walk that ends goes the same way among more components. -/
theorem BaseWalk.mono (hsub : components ⊆ whole) {walked : List String}
    {component : Component} {result : Except Defect (List Component)}
    {lineage : List Component} (h : BaseWalk components walked component result)
    (hok : result = .ok lineage) :
    BaseWalk whole walked component (.ok lineage) := by
  induction h generalizing lineage with
  | root hbase =>
      cases hok
      exact .root hbase
  | climb hbase hmem hnew _ ih =>
      cases hok
      exact .climb hbase (hsub hmem) hnew (ih rfl)
  | _ => cases hok

/-- A chain of bases that ends does so among more components. -/
theorem BaseChainEnds.mono (hsub : components ⊆ whole) {component : Component}
    (h : BaseChainEnds components component) :
    BaseChainEnds whole component := by
  induction h with
  | root hbase => exact .root hbase
  | climb hbase hmem _ ih => exact .climb hbase (hsub hmem) ih

/-- What is met on a walk that ends does not depend on what was met before. -/
theorem Household.lineage_unique {space : String}
    (h : Household space components) {walked walked' : List String}
    {component : Component} {result : Except Defect (List Component)}
    {lineage lineage' : List Component}
    (hwalk : BaseWalk components walked component result)
    (hok : result = .ok lineage)
    (hwalk' : BaseWalk components walked' component (.ok lineage')) :
    lineage = lineage' := by
  induction hwalk generalizing walked' lineage lineage' with
  | root hbase =>
      cases hok
      cases hwalk' with
      | root => rfl
      | climb hbase' =>
          rw [hbase] at hbase'
          cases hbase'
  | climb hbase hmem _ _ ih =>
      cases hok
      cases hwalk' with
      | root hbase' =>
          rw [hbase] at hbase'
          cases hbase'
      | climb hbase' hmem' _ hrest' =>
          rw [hbase] at hbase'
          obtain rfl := h.eq_of_name hmem hmem' (Option.some.inj hbase')
          rw [ih rfl hrest']
  | _ => cases hok

-- ============================================================ resolutions

namespace Resolution

variable {space : String} {resolved resolved' : List (Component × List Member)}

/-- Each component is there with its methods. -/
theorem exists_entry (h : Resolution components resolved)
    {component : Component} (hmem : component ∈ components) :
    ∃ members, (component, members) ∈ resolved := by
  obtain ⟨⟨_, members⟩, hentry, rfl⟩ := List.mem_map.1 (h.perm.mem_iff.2 hmem)
  exact ⟨members, hentry⟩

/-- The components of a resolution have different names. -/
theorem nodup_names (h : Resolution components resolved) :
    (resolved.map fun entry => entry.1.name).Nodup := by
  have hsorted := h.sorted
  rw [List.pairwise_map] at hsorted
  exact List.pairwise_map.2 (hsorted.imp String.ne_of_lt)

/-- Among more components, a component has the methods that it had. -/
theorem members_eq (hhouse : Household space whole) (hsub : components ⊆ whole)
    (h : Resolution components resolved) (h' : Resolution whole resolved')
    {component : Component} {members members' : List Member}
    (hentry : (component, members) ∈ resolved)
    (hentry' : (component, members') ∈ resolved') :
    members = members' := by
  obtain ⟨lineage, hwalk, hmembers⟩ := h.members _ hentry
  obtain ⟨lineage', hwalk', hmembers'⟩ := h'.members _ hentry'
  have hsame : lineage = lineage' :=
    hhouse.lineage_unique (hwalk.mono hsub rfl) rfl hwalk'
  calc members = component.membersAlong lineage := hmembers
    _ = component.membersAlong lineage' := by rw [hsame]
    _ = members' := hmembers'.symm

/-- The components of a smaller project have the methods that they have in
the larger one. -/
theorem subset (hhouse : Household space whole) (hsub : components ⊆ whole)
    (h : Resolution components resolved) (h' : Resolution whole resolved') :
    resolved ⊆ resolved' := by
  rintro ⟨component, members⟩ hentry
  obtain ⟨members', hentry'⟩ := h'.exists_entry (hsub (h.mem hentry))
  rw [h.members_eq hhouse hsub h' hentry hentry']
  exact hentry'

/-- What is resolved among more components is one of the new ones, or as it
was before. -/
theorem mem_of_mem (hhouse : Household space whole) (hsub : components ⊆ whole)
    (h : Resolution components resolved) (h' : Resolution whole resolved')
    {entry : Component × List Member} (hentry : entry ∈ resolved')
    (hmem : entry.1 ∈ components) :
    entry ∈ resolved := by
  obtain ⟨component, members'⟩ := entry
  obtain ⟨members, hold⟩ := h.exists_entry hmem
  rw [← h.members_eq hhouse hsub h' hold hentry]
  exact hold

/-- There is one resolution. -/
theorem unique (hhouse : Household space components)
    (h : Resolution components resolved)
    (h' : Resolution components resolved') : resolved = resolved' := by
  obtain ⟨registry, -, hholds⟩ := Registry.registerAll_ok hhouse.registrable
  exact Except.ok.inj ((hhouse.resolveAll_of_resolution hholds h).symm.trans
    (hhouse.resolveAll_of_resolution hholds h'))

end Resolution

-- ============================================================ call tables

namespace CallTable

/-- The whole has everything that the table has. -/
def PartOf (table whole : CallTable) : Prop :=
  ∀ name calls, table.get? name = some calls → whole.get? name = some calls

/-- Components of other names do not change what the table has under a
name. -/
private theorem get?_foldl_insert {name : String} :
    ∀ (resolved : List (Component × List Member)) (table : CallTable),
      (∀ entry ∈ resolved, entry.1.name ≠ name) →
      (resolved.foldl (fun table entry => table.insertComponent entry.1 entry.2)
        table).get? name
        = table.get? name
  | [], _, _ => rfl
  | entry :: rest, table, h => by
      rw [List.foldl_cons, get?_foldl_insert rest _ fun other hother =>
        h other (List.mem_cons_of_mem entry hother)]
      unfold insertComponent
      rw [Table.get?_insert, if_neg (h entry List.mem_cons_self).symm]

/-- A component with a name of its own is found under it. -/
theorem get?_of_mem {resolved : List (Component × List Member)}
    (hnodup : (resolved.map fun entry => entry.1.name).Nodup)
    {entry : Component × List Member} (hentry : entry ∈ resolved) :
    (ofComponents resolved).get? entry.1.name
      = some (.ofMembers entry.1.isAbstract entry.2) := by
  obtain ⟨before, after, rfl⟩ := List.append_of_mem hentry
  rw [List.map_append, List.map_cons, List.nodup_append,
    List.nodup_cons] at hnodup
  have hafter : ∀ other ∈ after, other.1.name ≠ entry.1.name :=
    fun other hother hname => hnodup.2.1.1 (hname ▸ List.mem_map_of_mem hother)
  unfold ofComponents
  rw [List.foldl_append, List.foldl_cons, get?_foldl_insert after _ hafter]
  unfold insertComponent
  rw [Table.get?_insert, if_pos rfl]

/-- The call table of more components has all that the table of fewer has. -/
theorem partOf_ofComponents
    {resolved resolved' : List (Component × List Member)}
      (hnodup : (resolved'.map fun entry => entry.1.name).Nodup)
      (hsub : resolved ⊆ resolved') :
    (ofComponents resolved).PartOf (ofComponents resolved') := by
  intro name calls hcalls
  obtain ⟨entry, hentry, rfl, rfl⟩ := get?_ofComponents hcalls
  exact get?_of_mem hnodup (hsub hentry)

namespace PartOf

variable {table whole : CallTable} (h : table.PartOf whole)

include h

/-- A call that is resolved by part of a table is resolved alike by
all of it. -/
private theorem resolve {caller : Option String} {component method : String}
    {target : CallTarget}
    (hok : table.resolve caller component method = .ok target) :
    whole.resolve caller component method = .ok target := by
  obtain ⟨calls, hcalls, hrest⟩ := resolve_eq_ok.1 hok
  exact resolve_eq_ok.2 ⟨calls, h _ _ hcalls, hrest⟩

/-- A call that comes to a command comes to the same one with a larger
table. -/
private theorem call {space component name method : String} {command : Command}
    (hok : Ground.call ⟨space, table, component⟩ name method = .ok command) :
    Ground.call ⟨space, whole, component⟩ name method = .ok command := by
  obtain ⟨target, htarget, hcommand⟩ := Ground.call_eq_ok.1 hok
  exact Ground.call_eq_ok.2 ⟨target, h.resolve htarget, hcommand⟩

private theorem onEntity {space component name : String}
    {location : String → String} {command : Command}
    (hok : Ground.onEntity ⟨space, table, component⟩ name location
      = .ok command) :
    Ground.onEntity ⟨space, whole, component⟩ name location = .ok command := by
  obtain ⟨calls, hcalls, hrest⟩ := Ground.onEntity_eq_ok.1 hok
  exact Ground.onEntity_eq_ok.2 ⟨calls, h _ _ hcalls, hrest⟩

/-- A statement that comes to a command comes to the same one with a larger
table. -/
theorem command {space component : String} {statement : Statement}
    {command : Command}
    (hok : statement.command ⟨space, table, component⟩ = .ok command) :
    statement.command ⟨space, whole, component⟩ = .ok command := by
  cases statement with
  | invoke method => exact h.call hok
  | call name method => exact h.call hok
  | attach name => exact h.onEntity hok
  | detach name => exact h.onEntity hok
  | _ => exact hok

end PartOf

end CallTable

end Datapack
