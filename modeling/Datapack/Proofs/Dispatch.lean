/-
Which declaration a call finds.

The methods of a component go into the call table nearest first, each under
its key and, while that is free, under its name. Keys of inherited methods have
a slash and names have none, so neither takes the place of the other: a name
stays with the nearest declaration of it, and the declarations further up the
chain are still found behind the names of their declarers. `Selects` says this
of the chain alone, and `get?_of_selects` of the table.
-/
import Datapack.Proofs.Calls
import Datapack.Proofs.FlatMembers

namespace Datapack

-- ============================================================== selection

/-- The declaration that a text stands for in a call of the component that
the chain starts with, and its position in the chain. -/
inductive Selects (chain : List Component) :
    String → Nat → Component → Method → Prop
  /-- A name stands for the nearest declaration of it. -/
  | nearest {front rest : List Component} {declarer : Component}
    {method : Method} :
      chain = front ++ declarer :: rest → method ∈ declarer.methods →
      (∀ nearer ∈ front, ∀ other ∈ nearer.methods, other.name ≠ method.name) →
      Selects chain method.name front.length declarer method
  /-- Behind the name of an ancestor, a name stands for the declaration in that
  ancestor, overridden or not. -/
  | ancestral {front rest : List Component} {declarer : Component}
    {method : Method} :
      chain = front ++ declarer :: rest →
        front ≠ [] → method ∈ declarer.methods →
      Selects chain s!"{declarer.name}/{method.name}" front.length
        declarer method

/-- A name that is declared somewhere on a chain has a nearest declaration. -/
theorem exists_nearest {name : String} : ∀ {chain : List Component},
    (∃ declarer ∈ chain, ∃ method ∈ declarer.methods, method.name = name) →
    ∃ front declarer rest method, chain = front ++ declarer :: rest
      ∧ method ∈ declarer.methods ∧ method.name = name
      ∧ ∀ nearer ∈ front, ∀ other ∈ nearer.methods, other.name ≠ name
  | [], h => by
      obtain ⟨_, hnil, -⟩ := h
      cases hnil
  | first :: others, h => by
      by_cases hfirst : ∃ method ∈ first.methods, method.name = name
      · obtain ⟨method, hmethod, hname⟩ := hfirst
        exact ⟨[], first, others, method, rfl, hmethod, hname,
          List.forall_mem_nil _⟩
      · obtain ⟨declarer, hdeclarer, hdeclared⟩ := h
        rcases List.mem_cons.1 hdeclarer with rfl | hdeclarer
        · exact absurd hdeclared hfirst
        obtain ⟨front, declarer, rest, method, rfl, hmethod, hname, hnearer⟩ :=
          exists_nearest ⟨declarer, hdeclarer, hdeclared⟩
        refine ⟨first :: front, declarer, rest, method, rfl, hmethod, hname,
          List.forall_mem_cons.2
            ⟨fun other hother hsame => hfirst ⟨other, hother, hsame⟩, hnearer⟩⟩

-- =================================================================== keys

private theorem Name.toList_qualified (owner name : String) :
    (s!"{owner}/{name}").toList = owner.toList ++ '/' :: name.toList := by
  show (owner ++ "/" ++ name).toList = _
  simp

/-- The names on both sides of a slash are read off the key. -/
theorem Name.qualified_inj {owner other name next : String}
    (howner : '/' ∉ owner.toList) (hname : '/' ∉ name.toList)
    (h : s!"{owner}/{name}" = s!"{other}/{next}") :
    owner = other ∧ name = next := by
  have hlist := congrArg String.toList h
  rw [Name.toList_qualified, Name.toList_qualified] at hlist
  obtain ⟨hfirst, -, hsecond⟩ :=
    (List.append_cons_inj_of_notMem howner hname).1 hlist
  exact ⟨String.toList_inj.1 hfirst, String.toList_inj.1 hsecond⟩

/-- A qualified name has a slash in it. -/
theorem Name.slash_mem_qualified (owner name : String) :
    '/' ∈ (s!"{owner}/{name}").toList := by
  rw [Name.toList_qualified]
  exact List.mem_append_right _ List.mem_cons_self

/-- In a list without duplicates, everything beside a place is different from
what is there. -/
theorem ne_of_nodup_middle {α β : Type} {f : α → β}
    {before after : List α} {a : α} (h : ((before ++ a :: after).map f).Nodup)
    {b : α} (hb : b ∈ before ∨ b ∈ after) :
    f b ≠ f a := by
  rw [List.map_append, List.map_cons] at h
  have hnew := (List.nodup_cons.1 (List.nodup_middle.1 h)).1
  rw [← List.map_append] at hnew
  exact fun hsame => hnew (hsame ▸ List.mem_map_of_mem (List.mem_append.2 hb))

namespace Component

variable {component declarer other : Component} {chain : List Component}
  {position : Nat} {method sibling : Method}

/-- The key of another method is no name, unless it is an own method. -/
theorem key_ne_name {name : String} (hname : '/' ∉ name.toList)
    (h : position = 0 → sibling.name ≠ name) :
    (component.flatMember chain position other sibling).key ≠ name := by
  show (if position = 0 then sibling.name else s!"{other.name}/{sibling.name}")
    ≠ name
  split
  · exact h ‹_›
  · rintro rfl
    exact hname (Name.slash_mem_qualified _ _)

/-- The key of a method is not that of another declaration behind the name
of its declarer. -/
private theorem key_ne_qualified (hother : other.Valid)
    (hsibling : sibling ∈ other.methods)
    (h : other.name = declarer.name → sibling.name ≠ method.name) :
    (component.flatMember chain position other sibling).key
      ≠ s!"{declarer.name}/{method.name}" := by
  have hplain : '/' ∉ sibling.name.toList :=
    Name.notMem_of_isValid (hother.methods sibling hsibling) (by decide)
  show (if position = 0 then sibling.name else s!"{other.name}/{sibling.name}")
    ≠ _
  split
  · exact fun hsame => hplain (hsame ▸ Name.slash_mem_qualified _ _)
  · intro hsame
    obtain ⟨howner, hname⟩ :=
      Name.qualified_inj
        (Name.notMem_of_isValid hother.name (by decide)) hplain hsame
    exact h howner hname

/-- The methods of a chain before and behind a method. -/
theorem flatMembers_split {front rest : List Component}
    {before after : List Method}
    (hmethods : declarer.methods = before ++ method :: after) :
    component.flatMembers (front ++ declarer :: rest)
      = (front.zipIdx.flatMap (fun entry => entry.1.methods.map
            (component.flatMember (front ++ declarer :: rest) entry.2 entry.1))
          ++ before.map
            (component.flatMember (front ++ declarer :: rest) front.length
              declarer))
        ++ component.flatMember (front ++ declarer :: rest) front.length
          declarer method
        :: (after.map
          (component.flatMember (front ++ declarer :: rest) front.length
            declarer)
          ++ (rest.zipIdx (front.length + 1)).flatMap
            (fun entry =>
              entry.1.methods.map
                (component.flatMember (front ++ declarer :: rest) entry.2
                  entry.1))) := by
  unfold flatMembers
  rw [List.zipIdx_append, List.zipIdx_cons, List.flatMap_append,
    List.flatMap_cons, hmethods, List.map_append, List.map_cons, Nat.zero_add,
    List.append_assoc, List.append_assoc, List.cons_append]

/-- Every member of a chain is a method that some component of the chain
declares. -/
private theorem mem_flatMembers {member : Member}
    (h : member ∈ component.flatMembers chain) :
    ∃ front declarer rest method, chain = front ++ declarer :: rest
      ∧ method ∈ declarer.methods
      ∧ member = component.flatMember chain front.length declarer method := by
  obtain ⟨⟨declarer, position⟩, hentry, hmember⟩ := List.mem_flatMap.1 h
  obtain ⟨method, hmethod, rfl⟩ := List.mem_map.1 hmember
  obtain ⟨hposition, hget⟩ :=
    List.getElem?_eq_some_iff.1 (List.mem_zipIdx_iff_getElem?.1 hentry)
  dsimp only at hposition hget hmethod
  subst hget
  refine ⟨chain.take position, _, chain.drop (position + 1), method, ?_,
    hmethod, ?_⟩
  · rw [List.getElem_cons_drop, List.take_append_drop]
  · rw [List.length_take_of_le (Nat.le_of_lt hposition)]

end Component

-- ============================================================== the table

namespace ComponentCalls

variable {text : String} {target : CallTarget}

/-- What is found under a text after a method was added. -/
theorem get?_insertMember_eq (methods : Table CallTarget) (member : Member)
    (text : String) :
    (insertMember methods member).get? text
      = if text = member.key then
          some ⟨member.location, member.method.visibility⟩
        else if text = member.method.name then
          some ((methods.get? text).getD
            ⟨member.location, member.method.visibility⟩)
        else methods.get? text := by
  unfold insertMember
  rw [Table.get?_insertNew, Table.get?_insert, Table.get?_insert]
  by_cases hname : text = member.method.name
  · subst hname
    rw [if_pos rfl, if_pos rfl]
    split <;> rfl
  · rw [if_neg hname, if_neg hname]

/-- Methods with other keys and names leave a text as it was. -/
theorem get?_foldl_of_ne :
    ∀ {members : List Member} (methods : Table CallTarget),
      (∀ member ∈ members, member.key ≠ text ∧ member.method.name ≠ text) →
    (members.foldl insertMember methods).get? text = methods.get? text
  | [], _, _ => rfl
  | member :: rest, methods, h => by
      obtain ⟨hkey, hname⟩ := h member List.mem_cons_self
      rw [List.foldl_cons, get?_foldl_of_ne _ fun other hother =>
        h other (List.mem_cons_of_mem member hother), get?_insertMember_eq,
        if_neg hkey.symm, if_neg hname.symm]

/-- What is found under a text is not replaced by methods of that name. -/
theorem get?_foldl_of_key_ne :
    ∀ {members : List Member} {methods : Table CallTarget},
      methods.get? text = some target →
        (∀ member ∈ members, member.key ≠ text) →
    (members.foldl insertMember methods).get? text = some target
  | [], _, hfound, _ => hfound
  | member :: rest, methods, hfound, h => by
      rw [List.foldl_cons]
      refine get?_foldl_of_key_ne ?_ fun other hother =>
        h other (List.mem_cons_of_mem member hother)
      rw [get?_insertMember_eq, if_neg (h member List.mem_cons_self).symm,
        hfound, Option.getD_some, ite_self]

/-- The first method with a text as key or name is found under it, if no
method behind it has the text as key. -/
theorem get?_ofMembers_first {isAbstract : Bool} {front rest : List Member}
    {member : Member} (hmember : member.key = text ∨ member.method.name = text)
    (hfront : ∀ other ∈ front, other.key ≠ text ∧ other.method.name ≠ text)
    (hrest : ∀ other ∈ rest, other.key ≠ text) :
    (ofMembers isAbstract (front ++ member :: rest)).methods.get? text
      = some ⟨member.location, member.method.visibility⟩ := by
  show ((front ++ member :: rest).foldl insertMember Table.empty).get? text = _
  have hfree : (front.foldl insertMember Table.empty).get? text = none := by
    rw [get?_foldl_of_ne _ hfront, Table.get?_empty]
  rw [List.foldl_append, List.foldl_cons]
  refine get?_foldl_of_key_ne ?_ hrest
  rw [get?_insertMember_eq, hfree]
  rcases hmember with rfl | rfl
  · rw [if_pos rfl]
  · rw [if_pos rfl]
    exact ite_self _

/-- A method of a chain is found under a text if no nearer method has it as
key or name and none further up has it as key. -/
theorem get?_flatMembers {isAbstract : Bool} {component declarer : Component}
    {front rest : List Component} {method : Method}
    (hmethod : method ∈ declarer.methods)
    (hdistinct : (declarer.methods.map Method.name).Nodup)
    (htext :
      (component.flatMember (front ++ declarer :: rest) front.length declarer
        method).key
      = text ∨ method.name = text)
    (hnearer : ∀ position, ∀ nearer ∈ front, ∀ other ∈ nearer.methods,
      (component.flatMember (front ++ declarer :: rest) position nearer
        other).key ≠ text
        ∧ other.name ≠ text)
    (hown : ∀ other ∈ declarer.methods, other.name ≠ method.name →
      (component.flatMember (front ++ declarer :: rest) front.length declarer
        other).key ≠ text
        ∧ other.name ≠ text)
    (hfurther : ∀ position ≠ 0, ∀ further ∈ rest, ∀ other ∈ further.methods,
      (component.flatMember (front ++ declarer :: rest) position further
        other).key ≠ text) :
    (ofMembers isAbstract
      (component.flatMembers (front ++ declarer :: rest))).methods.get? text
      = some ⟨(component.flatMember (front ++ declarer :: rest)
        front.length declarer
          method).location, method.visibility⟩ := by
  -- the table keeps the first entry under a text, so nothing before the
  -- method may have it as a key or a name, and nothing behind as a key
  obtain ⟨before, after, hmethods⟩ := List.append_of_mem hmethod
  rw [hmethods] at hdistinct hown
  have hbefore := fun other (hother : other ∈ before) =>
    hown other (List.mem_append_left _ hother)
      (ne_of_nodup_middle hdistinct (.inl hother))
  have hafter := fun other (hother : other ∈ after) =>
    hown other (List.mem_append_right _ (List.mem_cons_of_mem _ hother))
      (ne_of_nodup_middle hdistinct (.inr hother))
  rw [Component.flatMembers_split hmethods]
  refine get?_ofMembers_first htext (fun member hmember => ?_)
    fun member hmember => ?_
  · rcases List.mem_append.1 hmember with hmember | hmember
    · obtain ⟨⟨nearer, position⟩, hentry, hmember⟩ := List.mem_flatMap.1 hmember
      obtain ⟨other, hother, rfl⟩ := List.mem_map.1 hmember
      exact hnearer position nearer (List.fst_mem_of_mem_zipIdx hentry)
        other hother
    · obtain ⟨other, hother, rfl⟩ := List.mem_map.1 hmember
      exact hbefore other hother
  · rcases List.mem_append.1 hmember with hmember | hmember
    · obtain ⟨other, hother, rfl⟩ := List.mem_map.1 hmember
      exact (hafter other hother).1
    · obtain ⟨⟨further, position⟩, hentry, hmember⟩ :=
        List.mem_flatMap.1 hmember
      obtain ⟨other, hother, rfl⟩ := List.mem_map.1 hmember
      have hposition := List.le_snd_of_mem_zipIdx hentry
      exact hfurther position
        (Nat.ne_of_gt (Nat.lt_of_lt_of_le (Nat.succ_pos _) hposition)) further
        (List.fst_mem_of_mem_zipIdx hentry) other hother

variable {component : Component} {chain : List Component}

/-- What a text selects is found under it. -/
theorem get?_of_selects (hvalid : ∀ inner ∈ chain, inner.Valid)
    (hnodup : (chain.map Component.name).Nodup) {isAbstract : Bool}
    {position : Nat} {declarer : Component} {method : Method}
    (h : Selects chain text position declarer method) :
    (ofMembers isAbstract (component.flatMembers chain)).methods.get? text
      = some ⟨(component.flatMember chain position declarer method).location,
          method.visibility⟩ := by
  have hplain : ∀ {inner : Component}, inner ∈ chain → ∀ {other : Method},
      other ∈ inner.methods → '/' ∉ other.name.toList := fun hinner _ hother =>
    Name.notMem_of_isValid ((hvalid _ hinner).methods _ hother) (by decide)
  cases h with
  | @nearest front rest _ _ hchain hmethod hnearer =>
      subst hchain
      have hdeclarer : declarer ∈ front ++ declarer :: rest := by simp
      have hname := hplain hdeclarer hmethod
      refine get?_flatMembers hmethod (hvalid _ hdeclarer).distinct
        (.inr rfl) ?_ ?_ ?_
      · intro _ nearer hin other hother
        have hne := hnearer nearer hin other hother
        exact ⟨Component.key_ne_name hname fun _ => hne, hne⟩
      · exact fun other _ hne => ⟨Component.key_ne_name hname fun _ => hne, hne⟩
      · exact fun _ hposition _ _ _ _ =>
          Component.key_ne_name hname fun hzero => absurd hzero hposition
  | @ancestral front rest _ _ hchain hfront hmethod =>
      subst hchain
      have hdeclarer : declarer ∈ front ++ declarer :: rest := by simp
      have hslash : ∀ inner ∈ front ++ declarer :: rest,
          ∀ other ∈ inner.methods,
            other.name ≠ s!"{declarer.name}/{method.name}" :=
        fun inner hinner other hother hsame =>
          hplain hinner hother (hsame ▸ Name.slash_mem_qualified _ _)
      -- no other component of the chain has the name of the declarer
      have hkey : ∀ inner,
          inner ∈ front ∨ inner ∈ rest →
            ∀ position,
              ∀ other ∈ inner.methods,
                (component.flatMember (front ++ declarer :: rest) position inner
                  other).key
            ≠ s!"{declarer.name}/{method.name}" := by
        intro inner hinner position other hother
        have hin : inner ∈ front ++ declarer :: rest :=
          List.mem_append.2 (hinner.imp_right (List.mem_cons_of_mem _))
        exact Component.key_ne_qualified (hvalid inner hin) hother fun hsame =>
          absurd hsame (ne_of_nodup_middle hnodup hinner)
      refine get?_flatMembers hmethod (hvalid _ hdeclarer).distinct
        (.inl ?_) ?_ ?_ ?_
      · exact if_neg fun hzero => hfront (List.length_eq_zero_iff.1 hzero)
      · exact fun position nearer hin other hother =>
          ⟨hkey nearer (.inl hin) position other hother,
            hslash nearer (List.mem_append_left _ hin) other hother⟩
      · exact fun other hother hne =>
          ⟨Component.key_ne_qualified (hvalid _ hdeclarer) hother fun _ => hne,
            hslash declarer hdeclarer other hother⟩
      · exact fun position _ further hin => hkey further (.inr hin) position

/-- A text that selects nothing is not found. -/
theorem get?_of_not_selects {isAbstract : Bool}
    (h : ∀ position declarer method,
      ¬Selects chain text position declarer method) :
    (ofMembers isAbstract (component.flatMembers chain)).methods.get? text
      = none := by
  have hname : ∀ declarer ∈ chain,
      ∀ method ∈ declarer.methods, method.name ≠ text := by
    intro declarer hdeclarer method hmethod hname
    obtain ⟨front, nearest, rest, found, hchain, hfound, rfl, hnearer⟩ :=
      exists_nearest ⟨declarer, hdeclarer, method, hmethod, hname⟩
    exact h _ _ _ (.nearest hchain hfound hnearer)
  show ((component.flatMembers chain).foldl insertMember Table.empty).get? text
    = none
  rw [get?_foldl_of_ne _ fun member hmember => ?_, Table.get?_empty]
  obtain ⟨front, declarer, rest, method, hchain, hmethod, rfl⟩ :=
    Component.mem_flatMembers hmember
  have hplain := hname declarer (by simp [hchain]) method hmethod
  refine ⟨?_, hplain⟩
  show (if front.length = 0 then method.name
    else s!"{declarer.name}/{method.name}") ≠ text
  split
  · exact hplain
  · next hposition =>
    rintro rfl
    exact h _ _ _
      (.ancestral hchain (fun hnil => hposition (by rw [hnil]; rfl)) hmethod)

end ComponentCalls

namespace CallTable

variable {table : CallTable} {calls : ComponentCalls} {name text : String}

/-- A call of a method that the table has is refused if the method is private
and the call is made elsewhere. -/
theorem resolve_of_found (hcalls : table.get? name = some calls)
    {target : CallTarget} (htarget : calls.methods.get? text = some target)
    (caller : Option String) :
    table.resolve caller name text
      = if target.visibility = .owner ∧ caller ≠ some name
        then .error (.privateMethod name text) else .ok target := by
  unfold resolve component?
  rw [hcalls]
  simp only [bind, Except.bind, htarget, Bool.and_eq_true, decide_eq_true_eq,
    bne_iff_ne]

/-- A call of a method that the component does not have. -/
private theorem resolve_of_methods_none (hcalls : table.get? name = some calls)
    (hnone : calls.methods.get? text = none) (caller : Option String) :
    table.resolve caller name text = .error (.unknownMethod name text) := by
  unfold resolve component?
  rw [hcalls]
  simp only [bind, Except.bind, hnone]

/-- A call of a component that there is not. -/
private theorem resolve_of_none (hnone : table.get? name = none)
    (caller : Option String) :
    table.resolve caller name text = .error (.unknownComponent name) := by
  unfold resolve component?
  rw [hnone]
  rfl

/-- Components that come to the same under a name leave that in the table, in
whatever order and however often they are added. -/
theorem get?_foldl_of_same :
    ∀ {entries : List (Component × List Member)} {table : CallTable},
      (∀ entry ∈ entries,
        entry.1.name = name → .ofMembers entry.1.isAbstract entry.2 = calls) →
    (table.get? name = some calls ∨ ∃ entry ∈ entries, entry.1.name = name) →
    (entries.foldl (fun table entry => table.insertComponent entry.1 entry.2)
      table).get? name
      = some calls
  | [], _, _, h => h.resolve_right (by simp)
  | entry :: rest, table, hsame, h => by
      rw [List.foldl_cons]
      refine get?_foldl_of_same
        (fun other hother => hsame other (List.mem_cons_of_mem _ hother)) ?_
      unfold insertComponent
      rw [Table.get?_insert]
      by_cases hname : entry.1.name = name
      · exact .inl
          (by rw [if_pos hname.symm, hsame entry List.mem_cons_self hname])
      · rw [if_neg (Ne.symm hname)]
        refine h.imp_right ?_
        rintro ⟨other, hother, hfound⟩
        rcases List.mem_cons.1 hother with rfl | hother
        · exact absurd hfound hname
        · exact ⟨other, hother, hfound⟩

end CallTable

-- =============================================================== registries

namespace Registry

variable {registry : Registry} {component : Component}

/-- A search that finds an end goes along a chain of bases. -/
theorem Climbs.baseChain {walked : List String}
    {result : Except Defect (List Component)}
    (h : registry.Climbs walked component result) {chain : List Component}
    (hok : result = .ok chain) : registry.BaseChain component chain := by
  induction h generalizing chain with
  | again => cases hok
  | root _ hbase =>
      cases hok
      exact .root hbase
  | missing => cases hok
  | @climb _ _ _ _ result _ hbase hfound _ ih =>
      cases result with
      | error => cases hok
      | ok bases =>
          cases hok
          exact .climb hbase hfound (ih rfl)

/-- The members of a component are those along its chain of bases. -/
theorem exists_baseChain {members : List Member}
    (h : registry.members component = .ok members) :
    ∃ chain, registry.BaseChain component chain
      ∧ members = component.flatMembers chain := by
  rw [members_eq] at h
  cases hlineage : registry.lineage component with
  | error => rw [hlineage] at h; cases h
  | ok chain =>
      rw [hlineage] at h
      have hchain := (climbs_iff.2 hlineage.symm).baseChain rfl
      obtain ⟨bases, rfl⟩ := hchain.exists_cons
      exact ⟨_, hchain,
        (Except.ok.inj h).symm.trans (component.membersAlong_eq_flat bases)⟩

/-- All components on a chain are registered, hence valid. -/
theorem BaseChain.valid (hbuilt : registry.Built) {chain : List Component}
    (h : registry.BaseChain component chain)
    (hcomponent : registry.component? component.space component.name
      = some component) :
    ∀ inner ∈ chain, inner.Valid := by
  intro inner hinner
  obtain ⟨components, hholds, hregistrable⟩ := hbuilt.holds
  exact hregistrable.valid inner
    ((hholds.found _ _ _).1 (h.found hbuilt hcomponent inner hinner)).1

end Registry

/-- Calls by a table of all components of a namespace that resolve, with their
methods, made from inside a component or from elsewhere. A name finds the
nearest declaration of it on the chain of bases, and behind the name of an
ancestor it finds the declaration there. What is found is called at its place
in the component that the call names, unless it is private (`METHOD_PRIVATE`)
and the call is made elsewhere. Nothing else finds a method
(`METHOD_NOT_FOUND`), nor do names of components that are not registered or do
not resolve (`COMPONENT_NOT_FOUND`). -/
theorem Registry.calls_find_selected {registry : Registry}
    (hbuilt : registry.Built) {space : String}
    {entries : List (Component × List Member)}
    (hentries : ∀ component members, (component, members) ∈ entries
      ↔ registry.component? space component.name = some component
        ∧ registry.members component = .ok members)
    (caller : Option String) (name text : String) :
    (∀ component members, registry.component? space name = some component →
      registry.members component = .ok members →
      ∃ chain, registry.BaseChain component chain
        ∧ (∀ position declarer method,
          Selects chain text position declarer method →
            (CallTable.ofComponents entries).resolve caller name text
              = if method.visibility = .owner ∧ caller ≠ some name
                then .error (.privateMethod name text)
                else .ok ⟨Location.ofMethod space name
                  (if position = 0 then none else some declarer.name)
                  method.visibility method.name,
                  method.visibility⟩)
        ∧ ((∀ position declarer method,
          ¬Selects chain text position declarer method) →
            (CallTable.ofComponents entries).resolve caller name text
              = .error (.unknownMethod name text)))
      ∧ ((∀ component members, registry.component? space name = some component →
          registry.members component ≠ .ok members) →
        (CallTable.ofComponents entries).resolve caller name text
          = .error (.unknownComponent name)) := by
  constructor
  · intro component members hfound hmembers
    obtain ⟨hspace, rfl⟩ := hbuilt.found hfound
    obtain ⟨chain, hchain, rfl⟩ := exists_baseChain hmembers
    -- whatever has the name in the namespace is the component
    have hcalls : (CallTable.ofComponents entries).get? component.name
        = some (.ofMembers component.isAbstract
          (component.flatMembers chain)) := by
      refine CallTable.get?_foldl_of_same ?_
        (.inr ⟨_, (hentries component _).2 ⟨hfound, hmembers⟩, rfl⟩)
      rintro ⟨other, others⟩ hother hname
      obtain ⟨hsame, hok⟩ := (hentries other others).1 hother
      obtain rfl : component = other := by
        rw [hname, hfound] at hsame
        exact Option.some.inj hsame
      rw [Except.ok.inj (hok.symm.trans hmembers)]
    subst hspace
    have hvalid := hchain.valid hbuilt hfound
    have hnodup := hchain.nodup_names hbuilt hfound
    refine ⟨chain, hchain, fun position declarer method hselects => ?_,
      fun hnone => ?_⟩
    · exact CallTable.resolve_of_found hcalls
        (ComponentCalls.get?_of_selects hvalid hnodup hselects) caller
    · exact CallTable.resolve_of_methods_none hcalls
        (ComponentCalls.get?_of_not_selects hnone) caller
  · intro hunresolved
    refine CallTable.resolve_of_none ?_ caller
    by_contra hsome
    obtain ⟨calls, hcalls⟩ := Option.ne_none_iff_exists'.1 hsome
    obtain ⟨⟨component, members⟩, hentry, rfl, -⟩ :=
      CallTable.get?_ofComponents hcalls
    obtain ⟨hfound, hok⟩ := (hentries component members).1 hentry
    exact hunresolved component members hfound hok

namespace Kennel

/-- The components with their methods, in an order of no significance. -/
def entries : List (Component × List Member) :=
  [(puppy, puppy.membersAlong [puppy, dog, animal]),
    (animal, animal.membersAlong [animal]),
    (dog, dog.membersAlong [dog, animal])]

/-- The chain of the puppy, and the entries as what the registry finds and
resolves. -/
private theorem mem_entries {registry : Registry}
    (hok : Registry.empty.registerAll components = .ok registry)
    (hholds : registry.Holds components) :
    registry.BaseChain puppy [puppy, dog, animal] ∧ ∀ component members,
      (component, members) ∈ entries
        ↔ registry.component? "k" component.name = some component
          ∧ registry.members component = .ok members := by
  have hfound : ∀ component ∈ components,
      registry.component? "k" component.name = some component := by
    intro component hcomponent
    refine (hholds.found _ _ _).2 ⟨hcomponent, ?_, rfl⟩
    revert component
    decide +kernel
  have hanimal : registry.BaseChain animal [animal] := .root rfl
  have hdog : registry.BaseChain dog [dog, animal] :=
    .climb rfl (hfound animal (by simp [components])) hanimal
  have hpuppy : registry.BaseChain puppy [puppy, dog, animal] :=
    .climb rfl (hfound dog (by simp [components])) hdog
  have hmembers : ∀ {component : Component} {chain : List Component},
      component ∈ components →
        registry.BaseChain component chain → component.space = "k" →
      registry.members component = .ok (component.membersAlong chain) := by
    intro component chain hcomponent hchain hspace
    rw [Registry.members_eq, hchain.lineage_eq (.registerAll .empty hok)
      (hspace ▸ hfound component hcomponent)]
    rfl
  refine ⟨hpuppy, fun component members => ⟨fun hentry => ?_, ?_⟩⟩
  · simp only [entries, List.mem_cons, Prod.mk.injEq, List.not_mem_nil,
      or_false] at hentry
    rcases hentry with ⟨rfl, rfl⟩ | ⟨rfl, rfl⟩ | ⟨rfl, rfl⟩
    · exact ⟨hfound puppy
        (by simp [components]), hmembers (by simp [components]) hpuppy rfl⟩
    · exact ⟨hfound animal
        (by simp [components]), hmembers (by simp [components]) hanimal rfl⟩
    · exact ⟨hfound dog
        (by simp [components]), hmembers (by simp [components]) hdog rfl⟩
  · rintro ⟨hcomponent, hok⟩
    have hmem := ((hholds.found _ _ _).1 hcomponent).1
    have hsame : ∀ {chain : List Component},
        registry.BaseChain component chain →
          component.space = "k" → members = component.membersAlong chain :=
      fun hchain hspace =>
        Except.ok.inj (hok.symm.trans (hmembers hmem hchain hspace))
    simp only [components, List.mem_cons, List.not_mem_nil, or_false] at hmem
    rcases hmem with rfl | rfl | rfl
    · rw [hsame hanimal rfl]
      simp [entries]
    · rw [hsame hdog rfl]
      simp [entries]
    · rw [hsame hpuppy rfl]
      simp [entries]

end Kennel

/-- A puppy speaks as dogs do and can be made to speak as animals do. It eats
when it wants to. -/
theorem Registry.puppy_calls :
    ∃ registry, empty.registerAll Kennel.components = .ok registry
    ∧ (∀ component members, (component, members) ∈ Kennel.entries
      ↔ registry.component? "k" component.name = some component
        ∧ registry.members component = .ok members)
    ∧ (CallTable.ofComponents Kennel.entries).resolve none "puppy" "speak"
        = .ok ⟨"k:component/puppy/dog/speak", .anyone⟩
    ∧ (CallTable.ofComponents Kennel.entries).resolve none "puppy"
      "animal/speak"
        = .ok ⟨"k:component/puppy/animal/speak", .anyone⟩
    ∧ (CallTable.ofComponents Kennel.entries).resolve (some "puppy")
      "puppy" "eat"
        = .ok ⟨"k:component/puppy/animal/_private/eat", .owner⟩
    ∧ (CallTable.ofComponents Kennel.entries).resolve (some "dog") "puppy" "eat"
        = .error (.privateMethod "puppy" "eat")
    ∧ (CallTable.ofComponents Kennel.entries).resolve none "cat" "speak"
        = .error (.unknownComponent "cat") := by
  obtain ⟨registry, hok, hholds⟩ := registerAll_ok Kennel.registrable
  have hbuilt : registry.Built := .registerAll .empty hok
  obtain ⟨hpuppy, hentries⟩ := Kennel.mem_entries hok hholds
  obtain ⟨hfound, hmembers⟩ := (hentries Kennel.puppy _).1 List.mem_cons_self
  have hspeak : Selects [Kennel.puppy, Kennel.dog, Kennel.animal] "speak" 1
      Kennel.dog { name := "speak" } :=
    @Selects.nearest _ [Kennel.puppy] [Kennel.animal] Kennel.dog
      { name := "speak" } rfl (by simp [Kennel.dog]) (by simp [Kennel.puppy])
  have hancestor : Selects [Kennel.puppy, Kennel.dog, Kennel.animal]
      "animal/speak" 2 Kennel.animal
      { name := "speak", hooks := { tick := true } } :=
    @Selects.ancestral _ [Kennel.puppy, Kennel.dog] [] Kennel.animal
      { name := "speak", hooks := { tick := true } } rfl (by simp)
      (by simp [Kennel.animal])
  have heat : Selects [Kennel.puppy, Kennel.dog, Kennel.animal] "eat" 2
      Kennel.animal { name := "eat", visibility := .owner } :=
    @Selects.nearest _ [Kennel.puppy, Kennel.dog] [] Kennel.animal
      { name := "eat", visibility := .owner } rfl (by simp [Kennel.animal])
      (by simp [Kennel.puppy, Kennel.dog])
  have hcall : ∀ (caller : Option String) {text : String} {position : Nat}
      {declarer : Component} {method : Method},
      Selects [Kennel.puppy, Kennel.dog, Kennel.animal] text position
        declarer method →
      (CallTable.ofComponents Kennel.entries).resolve caller "puppy" text
        = if method.visibility = .owner ∧ caller ≠ some "puppy"
          then .error (.privateMethod "puppy" text)
          else .ok ⟨Location.ofMethod "k" "puppy"
            (if position = 0 then none else some declarer.name)
            method.visibility method.name,
            method.visibility⟩ := by
    intro caller text position declarer method hselects
    obtain ⟨chain, hchain, hselected, -⟩ :=
      (calls_find_selected hbuilt hentries caller "puppy" text).1 _ _
        hfound hmembers
    obtain rfl := hchain.unique hpuppy
    exact hselected position declarer method hselects
  refine ⟨registry, hok, hentries, hcall none hspeak, hcall none hancestor,
    hcall (some "puppy") heat, hcall (some "dog") heat, ?_⟩
  refine (calls_find_selected hbuilt hentries none "cat" "speak").2
    fun component _ hcat => ?_
  obtain ⟨hmem, -, hname⟩ := (hholds.found _ _ _).1 hcat
  have hcats : ∀ component ∈ Kennel.components, component.name ≠ "cat" := by
    decide +kernel
  exact absurd hname (hcats component hmem)

end Datapack
