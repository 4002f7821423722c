/-
Where calls lead.

The call table is made of the resolved methods before any body is built,
and the functions are written later. That the two fit is seen from places:
what the table finds for a method is the location of the method's place,
and what attaches or detaches a component that entities can have is at the
place for that. A statement that calls something thus calls a place of the
project that is not generated (`Project.Built.call_place`).
-/
import Datapack.Proofs.Locations
import Datapack.Proofs.Tables

namespace Datapack

-- ============================================================== the table

/-- What is found after a method was added was there before, or is the
method. -/
theorem ComponentCalls.get?_insertMember {name : String} {target : CallTarget}
    (methods : Table CallTarget) (member : Member)
    (h : (insertMember methods member).get? name = some target) :
    methods.get? name = some target
      ∨ target = ⟨member.location, member.method.visibility⟩ := by
  have hkey : ∀ key, (methods.insert member.key
      ⟨member.location, member.method.visibility⟩).get? key = some target →
      methods.get? key = some target
        ∨ target = ⟨member.location, member.method.visibility⟩ := by
    intro key hfound
    rw [Table.get?_insert] at hfound
    split at hfound
    · exact .inr (Option.some.inj hfound).symm
    · exact .inl hfound
  unfold insertMember at h
  rw [Table.get?_insertNew] at h
  split at h
  · next hname =>
    subst hname
    cases hfound : (methods.insert member.key
        ⟨member.location, member.method.visibility⟩).get?
        member.method.name with
    | none =>
        rw [hfound] at h
        exact .inr (Option.some.inj h).symm
    | some found =>
        rw [hfound] at h
        exact hkey _ (hfound.trans h)
  · exact hkey _ h

/-- What a component can be called by is one of its methods. -/
private theorem ComponentCalls.get?_ofMembers {isAbstract : Bool}
    {members : List Member} {name : String} {target : CallTarget}
    (h : (ofMembers isAbstract members).methods.get? name = some target) :
    ∃ member ∈ members, target = ⟨member.location, member.method.visibility⟩ :=
  (Table.get?_foldl (fun methods member _ => get?_insertMember methods member)
    members h).resolve_left fun hempty => by
      rw [Table.get?_empty] at hempty
      cases hempty

/-- What is found under a name is a component of that name. -/
theorem CallTable.get?_ofComponents {name : String} {calls : ComponentCalls}
    {resolved : List (Component × List Member)}
    (h : (ofComponents resolved).get? name = some calls) :
    ∃ entry ∈ resolved,
      entry.1.name = name ∧ calls = .ofMembers entry.1.isAbstract entry.2 := by
  have hstep : ∀ (table : CallTable) (entry : Component × List Member)
      (value : ComponentCalls),
      (table.insertComponent entry.1 entry.2).get? name = some value →
        table.get? name = some value
        ∨ (entry.1.name = name
          ∧ value = .ofMembers entry.1.isAbstract entry.2) := by
    intro table entry value hfound
    unfold insertComponent at hfound
    rw [Table.get?_insert] at hfound
    split at hfound
    · next hname => exact .inr ⟨hname.symm, (Option.some.inj hfound).symm⟩
    · exact .inl hfound
  refine (Table.get?_foldl hstep resolved h).resolve_left fun hempty => ?_
  rw [Table.get?_empty] at hempty
  cases hempty

/-- A call leads to the method that the table has, unless it is private to
another component. -/
theorem CallTable.resolve_eq_ok {table : CallTable} {caller : Option String}
    {component method : String} {target : CallTarget} :
    table.resolve caller component method = .ok target
      ↔ ∃ calls, table.get? component = some calls
        ∧ calls.methods.get? method = some target
          ∧ (target.visibility = .owner → caller = some component) := by
  unfold resolve component?
  cases table.get? component with
  | none => simp [bind, Except.bind]
  | some calls =>
      simp only [bind, Except.bind, Option.some.injEq, exists_eq_left']
      cases calls.methods.get? method with
      | none => simp
      | some found =>
          dsimp only
          split
          · -- a private method is refused to every other caller
            next hrefused =>
            simp only [Bool.and_eq_true, decide_eq_true_eq,
              bne_iff_ne] at hrefused
            simp only [reduceCtorEq, Option.some.injEq, false_iff]
            rintro ⟨rfl, hallowed⟩
            exact hrefused.2 (hallowed hrefused.1)
          · next hallowed =>
            simp only [Bool.and_eq_true, decide_eq_true_eq, bne_iff_ne,
              not_and, not_not]
              at hallowed
            simp only [Except.ok.injEq, Option.some.injEq]
            constructor
            · rintro rfl
              exact ⟨rfl, hallowed⟩
            · exact fun h => h.1

namespace Ground

variable {space component : String} {resolved : List (Component × List Member)}
  {command : Command}

/-- A call comes to a command just if the table resolves it. -/
theorem call_eq_ok {ground : Ground} {name method : String} :
    ground.call name method = .ok command
      ↔ ∃ target,
        ground.calls.resolve (some ground.component)
          (Name.snakeCase name) method
          = .ok target ∧ command = .function target.location := by
  unfold call
  cases ground.calls.resolve (some ground.component) (Name.snakeCase name)
    method with
  | error defect => simp [bind, Except.bind]
  | ok target =>
      simp only [bind, Except.bind, Except.ok.injEq, exists_eq_left']
      exact ⟨fun h => (Except.ok.inj h).symm, fun h => by rw [h]; rfl⟩

/-- Attaching and detaching come to a command just if the component is
known and not abstract. -/
theorem onEntity_eq_ok {ground : Ground} {name : String}
    {location : String → String} :
    ground.onEntity name location = .ok command
      ↔ ∃ calls, ground.calls.get? (Name.snakeCase name) = some calls
        ∧ calls.isAbstract = false
          ∧ command = .function (location (Name.snakeCase name)) := by
  unfold onEntity CallTable.component?
  cases ground.calls.get? (Name.snakeCase name) with
  | none => simp [bind, Except.bind]
  | some calls =>
      simp only [bind, Except.bind, Option.some.injEq, exists_eq_left']
      cases habstract : calls.isAbstract with
      | true => simp
      | false =>
          exact ⟨fun h => ⟨rfl, (Except.ok.inj h).symm⟩,
            fun h => by rw [h.2]; rfl⟩

/-- A call leads to a method of the component that it names. -/
theorem call_ok {name method : String}
    (h : call ⟨space, .ofComponents resolved, component⟩ name method
      = .ok command) :
    ∃ entry ∈ resolved,
      ∃ member ∈ entry.2, command = .function member.location := by
  obtain ⟨target, hresolve, rfl⟩ := call_eq_ok.1 h
  obtain ⟨calls, hcalls, htarget, -⟩ := CallTable.resolve_eq_ok.1 hresolve
  obtain ⟨entry, hentry, -, rfl⟩ := CallTable.get?_ofComponents hcalls
  obtain ⟨member, hmember, rfl⟩ := ComponentCalls.get?_ofMembers htarget
  exact ⟨entry, hentry, member, hmember, rfl⟩

/-- The component that is attached or detached is one of the project that
can be. -/
private theorem onEntity_ok {name : String} {location : String → String}
    (h : onEntity ⟨space, .ofComponents resolved, component⟩ name location
      = .ok command) :
    ∃ entry ∈ resolved, entry.1.isAbstract = false
      ∧ command = .function (location entry.1.name) := by
  obtain ⟨calls, hcalls, habstract, rfl⟩ := onEntity_eq_ok.1 h
  obtain ⟨entry, hentry, hname, rfl⟩ := CallTable.get?_ofComponents hcalls
  exact ⟨entry, hentry, habstract, by rw [hname]⟩

end Ground

-- =============================================================== statements

/-- The statement calls a method, or attaches or detaches a component. -/
def Statement.isCall : Statement → Bool
  | .invoke _ | .call .. | .attach _ | .detach _ => true
  | _ => false

namespace Project.Built

variable {project : Project} {components : List Component}
  {resolved : List (Component × List Member)} {pack : Pack}

/-- What a statement calls is at a place of the project. -/
theorem call_place (h : project.Built components resolved pack)
    (hdescribed : ∀ component ∈ components, component.Described project.space)
    {component : String} {statement : Statement} {command : Command}
    (hcall : statement.isCall = true)
    (hcommand :
      statement.command ⟨project.space, .ofComponents resolved, component⟩
      = .ok command) :
    ∃ place ∈ resolved.flatMap fun entry => entry.1.places entry.2,
      command = .function (place.location project.space) := by
  -- what is invoked or called is a member, and has its place
  have hmethod : ∀ {name method : String},
      Ground.call ⟨project.space, .ofComponents resolved, component⟩ name method
        = .ok command →
      ∃ place ∈ resolved.flatMap fun entry => entry.1.places entry.2,
        command = .function (place.location project.space) := by
    intro name method hok
    obtain ⟨entry, hentry, member, hmember, rfl⟩ := Ground.call_ok hok
    refine ⟨entry.1.place member, List.mem_flatMap.2 ⟨entry, hentry, ?_⟩, ?_⟩
    · exact Component.mem_places.2 (.inl ⟨member, hmember, rfl⟩)
    · obtain ⟨bases, hmembers, hmem, -, -⟩ := h.resolution.lineage hentry
      rw [hmembers] at hmember
      rw [Component.location_eq hmember, (hdescribed _ hmem).space]
  -- what attaches or detaches is an entry point of a component that has them
  have hentity : ∀ (place : String → FunctionPlace) {name : String},
      (∀ entry : Component × List Member, entry.1.isAbstract = false →
        place entry.1.name ∈ entry.1.places entry.2) →
      Ground.onEntity ⟨project.space, .ofComponents resolved, component⟩ name
        (fun name => (place name).location project.space) = .ok command →
      ∃ place ∈ resolved.flatMap fun entry => entry.1.places entry.2,
        command = .function (place.location project.space) := by
    intro place name hplace hok
    obtain ⟨entry, hentry, habstract, rfl⟩ := Ground.onEntity_ok hok
    exact ⟨_, List.mem_flatMap.2 ⟨entry, hentry, hplace entry habstract⟩, rfl⟩
  cases statement with
  | invoke method => exact hmethod hcommand
  | call component method => exact hmethod hcommand
  | attach name =>
      exact hentity .attach
        (fun entry habstract =>
          Component.mem_places.2 (.inr ⟨habstract, .inl rfl⟩)) hcommand
  | detach name =>
      exact hentity .detach
        (fun entry habstract =>
          Component.mem_places.2 (.inr ⟨habstract, .inr rfl⟩)) hcommand
  | _ => cases hcall

end Project.Built

end Datapack
