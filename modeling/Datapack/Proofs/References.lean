/-
A pack refers to nothing that it does not have.

Commands refer to functions and to tags, and tags refer to functions. What a
statement's own command names is the author's affair. All other references
are made by the build, and each of them is to something in the pack:

- what a statement calls is at a place of the project (`call_place`), and
  every place has its function;
- what a block calls is the function that the block became. Guards, and the
  functions that attach and detach, call functions in no other way;
- what is called by the tag of a hook is called only where some method has
  the hook, and that method is listed in the tag (`hook_listed`);
- what a tag lists was listed next to its function.

Entries carry their causes, so this is said entry by entry for what the
plans of the project wrote, which is what the tree of the build shows.
-/
import Datapack.Proofs.Failures
import Datapack.Proofs.Programs
import Datapack.Proofs.Tags

namespace Datapack

-- ============================================================= references

/-- The command calls a function of the pack. -/
def Command.CallsIn (pack : Pack) (command : Command) : Prop :=
  ∃ function ∈ pack.functions, command = .function function.location

/-- Whatever the entry refers to, other than by a statement's own command, is
in the pack. -/
def SheetEntry.Refers (ground : Ground) (pack : Pack)
    (entry : SheetEntry) : Prop :=
  match entry.cause with
  | .statement statement => statement.command ground = .ok entry.command
      ∧ (statement.isCall = true → entry.command.CallsIn pack)
  | .block => entry.command.CallsIn pack
  | .hook => ∃ tag ∈ pack.tags, entry.command = .functionTag tag.location
  | .mark => entry.command.isCall = false
  | .action => True

namespace Project.Built

variable {project : Project} {components : List Component}
  {resolved : List (Component × List Member)} {pack : Pack}

/-- Where a function was written, the pack has one. -/
theorem callsIn_of_mem (h : project.Built components resolved pack)
    {location : String}
    (hlocation :
      location ∈ (project.outcome resolved).written.below.locations) :
    (Command.function location).CallsIn pack := by
  rw [← h.map_location_functions] at hlocation
  obtain ⟨function, hfunction, rfl⟩ := List.mem_map.1 hlocation
  exact ⟨function, hfunction, rfl⟩

/-- A statement that calls something calls a function of the pack. -/
theorem callsIn_of_isCall (h : project.Built components resolved pack)
    (hdescribed : ∀ component ∈ components, component.Described project.space)
    {component : String} {statement : Statement} {command : Command}
    (hcall : statement.isCall = true)
    (hcommand :
      statement.command ⟨project.space, .ofComponents resolved, component⟩
      = .ok command) : command.CallsIn pack := by
  obtain ⟨place, hplace, rfl⟩ := h.call_place hdescribed hcall hcommand
  refine h.callsIn_of_mem ((h.perm_locations hdescribed).mem_iff.2 ?_)
  exact List.mem_map_of_mem (List.mem_append_left _ hplace)

/-- The tag of a hook that some method has is in the pack: it lists the
method. -/
theorem hook_listed (h : project.Built components resolved pack)
    {location : String} (hhook : Plan.hookTags resolved location) :
    ∃ tag ∈ pack.tags, tag.location = location := by
  obtain ⟨⟨component, members⟩, hentry, habstract, hook, hany, rfl⟩ := hhook
  -- some method has the hook, and its function is listed in the tag of it
  obtain ⟨member, hmember, hhas⟩ := List.any_eq_true.1 hany
  obtain ⟨here, -, -, hmethod⟩ :=
    Plan.components_contain hentry hmember h.result
  have hlisted : Location.callbackTag component.space hook component.name
      ∈ Build.tagsOf component member := by
    unfold Build.tagsOf HookSet.toList
    refine List.mem_append_left _ ?_
    rw [habstract]
    exact List.mem_map_of_mem
      (List.mem_filter.2 ⟨by cases hook <;> decide, hhas⟩)
  rw [h.pack]
  obtain ⟨tag, htag, hlocation, -⟩ :=
    project.mem_packOf_of_listed (hmethod.tags _ hlisted) List.mem_cons_self
  exact ⟨tag, htag, hlocation⟩

/-- Every entry of a function refers to things of the pack only. -/
private theorem refers (h : project.Built components resolved pack)
    (hdescribed : ∀ component ∈ components, component.Described project.space)
    {sheet : Sheet}
    (hsheet : sheet ∈ (project.outcome resolved).written.below.sheets) :
    ∃ component, ∀ entry ∈ sheet.entries,
      entry.Refers ⟨project.space, CallTable.ofComponents resolved, component⟩
        pack := by
  obtain ⟨component, hsound⟩ := h.wellBuilt.sound sheet hsheet
  refine ⟨component, fun entry hentry => ?_⟩
  have haccounted := hsound.accounted entry hentry
  unfold SheetEntry.Accounted at haccounted
  unfold SheetEntry.Refers
  cases hcause : entry.cause with
  | statement statement =>
      simp only [hcause] at haccounted
      exact ⟨haccounted,
        fun hcall => h.callsIn_of_isCall hdescribed hcall haccounted⟩
  | block =>
      simp only [hcause] at haccounted
      -- the function of the block was written next to the call
      obtain ⟨called, hcalled, location, hlocation, -, hcommand⟩ := haccounted
      show entry.command.CallsIn pack
      rw [hcommand]
      exact h.callsIn_of_mem (List.mem_filterMap.2 ⟨called, hcalled, hlocation⟩)
  | hook =>
      simp only [hcause] at haccounted
      obtain ⟨location, hhook, hcommand⟩ := haccounted
      obtain ⟨tag, htag, rfl⟩ := h.hook_listed hhook
      exact ⟨tag, htag, hcommand⟩
  | mark =>
      simp only [hcause] at haccounted
      exact haccounted
  | action => trivial

/-- What a tag of the pack lists is a function of the pack. -/
private theorem mem_tag (h : project.Built components resolved pack)
    {tag : PackTag} (htag : tag ∈ pack.tags) {value : String}
    (hvalue : value ∈ tag.members) :
    value ∈ pack.functions.map PackFunction.location := by
  rw [h.pack] at htag
  obtain ⟨listed, hpiece, hmem⟩ := listed_of_packOf htag hvalue
  rw [h.map_location_functions]
  exact h.wellBuilt.listed _ _ hpiece value hmem

end Project.Built

/-- A pack has no dangling references. Every call of a statement, in every
method of every component and at any depth of blocks, is of a function of
the pack. So is every call of what a block became, in methods, in guards
and in the functions that attach and detach; every tag that is called for a
hook is a tag of the pack; and tags list functions of the pack. -/
theorem ProjectManifest.no_dangling_references (manifest : ProjectManifest)
    (files : List (String × ComponentManifest)) {pack : Pack}
    (h : manifest.toProject.build (manifest.components files) = .ok pack) :
    ∃ resolved tree root,
      manifest.toProject.Makes (manifest.components files) resolved tree root
      ∧ pack = manifest.toProject.collect tree root
      ∧ (∀ entry ∈ resolved, ∀ member ∈ entry.2, ∀ leaf ∈ member.method.leaves,
          leaf.2.isCall = true → ∃ function ∈ pack.functions,
            leaf.2.command ⟨manifest.space, CallTable.ofComponents resolved,
              entry.1.name⟩
              = .ok (.function function.location))
      ∧ tree.Shows 0 [root]
        (.single (.project manifest.toProject.packDescription)
          (manifest.toProject.outcome resolved).written.below)
      ∧ (∀ sheet ∈ (manifest.toProject.outcome resolved).written.below.sheets,
          ∃ component, ∀ entry ∈ sheet.entries, entry.Refers
            ⟨manifest.space, CallTable.ofComponents resolved, component⟩ pack)
      ∧ ∀ tag ∈ pack.tags, ∀ value ∈ tag.members,
          value ∈ pack.functions.map PackFunction.location := by
  have hdescribed := manifest.described files
  obtain ⟨resolved, hbuilt⟩ := built_of_build h
  obtain ⟨tree, hmakes, hshows⟩ :=
    hbuilt.makes (manifest.space_components files)
  have hresolves := (hbuilt.toPrepared.result_ok_iff
    fun component hmem => (hdescribed component hmem).bodies).1 hbuilt.result
  refine ⟨resolved, tree, 0, hmakes,
    hbuilt.pack.trans (Project.collect_eq _ hshows).symm, ?_, hshows,
    fun sheet hsheet => hbuilt.refers hdescribed hsheet,
    fun tag htag value hvalue => hbuilt.mem_tag htag hvalue⟩
  -- the build ended well, so every call has come to a command
  intro entry hentry member hmember leaf hleaf hcall
  obtain ⟨command, hcommand⟩ := hresolves entry hentry member hmember leaf hleaf
  obtain ⟨function, hfunction, rfl⟩ :=
    hbuilt.callsIn_of_isCall hdescribed hcall hcommand
  exact ⟨function, hfunction, hcommand⟩

/-- The sample calls a method from inside a block, and its pack has the
method's function. -/
theorem ProjectManifest.sample_references :
    ∃ pack, Sample.manifest.toProject.build
      (Sample.manifest.components Sample.files) = .ok pack
      ∧ (∃ function ∈ pack.functions,
        function.location = "demo:component/door/knock")
      ∧ ∀ tag ∈ pack.tags, ∀ value ∈ tag.members,
          value ∈ pack.functions.map PackFunction.location := by
  obtain ⟨pack, h⟩ := Sample.build
  obtain ⟨resolved, tree, root, hmakes, -, hleaves, -, -, htags⟩ :=
    Sample.manifest.no_dangling_references Sample.files h
  obtain rfl :=
    hmakes.resolved_eq (Sample.manifest.space_components Sample.files)
      Sample.prepared
  obtain ⟨function, hfunction, hcommand⟩ :=
    hleaves (Sample.door, Sample.door.membersAlong [Sample.door])
      List.mem_cons_self
      (Sample.door.member none []
        (Sample.door.methods.head
          (by decide))) List.mem_cons_self ([⟨["as", "@a"]⟩], .invoke "knock")
          (List.mem_cons_of_mem _ List.mem_cons_self) rfl
  have hknock : Except.ok (Command.function "demo:component/door/knock")
      = Except.ok (.function function.location) := hcommand
  refine ⟨pack, h, ⟨function, hfunction, ?_⟩, htags⟩
  simpa [Command.function, eq_comm] using hknock

end Datapack
