import SlobOS.MemoryRuns
import SlobOS.ProcessLeaks
import SlobOS.Proof.NewSpaces

/-!
# The calls of a process and the others

A process that asks for memory, gives it back or ends does so with its own chains and in its own page
tables. The blocks of the others, which none of its addresses leads to, are left as they are.
-/

namespace SlobOS

open Tilings

namespace Kernel

open Faulting

variable {kernel after : Kernel} {block ptr size process : Nat}

theorem processUnlink_some {sched sched' : Sched}
    (h : SlobOS.processUnlink sched process = some sched') :
    sched'.procs = sched.procs ∧ sched'.list = sched.list ∧ ∀ slot, sched'.processes slot =
      if slot = (sched.procs process).id then 0 else sched.processes slot := by
  unfold SlobOS.processUnlink at h
  dsimp only at h
  split at h
  · unfold processSwitchToAny at h
    split at h
    · cases h
    · cases h
      exact ⟨rfl, rfl, fun _ => rfl⟩
  · cases h
    exact ⟨rfl, rfl, fun _ => rfl⟩

theorem ends_processUnlink {result : Unit} (h : Ends (processUnlink process) kernel result after) :
    ∃ sched, SlobOS.processUnlink kernel.sched process = some sched ∧
      after = { kernel with sched := sched } := by
  rw [processUnlink, ends_get_bind] at h
  cases hsched : SlobOS.processUnlink kernel.sched process with
  | none =>
      rw [hsched] at h
      exact absurd h ends_throw
  | some sched =>
      rw [hsched] at h
      exact ⟨sched, rfl, ends_modify.mp h⟩

/-- Nothing that the process has or can release reaches the block. -/
structure Foreign (kernel : Kernel) (block process : Nat) : Prop
    extends ProcessHeld kernel block process where
  self : process ≠ slobosHeapAddress + block * slobosHeapBlockSize
  low : ∀ i < slobosMaxProgramAllocations,
    ((kernel.processMemory process).allocations i).ptr < addressSpace

namespace Foreign

theorem tables_ne (h : Foreign kernel block process) {i : Nat} (hi : i < pagingTotalEntriesPerTable) :
    tableAddress (kernel.pages.directories (kernel.directoryOf process) i) ≠
      slobosHeapAddress + block * slobosHeapBlockSize :=
  (h.task.chunk.tables i hi).ne h.holds

theorem maps_leavesBlock (h : Foreign kernel block process) (hptr : ptr < addressSpace)
    (size flags : Nat) :
    LeavesBlock block kernel
      (Kernel.setPages (mapsAllocation kernel process ptr size flags).2 kernel) :=
  SameAt.leavesBlock (sameAt_setPages (mapsAllocation_directories _ _ _ _ _)
    (pagingMapTo_table hptr fun _ hi => h.tables_ne hi)) h.holds rfl rfl

theorem allocations_leavesBlock (h : Foreign kernel block process)
    (allocations : Nat → ProcessAllocation) :
    LeavesBlock block kernel (setAllocations process allocations kernel) :=
  SameAt.leavesBlock (sameAt_setProcessMemory h.self _ _) h.holds rfl rfl

theorem takes (h : Foreign kernel block process) (hspares : Spares block kernel.heap after.heap)
    (htakes : TakesMemory kernel after) : Foreign after block process := by
  refine ⟨h.toProcessHeld.takes hspares htakes, h.self, fun i hi => ?_⟩
  rw [htakes]
  exact h.low i hi

theorem setPages (h : Foreign kernel block process) {pages : PageTables}
    (hpages : pages.directories = kernel.pages.directories) :
    Foreign (Kernel.setPages pages kernel) block process :=
  ⟨h.toProcessHeld.setPages hpages, h.self, h.low⟩

theorem malloc (h : Foreign kernel block process)
    (hend : Ends (processMalloc process size) kernel ptr after) : LeavesBlock block kernel after := by
  have htaken : ∀ {ptr alloc}, Ends (kzalloc size) kernel ptr alloc → ptr ≠ 0 →
      LeavesBlock block kernel alloc ∧ Foreign alloc block process ∧ Guards alloc.heap block ptr ∧
        ptr < addressSpace := by
    intro ptr alloc halloc hne
    obtain ⟨hspares, hguards⟩ := kzalloc_spares halloc h.holds
    have hbound := (ends_kzalloc halloc).2.2.2 hne
    exact ⟨kzalloc_leavesBlock halloc h.holds, h.takes hspares (kzalloc_takesMemory halloc), hguards,
      by omega⟩
  cases processMalloc_cases hend with
  | refused halloc => exact kzalloc_leavesBlock halloc h.holds
  | full halloc hne =>
      obtain ⟨hleaves, halloc', hguards, -⟩ := htaken halloc hne
      exact hleaves.trans (kfree_leavesBlock halloc'.holds hguards)
  | unmapped halloc hne =>
      obtain ⟨hleaves, halloc', hguards, hlow⟩ := htaken halloc hne
      have hmapped := halloc'.maps_leavesBlock hlow size 7
      exact (hleaves.trans hmapped).trans (kfree_leavesBlock hmapped.spares.holds hguards)
  | granted halloc hne =>
      obtain ⟨hleaves, halloc', -, hlow⟩ := htaken halloc hne
      have hmapped := halloc'.setPages (mapsAllocation_directories _ process ptr size 7)
      exact (hleaves.trans (halloc'.maps_leavesBlock hlow size 7)).trans (hmapped.allocations_leavesBlock _)

theorem free {result : Unit} (h : Foreign kernel block process)
    (hend : Ends (processFree process ptr) kernel result after) :
    LeavesBlock block kernel after ∧ Foreign after block process := by
  have hheld := processFree_held hend h.toProcessHeld
  cases processFree_cases hend with
  | ignored => exact ⟨.refl h.holds, h⟩
  | unmapped hi hptr => exact ⟨h.maps_leavesBlock (hptr ▸ h.low _ hi) _ 0, hheld, h.self, h.low⟩
  | @released i hi hptr =>
      have hguards : Guards kernel.heap block ptr := hptr ▸ h.allocations i
      have hmapped := h.setPages (mapsAllocation_directories kernel process ptr
        ((kernel.processMemory process).allocations i).size 0)
      refine ⟨((h.maps_leavesBlock (hptr ▸ h.low i hi) _ 0).trans
        (hmapped.allocations_leavesBlock _)).trans (kfree_leavesBlock h.holds hguards), hheld, h.self,
        fun j hj => ?_⟩
      simp only [processUnjoinAllocationArray, setAllocations, setProcessMemory, if_true]
      split
      · exact Nat.zero_lt_succ _
      · exact h.low j hj

theorem terminateAllocations {left i : Nat} {result : Unit} (h : Foreign kernel block process)
    (hend : Ends (processTerminateAllocations process left i) kernel result after) :
    LeavesBlock block kernel after ∧ Foreign after block process := by
  induction left generalizing kernel i with
  | zero =>
      obtain ⟨-, rfl⟩ := ends_pure.mp hend
      exact ⟨.refl h.holds, h⟩
  | succ left ih =>
      rw [processTerminateAllocations, ends_get_bind, ends_bind] at hend
      obtain ⟨_, middle, hfree, hend⟩ := hend
      obtain ⟨hleaves, hmiddle⟩ := h.free hfree
      obtain ⟨hleaves', hafter⟩ := ih hmiddle hend
      exact ⟨hleaves.trans hleaves', hafter⟩

theorem freeProgramData {elfResult code : Int} (h : Foreign kernel block process)
    (hend : Ends (processFreeProgramData process elfResult) kernel code after) :
    LeavesBlock block kernel after := by
  have hdata := h.data
  rw [processFreeProgramData, ends_get_bind] at hend
  unfold DataGuarded at hdata
  cases hfiletype : (kernel.sched.procs process).filetype with
  | elf =>
      rw [hfiletype] at hend hdata
      obtain ⟨_, closed, hclose, hend⟩ := ends_bind.mp hend
      obtain ⟨-, rfl⟩ := ends_pure.mp hend
      rw [elfClose, ends_ite] at hclose
      rcases hclose with ⟨-, hclose⟩ | ⟨-, hclose⟩
      · obtain ⟨-, rfl⟩ := ends_pure.mp hclose
        exact .refl h.holds
      rw [ends_get_bind, ends_bind] at hclose
      obtain ⟨_, freed, hfree, hclose⟩ := hclose
      obtain rfl := ends_kfree.mp hfree
      obtain rfl := ends_kfree.mp hclose
      have hspares := h.holds.free hdata.2
      exact (kfree_leavesBlock h.holds hdata.2).trans
        (kfree_leavesBlock hspares.holds (hspares.guards _ hdata.1))
  | binary =>
      rw [hfiletype] at hend hdata
      obtain ⟨_, freed, hfree, hend⟩ := ends_bind.mp hend
      obtain ⟨-, rfl⟩ := ends_pure.mp hend
      obtain rfl := ends_kfree.mp hfree
      exact kfree_leavesBlock h.holds hdata

theorem terminate {elfResult code : Int} (h : Foreign kernel block process)
    (hend : Ends (processTerminate process elfResult) kernel code after) :
    LeavesBlock block kernel after := by
  obtain ⟨_, first, hallocations, hend⟩ := ends_bind.mp hend
  obtain ⟨hleaves, hfirst⟩ := h.terminateAllocations hallocations
  obtain ⟨res, second, hdata, hend⟩ := ends_bind.mp hend
  have hleaves' := hleaves.trans (hfirst.freeProgramData hdata)
  have hsecond := processFreeProgramData_held hdata hfirst.toProcessHeld
  rw [ends_ite] at hend
  rcases hend with ⟨-, hend⟩ | ⟨-, hend⟩
  · obtain ⟨-, rfl⟩ := ends_pure.mp hend
    exact hleaves'
  rw [ends_get_bind, ends_bind] at hend
  obtain ⟨_, third, hstack, hend⟩ := hend
  obtain rfl := ends_kfree.mp hstack
  have hthird := hsecond.kfree hsecond.stack
  have hleaves'' := hleaves'.trans (kfree_leavesBlock hsecond.holds hsecond.stack)
  obtain ⟨_, fourth, htask, hend⟩ := ends_bind.mp hend
  have hfourth := hleaves''.trans (taskFree_leavesBlock htask hthird.holds hthird.task)
  obtain ⟨_, last, hunlink, hend⟩ := ends_bind.mp hend
  obtain ⟨-, rfl⟩ := ends_pure.mp hend
  obtain ⟨sched, hsched, rfl⟩ := ends_processUnlink hunlink
  obtain ⟨hprocs, hlist, -⟩ := processUnlink_some hsched
  refine hfourth.trans (SameAt.leavesBlock ⟨?_, rfl, rfl, ?_, rfl, rfl, rfl⟩ hfourth.spares.holds rfl rfl)
  · exact congrFun hprocs _
  · exact congrArg (fun list : TaskList => (list.tasks _).pageDirectory) hlist

end Foreign

theorem Partitioned.foreign {other : Nat} {resource : Resource} (h : Partitioned kernel)
    (hprocess : kernel.Registered process) (hother : kernel.Registered other) (hne : other ≠ process)
    (hblock : kernel.Occupies other resource block) : Foreign kernel block process := by
  have hspace := h.space process hprocess
  have hguards : ∀ resource', kernel.Has process resource' →
      Guards kernel.heap block (kernel.addressOf process resource') := fun resource' hhas =>
    (hspace.owns resource' hhas).guards h.sound fun hwithin =>
      h.apart process other hprocess hother (Ne.symm hne) resource' resource hhas hblock.1
        (hwithin.unique hblock.2)
  have hheld := hblock.holds h.sound
  refine ⟨⟨⟨fun i => ?_, ?_, hguards .stack trivial, ?_⟩, hheld⟩, (hguards .self trivial).ne hheld,
    fun i _ => ?_⟩
  · by_cases hnull : ((kernel.processMemory process).allocations i).ptr = 0
    · rw [hnull]
      exact h.sound.guards_null
    · exact hguards (.allocation i) hnull
  · unfold DataGuarded
    cases hfiletype : (kernel.sched.procs process).filetype with
    | elf => exact ⟨hguards .program trivial, hguards .image hfiletype⟩
    | binary => exact hguards .program trivial
  · exact ⟨hguards .task trivial, hguards .chunk trivial, hguards .directory trivial,
      fun i hi => hguards (.table i) hi⟩
  · by_cases hnull : ((kernel.processMemory process).allocations i).ptr = 0
    · rw [hnull]
      exact Nat.zero_lt_succ _
    · exact Nat.lt_of_le_of_lt (Nat.le_add_right _ _) (hspace.held i hnull).bound

/-! ### The end of a process -/

/-- The heap stays in order, and so do the processes and their slots. -/
structure KeepsProcesses (kernel after : Kernel) : Prop extends KeepsOrder kernel after where
  procs : after.sched.procs = kernel.sched.procs

instance : HeapFrame KeepsProcesses where
  refl _ := ⟨Frame.refl _, rfl⟩
  trans h h' := ⟨Frame.trans h.toKeepsOrder h'.toKeepsOrder, h'.procs.trans h.procs⟩
  kzalloc size := ⟨fun h => ⟨(HeapFrame.kzalloc size).of_ends h,
    congrArg Sched.procs (kzalloc_takesMemory h).takesPages.sched⟩⟩
  kfree ptr := .modify fun _ => ⟨⟨fun hsound => hsound.free ptr, rfl⟩, rfl⟩
  writeBytes _ _ _ _ := ⟨⟨id, rfl⟩, rfl⟩
  noteStore _ _ := ⟨⟨id, rfl⟩, rfl⟩

theorem processFree_keepsProcesses (process ptr : Nat) : Keeps KeepsProcesses (processFree process ptr) := by
  refine ⟨fun h => ?_⟩
  cases processFree_cases h with
  | ignored => exact Frame.refl _
  | unmapped => exact ⟨⟨id, rfl⟩, rfl⟩
  | released => exact ⟨⟨fun hsound => hsound.free ptr, rfl⟩, rfl⟩

theorem processTerminateAllocations_keepsProcesses (process left i : Nat) :
    Keeps KeepsProcesses (processTerminateAllocations process left i) := by
  induction left generalizing i with
  | zero => exact .pure
  | succ left ih => exact .bind .get fun _ => .bind (processFree_keepsProcesses _ _) fun _ => ih _

theorem processFreeProgramData_keepsProcesses (process : Nat) (elfResult : Int) :
    Keeps KeepsProcesses (processFreeProgramData process elfResult) := by
  refine .bind .get fun kernel => ?_
  cases (kernel.sched.procs process).filetype with
  | elf =>
      exact .bind (.ite .pure (.bind .get fun _ => .bind (HeapFrame.kfree _) fun _ =>
        HeapFrame.kfree _)) fun _ => .pure
  | binary => exact .bind (HeapFrame.kfree _) fun _ => .pure

theorem processFreeProgramData_code {elfResult code : Int}
    (h : Ends (processFreeProgramData process elfResult) kernel code after)
    (hresult : (kernel.sched.procs process).filetype = .elf → 0 ≤ elfResult) : 0 ≤ code := by
  rw [processFreeProgramData, ends_get_bind] at h
  cases hfiletype : (kernel.sched.procs process).filetype with
  | elf =>
      rw [hfiletype] at h
      obtain ⟨_, _, -, h⟩ := ends_bind.mp h
      obtain ⟨rfl, -⟩ := ends_pure.mp h
      exact hresult hfiletype
  | binary =>
      rw [hfiletype] at h
      obtain ⟨_, _, -, h⟩ := ends_bind.mp h
      obtain ⟨rfl, -⟩ := ends_pure.mp h
      exact Int.le_refl _

theorem processTerminate_slots {elfResult code : Int}
    (h : Ends (processTerminate process elfResult) kernel code after)
    (hresult : (kernel.sched.procs process).filetype = .elf → 0 ≤ elfResult) :
    (HeapSound kernel.heap → HeapSound after.heap) ∧ ∀ slot, after.sched.processes slot =
      if slot = (kernel.sched.procs process).id then 0 else kernel.sched.processes slot := by
  obtain ⟨_, first, hallocations, h⟩ := ends_bind.mp h
  have hfirst := (processTerminateAllocations_keepsProcesses _ _ _).of_ends hallocations
  obtain ⟨res, second, hdata, h⟩ := ends_bind.mp h
  have hsecond := Frame.trans hfirst ((processFreeProgramData_keepsProcesses _ _).of_ends hdata)
  have hcode := processFreeProgramData_code hdata (by rwa [hfirst.procs])
  rw [if_neg (Int.not_lt.mpr hcode), ends_get_bind, ends_bind] at h
  obtain ⟨_, third, hstack, h⟩ := h
  have hthird := Frame.trans hsecond ((HeapFrame.kfree _).of_ends hstack)
  obtain ⟨_, fourth, htask, h⟩ := ends_bind.mp h
  have hfourth : KeepsProcesses kernel fourth :=
    Frame.trans hthird ((taskFree_keeps _ fun _ => ⟨⟨id, rfl⟩, rfl⟩).of_ends htask)
  obtain ⟨_, last, hunlink, h⟩ := ends_bind.mp h
  obtain ⟨-, rfl⟩ := ends_pure.mp h
  obtain ⟨sched, hsched, rfl⟩ := ends_processUnlink hunlink
  refine ⟨hfourth.sound, fun slot => ?_⟩
  rw [(processUnlink_some hsched).2.2 slot, hfourth.procs, hfourth.slots]

theorem processTerminate_actsFor {elfResult code : Int}
    (h : Ends (processTerminate process elfResult) kernel code after)
    (hresult : (kernel.sched.procs process).filetype = .elf → 0 ≤ elfResult)
    (hpartitioned : Partitioned kernel) (hprocess : kernel.Registered process) :
    ActsFor process kernel after := by
  obtain ⟨hsound, hslots⟩ := processTerminate_slots h hresult
  have hgone : ¬after.Registered process := by
    rintro ⟨hnull, slot, hslot, heq⟩
    rw [hslots] at heq
    split at heq
    · exact hnull heq.symm
    · rename_i hother
      have hid := hpartitioned.slot slot hslot (heq ▸ hnull)
      rw [heq] at hid
      exact hother hid.symm
  refine ⟨hsound hpartitioned.sound, fun slot _ => ?_, fun other hother hne resource block hblock =>
    (hpartitioned.foreign hprocess hother hne hblock).terminate h, fun h => absurd h hgone,
    fun h => absurd h hgone, fun h => absurd h hgone⟩
  rw [hslots]
  split
  · obtain ⟨hnull, own, hown, heq⟩ := hprocess
    have hid := hpartitioned.slot own hown (heq ▸ hnull)
    rw [heq] at hid
    rename_i hslot
    exact Or.inr ⟨Or.inr (hslot ▸ hid ▸ heq), Or.inl rfl⟩
  · exact Or.inl rfl

end Kernel

end SlobOS
