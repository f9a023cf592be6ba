import SlobOS.Lib.Runs
import SlobOS.Proof.ProcessMemory
import SlobOS.Proof.Programs

/-!
# What a process leaves behind

The end of a process releases its allocations, its program, its stack and its task. Nothing releases
the structure of the process itself, so its block is still taken, whatever the process did meanwhile.
-/

namespace SlobOS

namespace Kernel

open Faulting Runs

/-- The table of the heap is what it was, and nothing has been written outside of it meanwhile. -/
structure HeapRestored (before after : Heap) : Prop where
  total : after.table.total = before.table.total
  entries : ∀ i < before.table.total, after.table.entries i = before.table.entries i
  inside : ∀ i ∈ after.table.written.take (after.table.written.length - before.table.written.length),
    0 ≤ i ∧ i < before.table.total

/-- The end of the process gives back what has been taken since the kernel was the one before. -/
def TerminateRestores (before : Kernel) (process : Nat) (kernel : Kernel) : Prop :=
  ∃ elfResult code after, Ends (processTerminate process elfResult) kernel code after ∧
    HeapRestored before.heap after.heap

variable {kernel middle after : Kernel} {block process ptr size : Nat}

structure ProcessHeld (kernel : Kernel) (block process : Nat) : Prop
    extends ProcessGuarded kernel block process where
  holds : Holds kernel.heap block

namespace ProcessHeld

theorem takes (h : ProcessHeld kernel block process) (hspares : Spares block kernel.heap after.heap)
    (htakes : TakesMemory kernel after) : ProcessHeld after block process := by
  have hprocs := congrArg (fun kernel => kernel.sched.procs) htakes
  have hmemory := congrArg Kernel.processMemory htakes
  have htask := congrArg (fun kernel => kernel.sched.list.tasks) htakes
  have helf := congrArg Kernel.elfFiles htakes
  have hchunks := congrArg Kernel.chunks htakes
  have hdirectories := congrArg (fun kernel => kernel.pages.directories) htakes
  refine ⟨⟨fun i => ?_, ?_, ?_, ?_⟩, hspares.holds⟩
  · simp only [hmemory]
    exact hspares.guards _ (h.allocations i)
  · exact h.data.spares hspares (by simp only [hprocs]) (by simp only [hmemory])
      helf
  · simp only [hmemory]
    exact hspares.guards _ h.stack
  · simp only [hprocs]
    refine ⟨hspares.guards _ h.task.self, ?_⟩
    simp only [htask]
    exact h.task.chunk.spares hspares hchunks hdirectories

theorem kfree (h : ProcessHeld kernel block process) (hguards : Guards kernel.heap block ptr) :
    ProcessHeld { kernel with heap := heapFree kernel.heap ptr } block process :=
  h.takes (h.holds.free hguards) rfl

theorem setPages (h : ProcessHeld kernel block process) {pages : PageTables}
    (hpages : pages.directories = kernel.pages.directories) :
    ProcessHeld (Kernel.setPages pages kernel) block process :=
  ⟨h.toProcessGuarded.setPages hpages, h.holds⟩

theorem setAllocations (h : ProcessHeld kernel block process)
    {allocations : Nat → ProcessAllocation}
    (hguards : ∀ i, Guards kernel.heap block (allocations i).ptr) :
    ProcessHeld (Kernel.setAllocations process allocations kernel) block process := by
  have htask : (Kernel.setAllocations process allocations kernel).TaskGuarded block
      ((Kernel.setAllocations process allocations kernel).sched.procs process).task :=
    ⟨h.task.self, h.task.chunk.self, h.task.chunk.directory, h.task.chunk.tables⟩
  refine ⟨⟨fun i => ?_, ?_, ?_, htask⟩, h.holds⟩
  · simp only [Kernel.setAllocations, setProcessMemory, if_true]
    exact hguards i
  · refine h.data.spares (.refl h.holds) rfl ?_ rfl
    simp only [Kernel.setAllocations, setProcessMemory, if_true]
  · simp only [Kernel.setAllocations, setProcessMemory, if_true]
    exact h.stack

end ProcessHeld

theorem mapsAllocation_directories (kernel : Kernel) (process ptr size flags : Nat) :
    (mapsAllocation kernel process ptr size flags).2.directories = kernel.pages.directories :=
  pagingMapTo_directories _ _ _ _ _ _

theorem processMalloc_held (h : Ends (processMalloc process size) kernel ptr after)
    (hheld : ProcessHeld kernel block process) : ProcessHeld after block process := by
  have htaken : ∀ {ptr alloc}, Ends (kzalloc size) kernel ptr alloc →
      ProcessHeld alloc block process ∧ Guards alloc.heap block ptr := by
    intro ptr alloc halloc
    obtain ⟨hspares, hguards⟩ := kzalloc_spares halloc hheld.holds
    exact ⟨hheld.takes hspares (kzalloc_takesMemory halloc), hguards⟩
  cases processMalloc_cases h with
  | refused halloc => exact (htaken halloc).1
  | full halloc => exact (htaken halloc).1.kfree (htaken halloc).2
  | unmapped halloc =>
      exact ((htaken halloc).1.setPages (mapsAllocation_directories _ _ _ _ _)).kfree
        (htaken halloc).2
  | granted halloc =>
      have hmapped := (htaken halloc).1.setPages (mapsAllocation_directories _ process ptr size 7)
      apply hmapped.setAllocations
      intro i
      unfold grantedAllocations
      split
      · exact (htaken halloc).2
      · exact hmapped.allocations i

theorem processFree_held {result : Unit} (h : Ends (processFree process ptr) kernel result after)
    (hheld : ProcessHeld kernel block process) : ProcessHeld after block process := by
  cases processFree_cases h with
  | ignored => exact hheld
  | unmapped => exact hheld.setPages (mapsAllocation_directories _ _ _ _ _)
  | @released i _ hptr =>
      have hguards : Guards kernel.heap block ptr := hptr ▸ hheld.allocations i
      have hmapped := hheld.setPages (mapsAllocation_directories kernel process ptr
        ((kernel.processMemory process).allocations i).size 0)
      refine (hmapped.setAllocations fun i => ?_).kfree hguards
      split
      · exact hmapped.holds.guards_null
      · exact hmapped.allocations i

theorem MemoryStep.held {call : MemoryCall} (h : MemoryStep process kernel call after)
    (hheld : ProcessHeld kernel block process) : ProcessHeld after block process := by
  cases h with
  | malloc h => exact processMalloc_held h hheld
  | free h => exact processFree_held h hheld

theorem processTerminateAllocations_held {left i : Nat} {result : Unit}
    (h : Ends (processTerminateAllocations process left i) kernel result after)
    (hheld : ProcessHeld kernel block process) : ProcessHeld after block process := by
  induction left generalizing kernel i with
  | zero =>
      obtain ⟨-, rfl⟩ := ends_pure.mp h
      exact hheld
  | succ left ih =>
      rw [processTerminateAllocations, ends_get_bind, ends_bind] at h
      obtain ⟨_, middle, hfree, h⟩ := h
      exact ih h (processFree_held hfree hheld)

theorem elfClose_held {elfFile : Nat} {result : Unit} (h : Ends (elfClose elfFile) kernel result after)
    (hheld : ProcessHeld kernel block process) (hguarded : ElfGuarded kernel block elfFile) :
    ProcessHeld after block process := by
  rw [elfClose, ends_ite] at h
  rcases h with ⟨-, h⟩ | ⟨-, h⟩
  · obtain ⟨-, rfl⟩ := ends_pure.mp h
    exact hheld
  rw [ends_get_bind, ends_bind] at h
  obtain ⟨_, freed, hfree, h⟩ := h
  obtain rfl := ends_kfree.mp hfree
  obtain rfl := ends_kfree.mp h
  have hspares := hheld.holds.free hguarded.2
  exact (hheld.kfree hguarded.2).kfree (hspares.guards _ hguarded.1)

theorem processFreeProgramData_held {elfResult code : Int}
    (h : Ends (processFreeProgramData process elfResult) kernel code after)
    (hheld : ProcessHeld kernel block process) : ProcessHeld after block process := by
  have hdata := hheld.data
  rw [processFreeProgramData, ends_get_bind] at h
  unfold DataGuarded at hdata
  cases hfiletype : (kernel.sched.procs process).filetype with
  | elf =>
      rw [hfiletype] at h hdata
      obtain ⟨_, closed, hclose, h⟩ := ends_bind.mp h
      obtain ⟨-, rfl⟩ := ends_pure.mp h
      exact elfClose_held hclose hheld hdata
  | binary =>
      rw [hfiletype] at h hdata
      obtain ⟨_, freed, hfree, h⟩ := ends_bind.mp h
      obtain ⟨-, rfl⟩ := ends_pure.mp h
      obtain rfl := ends_kfree.mp hfree
      exact hheld.kfree hdata

theorem processTerminate_holds {elfResult code : Int}
    (h : Ends (processTerminate process elfResult) kernel code after)
    (hheld : ProcessHeld kernel block process) : Holds after.heap block := by
  obtain ⟨_, first, hallocations, h⟩ := ends_bind.mp h
  have hfirst := processTerminateAllocations_held hallocations hheld
  obtain ⟨res, second, hdata, h⟩ := ends_bind.mp h
  have hsecond := processFreeProgramData_held hdata hfirst
  rw [ends_ite] at h
  rcases h with ⟨-, h⟩ | ⟨-, h⟩
  · obtain ⟨-, rfl⟩ := ends_pure.mp h
    exact hsecond.holds
  rw [ends_get_bind, ends_bind] at h
  obtain ⟨_, third, hstack, h⟩ := h
  obtain rfl := ends_kfree.mp hstack
  have hthird := hsecond.kfree hsecond.stack
  obtain ⟨_, fourth, htask, h⟩ := ends_bind.mp h
  have hspares := taskFree_spares htask hthird.holds hthird.task
  obtain ⟨_, last, hunlink, h⟩ := ends_bind.mp h
  obtain ⟨-, rfl⟩ := ends_pure.mp h
  rw [processUnlink, ends_get_bind] at hunlink
  cases hsched : SlobOS.processUnlink fourth.sched process with
  | none =>
      rw [hsched] at hunlink
      exact absurd hunlink ends_throw
  | some sched =>
      rw [hsched] at hunlink
      obtain rfl := ends_modify.mp hunlink
      exact hspares.holds

theorem processLoadForSlot_held {filename : List UInt8} {slot : Nat} {res : Int}
    (hsound : HeapSound kernel.heap)
    (h : Ends (processLoadForSlot filename slot) kernel (res, process) after) (hne : process ≠ 0) :
    ∃ block : Nat, kernel.heap.table.IsFree block ∧ ProcessHeld after block process := by
  cases processLoadForSlot_cases h with
  | refused => exact absurd rfl hne
  | unmapped => exact absurd rfl hne
  | loaded hacquires hmap _ =>
      obtain ⟨block, hfree, hblock, hguarded⟩ := hacquires.holds hsound
      obtain ⟨pages, rfl, hpages⟩ := processMapMemory_pages hmap
      have hmapped := hguarded.setPages hpages
      refine ⟨block, hfree, ⟨hmapped.allocations, hmapped.data, hmapped.stack, ?_⟩, hblock⟩
      exact ⟨hmapped.task.self, hmapped.task.chunk.self, hmapped.task.chunk.directory,
        hmapped.task.chunk.tables⟩

theorem processLoad_held {filename : List UInt8} {res : Int} (hsound : HeapSound kernel.heap)
    (h : Ends (processLoad filename) kernel (res, process) after) (hne : process ≠ 0) :
    ∃ block : Nat, kernel.heap.table.IsFree block ∧ ProcessHeld after block process := by
  cases hslot : processGetFreeSlot kernel.sched with
  | none =>
      rw [processLoad, ends_get_bind, hslot] at h
      obtain ⟨heq, -⟩ := ends_pure.mp h
      exact absurd (Prod.mk.inj heq).2 hne
  | some slot => exact processLoadForSlot_held hsound ((ends_processLoad hslot).mp h) hne

theorem ProcessHeld.not_heapRestored {before : Heap} {elfResult code : Int}
    (hheld : ProcessHeld kernel block process) (hfree : before.table.IsFree block)
    (h : Ends (processTerminate process elfResult) kernel code after) :
    ¬HeapRestored before after.heap := by
  intro hrestored
  exact not_holds_of_same hrestored.total hrestored.entries hfree (processTerminate_holds h hheld)

/-- No program that is loaded gives back all of the heap when it ends, whatever it asked for. -/
theorem not_terminateRestores {loaded state : Kernel} {filename : List UInt8} {res : Int}
    {calls : List MemoryCall} (hsound : HeapSound kernel.heap)
    (hload : Ends (processLoad filename) kernel (res, process) loaded) (hne : process ≠ 0)
    (hrun : Run (MemoryStep process) loaded calls state) :
    ¬TerminateRestores kernel process state := by
  obtain ⟨block, hfree, hheld⟩ := processLoad_held hsound hload hne
  have hlast := hrun.invariant (fun kernel => ProcessHeld kernel block process)
    (fun _ _ _ hbefore hcall => hcall.held hbefore) hheld
  rintro ⟨elfResult, code, after, hend, hrestored⟩
  exact hlast.not_heapRestored hfree hend hrestored

theorem processLoad_byte : ∃ process loaded,
    Ends (processLoad rootFilePath) (idleKernel bootBytes (programVolume 1)) (0, process) loaded ∧
      process ≠ 0 := by
  obtain ⟨process, acquired, mapped, -, -, hload, -, -, -, hne⟩ :=
    @processLoadForSlot_program 1 (by decide) (by decide)
  exact ⟨process, _, (ends_processLoad rfl).mpr hload, hne⟩

theorem not_terminateRestores_byte : ∃ process loaded,
    Ends (processLoad rootFilePath) (idleKernel bootBytes (programVolume 1)) (0, process) loaded ∧
      ¬TerminateRestores (idleKernel bootBytes (programVolume 1)) process loaded := by
  obtain ⟨process, loaded, hload, hne⟩ := processLoad_byte
  exact ⟨process, loaded, hload,
    not_terminateRestores (idleKernel_sound _) hload hne (.nil loaded)⟩

/-- The program ends without a call, and its structure stays in the heap. -/
theorem not_forall_terminateRestores : ¬∀ filename kernel res process loaded calls state,
    HeapSound kernel.heap → Ends (processLoad filename) kernel (res, process) loaded →
      process ≠ 0 → Run (MemoryStep process) loaded calls state →
        TerminateRestores kernel process state := by
  intro hall
  obtain ⟨process, loaded, hload, hne⟩ := processLoad_byte
  have hsound := idleKernel_sound (programVolume 1)
  obtain ⟨block, hfree, hheld⟩ := processLoad_held hsound hload hne
  obtain ⟨elfResult, code, after, hend, hrestored⟩ :=
    hall rootFilePath _ 0 process loaded [] loaded hsound hload hne (.nil loaded)
  exact hheld.not_heapRestored hfree hend hrestored

end Kernel

end SlobOS
