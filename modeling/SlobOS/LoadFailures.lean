import SlobOS.Proof.ProcessLoad

/-!
# Loads that fail

A load that fails gives back its task at most: the blocks of the process, of its data and of its stack
stay taken. So a failed load leaves the kernel as it was only when it fails before it takes anything.
-/

namespace SlobOS

namespace Kernel

open Faulting

structure LoadUndone (before after : Kernel) : Prop where
  total : after.heap.table.total = before.heap.table.total
  entries : ∀ i < before.heap.table.total,
    after.heap.table.entries i = before.heap.table.entries i
  processes : ∀ i < slobosMaxProcesses, after.sched.processes i = before.sched.processes i
  taskHead : after.sched.list.taskHead = before.sched.list.taskHead
  taskTail : after.sched.list.taskTail = before.sched.list.taskTail
  currentTask : after.sched.list.currentTask = before.sched.list.currentTask
  live : after.sched.list.live = before.sched.list.live
  tasks : ∀ task ∈ before.sched.list.live,
    after.sched.list.tasks task = before.sched.list.tasks task
  currentProcess : after.sched.currentProcess = before.sched.currentProcess
  fileDescriptors : ∀ i < slobosMaxFileDescriptors,
    after.fileDescriptors i = before.fileDescriptors i
  nullStores : after.nullStores = before.nullStores

/-- Every step of the load into the slot succeeds, up to the mapping of the program. -/
def LoadStepsSucceed (filename : List UInt8) (slot : Nat) (kernel : Kernel) : Prop :=
  ∃ process acquired res mapped, Acquires filename slot kernel process acquired ∧
    Ends (processMapMemory process) acquired res mapped ∧ 0 ≤ res

/-- The load does not fault; if it fails, nothing has changed and nothing has been stored through a null
pointer; and it fails if one of its steps does. -/
def LoadClean (filename : List UInt8) (kernel : Kernel) : Prop :=
  ∃ res process after, Ends (processLoad filename) kernel (res, process) after ∧
    (res < 0 → LoadUndone kernel after) ∧
    ((∀ slot, processGetFreeSlot kernel.sched = some slot →
      ¬LoadStepsSucceed filename slot kernel) → res < 0)

variable {kernel after : Kernel} {filename : List UInt8} {slot process : Nat}

theorem LoadUndone.refl (kernel : Kernel) : LoadUndone kernel kernel := by
  constructor <;> intros <;> rfl

theorem LoadUndone.not_holds (h : LoadUndone kernel after) {block : Nat}
    (hfree : kernel.heap.table.IsFree block) : ¬Holds after.heap block :=
  not_holds_of_same h.total h.entries hfree

theorem AcquireOutcome.failure {res : Int}
    (h : AcquireOutcome filename slot kernel (.error res) after) (hsound : HeapSound kernel.heap)
    (hundone : LoadUndone kernel after) : (heapMalloc kernel.heap processSize).1 = 0 := by
  have hfirst : ∀ {process first}, Ends (kzalloc processSize) kernel process first → process ≠ 0 →
      ∃ block, kernel.heap.table.IsFree block ∧ Holds first.heap block := by
    intro process first hprocess hne
    obtain ⟨hptr, hheap, -, -⟩ := ends_kzalloc hprocess
    obtain ⟨block, -, hfree, hblock⟩ := hsound.malloc_holds
      (show 0 < blockCount processSize by decide) (hptr ▸ hne)
    exact ⟨block, hfree, hheap ▸ hblock⟩
  cases h with
  | noProcess hprocess => exact (ends_kzalloc hprocess).1.symm
  | noData hprocess hne hdata _ =>
      obtain ⟨block, hfree, hblock⟩ := hfirst hprocess hne
      exact absurd (processLoadData_spares hdata hblock).1.holds (hundone.not_holds hfree)
  | noStack hprocess hne hdata _ hstack =>
      obtain ⟨block, hfree, hblock⟩ := hfirst hprocess hne
      have hspares := (processLoadData_spares hdata hblock).1
      exact absurd (kzalloc_spares hstack hspares.holds).1.holds (hundone.not_holds hfree)

theorem LoadEnds.clean {res : Int} (h : LoadEnds filename slot kernel res process after)
    (hsound : HeapSound kernel.heap) (hundone : res < 0 → LoadUndone kernel after)
    (hreported : ¬LoadStepsSucceed filename slot kernel → res < 0) :
    (heapMalloc kernel.heap processSize).1 = 0 ∨ LoadStepsSucceed filename slot kernel := by
  by_cases hsteps : LoadStepsSucceed filename slot kernel
  · exact Or.inr hsteps
  have hundone := hundone (hreported hsteps)
  cases h with
  | refused hacquire => exact Or.inl (hacquire.failure hsound hundone)
  | unmapped hacquires hmap _ hfree =>
      obtain ⟨block, hblockFree, hblock, hguarded⟩ := hacquires.holds hsound
      obtain ⟨pages, rfl, hpages⟩ := processMapMemory_pages hmap
      have hspares := taskFree_spares hfree hblock (hguarded.setPages hpages).task
      exact absurd hspares.holds (hundone.not_holds hblockFree)
  | loaded hacquires hmap hres => exact absurd ⟨_, _, _, _, hacquires, hmap, hres⟩ hsteps

/-- A load is clean exactly when it stops before it takes anything or goes through to its end. -/
theorem loadClean_iff (filename : List UInt8) (hsound : HeapSound kernel.heap) :
    LoadClean filename kernel ↔
      processGetFreeSlot kernel.sched = none ∨ (heapMalloc kernel.heap processSize).1 = 0 ∨
        ∃ slot, processGetFreeSlot kernel.sched = some slot ∧
          LoadStepsSucceed filename slot kernel := by
  cases hslot : processGetFreeSlot kernel.sched with
  | none =>
      refine ⟨fun _ => Or.inl rfl, fun _ => ⟨-eistkn, 0, kernel, ?_, fun _ => .refl kernel, ?_⟩⟩
      · rw [processLoad, ends_get_bind, hslot]
        exact ends_pure.mpr ⟨rfl, rfl⟩
      · exact fun _ => by decide
  | some slot =>
      have hsteps : (∀ slot', some slot = some slot' → ¬LoadStepsSucceed filename slot' kernel) ↔
          ¬LoadStepsSucceed filename slot kernel := by simp
      constructor
      · rintro ⟨res, process, after, hload, hundone, hreported⟩
        rw [ends_processLoad hslot] at hload
        rw [hslot, hsteps] at hreported
        refine Or.inr (((processLoadForSlot_cases hload).clean hsound hundone hreported).imp id ?_)
        exact fun h => ⟨slot, rfl, h⟩
      · rintro (hnone | hfull | ⟨slot', heq, hload⟩)
        · cases hnone
        · refine ⟨-enomem, 0, kernel, ?_, fun _ => .refl kernel, fun _ => by decide⟩
          have hprocess : Ends (kzalloc processSize) kernel 0 kernel :=
            (kzalloc_null hsound).mpr ⟨hfull, rfl⟩
          rw [ends_processLoad hslot]
          refine ends_bind.mpr ⟨.error (-enomem), kernel, ?_, ends_pure.mpr ⟨rfl, rfl⟩⟩
          rw [processAcquire, ends_get_bind, if_neg (not_not.mpr (processGet_of_free hslot))]
          refine ends_bind.mpr ⟨0, kernel, hprocess, ?_⟩
          rw [if_pos rfl]
          exact ends_pure.mpr ⟨rfl, rfl⟩
        · obtain rfl := Option.some.inj heq
          obtain ⟨process, acquired, res, mapped, hacquires, hmap, hres⟩ := hload
          refine ⟨res, process, enterSlot slot process mapped, ?_, fun hneg => by omega, ?_⟩
          · rw [ends_processLoad hslot]
            refine ends_bind.mpr ⟨.ok process, acquired,
              hacquires.ends (processGet_of_free hslot), ?_⟩
            refine ends_bind.mpr ⟨res, mapped, hmap, ?_⟩
            rw [if_neg (by omega), ends_modify_bind]
            exact ends_pure.mpr ⟨rfl, rfl⟩
          · rw [hslot, hsteps]
            exact fun hnot => absurd ⟨_, _, _, _, hacquires, hmap, hres⟩ hnot

/-- Nothing but the first byte of the boot sector's name lies around the heap table. -/
def bootBytes (i : Int) : UInt8 := if i = -509 then 0x53 else 0

def unmountedVolume : Volume where
  mounted := false
  rootDirectory := []
  subdirectory := fun _ => []
  totalItems := fun _ => 0
  readInternal := fun _ _ _ => some (0, [])

theorem idleKernel_sound (volume : Volume) : HeapSound (idleKernel bootBytes volume).heap :=
  kheapInit_sound (by rfl)

theorem loadClean_iff_idle : LoadClean [] (idleKernel bootBytes unmountedVolume) ↔
    processGetFreeSlot (idleKernel bootBytes unmountedVolume).sched = none ∨
      (heapMalloc (idleKernel bootBytes unmountedVolume).heap processSize).1 = 0 ∨
        ∃ slot, processGetFreeSlot (idleKernel bootBytes unmountedVolume).sched = some slot ∧
          LoadStepsSucceed [] slot (idleKernel bootBytes unmountedVolume) :=
  loadClean_iff [] (idleKernel_sound _)

theorem fopen_nil {modeStr : List UInt8} {fd : Int}
    (h : Ends (fopen [] modeStr) kernel fd after) : fd = 0 := by
  have hparse : pathparserParse [] = pure none := rfl
  simp only [fopen, hparse, ends_bind, ends_pure, and_assoc, exists_eq_left, exists_and_left] at h
  exact h.1

theorem processLoadData_nil {res : Int} (h : Ends (processLoadData [] process) kernel res after) :
    res < 0 := by
  simp only [processLoadData, processLoadElf, elfLoad, ends_bind] at h
  obtain ⟨res', _, ⟨⟨code, _⟩, _, ⟨_, _, -, fd, _, hopen, hload⟩, helf⟩, h⟩ := h
  obtain rfl := fopen_nil hopen
  rw [if_pos (Int.le_refl 0)] at hload
  simp only [ends_bind, ends_pure, Prod.mk.injEq] at hload
  obtain ⟨_, _, -, ⟨rfl, -⟩, rfl⟩ := hload
  rw [if_pos (show (-eio : Int) < 0 by decide)] at helf
  obtain ⟨rfl, rfl⟩ := ends_pure.mp helf
  rw [if_neg (show ¬(-eio : Int) = -einformat by decide)] at h
  obtain ⟨rfl, rfl⟩ := ends_pure.mp h
  exact (show (-eio : Int) < 0 by decide)

theorem idleKernel_malloc (volume : Volume) (size : Nat) :
    (heapMalloc (idleKernel bootBytes volume).heap size).1 = slobosHeapAddress := by
  have hstart : heapGetStartBlock (kheapInit bootBytes) (blockCount size) = (0 : Nat) :=
    (kheapInit_inv _).heapGetStartBlock_of_nil (by rw [kheapInit_total]; decide) _
  change (heapMallocBlocks (kheapInit bootBytes) (blockCount size)).1 = _
  rw [heapMallocBlocks_of_nonneg hstart]
  simp [heapBlockToAddress, kheapInit_saddr, slobosHeapAddress, addressSpace]

/-- The load of a file with an empty name keeps the block of the process. -/
theorem not_loadClean : ¬∀ filename kernel, HeapSound kernel.heap → LoadClean filename kernel := by
  intro hall
  have hsound := idleKernel_sound unmountedVolume
  obtain ⟨res, process, after, hload, hundone, hreported⟩ := hall [] _ hsound
  have hslot : processGetFreeSlot (idleKernel bootBytes unmountedVolume).sched = some 0 := rfl
  rw [ends_processLoad hslot] at hload
  have hfails : ¬LoadStepsSucceed [] 0 (idleKernel bootBytes unmountedVolume) := by
    rintro ⟨_, _, _, _, hacquires, -⟩
    cases hacquires with
    | intro _ _ hdata hres => exact absurd (processLoadData_nil hdata) (by omega)
  rcases (processLoadForSlot_cases hload).clean hsound hundone (fun _ => hreported fun slot heq => by
    obtain rfl := Option.some.inj (hslot.symm.trans heq)
    exact hfails) with hfull | hsteps
  · rw [idleKernel_malloc] at hfull
    exact absurd hfull (by decide)
  · exact hfails hsteps

end Kernel

end SlobOS
