import SlobOS.Proof.ProgramPages
import SlobOS.Proof.TaskPages

/-!
# Programs that have been loaded

Whatever is in the file of a program that is loaded, its task has tables of its own, its stack lies in
memory that nobody else is given, and what stood in the blocks in use stands there still.
-/

namespace SlobOS

namespace Kernel

open Faulting

variable {kernel after : Kernel} {filename : List UInt8} {process slot size ptr directory frame : Nat}

theorem BuiltTables.low (h : BuiltTables kernel directory pagingTotalEntriesPerTable)
    (hsize : kernel.heap.table.total * slobosHeapBlockSize ≤ slobosHeapSizeBytes) :
    ∀ i < pagingTotalEntriesPerTable, kernel.pages.directories directory i < 0x10000000 := by
  intro i hi
  obtain ⟨block, hblock, htable⟩ := h.held i hi
  have hlt := hblock.lt
  rw [hblock.toHeapSound.address hlt] at htable
  simp only [tableAddress, pagingPageSize, slobosHeapAddress, slobosHeapBlockSize,
    slobosHeapSizeBytes] at *
  omega

theorem taskNew_taskPages {task : Nat} (h : Ends (taskNew process) kernel task after)
    (hsound : KernelSound kernel) :
    TaskPages after.pages (after.chunks (after.sched.list.tasks task).pageDirectory) := by
  have hidentity := taskNew_directory h hsound.heap
  refine ⟨hidentity.distinct, hidentity.flags, ?_⟩
  have hmachine := taskNew_sameMachine h
  obtain ⟨-, first, chunk, second, htask, hchunk, rfl⟩ := ends_taskNew h
  rw [linkTask_pageDirectory]
  simp only [pagingNew4gb, ends_bind, ends_deref, ends_modify, ends_pure, and_assoc, exists_eq_left,
    exists_and_left, exists_const] at hchunk
  obtain ⟨root, third, hroot, _, fourth, htables, _, fifth, hlast, -, rfl, rfl⟩ := hchunk
  have hthird : HeapSound third.heap := by
    rw [(ends_kzalloc hroot).2.1, (ends_kzalloc htask).2.1]
    exact (hsound.heap.malloc _).malloc _
  obtain ⟨hbuilt, -⟩ := pagingNewTables_spec htables hthird .zero
  rw [Nat.zero_add] at hbuilt
  have htotal : fifth.heap.table.total = kernel.heap.table.total := hmachine.total
  have hlow := (hbuilt.malloc hlast).low (htotal ▸ hsound.size)
  intro i hi
  have hentry := hlow i hi
  rw [← @setChunk_chunks _ root] at hentry
  exact hentry

theorem kzalloc_holds (hsound : HeapSound kernel.heap) (h : Ends (kzalloc size) kernel ptr after)
    (hne : ptr ≠ 0) :
    ∃ start, ptr = slobosHeapAddress + start * slobosHeapBlockSize ∧
      ∀ j < blockCount size, start + j < after.heap.table.total → Holds after.heap (start + j) := by
  obtain ⟨rfl, hheap, -, -⟩ := ends_kzalloc h
  rw [hheap]
  obtain ⟨start, count, hgiven⟩ := heapMalloc_given hne
  obtain rfl := hgiven.eq (hsound.end_le hgiven.lt size)
  have hmarked := hgiven.marked
  refine ⟨start, hgiven.address.trans (hsound.address hgiven.lt), fun j hj hlt =>
    ⟨hsound.marked hmarked, hlt, ?_⟩⟩
  exact not_isFree_of_eq_chainEntry (by rw [hmarked.entries, if_pos (by omega)])

/-- The stack of the program is mapped to four pages, and those of them that the heap has are in
use. -/
structure ProgramStack (kernel : Kernel) (process frame : Nat) : Prop where
  entry : ∀ j < 4, pageEntry kernel.pages (kernel.directoryOf process) (0x3FB + j) =
    (frame + j) * pagingPageSize ||| 7
  bound : frame + 4 < pageCount
  held : ∀ j < 4, ∀ block < kernel.heap.table.total,
    frame + j = slobosHeapAddress / pagingPageSize + block → Holds kernel.heap block

theorem ProgramStack.continues (h : ProgramStack kernel process frame)
    (hcontinues : Continues process kernel after) : ProgramStack after process frame := by
  refine ⟨fun j hj => ?_, h.bound, fun j hj block hlt heq => ?_⟩
  · rw [hcontinues.directoryOf, hcontinues.entry _ _ (Or.inl _), h.entry j hj]
    · simp only [pageCount]
      omega
    · simp only [slobosHeapAddress, pagingPageSize]
      omega
  · exact hcontinues.held block (h.held j hj block (hcontinues.total ▸ hlt) heq)

structure Loaded (kernel after : Kernel) (process : Nat) : Prop where
  sound : KernelSound after
  preserves : Preserves kernel after
  pages : TaskPages after.pages (after.directoryOf process)
  stack : ∃ frame, ProgramStack after process frame

theorem Acquires.stack (h : Acquires filename slot kernel process after) (hsound : KernelSound kernel) :
    TaskPages after.pages (after.directoryOf process) ∧
      ∃ start, (after.processMemory process).stack =
          slobosHeapAddress + start * slobosHeapBlockSize ∧
        ∀ j < 4, start + j < after.heap.table.total → Holds after.heap (start + j) := by
  cases h with
  | @intro first second third fourth res stack task hprocess hne hdata hres hstack hstackNe htask =>
      obtain ⟨hptr, hheap, -, -⟩ := ends_kzalloc hprocess
      obtain ⟨block, -, -, hblock⟩ := hsound.heap.malloc_holds
        (show 0 < blockCount processSize by decide) (hptr ▸ hne)
      rw [← hheap] at hblock
      have hheld := (processLoadData_spares hdata hblock).1.holds
      have hheld' := (kzalloc_spares hstack hheld).1.holds
      have hfirst : SameMachine kernel (processInit process first) :=
        ⟨(kzalloc_sameMachine hprocess).volume, (kzalloc_sameMachine hprocess).total⟩
      have hthird : SameMachine kernel third := Frame.trans hfirst <|
        Frame.trans ((processLoadData_sameMachine _ _).of_ends hdata) (kzalloc_sameMachine hstack)
      have hsound' : KernelSound (setStack process slot stack third) :=
        hsound.of_same hheld'.toHeapSound ⟨hthird.volume, hthird.total⟩
      have hstackPtr : ((setTask process task fourth).processMemory process).stack = stack := by
        simp only [setTask, setProcess, (taskNew_frame htask).1, setStack, setProcessMemory, if_true]
      have htaskPtr : ((setTask process task fourth).sched.procs process).task = task := by
        simp only [setTask, setProcess, if_true]
      obtain ⟨start, hstart, hblocks⟩ := kzalloc_holds hheld.toHeapSound hstack hstackNe
      refine ⟨?_, start, hstackPtr.trans hstart, fun j hj hlt => ?_⟩
      · rw [directoryOf, htaskPtr]
        have hpages := taskNew_taskPages htask hsound'
        exact hpages
      · have htotal := (taskNew_sameMachine htask).total
        exact (taskNew_spares htask (hblocks j hj (htotal ▸ hlt))).1.holds

theorem AcquireOutcome.neg {res : Int} (h : AcquireOutcome filename slot kernel (.error res) after) :
    res < 0 := by
  generalize hresult : (Except.error res : Except Int Nat) = result at h
  cases h with
  | acquired => cases hresult
  | noData _ _ _ hneg => exact Except.error.inj hresult ▸ hneg
  | noProcess | noStack =>
      obtain rfl := Except.error.inj hresult
      decide

theorem processLoadSwitch_loaded (h : Ends (processLoadSwitch filename) kernel (0, process) after)
    (hsound : KernelSound kernel) : Loaded kernel after process := by
  obtain ⟨⟨res, started⟩, loaded, hload, h⟩ := ends_bind.mp h
  change Ends (if res = 0 then _ else _) _ _ _ at h
  rw [ends_ite, ends_modify_bind] at h
  rcases h with ⟨rfl, h⟩ | ⟨hres, h⟩
  swap
  · obtain ⟨heq, -⟩ := ends_pure.mp h
    exact absurd (congrArg Prod.fst heq).symm hres
  obtain ⟨heq, rfl⟩ := ends_pure.mp h
  obtain ⟨-, rfl⟩ := Prod.mk.inj heq
  rw [processLoad, ends_get_bind] at hload
  cases hslot : processGetFreeSlot kernel.sched with
  | none =>
      rw [hslot] at hload
      exact absurd (Prod.mk.inj (ends_pure.mp hload).1).1 (by decide)
  | some slot =>
      rw [hslot] at hload
      cases processLoadForSlot_cases hload with
      | refused hrefused => exact absurd hrefused.neg (by decide)
      | unmapped _ _ hneg => exact absurd hneg (by decide)
      | @loaded _ acquired mapped _ hacquires hmap hres =>
          obtain ⟨hpreserves, hmachine⟩ := hacquires.preserves hsound.volume
          obtain ⟨hpages, start, hstack, hblocks⟩ := hacquires.stack hsound
          have hmappable := hacquires.mappable hsound.heap
          obtain ⟨block, -, hblock, -⟩ := hacquires.holds hsound.heap
          obtain rfl := ends_processMapMemory hmap (by decide)
          have haligned := hmappable.stackAligned
          have hbound := hmappable.stackBound
          have hmaps := @stackMapped_maps (acquired.programPages process)
            (acquired.directoryOf process) _ haligned hbound
          have hdirectories := hmaps.directories.trans (programPages_directories acquired process)
          constructor
          case sound => exact hsound.of_same hblock.toHeapSound ⟨hmachine.volume, hmachine.total⟩
          case preserves => exact hpreserves
          case pages =>
            have htables := hpages.congr hdirectories
            exact htables
          case stack =>
            have hdistinct := (hpages.congr (programPages_directories acquired process)).distinct
            have hframe : (acquired.processMemory process).stack / pagingPageSize =
                slobosHeapAddress / pagingPageSize + start := by
              rw [hstack]
              simp only [slobosHeapAddress, slobosHeapBlockSize, pagingPageSize]
              omega
            refine ⟨(acquired.processMemory process).stack / pagingPageSize, fun j hj => ?_, ?_, ?_⟩
            · have hentry := hmaps.inside hdistinct (by decide)
                (by simp only [slobosUserProgramStackSize, addressSpace, pagingPageSize, pageCount] at *; omega)
                (Nat.le_add_right 0x3FB j) (Nat.add_lt_add_left hj _)
              rwa [Nat.add_sub_cancel_left] at hentry
            · simp only [slobosUserProgramStackSize, addressSpace, pagingPageSize, pageCount] at *
              omega
            · intro j hj block hlt heq
              obtain rfl : block = start + j := by omega
              have hheld := hblocks j hj hlt
              exact hheld

theorem processLoadSwitch_ends (hslot : processGetFreeSlot kernel.sched = some slot)
    (hload : Ends (processLoadForSlot filename slot) kernel (0, process) after) :
    Ends (processLoadSwitch filename) kernel (0, process)
      { after with sched := processSwitch after.sched process } := by
  refine ends_bind.mpr ⟨(0, process), after, (ends_processLoad hslot).mpr hload, ?_⟩
  change Ends (if (0 : Int) = 0 then _ else _) _ _ _
  rw [if_pos rfl, ends_modify_bind]
  exact ends_pure.mpr ⟨rfl, rfl⟩

end Kernel

end SlobOS
