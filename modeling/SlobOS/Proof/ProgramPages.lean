import SlobOS.Proof.ProcessLoad

/-!
# The pages of a program

What the mapping of a program starts from, and the entries that it leaves: those of the program, of
its stack, and all others as they were built with the page directory of the task.
-/

namespace SlobOS

section Entries

variable {pages : PageTables} {directory page ptr size stack : Nat}

theorem stackMapped_maps (haligned : stack % pagingPageSize = 0)
    (hbound : stack + slobosUserProgramStackSize < addressSpace) :
    Maps pages (stackMapped pages directory stack).2 directory 0x3FB (stack / pagingPageSize) 4 7 := by
  have hsize : slobosUserProgramStackSize = 4 * pagingPageSize := rfl
  have hstop : pagingAlignAddress (toUint32 (stack + slobosUserProgramStackSize)) =
      (stack / pagingPageSize + 4) * pagingPageSize := by
    rw [pagingAlignAddress_eq (toUint32_lt _), toUint32, Nat.mod_eq_of_lt hbound, hsize]
    simp only [stopPage, pagingPageSize, pageCount, addressSpace, hsize] at *
    omega
  have hstack : stack = stack / pagingPageSize * pagingPageSize := by
    simp only [pagingPageSize] at *
    omega
  have hframe : stack / pagingPageSize + 4 < pageCount := by
    simp only [pagingPageSize, pageCount, addressSpace, hsize] at *
    omega
  obtain ⟨pages', hmap, hmaps⟩ := @pagingMapTo_maps pages directory 0x3FB (stack / pagingPageSize)
    (stack / pagingPageSize + 4) 7 (by decide) (by omega) hframe (by omega)
  rw [Nat.add_sub_cancel_left] at hmaps
  rw [stackMapped, hstop]
  rw [← hstack] at hmap
  have hmapped : pages' = (pagingMapTo pages directory slobosProgramVirtualStackAddressEnd stack
      ((stack / pagingPageSize + 4) * pagingPageSize)
      (pagingIsPresent ||| pagingAccessFromAll ||| pagingIsWriteable)).2 :=
    (congrArg Prod.snd hmap).symm
  exact hmapped ▸ hmaps

theorem stackMapped_entry (haligned : stack % pagingPageSize = 0)
    (hbound : stack + slobosUserProgramStackSize < addressSpace)
    (hdistinct : DistinctTables pages directory) (hpage : page < pageCount)
    (hout : page < 0x3FB ∨ 0x3FF ≤ page) :
    pageEntry (stackMapped pages directory stack).2 directory page =
      pageEntry pages directory page := by
  have hmaps := @stackMapped_maps pages directory stack haligned hbound
  exact hmaps.outside hdistinct (by decide) hpage hout

section Binary

variable (haligned : ptr % pagingPageSize = 0) (hne : ptr ≠ 0) (hbound : ptr + size < addressSpace)

include haligned

theorem processMapBinary_maps (hend : ptr + size ≤ 0xFFFFF000) :
    Maps pages (processMapBinary pages directory ptr size).2 directory 0x400 (ptr / pagingPageSize)
      ((size + (pagingPageSize - 1)) / pagingPageSize) 7 := by
  have hptr : ptr = ptr / pagingPageSize * pagingPageSize := by
    simp only [pagingPageSize] at *
    omega
  have hstop : stopPage (toUint32 (ptr + size)) =
      ptr / pagingPageSize + (size + (pagingPageSize - 1)) / pagingPageSize := by
    simp only [stopPage, toUint32, pagingPageSize, pageCount, addressSpace] at *
    omega
  have hframe : ptr / pagingPageSize < pageCount := by
    simp only [pagingPageSize, pageCount]
    omega
  obtain ⟨pages', hmap, hmaps⟩ := @pagingMapTo_maps pages directory 0x400 (ptr / pagingPageSize)
    (stopPage (toUint32 (ptr + size))) 7 (by decide) hframe (stopPage_lt _)
    (hstop ▸ Nat.le_add_right _ _)
  rw [hstop, Nat.add_sub_cancel_left] at hmaps
  rw [← hptr, ← pagingAlignAddress_eq (toUint32_lt _)] at hmap
  have hmapped : pages' = (processMapBinary pages directory ptr size).2 :=
    (congrArg Prod.snd hmap).symm
  exact hmapped ▸ hmaps

include hne hbound

theorem processMapBinary_refused (hend : 0xFFFFF000 < ptr + size) :
    (processMapBinary pages directory ptr size).2 = pages := by
  have hptr : ptr = ptr / pagingPageSize * pagingPageSize := by
    simp only [pagingPageSize] at *
    omega
  have hstop : stopPage (toUint32 (ptr + size)) < ptr / pagingPageSize := by
    simp only [stopPage, toUint32, pagingPageSize, pageCount, addressSpace] at *
    omega
  have hmap := @pagingMapTo_refused pages directory 0x400 (ptr / pagingPageSize) _ 7 hstop
  rw [← hptr, ← pagingAlignAddress_eq (toUint32_lt _)] at hmap
  exact congrArg Prod.snd hmap

/-- Pages that the program does not reach keep their entries, also where its mapping is refused. -/
theorem processMapBinary_entry (hdistinct : DistinctTables pages directory) (hpage : page < pageCount)
    (hout : ptr + size ≤ 0xFFFFF000 →
      ¬pageOffset 0x400 page < (size + (pagingPageSize - 1)) / pagingPageSize) :
    pageEntry (processMapBinary pages directory ptr size).2 directory page =
      pageEntry pages directory page := by
  by_cases hend : ptr + size ≤ 0xFFFFF000
  · have hmaps := @processMapBinary_maps pages directory ptr size haligned hend
    rw [hmaps.entry hdistinct page hpage, if_neg (hout hend)]
  · rw [processMapBinary_refused haligned hne hbound (by omega)]

end Binary

end Entries

namespace Kernel

open Faulting

variable {kernel middle after : Kernel} {filename : List UInt8} {res : Int} {block process slot : Nat}

/-- A flat program lies at the start of a page, and does not reach around the address space. -/
structure ProgramPlaced (kernel : Kernel) (process : Nat) : Prop where
  aligned : (kernel.processMemory process).data % pagingPageSize = 0
  ne_null : (kernel.processMemory process).data ≠ 0
  inside : (kernel.processMemory process).data < slobosHeapAddress + 0x80000000
  bound : (kernel.processMemory process).data + (kernel.processMemory process).size < addressSpace

theorem processLoadElf_filetype (h : Ends (processLoadElf filename process) kernel res after)
    (hge : 0 ≤ res) : (after.sched.procs process).filetype = .elf := by
  obtain ⟨⟨code, elfFile⟩, middle, -, h⟩ := ends_bind.mp h
  rw [ends_ite] at h
  rcases h with ⟨hneg, h⟩ | ⟨-, h⟩
  · obtain ⟨rfl, -⟩ := ends_pure.mp h
    exact absurd hge (by simpa using hneg)
  · rw [ends_modify_bind] at h
    obtain ⟨-, rfl⟩ := ends_pure.mp h
    simp only [setProgramData, setProcess, setProcessMemory, if_true]

theorem processLoadBinary_placed (h : Ends (processLoadBinary filename process) kernel res after)
    (hblock : Holds kernel.heap block) (hge : 0 ≤ res) : ProgramPlaced after process := by
  obtain ⟨fd, first, hopen, h⟩ := ends_bind.mp h
  have hsound := (fopen_spares hopen hblock).1.holds.toHeapSound
  rw [ends_ite] at h
  rcases h with ⟨-, h⟩ | ⟨-, h⟩
  · obtain ⟨_, _, -, h⟩ := ends_bind.mp h
    obtain ⟨rfl, -⟩ := ends_pure.mp h
    exact absurd hge (by decide)
  simp only [ends_bind] at h
  obtain ⟨⟨code, filesize⟩, second, hstat, h⟩ := h
  obtain ⟨rfl, hle⟩ := ends_fstat hstat
  rw [ends_ite] at h
  rcases h with ⟨hne, h⟩ | ⟨-, h⟩
  · simp only [ends_bind, ends_pure] at h
    obtain ⟨_, _, -, rfl, -⟩ := h
    exact absurd (Int.le_antisymm hle hge) hne
  obtain ⟨ptr, third, halloc, h⟩ := ends_bind.mp h
  rw [ends_ite] at h
  rcases h with ⟨-, h⟩ | ⟨hptr, h⟩
  · obtain ⟨_, _, -, h⟩ := ends_bind.mp h
    obtain ⟨rfl, -⟩ := ends_pure.mp h
    exact absurd hge (by decide)
  obtain ⟨count, fourth, -, h⟩ := ends_bind.mp h
  rw [ends_ite] at h
  rcases h with ⟨-, h⟩ | ⟨-, h⟩
  · obtain ⟨_, _, -, h⟩ := ends_bind.mp h
    obtain ⟨rfl, -⟩ := ends_pure.mp h
    exact absurd hge (by decide)
  rw [ends_modify_bind] at h
  obtain ⟨_, _, hclose, h⟩ := ends_bind.mp h
  obtain ⟨-, rfl⟩ := ends_pure.mp h
  have hmemory := congrArg Kernel.processMemory ((fclose_keeps fd).of_ends hclose)
  have hown : (after.processMemory process).data = ptr ∧
      (after.processMemory process).size = filesize := by
    simp only [hmemory, setProgramData, setProcess, setProcessMemory, if_true, and_self]
  refine ⟨?_, ?_, ?_, ?_⟩
  · rw [hown.1]
    exact kzalloc_aligned hsound halloc
  · rw [hown.1]
    exact hptr
  · rw [hown.1]
    exact kzalloc_inside hsound halloc
  · rw [hown.1, hown.2]
    exact (ends_kzalloc halloc).2.2.2 hptr

theorem processLoadData_placed (h : Ends (processLoadData filename process) kernel res after)
    (hblock : Holds kernel.heap block) (hge : 0 ≤ res)
    (hfiletype : (after.sched.procs process).filetype = .binary) : ProgramPlaced after process := by
  obtain ⟨code, middle, helf, h⟩ := ends_bind.mp h
  rw [ends_ite] at h
  rcases h with ⟨-, h⟩ | ⟨-, h⟩
  · exact processLoadBinary_placed h (processLoadElf_spares helf hblock).1.holds hge
  · obtain ⟨rfl, rfl⟩ := ends_pure.mp h
    rw [processLoadElf_filetype helf hge] at hfiletype
    cases hfiletype

/-- The state in which a program is mapped: the page directory of the task is new, and the program and
its stack lie in memory of their own. -/
structure Mappable (kernel : Kernel) (process : Nat) : Prop where
  directory : IdentityDirectory kernel.pages (kernel.directoryOf process)
  program : (kernel.sched.procs process).filetype = .binary → ProgramPlaced kernel process
  stackAligned : (kernel.processMemory process).stack % pagingPageSize = 0
  stackBound : (kernel.processMemory process).stack + slobosUserProgramStackSize < addressSpace

theorem taskNew_directory {task : Nat} (h : Ends (taskNew process) kernel task after)
    (hsound : HeapSound kernel.heap) : IdentityDirectory after.pages
      (after.chunks (after.sched.list.tasks task).pageDirectory) := by
  obtain ⟨-, first, chunk, second, htask, hchunk, rfl⟩ := ends_taskNew h
  have hfirst : HeapSound first.heap := by
    rw [(ends_kzalloc htask).2.1]
    exact hsound.malloc _
  have hidentity := pagingNew4gb_identity hchunk hfirst
  rw [linkTask_pageDirectory]
  exact ⟨hidentity.distinct, hidentity.flags, hidentity.entry⟩

theorem Acquires.mappable (h : Acquires filename slot kernel process after)
    (hsound : HeapSound kernel.heap) : Mappable after process := by
  cases h with
  | @intro first second third fourth res stack task hprocess hne hdata hres hstack hstackNe htask =>
      obtain ⟨hptr, hheap, -, -⟩ := ends_kzalloc hprocess
      obtain ⟨block, -, -, hblock⟩ := hsound.malloc_holds
        (show 0 < blockCount processSize by decide) (hptr ▸ hne)
      rw [← hheap] at hblock
      have hspares := (processLoadData_spares hdata hblock).1
      have hspares' := (kzalloc_spares hstack hspares.holds).1
      have hkept := acquired_program hstack htask
      have hstackPtr : ((setTask process task fourth).processMemory process).stack = stack := by
        simp only [setTask, setProcess, (taskNew_frame htask).1, setStack, setProcessMemory,
          if_true]
      have htaskPtr : ((setTask process task fourth).sched.procs process).task = task := by
        simp only [setTask, setProcess, if_true]
      have hdirectory := taskNew_directory htask hspares'.holds.toHeapSound
      refine ⟨?_, fun hfiletype => ?_, ?_, ?_⟩
      · rw [directoryOf, htaskPtr]
        exact hdirectory
      · have hplaced := processLoadData_placed hdata hblock hres (hkept.filetype ▸ hfiletype)
        refine ⟨?_, ?_, ?_, ?_⟩
        · rw [hkept.data]
          exact hplaced.aligned
        · rw [hkept.data]
          exact hplaced.ne_null
        · rw [hkept.data]
          exact hplaced.inside
        · rw [hkept.data, hkept.size]
          exact hplaced.bound
      · rw [hstackPtr]
        exact kzalloc_aligned hspares.holds.toHeapSound hstack
      · rw [hstackPtr]
        exact (ends_kzalloc hstack).2.2.2 hstackNe

def programPages (kernel : Kernel) (process : Nat) : PageTables :=
  (programMapped kernel.memory kernel.pages (kernel.directoryOf process)
    (kernel.sched.procs process).filetype (kernel.elfFiles (kernel.processMemory process).data)
    (kernel.processMemory process).data (kernel.processMemory process).size).2

theorem ends_processMapMemory (h : Ends (processMapMemory process) kernel res after) (hge : 0 ≤ res) :
    after = Kernel.setPages (stackMapped (kernel.programPages process) (kernel.directoryOf process)
      (kernel.processMemory process).stack).2 kernel := by
  rw [processMapMemory, ends_get_bind, ends_modify_bind, processMapMemory_eq] at h
  obtain ⟨rfl, rfl⟩ := ends_pure.mp h
  dsimp only at hge ⊢
  rw [if_neg (by omega)]
  rfl

theorem programPages_directories (kernel : Kernel) (process : Nat) :
    (kernel.programPages process).directories = kernel.pages.directories :=
  programMapped_directories _ _ _ _ _ _ _

end Kernel

end SlobOS
