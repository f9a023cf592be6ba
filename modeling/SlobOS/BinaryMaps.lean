import SlobOS.ElfImages
import SlobOS.KernelPages

/-!
# The address space of a flat program

The task starts with every page on itself, to be read only. The program and its stack are mapped over
that, the one above the other, and every other page stays as it is.
-/

namespace SlobOS

open Faulting Kernel

def UserReadOnly (pages : PageTables) (directory page : Nat) : Prop :=
  pages.directories directory (page / pagingTotalEntriesPerTable) % 8 = 7 ∧
    pageEntry pages directory page % 8 = 5

def PageInRange (start size page : Nat) : Prop :=
  start ≤ page * pagingPageSize ∧ page * pagingPageSize < start + size

/-- The addresses from `start` on lead to those from `target` on, and can be written. -/
structure RangeMapped (pages : PageTables) (directory start target size : Nat) : Prop where
  translates : ∀ k < size, translate pages directory (start + k) = some (target + k)
  writeable : ∀ k < size, UserWriteable pages directory ((start + k) / pagingPageSize)

structure BinaryMapped (pages : PageTables) (directory ptr size stack : Nat) : Prop where
  program : RangeMapped pages directory slobosProgramVirtualAddress ptr size
  stack : RangeMapped pages directory slobosProgramVirtualStackAddressEnd stack
    slobosUserProgramStackSize
  others : ∀ page < pageCount, ¬PageInRange slobosProgramVirtualAddress size page →
    ¬PageInRange slobosProgramVirtualStackAddressEnd slobosUserProgramStackSize page →
      Identity pages directory page ∧ UserReadOnly pages directory page

/-- The program and its stack begin with a block of the kernel heap and end below the last page of
memory, as all of that heap does. -/
structure InBlocks (ptr size stack : Nat) : Prop where
  ptrAligned : ptr % slobosHeapBlockSize = 0
  ptrStart : slobosHeapAddress ≤ ptr
  ptrEnd : ptr + size ≤ 0xfffff000
  stackAligned : stack % slobosHeapBlockSize = 0
  stackEnd : stack + slobosUserProgramStackSize ≤ 0xfffff000

section Pages

variable {pages pages' : PageTables} {directory page frame ptr size stack start target : Nat}

theorem translate_page {offset flags : Nat} (hoffset : offset < pagingPageSize) (hflags : flags < 8)
    (hpresent : flags % 2 = 1)
    (hdirectory : pages.directories directory (page / pagingTotalEntriesPerTable) % 8 = 7)
    (hentry : pageEntry pages directory page = frame * pagingPageSize ||| flags) :
    translate pages directory (page * pagingPageSize + offset) =
      some (frame * pagingPageSize + offset) := by
  obtain ⟨hframe, hlow⟩ := @entry_split frame flags hflags
  have hpage : (page * pagingPageSize + offset) / pagingPageSize = page := by
    rw [pagingPageSize] at *
    omega
  have hin : (page * pagingPageSize + offset) % pagingPageSize = offset := by
    rw [pagingPageSize] at *
    omega
  rw [translate, hpage, hin, hentry, hframe, if_pos (by omega)]

theorem rangeMapped {first count : Nat} (hstart : start = first * pagingPageSize)
    (htarget : target = frame * pagingPageSize) (hsize : size ≤ count * pagingPageSize)
    (hdirectory : ∀ page, first ≤ page → page < first + count →
      pages.directories directory (page / pagingTotalEntriesPerTable) % 8 = 7)
    (hentry : ∀ page, first ≤ page → page < first + count →
      pageEntry pages directory page = (frame + (page - first)) * pagingPageSize ||| 7) :
    RangeMapped pages directory start target size := by
  have hpage : ∀ k < size, (start + k) / pagingPageSize = first + k / pagingPageSize ∧
      first + k / pagingPageSize < first + count := by
    intro k hk
    simp only [hstart, pagingPageSize] at *
    omega
  refine ⟨fun k hk => ?_, fun k hk => ?_⟩
  · obtain ⟨-, hlt⟩ := hpage k hk
    have haddress : start + k =
        (first + k / pagingPageSize) * pagingPageSize + k % pagingPageSize := by
      simp only [hstart, pagingPageSize]
      omega
    have hresult : target + k =
        (frame + k / pagingPageSize) * pagingPageSize + k % pagingPageSize := by
      simp only [htarget, pagingPageSize]
      omega
    have hmapped := hentry _ (Nat.le_add_right _ _) hlt
    rw [Nat.add_sub_cancel_left] at hmapped
    rw [haddress, hresult]
    exact translate_page (Nat.mod_lt _ (by decide)) (by decide) (by decide)
      (hdirectory _ (Nat.le_add_right _ _) hlt) hmapped
  · obtain ⟨heq, hlt⟩ := hpage k hk
    rw [heq]
    refine ⟨hdirectory _ (Nat.le_add_right _ _) hlt, ?_⟩
    rw [hentry _ (Nat.le_add_right _ _) hlt]
    exact (entry_split (by decide)).2

theorem IdentityDirectory.readOnly (hflags : pages.directories directory
    (page / pagingTotalEntriesPerTable) % 8 = 7)
    (hentry : pageEntry pages directory page = page * pagingPageSize ||| taskPageFlags) :
    Identity pages directory page ∧ UserReadOnly pages directory page := by
  obtain ⟨hframe, hlow⟩ := @entry_split page taskPageFlags (by decide)
  rw [← hentry] at hframe hlow
  have htask : taskPageFlags = 5 := by decide
  exact ⟨⟨by omega, by omega, hframe⟩, hflags, by omega⟩

theorem InBlocks.binaryMapped (h : InBlocks ptr size stack)
    (hidentity : IdentityDirectory pages directory) : BinaryMapped
      (stackMapped (processMapBinary pages directory ptr size).2 directory stack).2 directory ptr size
      stack := by
  have hptrStart := h.ptrStart
  have hptrEnd := h.ptrEnd
  have hstackEnd := h.stackEnd
  have hptrAligned : ptr % pagingPageSize = 0 := h.ptrAligned
  have hstackAligned : stack % pagingPageSize = 0 := h.stackAligned
  have hprogram := @processMapBinary_maps pages directory ptr size hptrAligned hptrEnd
  have hdistinct : DistinctTables (processMapBinary pages directory ptr size).2 directory := by
    unfold DistinctTables
    rw [hprogram.directories]
    exact hidentity.distinct
  have hstack := @stackMapped_maps (processMapBinary pages directory ptr size).2 directory stack
    hstackAligned (by simp only [addressSpace]; omega)
  have hflags : ∀ page < pageCount, (stackMapped (processMapBinary pages directory ptr size).2
      directory stack).2.directories directory (page / pagingTotalEntriesPerTable) % 8 = 7 := by
    intro page hpage
    rw [hstack.directories, hprogram.directories]
    exact hidentity.flags _ (directoryIndex_lt hpage)
  simp only [slobosHeapAddress, slobosUserProgramStackSize] at hptrStart hstackEnd
  have hcount : 0x400 + (size + (pagingPageSize - 1)) / pagingPageSize ≤ pageCount := by
    simp only [pagingPageSize, pageCount]
    omega
  have hframe : ptr / pagingPageSize + (size + (pagingPageSize - 1)) / pagingPageSize ≤ pageCount := by
    simp only [pagingPageSize, pageCount] at *
    omega
  have hframe' : stack / pagingPageSize + 4 ≤ pageCount := by
    simp only [pagingPageSize, pageCount] at *
    omega
  constructor
  case program =>
    apply @rangeMapped _ directory (ptr / pagingPageSize) size _ ptr 0x400
      ((size + (pagingPageSize - 1)) / pagingPageSize) rfl
    · simp only [pagingPageSize] at *
      omega
    · simp only [pagingPageSize]
      omega
    · exact fun page _ hlt => hflags page (by omega)
    · intro page hge hlt
      rw [hstack.outside hdistinct (by decide) (by omega) (by omega)]
      exact hprogram.inside hidentity.distinct hcount hframe hge hlt
  case stack =>
    apply @rangeMapped _ directory (stack / pagingPageSize) slobosUserProgramStackSize _ stack 0x3FB 4
      rfl
    · simp only [pagingPageSize] at *
      omega
    · decide
    · exact fun page _ hlt => hflags page (by simp only [pageCount]; omega)
    · exact fun page hge hlt => hstack.inside hdistinct (by decide) hframe' hge hlt
  case others =>
    intro page hpage hprogramOut hstackOut
    simp only [PageInRange, slobosProgramVirtualAddress, slobosProgramVirtualStackAddressEnd,
      slobosUserProgramStackSize, slobosProgramVirtualStackAddressStart, pagingPageSize]
      at hprogramOut hstackOut
    apply IdentityDirectory.readOnly (hflags page hpage)
    rw [hstack.outside hdistinct (by decide) hpage (by omega), hprogram.outside hidentity.distinct hcount
      hpage (by simp only [pagingPageSize]; omega), hidentity.entry page hpage]

end Pages

namespace Kernel

variable {kernel middle : Kernel} {process task : Nat}

/-- A task that has been allocated and initialised, and then the mapping of the process. -/
theorem processMapMemory_binaryMapped (hsound : HeapSound kernel.heap)
    (hfiletype : (kernel.sched.procs process).filetype = .binary)
    (hblocks : InBlocks (kernel.processMemory process).data (kernel.processMemory process).size
      (kernel.processMemory process).stack)
    (htask : Ends (taskNew process) kernel task middle) : ∃ after,
    Ends (processMapMemory process) (setTask process task middle) 0 after ∧
      BinaryMapped after.pages (after.directoryOf process) (kernel.processMemory process).data
        (kernel.processMemory process).size (kernel.processMemory process).stack := by
  obtain ⟨hmemory, -, hprocs⟩ := taskNew_frame htask
  have hbinary : ((setTask process task middle).sched.procs process).filetype = .binary := by
    simp only [setTask, setProcess, if_true, hprocs, hfiletype]
  obtain ⟨after, hmap⟩ := processMapMemory_binary hbinary
  have hidentity := taskNew_directory htask hsound
  have hdirectory : (setTask process task middle).directoryOf process =
      middle.chunks (middle.sched.list.tasks task).pageDirectory := by
    simp only [directoryOf, setTask, setProcess, if_true]
  have hmapped := hblocks.binaryMapped hidentity
  refine ⟨after, hmap, ?_⟩
  obtain rfl := ends_processMapMemory hmap (Int.le_refl 0)
  have hprogram : (setTask process task middle).programPages process =
      (processMapBinary middle.pages (middle.chunks (middle.sched.list.tasks task).pageDirectory)
        (kernel.processMemory process).data (kernel.processMemory process).size).2 := by
    rw [programPages, hdirectory, hbinary, ← hmemory]
    rfl
  change BinaryMapped (stackMapped ((setTask process task middle).programPages process)
    ((setTask process task middle).directoryOf process)
    ((setTask process task middle).processMemory process).stack).2
    ((setTask process task middle).directoryOf process) _ _ _
  rw [hprogram, hdirectory]
  exact hmemory ▸ hmapped

theorem processMapMemory_binaryMapped_five :
    ∃ middle task after, Ends (processMapMemory 1) (setTask 1 task middle) 0 after ∧
      BinaryMapped after.pages (after.directoryOf 1) 0x3000000 5 0x3001000 := by
  obtain ⟨kernel, hheap, hfiletype, hdata, hsize, hstack⟩ : ∃ kernel : Kernel,
      kernel.heap = (idleKernel bootBytes unmountedVolume).heap ∧
      (kernel.sched.procs 1).filetype = .binary ∧ (kernel.processMemory 1).data = 0x3000000 ∧
      (kernel.processMemory 1).size = 5 ∧ (kernel.processMemory 1).stack = 0x3001000 :=
    ⟨setProgramData 1 .binary 0x3000000 5 (setStack 1 0 0x3001000
      (idleKernel bootBytes unmountedVolume)), rfl, rfl, rfl, rfl, rfl⟩
  have hroom : Room kernel.heap (1027 + 24573) := hheap ▸ idleKernel_room unmountedVolume
  have hsound : HeapSound kernel.heap := hheap ▸ idleKernel_sound unmountedVolume
  obtain ⟨task, middle, htask, -⟩ := @taskNew_succeeds _ kernel 1 hroom
  have hblocks : InBlocks (kernel.processMemory 1).data (kernel.processMemory 1).size
      (kernel.processMemory 1).stack := by
    rw [hdata, hsize, hstack]
    constructor <;> decide
  obtain ⟨after, hmap, hmapped⟩ := processMapMemory_binaryMapped hsound hfiletype hblocks htask
  rw [hdata, hsize, hstack] at hmapped
  exact ⟨middle, task, after, hmap, hmapped⟩

end Kernel

end SlobOS
