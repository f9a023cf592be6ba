import SlobOS.SystemCommands
import SlobOS.ZeroedPages
import SlobOS.Proof.HeldMemory

/-!
# Memory that processes are given

A process that asks for up to a page of memory gets a page of its own, mapped to itself and recorded;
what else it has and what stands in the blocks in use stay as they are.
-/

namespace SlobOS

/-- A page directory of a task: its tables are distinct, user-accessible and below the addresses that
the kernel cuts off. -/
structure TaskPages (pages : PageTables) (directory : Nat) : Prop where
  distinct : DistinctTables pages directory
  flags : ∀ i < pagingTotalEntriesPerTable, pages.directories directory i % 8 = 7
  low : ∀ i < pagingTotalEntriesPerTable, pages.directories directory i < 0x10000000

/-- The program may write to the page, which translates to itself. -/
structure OwnPage (pages : PageTables) (directory page : Nat) : Prop where
  writeable : UserWriteable pages directory page
  frame : pageFrame pages directory page = page

section Pages

variable {pages pages' : PageTables} {directory page virt : Nat}

theorem TaskPages.congr (h : TaskPages pages directory)
    (hsame : pages'.directories = pages.directories) : TaskPages pages' directory := by
  refine ⟨?_, fun i hi => ?_, fun i hi => ?_⟩
  · unfold DistinctTables
    rw [hsame]
    exact h.distinct
  · rw [hsame]
    exact h.flags i hi
  · rw [hsame]
    exact h.low i hi

theorem OwnPage.congr (h : OwnPage pages directory page)
    (hdirectories : pages'.directories = pages.directories)
    (hentry : pageEntry pages' directory page = pageEntry pages directory page) :
    OwnPage pages' directory page := by
  refine ⟨?_, ?_⟩
  · rw [UserWriteable, hdirectories, hentry]
    exact h.writeable
  · rw [pageFrame, hentry]
    exact h.frame

theorem OwnPage.translated (h : OwnPage pages directory (virt / pagingPageSize)) :
    translated pages directory virt = virt := by
  rw [SlobOS.translated, h.frame, Nat.mul_comm, Nat.div_add_mod]

theorem TaskPages.ownPage (h : TaskPages pages directory) (hpage : page < pageCount)
    (hentry : pageEntry pages directory page = page * pagingPageSize ||| 7) :
    OwnPage pages directory page := by
  have hindex := directoryIndex_lt hpage
  rw [page_or_flags (by decide)] at hentry
  refine ⟨⟨h.flags _ hindex, ?_⟩, ?_⟩
  · rw [hentry, pagingPageSize]
    omega
  · rw [pageFrame, hentry]
    simp only [pagingPageSize, pageCount] at *
    omega

end Pages

namespace Kernel

open Faulting

variable {kernel after : Kernel} {process size ptr block : Nat}

/-- The heap is as large as the kernel makes it, and the driver stores no more than it is asked for. -/
structure KernelSound (kernel : Kernel) : Prop where
  heap : HeapSound kernel.heap
  size : kernel.heap.table.total * slobosHeapBlockSize ≤ slobosHeapSizeBytes
  volume : ReadsWithin kernel.volume

theorem KernelSound.of_same (h : KernelSound kernel) (hheap : HeapSound after.heap)
    (hsame : SameMachine kernel after) : KernelSound after :=
  ⟨hheap, hsame.total ▸ h.size, h.volume.congr hsame⟩

def Recorded (kernel : Kernel) (process ptr size : Nat) : Prop :=
  ∃ i < slobosMaxProgramAllocations,
    (kernel.processMemory process).allocations i = { ptr := ptr, size := size }

structure PageGiven (kernel after : Kernel) (process ptr size : Nat) : Prop where
  sound : KernelSound after
  total : after.heap.table.total = kernel.heap.table.total
  takes : Takes kernel after ptr
  sched : after.sched = kernel.sched
  directoryOf : after.directoryOf process = kernel.directoryOf process
  directories : after.pages.directories = kernel.pages.directories
  own : OwnPage after.pages (kernel.directoryOf process) (ptr / pagingPageSize)
  entry : ∀ page < pageCount, page ≠ ptr / pagingPageSize →
    pageEntry after.pages (kernel.directoryOf process) page =
      pageEntry kernel.pages (kernel.directoryOf process) page
  recorded : Recorded after process ptr size
  records : ∀ old count, old ≠ 0 → Recorded kernel process old count → Recorded after process old count

theorem processMalloc_total (hsound : HeapSound kernel.heap) (hsize : size ≤ slobosHeapBlockSize) :
    ∃ ptr after, Ends (processMalloc process size) kernel ptr after := by
  obtain ⟨ptr, alloc, halloc⟩ := kzalloc_total hsound hsize
  by_cases hnull : ptr = 0
  · refine ⟨0, alloc, ends_bind.mpr ⟨ptr, alloc, halloc, ?_⟩⟩
    rw [if_pos hnull]
    exact ends_pure.mpr ⟨rfl, rfl⟩
  cases hindex : processFindFreeAllocationIndex (alloc.processMemory process) with
  | none =>
      refine ⟨0, { alloc with heap := heapFree alloc.heap ptr },
        ends_bind.mpr ⟨ptr, alloc, halloc, ?_⟩⟩
      rw [if_neg hnull, ends_get_bind, hindex]
      exact ends_bind.mpr ⟨(), _, ends_kfree.mpr rfl, ends_pure.mpr ⟨rfl, rfl⟩⟩
  | some index =>
      by_cases hneg : (mapsAllocation alloc process ptr size 7).1 < 0
      · refine ⟨0, { setPages (mapsAllocation alloc process ptr size 7).2 alloc with
          heap := heapFree alloc.heap ptr }, ends_bind.mpr ⟨ptr, alloc, halloc, ?_⟩⟩
        rw [if_neg hnull, ends_get_bind, hindex]
        change Ends (modify _ >>= _) _ _ _
        rw [ends_modify_bind, ends_ite]
        exact Or.inl ⟨hneg, ends_bind.mpr ⟨(), _, ends_kfree.mpr rfl, ends_pure.mpr ⟨rfl, rfl⟩⟩⟩
      · exact ⟨ptr, _, processMalloc_granted halloc hnull hindex (Int.not_lt.mp hneg)⟩

theorem Granted.entry (h : Granted kernel after process size ptr)
    (hdistinct : DistinctTables kernel.pages (kernel.directoryOf process)) (hpos : 0 < size)
    (hsize : size ≤ slobosHeapBlockSize) (hinside : ptr < slobosHeapAddress + 0x80000000)
    (page : Nat) (hpage : page < pageCount) :
    pageEntry after.pages (kernel.directoryOf process) page =
      if page = ptr / pagingPageSize then page * pagingPageSize ||| 7
      else pageEntry kernel.pages (kernel.directoryOf process) page := by
  have haligned := h.aligned
  have hone : stopPage (ptr + size) - ptr / pagingPageSize = 1 := by
    simp only [stopPage, pagingPageSize, pageCount, slobosHeapAddress, slobosHeapBlockSize] at *
    omega
  have hfirst : ptr / pagingPageSize < pageCount := by
    simp only [pagingPageSize, pageCount, slobosHeapAddress] at *
    omega
  have hmaps := h.maps
  rw [hone] at hmaps
  by_cases heq : page = ptr / pagingPageSize
  · have hentry := hmaps.inside hdistinct hfirst hfirst (Nat.le_of_eq heq.symm) (by omega)
    rw [heq, Nat.sub_self, Nat.add_zero] at hentry
    rw [if_pos heq, heq, hentry]
  · rw [if_neg heq, hmaps.outside hdistinct hfirst hpage (by omega)]

theorem processMalloc_serves (hsound : KernelSound kernel)
    (hpages : TaskPages kernel.pages (kernel.directoryOf process)) (hpos : 0 < size)
    (hsize : size ≤ slobosHeapBlockSize) (h : Ends (processMalloc process size) kernel ptr after)
    (hne : ptr ≠ 0) : PageGiven kernel after process ptr size := by
  have hgranted := processMalloc_succeeds h hne
  obtain ⟨index, alloc, halloc, hindex, hfree, hmapped, rfl⟩ := processMalloc_served h hne
  have hinside := kzalloc_inside hsound.heap halloc
  have hentry := hgranted.entry hpages.distinct hpos hsize hinside
  have hmachine := kzalloc_sameMachine halloc
  obtain ⟨-, hheap, htakes, -⟩ := ends_kzalloc halloc
  have hsched := congrArg Kernel.sched htakes
  have hchunks := congrArg Kernel.chunks htakes
  have hmemory := congrArg Kernel.processMemory htakes
  have hdirectories := hgranted.maps.directories
  have hpage : ptr / pagingPageSize < pageCount := by
    simp only [pagingPageSize, pageCount, slobosHeapAddress] at *
    omega
  have hallocations : ∀ i, ((setAllocations process (grantedAllocations alloc process index ptr
      size) (setPages (mapsAllocation alloc process ptr size 7).2 alloc)).processMemory
        process).allocations i =
      if i = index then { ptr := ptr, size := size }
      else (kernel.processMemory process).allocations i := by
    intro i
    simp only [setAllocations, setProcessMemory, if_true, grantedAllocations]
    rw [hmemory]
  constructor
  case sound =>
    refine hsound.of_same ?_ ⟨hmachine.volume, hmachine.total⟩
    exact hheap ▸ hsound.heap.malloc size
  case total => exact hmachine.total
  case takes =>
    have htaken := (kzalloc_takes hsound.heap halloc hpos hsize hne).1
    exact ⟨htaken.preserves, htaken.taken⟩
  case sched => exact hsched
  case directoryOf => rw [directoryOf, directoryOf, ← hsched, ← hchunks]; rfl
  case directories => exact hdirectories
  case own =>
    refine (hpages.congr hdirectories).ownPage hpage ?_
    rw [hentry _ hpage, if_pos rfl]
  case entry =>
    intro page hpage hother
    rw [hentry page hpage, if_neg hother]
  case recorded => exact ⟨index, hindex, by rw [hallocations, if_pos rfl]⟩
  case records =>
    rintro old count hold ⟨i, hi, hrecord⟩
    refine ⟨i, hi, ?_⟩
    rw [hallocations, if_neg, hrecord]
    rintro rfl
    rw [hmemory, hrecord] at hfree
    exact hold hfree

def KeptPage (kernel : Kernel) (page : Nat) : Prop :=
  page < slobosHeapAddress / pagingPageSize ∨
    ∃ block, Holds kernel.heap block ∧ page = slobosHeapAddress / pagingPageSize + block

/-- Blocks in use stay in use, and what the process has stays its own. -/
structure Continues (process : Nat) (kernel after : Kernel) : Prop where
  sound : KernelSound kernel → KernelSound after
  total : after.heap.table.total = kernel.heap.table.total
  held : ∀ block, Holds kernel.heap block → Holds after.heap block
  sched : after.sched = kernel.sched
  directoryOf : after.directoryOf process = kernel.directoryOf process
  directories : after.pages.directories = kernel.pages.directories
  entry : ∀ page < pageCount, KeptPage kernel page →
    pageEntry after.pages (kernel.directoryOf process) page =
      pageEntry kernel.pages (kernel.directoryOf process) page
  records : ∀ old count, old ≠ 0 → Recorded kernel process old count → Recorded after process old count

theorem KeptPage.congr {page : Nat} (h : KeptPage kernel page)
    (hheld : ∀ block, Holds kernel.heap block → Holds after.heap block) : KeptPage after page := by
  rcases h with hlow | ⟨block, hblock, rfl⟩
  · exact Or.inl hlow
  · exact Or.inr ⟨block, hheld block hblock, rfl⟩

instance : Frame (Continues process) where
  refl _ := ⟨id, rfl, fun _ => id, rfl, rfl, rfl, fun _ _ _ => rfl, fun _ _ _ => id⟩
  trans h h' := by
    refine ⟨h'.sound ∘ h.sound, h'.total.trans h.total, fun block => h'.held block ∘ h.held block, h'.sched.trans h.sched,
      h'.directoryOf.trans h.directoryOf, h'.directories.trans h.directories, fun page hpage hkept => ?_,
      fun old count hne => h'.records old count hne ∘ h.records old count hne⟩
    rw [← h.entry page hpage hkept, ← h.directoryOf]
    exact h'.entry page hpage (hkept.congr h.held)

theorem Continues.taskPages (h : Continues process kernel after)
    (hpages : TaskPages kernel.pages (kernel.directoryOf process)) :
    TaskPages after.pages (after.directoryOf process) := by
  rw [h.directoryOf]
  exact hpages.congr h.directories

theorem Continues.ownPage {page : Nat} (h : Continues process kernel after)
    (hown : OwnPage kernel.pages (kernel.directoryOf process) page) (hpage : page < pageCount)
    (hkept : KeptPage kernel page) : OwnPage after.pages (after.directoryOf process) page := by
  rw [h.directoryOf]
  exact hown.congr h.directories (h.entry page hpage hkept)

theorem page_of_block (block : Nat) {i : Nat} (hi : i < slobosHeapBlockSize) :
    (slobosHeapAddress + block * slobosHeapBlockSize + i) / pagingPageSize =
      slobosHeapAddress / pagingPageSize + block := by
  simp only [slobosHeapAddress, slobosHeapBlockSize, pagingPageSize] at *
  omega

theorem PageGiven.continues (h : PageGiven kernel after process ptr size) :
    Continues process kernel after where
  sound _ := h.sound
  total := h.total
  held block hblock := (h.takes.preserves block hblock).1
  sched := h.sched
  directoryOf := h.directoryOf
  directories := h.directories
  entry := by
    intro page hpage hkept
    apply h.entry page hpage
    rintro rfl
    obtain ⟨new, hptr, hnew, hfree⟩ := h.takes.taken
    have hpage := page_of_block new (show 0 < slobosHeapBlockSize by decide)
    rw [Nat.add_zero, ← hptr] at hpage
    rcases hkept with hlow | ⟨block, hblock, heq⟩
    · omega
    · have hsame : block = new := by omega
      exact hfree (hsame ▸ hblock)
  records := h.records

theorem PageGiven.ne_null (h : PageGiven kernel after process ptr size) : ptr ≠ 0 := by
  obtain ⟨new, rfl, -, -⟩ := h.takes.taken
  simp only [slobosHeapAddress]
  omega

theorem granted_serves (hsound : KernelSound kernel)
    (hpages : TaskPages kernel.pages (kernel.directoryOf process)) (hpos : 0 < size)
    (hsize : size ≤ slobosHeapBlockSize)
    (havoids : Avoids .panic (granted processMalloc process size) kernel) :
    ∃ ptr after, Ends (granted processMalloc process size) kernel ptr after ∧
      PageGiven kernel after process ptr size := by
  obtain ⟨ptr, after, hmalloc⟩ := @processMalloc_total kernel process size hsound.heap hsize
  by_cases hne : ptr = 0
  · subst hne
    exact absurd rfl (havoids.next hmalloc)
  · refine ⟨ptr, after, ends_bind.mpr ⟨ptr, after, hmalloc, ?_⟩,
      processMalloc_serves hsound hpages hpos hsize hmalloc hne⟩
    rw [if_neg hne]
    exact ends_pure.mpr ⟨rfl, rfl⟩

section Stores

open CStrings

variable {start : Nat} {bytes : List UInt8}

theorem putMemory_continues (start : Nat) (bytes : List UInt8) (kernel : Kernel) :
    Continues process kernel (putMemory start bytes kernel) :=
  ⟨fun h => ⟨h.heap, h.size, h.volume⟩, rfl, fun _ => id, rfl, rfl, rfl, fun _ _ _ => rfl,
    fun _ _ _ => id⟩

theorem storeBytes_ends (hown : ∀ i < bytes.length,
      OwnPage kernel.pages (kernel.directoryOf process) ((start + i) / pagingPageSize)) :
    Ends (storeBytes process start bytes) kernel () (putMemory start bytes kernel) := by
  induction bytes generalizing kernel start with
  | nil =>
      refine ends_pure.mpr ⟨rfl, ?_⟩
      rw [putMemory]
      congr 1
      funext pages address
      exact putBytes_of_not_mem (by rw [List.length_nil]; omega)
  | cons byte bytes ih =>
      have hfirst := hown 0 (Nat.succ_pos _)
      rw [Nat.add_zero] at hfirst
      have hrest := @ih (putMemory start [byte] kernel) (start + 1) fun i hi => by
        have hnext := hown (i + 1) (Nat.succ_lt_succ hi)
        rwa [show start + (i + 1) = start + 1 + i by omega] at hnext
      rw [storeBytes, ends_get_bind, if_pos hfirst.writeable, hfirst.translated, ends_modify_bind]
      have hboth : putMemory start (byte :: bytes) kernel =
          putMemory (start + 1) bytes (putMemory start [byte] kernel) := by
        rw [putMemory]
        congr 1
        funext pages
        exact putBytes_cons _ _ _ _
      rw [hboth]
      exact hrest

end Stores

end Kernel

end SlobOS
