import SlobOS.Paths
import SlobOS.Proof.ProcessMemory

/-!
# What a program finds in the memory that it is given

The allocator sets as many bytes to zero as are asked for, and whole pages are mapped. What lies between
is what an earlier owner has left there.
-/

namespace SlobOS

namespace Kernel

open Faulting

def PagesZeroed (kernel after : Kernel) : Prop :=
  ∀ stored, after.pages.stores = stored ++ kernel.pages.stores →
    ∀ store ∈ stored, store.2 % 8 = 7 → ∀ i < pagingPageSize,
      after.memory kernel.pages (tableAddress store.2 + i) = 0

/-- Behind the bytes that are asked for nothing but zeros are left, up to the end of the page. -/
def TailZero (kernel : Kernel) (size : Nat) : Prop :=
  let stop := (heapMalloc kernel.heap size).1 + size
  ∀ address, stop ≤ address → address < pagingAlignAddress stop →
    kernel.memory kernel.pages address = 0

/-- The program gets no byte that depends on what was in the memory before. -/
def ZeroedWhatever (kernel : Kernel) (process size ptr : Nat) : Prop :=
  ∀ memory after, Ends (processMalloc process size) { kernel with memory := memory } ptr after →
    PagesZeroed { kernel with memory := memory } after

/-- What a call that succeeds has done: it has found whole pages, set the bytes to zero that were asked
for, and mapped the pages. -/
structure Granted (kernel after : Kernel) (process size ptr : Nat) : Prop where
  found : ptr = (heapMalloc kernel.heap size).1
  aligned : ptr % pagingPageSize = 0
  inside : ptr + size < addressSpace
  stop : ptr / pagingPageSize ≤ stopPage (ptr + size)
  memory : after.memory = (writeBytes ptr size (fun _ => 0) kernel).memory
  maps : Maps kernel.pages after.pages (kernel.directoryOf process) (ptr / pagingPageSize)
    (ptr / pagingPageSize) (stopPage (ptr + size) - ptr / pagingPageSize) 7

variable {kernel after : Kernel} {process size ptr : Nat}

theorem kzalloc_eq {alloc : Kernel} (h : Ends (kzalloc size) kernel ptr alloc) (hne : ptr ≠ 0) :
    alloc = writeBytes ptr size (fun _ => 0)
      { kernel with heap := (heapMalloc kernel.heap size).2 } := by
  obtain ⟨rfl, -, -, hlt⟩ := ends_kzalloc h
  exact (h.unique (kzalloc_ends hne (hlt hne))).2

theorem pagingMapTo_succeeds {pages : PageTables} {directory stop flags : Nat}
    (hptr : ptr < addressSpace) (hstop : stop < addressSpace)
    (h : 0 ≤ (pagingMapTo pages directory ptr ptr (pagingAlignAddress stop) flags).1) :
    ptr % pagingPageSize = 0 ∧ ptr / pagingPageSize ≤ stopPage stop ∧
      Maps pages (pagingMapTo pages directory ptr ptr (pagingAlignAddress stop) flags).2 directory
        (ptr / pagingPageSize) (ptr / pagingPageSize) (stopPage stop - ptr / pagingPageSize) flags := by
  have haligned : ptr % pagingPageSize = 0 := by
    by_contra hne
    rw [pagingMapTo, if_pos hne] at h
    exact absurd h (show ¬0 ≤ -einvarg by decide)
  have hpage : ptr = ptr / pagingPageSize * pagingPageSize := by
    simp only [pagingPageSize] at *
    omega
  have hlt := page_lt hptr
  rw [pagingAlignAddress_eq hstop] at h ⊢
  generalize ptr / pagingPageSize = page at hpage hlt ⊢
  subst hpage
  have hle : page ≤ stopPage stop := by
    by_contra hgt
    rw [pagingMapTo_refused (by omega)] at h
    exact absurd h (show ¬0 ≤ -einvarg by decide)
  obtain ⟨pages', hmap, hmaps⟩ := @pagingMapTo_maps pages directory page page (stopPage stop) flags
    hlt hlt (stopPage_lt stop) hle
  rw [hmap]
  exact ⟨haligned, hle, hmaps⟩

theorem processMalloc_succeeds (h : Ends (processMalloc process size) kernel ptr after)
    (hne : ptr ≠ 0) : Granted kernel after process size ptr := by
  obtain ⟨index, alloc, halloc, hlt, hfree, hmapped, rfl⟩ := processMalloc_served h hne
  obtain ⟨hfound, -, -, hinside⟩ := ends_kzalloc halloc
  have hinside := hinside hne
  have heq := kzalloc_eq halloc hne
  subst heq
  rw [mapsAllocation, toUint32, Nat.mod_eq_of_lt hinside] at hmapped
  obtain ⟨haligned, hstop, hmaps⟩ := pagingMapTo_succeeds (by omega) hinside hmapped
  refine ⟨hfound, haligned, hinside, hstop, rfl, ?_⟩
  have hpages : mapsAllocation (writeBytes ptr size (fun _ => 0)
      { kernel with heap := (heapMalloc kernel.heap size).2 }) process ptr size 7 =
      pagingMapTo kernel.pages (kernel.directoryOf process) ptr ptr
        (pagingAlignAddress (ptr + size)) 7 := by
    rw [mapsAllocation, toUint32, Nat.mod_eq_of_lt hinside]
    rfl
  rw [hpages]
  exact hmaps

section Granted

variable {memory : Memory}

theorem Granted.byte (h : Granted kernel after process size ptr) (address : Nat) :
    after.memory kernel.pages address =
      if ptr ≤ address ∧ address < ptr + size then 0 else kernel.memory kernel.pages address := by
  rw [h.memory]
  rfl

theorem Granted.mem_stored (h : Granted kernel after process size ptr) {stored : List (Nat × Nat)}
    (hstored : after.pages.stores = stored ++ kernel.pages.stores) (store : Nat × Nat) :
    store ∈ stored ↔ ∃ page, ptr / pagingPageSize ≤ page ∧ page < stopPage (ptr + size) ∧
      store = (page * pagingPageSize, page * pagingPageSize ||| 7) := by
  obtain ⟨stored', hstored', hmem⟩ := h.maps.stores
  rw [hstored] at hstored'
  rw [List.append_cancel_right hstored', hmem]
  have hstop := stopPage_lt (ptr + size)
  constructor
  · rintro ⟨j, hj, rfl⟩
    rw [Nat.mod_eq_of_lt (by omega)]
    exact ⟨_, Nat.le_add_right _ j, by omega, rfl⟩
  · rintro ⟨page, hle, hlt, rfl⟩
    refine ⟨page - ptr / pagingPageSize, by omega, ?_⟩
    rw [Nat.add_sub_cancel' hle, Nat.mod_eq_of_lt (by omega)]

theorem Granted.zeroed_iff (h : Granted kernel after process size ptr) :
    PagesZeroed kernel after ↔ TailZero kernel size := by
  have hfound := h.found
  have haligned := h.aligned
  have hstop := pagingAlignAddress_eq h.inside
  rw [TailZero, ← hfound]
  simp only [hstop]
  have htable : ∀ page, tableAddress (page * pagingPageSize ||| 7) = page * pagingPageSize :=
    fun page => tableAddress_or (Nat.mul_mod_left _ _) (by decide)
  constructor
  · intro hzeroed address hge hlt
    obtain ⟨stored, hstored, -⟩ := h.maps.stores
    have hpage : address / pagingPageSize < stopPage (ptr + size) :=
      Nat.div_lt_of_lt_mul (by rwa [Nat.mul_comm])
    have hmem := (h.mem_stored hstored _).mpr ⟨address / pagingPageSize,
      Nat.div_le_div_right (by omega), hpage, rfl⟩
    have hbyte := hzeroed stored hstored _ hmem
      (by
        rw [page_or_flags (by decide), pagingPageSize]
        omega) (address % pagingPageSize) (Nat.mod_lt _ (by decide))
    simp only [htable] at hbyte
    rw [Nat.mul_comm, Nat.div_add_mod, h.byte, if_neg (by omega)] at hbyte
    exact hbyte
  · intro htail stored hstored store hmem _ i hi
    obtain ⟨page, hle, hlt, rfl⟩ := (h.mem_stored hstored store).mp hmem
    rw [htable, h.byte]
    split
    · rfl
    · rename_i hoff
      apply htail
      · simp only [pagingPageSize] at *
        omega
      · simp only [pagingPageSize] at *
        omega

theorem Granted.stop_lt (h : Granted kernel after process size ptr) (hne : ptr ≠ 0)
    (hsize : size % pagingPageSize ≠ 0) : ptr + size < pagingAlignAddress (ptr + size) := by
  have haligned := h.aligned
  have hinside := h.inside
  have hlast := h.stop
  rw [pagingAlignAddress_eq hinside]
  simp only [stopPage, pagingPageSize, pageCount, addressSpace] at *
  omega

theorem processMalloc_other_memory (h : Ends (processMalloc process size) kernel ptr after)
    (hne : ptr ≠ 0) (memory : Memory) :
    ∃ after', Ends (processMalloc process size) { kernel with memory := memory } ptr after' := by
  obtain ⟨index, alloc, halloc, hlt, hfree, hmapped, rfl⟩ := processMalloc_served h hne
  have heq := kzalloc_eq halloc hne
  obtain ⟨rfl, -, -, hinside⟩ := ends_kzalloc halloc
  subst heq
  have hfree' : ((kernel.processMemory process).allocations index).ptr = 0 := hfree
  obtain ⟨index', hindex'⟩ : ∃ index',
      processFindFreeAllocationIndex (kernel.processMemory process) = some index' := by
    apply Option.isSome_iff_exists.mp
    rw [processFindFreeAllocationIndex, List.find?_isSome]
    exact ⟨index, List.mem_range.mpr hlt, by simpa using hfree'⟩
  have halloc' := @kzalloc_ends { kernel with memory := memory } size hne (hinside hne)
  exact ⟨_, processMalloc_granted halloc' hne hindex' hmapped⟩

/-- The pages that are mapped hold zeros exactly if the rest of the last page does, and they do so
whatever was in the memory exactly if whole pages are asked for. -/
theorem pagesZeroed_iff (h : Ends (processMalloc process size) kernel ptr after) (hne : ptr ≠ 0) :
    (PagesZeroed kernel after ↔ TailZero kernel size) ∧
      (ZeroedWhatever kernel process size ptr ↔ size % pagingPageSize = 0) := by
  have hgranted := processMalloc_succeeds h hne
  refine ⟨hgranted.zeroed_iff, ?_⟩
  have haligned := hgranted.aligned
  have hinside := hgranted.inside
  constructor
  · intro hwhatever
    by_contra hsize
    obtain ⟨after', h'⟩ := processMalloc_other_memory h hne fun _ _ => 1
    have htail := (processMalloc_succeeds h' hne).zeroed_iff.mp (hwhatever _ _ h')
    have hlt := hgranted.stop_lt hne hsize
    rw [hgranted.found] at hlt
    have hone : (1 : UInt8) = 0 := htail _ (Nat.le_refl _) hlt
    exact absurd hone (by decide)
  · intro hsize memory after' h'
    have hgranted' := processMalloc_succeeds h' hne
    rw [hgranted'.zeroed_iff]
    intro address hge hlt
    rw [← hgranted'.found, pagingAlignAddress, if_neg] at hlt
    · rw [← hgranted'.found] at hge
      omega
    · simp only [pagingPageSize] at *
      omega

end Granted

def usedKernel : Kernel :=
  { idleKernel bootBytes unmountedVolume with memory := fun _ _ => 1 }

theorem usedKernel_malloc : ∃ ptr after, Ends (processMalloc 0 1) usedKernel ptr after ∧ ptr ≠ 0 := by
  obtain ⟨ptr, alloc, halloc, hne, -⟩ := @kzalloc_block 1 1 usedKernel FreeBlocks _
    (idleKernel_freeBlocks unmountedVolume (by decide)) (by decide) (by decide)
  have hsound : HeapSound usedKernel.heap := idleKernel_sound unmountedVolume
  have haligned := kzalloc_aligned hsound halloc
  have hinside := kzalloc_inside hsound halloc
  have hindex : processFindFreeAllocationIndex (alloc.processMemory 0) = some 0 := by
    have hmemory := congrArg Kernel.processMemory (ends_kzalloc halloc).2.2.1
    have hsame : alloc.processMemory = usedKernel.processMemory := hmemory
    rw [hsame]
    exact List.find?_range_eq_some.mpr ⟨rfl, List.mem_range.mpr (by decide),
      fun i hi => absurd hi (Nat.not_lt_zero i)⟩
  have hge : 0 ≤ (mapsAllocation alloc 0 ptr 1 7).1 := by
    have hpage : ptr = ptr / pagingPageSize * pagingPageSize := by
      simp only [pagingPageSize] at *
      omega
    have hstop : pagingAlignAddress (toUint32 (ptr + 1)) =
        (ptr / pagingPageSize + 1) * pagingPageSize := by
      rw [pagingAlignAddress_eq (toUint32_lt _)]
      simp only [stopPage, pageCount, toUint32, addressSpace, pagingPageSize, slobosHeapAddress] at *
      omega
    have hlt : ptr / pagingPageSize + 1 < pageCount := by
      simp only [pagingPageSize, pageCount, slobosHeapAddress] at *
      omega
    rw [mapsAllocation, hstop]
    generalize ptr / pagingPageSize = page at hpage hlt ⊢
    subst hpage
    obtain ⟨pages', hmap, -⟩ := @pagingMapTo_maps alloc.pages (alloc.directoryOf 0) page page
      (page + 1) 7 (by omega) (by omega) hlt (by omega)
    exact Int.le_of_eq (congrArg Prod.fst hmap).symm
  exact ⟨ptr, _, processMalloc_granted halloc hne hindex hge, hne⟩

theorem pagesZeroed_iff_byte : ∃ ptr after, Ends (processMalloc 0 1) usedKernel ptr after ∧
    (PagesZeroed usedKernel after ↔ TailZero usedKernel 1) := by
  obtain ⟨ptr, after, h, hne⟩ := usedKernel_malloc
  exact ⟨ptr, after, h, (pagesZeroed_iff h hne).1⟩

/-- All bytes of the page but the first one are what they were before. -/
theorem not_pagesZeroed : ¬∀ kernel after process size ptr,
    Ends (processMalloc process size) kernel ptr after → ptr ≠ 0 → PagesZeroed kernel after := by
  intro hall
  obtain ⟨ptr, after, h, hne⟩ := usedKernel_malloc
  have hgranted := processMalloc_succeeds h hne
  have hlt := hgranted.stop_lt hne (by decide)
  rw [hgranted.found] at hlt
  have hone : (1 : UInt8) = 0 :=
    hgranted.zeroed_iff.mp (hall _ _ _ _ _ h hne) _ (Nat.le_refl _) hlt
  exact absurd hone (by decide)

end Kernel

end SlobOS
