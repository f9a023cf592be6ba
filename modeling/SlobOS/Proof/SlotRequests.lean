import Mathlib.Data.Finset.Card
import SlobOS.Proof.SingleBlocks
import SlobOS.Proof.Supplies

/-!
# Requests that take a slot

A request of a process takes one of its empty slots and, up to a page, one of the free blocks of the
heap. It is served exactly as long as there are both.
-/

namespace SlobOS

namespace Kernel

open Faulting

def emptySlots (kernel : Kernel) (process : Nat) : Finset Nat :=
  (Finset.range slobosMaxProgramAllocations).filter fun i =>
    ((kernel.processMemory process).allocations i).ptr = 0

variable {kernel alloc after : Kernel} {process ptr size index block : Nat}

theorem mem_emptySlots : index ∈ emptySlots kernel process ↔
    index < slobosMaxProgramAllocations ∧ ((kernel.processMemory process).allocations index).ptr = 0 := by
  rw [emptySlots, Finset.mem_filter, Finset.mem_range]

theorem emptySlots_congr
    (hslots : (after.processMemory process).allocations = (kernel.processMemory process).allocations) :
    emptySlots after process = emptySlots kernel process := by
  rw [emptySlots, emptySlots, hslots]

theorem processFindFreeAllocationIndex_none {own : ProcessMemory} :
    processFindFreeAllocationIndex own = none ↔
      ∀ i < slobosMaxProgramAllocations, (own.allocations i).ptr ≠ 0 := by
  rw [processFindFreeAllocationIndex, List.find?_eq_none]
  simp only [List.mem_range, decide_eq_true_eq]

theorem exists_findFree (h : (emptySlots kernel process).Nonempty) :
    ∃ index ∈ emptySlots kernel process,
      processFindFreeAllocationIndex (kernel.processMemory process) = some index := by
  obtain ⟨i, hi⟩ := h
  obtain ⟨hlt, hempty⟩ := mem_emptySlots.mp hi
  obtain ⟨index, -, hindex⟩ := processFindFreeAllocationIndex_le hlt hempty
  exact ⟨index, mem_emptySlots.mpr (processFindFreeAllocationIndex_some hindex), hindex⟩

/-- One allocation more has been recorded, in a slot that was empty. -/
structure Records (kernel after : Kernel) (process ptr size index : Nat) : Prop where
  ne_null : ptr ≠ 0
  empty : index ∈ emptySlots kernel process
  slots : ∀ i, (after.processMemory process).allocations i =
    if i = index then { ptr := ptr, size := size } else (kernel.processMemory process).allocations i

theorem Records.emptySlots_eq (h : Records kernel after process ptr size index) :
    emptySlots after process = (emptySlots kernel process).erase index := by
  ext i
  rw [Finset.mem_erase, mem_emptySlots, mem_emptySlots, h.slots]
  by_cases heq : i = index
  · rw [if_pos heq]
    exact iff_of_false (fun hmem => h.ne_null hmem.2) fun hmem => hmem.1 heq
  · rw [if_neg heq]
    exact (and_iff_right heq).symm

theorem Records.card (h : Records kernel after process ptr size index) :
    (emptySlots after process).card + 1 = (emptySlots kernel process).card := by
  rw [h.emptySlots_eq, Finset.card_erase_add_one h.empty]

theorem Records.kept (h : Records kernel after process ptr size index) {i : Nat}
    (hused : ((kernel.processMemory process).allocations i).ptr ≠ 0) :
    (after.processMemory process).allocations i = (kernel.processMemory process).allocations i := by
  rw [h.slots, if_neg]
  rintro rfl
  exact hused (mem_emptySlots.mp h.empty).2

theorem records_granted (halloc : Ends (kzalloc size) kernel ptr alloc) (hne : ptr ≠ 0)
    (hlt : index < slobosMaxProgramAllocations)
    (hempty : ((alloc.processMemory process).allocations index).ptr = 0) (pages : PageTables) :
    Records kernel (setAllocations process (grantedAllocations alloc process index ptr size)
      (setPages pages alloc)) process ptr size index := by
  have hmemory : alloc.processMemory = kernel.processMemory := by
    have htakes := congrArg Kernel.processMemory (ends_kzalloc halloc).2.2.1
    exact htakes
  rw [hmemory] at hempty
  refine ⟨hne, mem_emptySlots.mpr ⟨hlt, hempty⟩, fun i => ?_⟩
  simp only [setAllocations, setProcessMemory, if_true, grantedAllocations, hmemory]

/-- A page that the process has been given takes a block and a slot; nothing has been stored outside
the page. -/
structure TakesSlot (kernel after : Kernel) (process ptr size : Nat) : Prop where
  sound : HeapSound after.heap
  taken : ∃ block : Nat, ptr = heapBlockToAddress kernel.heap block ∧
    TakesBlock kernel.heap after.heap block
  recorded : ∃ index, Records kernel after process ptr size index
  memory : ∀ pages address, ¬(ptr ≤ address ∧ address < ptr + size) →
    after.memory pages address = kernel.memory pages address

def HasSlot (kernel : Kernel) (process : Nat) : Prop :=
  (emptySlots kernel process).Nonempty ∧ FreeBlocks kernel.heap 1

theorem processMalloc_full (halloc : Ends (kzalloc size) kernel ptr alloc) (hne : ptr ≠ 0)
    (hfull : ¬(emptySlots kernel process).Nonempty) :
    Ends (processMalloc process size) kernel 0 { alloc with heap := heapFree alloc.heap ptr } := by
  have hmemory := congrArg Kernel.processMemory (ends_kzalloc halloc).2.2.1
  have hindex : processFindFreeAllocationIndex (alloc.processMemory process) = none := by
    rw [show alloc.processMemory = kernel.processMemory from hmemory,
      processFindFreeAllocationIndex_none]
    exact fun i hi hempty => hfull ⟨i, mem_emptySlots.mpr ⟨hi, hempty⟩⟩
  refine ends_bind.mpr ⟨ptr, alloc, halloc, ?_⟩
  rw [if_neg hne, ends_get_bind, hindex]
  exact ends_bind.mpr ⟨(), _, ends_kfree.mpr rfl, ends_pure.mpr ⟨rfl, rfl⟩⟩

theorem kzalloc_memory (halloc : Ends (kzalloc size) kernel ptr alloc) (hne : ptr ≠ 0)
    {address : Nat} (hout : ¬(ptr ≤ address ∧ address < ptr + size)) (pages : PageTables) :
    alloc.memory pages address = kernel.memory pages address := by
  have hlt := (ends_kzalloc halloc).2.2.2 hne
  obtain ⟨rfl, -, -, -⟩ := ends_kzalloc halloc
  obtain ⟨-, rfl⟩ := halloc.unique (kzalloc_ends hne hlt)
  exact if_neg hout

theorem processMalloc_page (hsound : HeapSound kernel.heap) (process : Nat) (hpos : 0 < size)
    (hsize : size ≤ slobosHeapBlockSize) :
    (HasSlot kernel process ∧ ∃ ptr after, Ends (processMalloc process size) kernel ptr after ∧
        ptr ≠ 0 ∧ TakesSlot kernel after process ptr size) ∨
      (¬HasSlot kernel process ∧ ∃ after, Ends (processMalloc process size) kernel 0 after) := by
  by_cases hfree : FreeBlocks kernel.heap 1
  case neg =>
    have hnull := (kzalloc_none hsound hpos hsize hfree).2
    refine Or.inr ⟨fun hslot => hfree hslot.2, kernel, ends_bind.mpr ⟨0, kernel, hnull, ?_⟩⟩
    rw [if_pos rfl]
    exact ends_pure.mpr ⟨rfl, rfl⟩
  case pos =>
    obtain ⟨ptr, alloc, halloc, hne, -⟩ := @kzalloc_block _ 0 _ _ _ hfree hpos hsize
    by_cases hslot : (emptySlots kernel process).Nonempty
    case neg => exact Or.inr ⟨fun h => hslot h.1, _, processMalloc_full halloc hne hslot⟩
    case pos =>
      have hmemory := congrArg Kernel.processMemory (ends_kzalloc halloc).2.2.1
      have hslot' : (emptySlots alloc process).Nonempty := by
        rwa [emptySlots_congr (congrArg (fun memory => (memory process).allocations) hmemory)]
      obtain ⟨index, hmem, hindex⟩ := exists_findFree hslot'
      obtain ⟨hlt, hempty⟩ := mem_emptySlots.mp hmem
      have hmaps := @mapsAllocation_succeeds alloc process size ptr (kzalloc_aligned hsound halloc)
        (kzalloc_inside hsound halloc) hsize
      refine Or.inl ⟨⟨hslot, hfree⟩, ptr, _, processMalloc_granted halloc hne hindex hmaps, hne, ?_⟩
      rcases kzalloc_oneBlock hsound hpos hsize halloc with ⟨-, hnull, -⟩ | ⟨block, -, hptr, htakes, hafter⟩
      · exact absurd hnull hne
      constructor
      case sound => exact hafter
      case taken => exact ⟨block, hptr, htakes⟩
      case recorded => exact ⟨index, records_granted halloc hne hlt hempty _⟩
      case memory => exact fun pages address hout => kzalloc_memory halloc hne hout pages

end Kernel

end SlobOS
