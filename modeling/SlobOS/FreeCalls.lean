import SlobOS.LoadFailures
import SlobOS.MemoryRuns

/-!
# What may be released

`process_free` compares the pointer with all slots, and an empty slot has a null pointer too. From then
on the release of a null pointer is like that of an allocation: no page is closed, but the sweep starts
at the block of the null pointer, which lies 8192 entries in front of the heap table.
-/

namespace SlobOS

namespace Kernel

open Faulting Runs

def Live (kernel : Kernel) (process ptr : Nat) : Prop :=
  ptr ≠ 0 ∧ ∃ i < slobosMaxProgramAllocations, ((kernel.processMemory process).allocations i).ptr = ptr

def processFreeStart (kernel : Kernel) (process ptr : Nat) : Option Int :=
  if !processIsProcessPointer (kernel.processMemory process) ptr then none
  else
    match processGetAllocationByAddr (kernel.processMemory process) ptr with
    | none => none
    | some allocation =>
        if (pagingMapTo kernel.pages (kernel.directoryOf process) allocation.ptr allocation.ptr
            (pagingAlignAddress (toUint32 (allocation.ptr + allocation.size))) 0x00).1 < 0 then none
        else some (heapAddressToBlock kernel.heap ptr)

/-- The allocations, the page tables and the bytes at and around the heap table. -/
structure SameRecords (kernel after : Kernel) (process : Nat) : Prop where
  allocations : (after.processMemory process).allocations = (kernel.processMemory process).allocations
  pages : after.pages = kernel.pages
  table : ∀ i : Int, after.heap.table.entries i = kernel.heap.table.entries i

/-- A call of `process_free` changes nothing if the pointer is not that of an allocation, and a sweep
starts inside the heap table. -/
structure FreeSafe (kernel : Kernel) (process ptr : Nat) : Prop where
  unchanged : ¬Live kernel process ptr →
    ∃ after, Ends (processFree process ptr) kernel () after ∧ SameRecords kernel after process
  inside : ∀ start, processFreeStart kernel process ptr = some start →
    0 ≤ start ∧ start < kernel.heap.table.total

/-- One thing that happens in the kernel while the process lives. -/
inductive LifeAction where
  | call (call : MemoryCall)
  | taken (size : Nat)
  | released (ptr : Nat)
  | other

/-- The process makes a memory call, or some other part of the kernel runs: it takes or releases memory
of the heap, or changes anything but the heap and the allocations of the process. -/
inductive LifeStep (process : Nat) (kernel : Kernel) : LifeAction → Kernel → Prop
  | call {call : MemoryCall} {after : Kernel} :
      MemoryStep process kernel call after → LifeStep process kernel (.call call) after
  | taken {size : Nat} {after : Kernel} : after.heap = (heapMalloc kernel.heap size).2 →
      (after.processMemory process).allocations = (kernel.processMemory process).allocations →
      LifeStep process kernel (.taken size) after
  | released {ptr : Nat} {after : Kernel} : after.heap = heapFree kernel.heap ptr →
      (after.processMemory process).allocations = (kernel.processMemory process).allocations →
      LifeStep process kernel (.released ptr) after
  | other {after : Kernel} : after.heap = kernel.heap →
      (after.processMemory process).allocations = (kernel.processMemory process).allocations →
      LifeStep process kernel .other after

/-- The process has been there since `process_init`. -/
def Lives (kernel : Kernel) (process : Nat) : Prop :=
  ∃ before actions, HeapSound before.heap ∧
    Run (LifeStep process) (processInit process before) actions kernel

variable {kernel after : Kernel} {process ptr size : Nat}

theorem processFree_heap (h : Ends (processFree process ptr) kernel () after) :
    after.heap = (processFreeStart kernel process ptr).elim kernel.heap
      (heapMarkBlocksFree kernel.heap) := by
  unfold processFree at h
  unfold processFreeStart
  rw [ends_get_bind, ends_ite] at h
  rcases h with ⟨hforeign, h⟩ | ⟨hown, h⟩
  · obtain ⟨-, rfl⟩ := ends_pure.mp h
    rw [if_pos hforeign]
    rfl
  rw [if_neg hown]
  cases hallocation : processGetAllocationByAddr (kernel.processMemory process) ptr with
  | none =>
      rw [hallocation] at h
      obtain ⟨-, rfl⟩ := ends_pure.mp h
      rfl
  | some allocation =>
      simp only [hallocation] at h ⊢
      rw [ends_modify_bind, ends_ite] at h
      rcases h with ⟨hneg, h⟩ | ⟨hge, h⟩
      · obtain ⟨-, rfl⟩ := ends_pure.mp h
        rw [if_pos hneg]
        rfl
      · rw [ends_modify_bind] at h
        obtain rfl := ends_kfree.mp h
        rw [if_neg hge]
        rfl

/-- The heap is in order, and the slots hold addresses of its blocks. -/
structure SlotsInHeap (kernel : Kernel) (process : Nat) : Prop where
  sound : HeapSound kernel.heap
  block : ∀ i, ((kernel.processMemory process).allocations i).ptr ≠ 0 →
    ∃ block < kernel.heap.table.total,
      ((kernel.processMemory process).allocations i).ptr = heapBlockToAddress kernel.heap block

theorem SlotsInHeap.change (h : SlotsInHeap kernel process) (hsound : HeapSound after.heap)
    (htotal : after.heap.table.total = kernel.heap.table.total)
    (hslots : ∀ i, ((after.processMemory process).allocations i).ptr ≠ 0 →
      ((after.processMemory process).allocations i).ptr =
        ((kernel.processMemory process).allocations i).ptr) : SlotsInHeap after process := by
  refine ⟨hsound, fun i hne => ?_⟩
  have hptr := hslots i hne
  obtain ⟨block, hblock, haddress⟩ := h.block i (hptr ▸ hne)
  refine ⟨block, htotal ▸ hblock, ?_⟩
  rw [hptr, haddress]
  exact heapBlockToAddress_congr (h.sound.saddr.trans hsound.saddr.symm) _

theorem SlotsInHeap.alloc {alloc : Kernel} (h : SlotsInHeap kernel process)
    (halloc : Ends (kzalloc size) kernel ptr alloc) : SlotsInHeap alloc process := by
  obtain ⟨-, hheap, htakes, -⟩ := ends_kzalloc halloc
  have hmemory := congrArg Kernel.processMemory htakes
  refine h.change (hheap ▸ h.sound.malloc size) (hheap ▸ heapMallocBlocks_total _ _) fun i _ => ?_
  rw [show alloc.processMemory = kernel.processMemory from hmemory]

theorem setAllocations_self (allocations : Nat → ProcessAllocation) :
    ((setAllocations process allocations kernel).processMemory process).allocations = allocations := by
  simp only [setAllocations, setProcessMemory, if_true]

theorem SlotsInHeap.malloc (h : SlotsInHeap kernel process)
    (hends : Ends (processMalloc process size) kernel ptr after) : SlotsInHeap after process := by
  cases processMalloc_cases hends with
  | refused halloc => exact h.alloc halloc
  | full halloc =>
      exact (h.alloc halloc).change ((h.alloc halloc).sound.free _) (heapFree_total _ _) fun _ _ => rfl
  | unmapped halloc =>
      exact (h.alloc halloc).change ((h.alloc halloc).sound.free _) (heapFree_total _ _) fun _ _ => rfl
  | @granted _ index alloc halloc hne =>
      have hslots := h.alloc halloc
      obtain ⟨hptr, hheap, -, -⟩ := ends_kzalloc halloc
      refine ⟨hslots.sound, fun i hi => ?_⟩
      rw [setAllocations_self, grantedAllocations] at hi ⊢
      split at hi
      case isTrue heq =>
        rw [if_pos heq]
        obtain ⟨block, _, hgiven⟩ := heapMalloc_given (hptr ▸ hne)
        refine ⟨block, ?_, ?_⟩
        · change block < alloc.heap.table.total
          rw [hheap]
          exact (heapMallocBlocks_total _ _).symm ▸ hgiven.lt
        · change ptr = heapBlockToAddress alloc.heap block
          rw [hptr, hgiven.address]
          exact heapBlockToAddress_congr (h.sound.saddr.trans hslots.sound.saddr.symm) _
      case isFalse hother =>
        rw [if_neg hother]
        exact hslots.block i hi

theorem SlotsInHeap.free (h : SlotsInHeap kernel process)
    (hends : Ends (processFree process ptr) kernel () after) : SlotsInHeap after process := by
  cases processFree_cases hends with
  | ignored => exact h
  | unmapped => exact h.change h.sound rfl fun _ _ => rfl
  | released =>
      refine h.change (h.sound.free ptr) (heapFree_total _ _) fun i hi => ?_
      change (((processUnjoinAllocationArray process ptr _).processMemory process).allocations i).ptr ≠ 0
        at hi
      change (((processUnjoinAllocationArray process ptr _).processMemory process).allocations i).ptr = _
      rw [processUnjoinAllocationArray, setAllocations_self] at hi ⊢
      split at hi
      case isTrue => exact absurd rfl hi
      case isFalse hkept => exact congrArg ProcessAllocation.ptr (if_neg hkept)

theorem LifeStep.slotsInHeap {action : LifeAction} (hstep : LifeStep process kernel action after)
    (h : SlotsInHeap kernel process) : SlotsInHeap after process := by
  cases hstep with
  | call hcall =>
      cases hcall with
      | malloc hends => exact h.malloc hends
      | free hends => exact h.free hends
  | taken hheap hslots =>
      exact h.change (hheap ▸ h.sound.malloc _) (hheap ▸ heapMallocBlocks_total _ _)
        fun i _ => by rw [hslots]
  | released hheap hslots =>
      exact h.change (hheap ▸ h.sound.free _) (hheap ▸ heapFree_total _ _) fun i _ => by rw [hslots]
  | other hheap hslots =>
      exact h.change (hheap ▸ h.sound) (hheap ▸ rfl) fun i _ => by rw [hslots]

theorem Lives.slotsInHeap (h : Lives kernel process) : SlotsInHeap kernel process := by
  obtain ⟨before, actions, hsound, hrun⟩ := h
  apply hrun.invariant (fun kernel => SlotsInHeap kernel process)
  · exact fun _ _ _ hkept hstep => hstep.slotsInHeap hkept
  · refine ⟨hsound, fun i hne => absurd ?_ hne⟩
    simp only [processInit, setProcess, setProcessMemory, if_true, blankProcessMemory]

/-! ### One call -/

theorem processFree_foreign (hforeign : ¬∃ i < slobosMaxProgramAllocations,
    ((kernel.processMemory process).allocations i).ptr = ptr) :
    processFreeStart kernel process ptr = none ∧ Ends (processFree process ptr) kernel () kernel := by
  have hnone : processIsProcessPointer (kernel.processMemory process) ptr = false := by
    refine List.any_eq_false.mpr fun i hi => ?_
    simpa using fun heq => hforeign ⟨i, List.mem_range.mp hi, heq⟩
  constructor
  · rw [processFreeStart, hnone]
    rfl
  · rw [processFree, ends_get_bind, hnone]
    exact ends_pure.mpr ⟨rfl, rfl⟩

theorem processFreeStart_some {start : Int} (h : processFreeStart kernel process ptr = some start) :
    start = heapAddressToBlock kernel.heap ptr ∧ ∃ i < slobosMaxProgramAllocations,
      ((kernel.processMemory process).allocations i).ptr = ptr := by
  by_cases hslot : ∃ i < slobosMaxProgramAllocations,
      ((kernel.processMemory process).allocations i).ptr = ptr
  · refine ⟨?_, hslot⟩
    unfold processFreeStart at h
    split at h
    · cases h
    split at h
    · cases h
    split at h
    · cases h
    · exact (Option.some.inj h).symm
  · rw [(processFree_foreign hslot).1] at h
    cases h

theorem processFreeStart_null {i : Nat} (hi : i < slobosMaxProgramAllocations)
    (hempty : ((kernel.processMemory process).allocations i).ptr = 0) :
    processFreeStart kernel process 0 = some (heapAddressToBlock kernel.heap 0) := by
  have hown : processIsProcessPointer (kernel.processMemory process) 0 = true :=
    List.any_eq_true.mpr ⟨i, List.mem_range.mpr hi, decide_eq_true hempty⟩
  rw [processFreeStart, hown]
  cases hallocation : processGetAllocationByAddr (kernel.processMemory process) 0 with
  | none =>
      rw [processGetAllocationByAddr, Option.map_eq_none_iff] at hallocation
      have hnot := List.find?_eq_none.mp hallocation i (List.mem_range.mpr hi)
      exact absurd (decide_eq_true hempty) hnot
  | some allocation =>
      obtain ⟨_, -, -, hptr⟩ := processGetAllocationByAddr_some hallocation
      obtain ⟨pages, _, hmap, -⟩ := mapsAllocation_null kernel process allocation.size
      rw [mapsAllocation] at hmap
      simp only [hptr, hmap]
      rfl

theorem processFree_null {i : Nat} (hsound : HeapSound kernel.heap)
    (hi : i < slobosMaxProgramAllocations)
    (hempty : ((kernel.processMemory process).allocations i).ptr = 0)
    (hends : Ends (processFree process 0) kernel () after) : after.heap.table.entries (-8192) = 0 := by
  have hheap := processFree_heap hends
  rw [processFreeStart_null hi hempty, hsound.nullBlock] at hheap
  rw [hheap]
  apply (heapMarkBlocksFree_spec kernel.heap (-8192)).clear
  exact ⟨Int.le_refl _, by omega, fun j hge hlt => absurd hge (Int.not_le.mpr hlt)⟩

/-- At every point of the life of a process a release is safe exactly if the pointer is not null or
no slot is empty. -/
theorem freeSafe_iff (h : Lives kernel process) : FreeSafe kernel process ptr ↔
    ptr ≠ 0 ∨ ∀ i < slobosMaxProgramAllocations,
      ((kernel.processMemory process).allocations i).ptr ≠ 0 := by
  have hslots := h.slotsInHeap
  constructor
  · intro hsafe
    by_contra hnull
    rw [not_or, not_not] at hnull
    obtain ⟨rfl, hempty⟩ := hnull
    apply hempty
    intro i hi hptr
    have hinside := hsafe.inside _ (processFreeStart_null hi hptr)
    rw [hslots.sound.nullBlock] at hinside
    omega
  · intro hcond
    have hlive : (∃ i < slobosMaxProgramAllocations,
        ((kernel.processMemory process).allocations i).ptr = ptr) → Live kernel process ptr := by
      rintro ⟨i, hi, hptr⟩
      refine ⟨?_, i, hi, hptr⟩
      rcases hcond with hne | hfull
      · exact hne
      · exact hptr ▸ hfull i hi
    constructor
    · intro hforeign
      obtain ⟨-, hends⟩ := processFree_foreign fun hslot => hforeign (hlive hslot)
      exact ⟨kernel, hends, rfl, rfl, fun _ => rfl⟩
    · intro start hstart
      obtain ⟨rfl, hslot⟩ := processFreeStart_some hstart
      obtain ⟨hne, i, -, rfl⟩ := hlive hslot
      obtain ⟨block, hblock, haddress⟩ := hslots.block i hne
      rw [haddress, heapAddressToBlock_blockToAddress hslots.sound.sized hblock]
      exact ⟨Int.natCast_nonneg block, Int.ofNat_lt.mpr hblock⟩

theorem lives_blank : Lives (processInit 0 (idleKernel bootBytes unmountedVolume)) 0 :=
  ⟨_, [], idleKernel_sound unmountedVolume, .nil _⟩

theorem freeSafe_iff_byte : ∃ ptr after,
    Ends (processMalloc 0 1) (processInit 0 (idleKernel bootBytes unmountedVolume)) ptr after ∧
      Live after 0 ptr ∧ FreeSafe after 0 ptr := by
  have hroom : Room (processInit 0 (idleKernel bootBytes unmountedVolume)).heap 25600 :=
    idleKernel_room unmountedVolume
  obtain ⟨ptr, alloc, pages, hne, -, -, hmalloc⟩ := @processMalloc_byte _ 0 0 25599 hroom
    (processFindFreeAllocationIndex_first (by decide) rfl fun i hi => absurd hi (Nat.not_lt_zero i))
  have hlives : Lives _ 0 :=
    ⟨_, [.call (.malloc 1)], idleKernel_sound unmountedVolume, .single (.call (.malloc hmalloc))⟩
  refine ⟨ptr, _, hmalloc, ⟨hne, 0, by decide, ?_⟩, (freeSafe_iff hlives).mpr (Or.inl hne)⟩
  rw [setAllocations_self]
  rfl

/-- A process without allocations releases a null pointer. -/
theorem not_freeSafe : ¬∀ kernel process ptr, Lives kernel process → FreeSafe kernel process ptr := by
  intro hall
  have hsafe := hall _ 0 0 lives_blank
  have hinside := hsafe.inside _ (@processFreeStart_null _ 0 0 (by decide) rfl)
  rw [lives_blank.slotsInHeap.sound.nullBlock] at hinside
  omega

end Kernel

end SlobOS
