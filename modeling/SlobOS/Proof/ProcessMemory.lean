import SlobOS.ProcessLoad
import SlobOS.Proof.Kernel

/-!
# The memory calls of a process

What a call of `process_malloc` or `process_free` that comes back has done, by the branch that it has
taken.
-/

namespace SlobOS

namespace Kernel

open Faulting

inductive MemoryCall where
  | malloc (size : Nat)
  | free (ptr : Nat)

inductive MemoryStep (process : Nat) : Kernel → MemoryCall → Kernel → Prop
  | malloc {kernel after : Kernel} {size ptr : Nat} :
      Ends (processMalloc process size) kernel ptr after →
      MemoryStep process kernel (.malloc size) after
  | free {kernel after : Kernel} {ptr : Nat} : Ends (processFree process ptr) kernel () after →
      MemoryStep process kernel (.free ptr) after

/-- The mapping that `process_malloc` and `process_free` ask for. -/
def mapsAllocation (kernel : Kernel) (process ptr size flags : Nat) : Int × PageTables :=
  pagingMapTo kernel.pages (kernel.directoryOf process) ptr ptr
    (pagingAlignAddress (toUint32 (ptr + size))) flags

def grantedAllocations (kernel : Kernel) (process index ptr size : Nat) : Nat → ProcessAllocation :=
  fun i => if i = index then { ptr := ptr, size := size }
    else (kernel.processMemory process).allocations i

inductive MallocOutcome (process size : Nat) (kernel : Kernel) : Nat → Kernel → Prop
  | refused {alloc : Kernel} : Ends (kzalloc size) kernel 0 alloc →
      MallocOutcome process size kernel 0 alloc
  | full {ptr : Nat} {alloc : Kernel} : Ends (kzalloc size) kernel ptr alloc → ptr ≠ 0 →
      MallocOutcome process size kernel 0 { alloc with heap := heapFree alloc.heap ptr }
  | unmapped {ptr : Nat} {alloc : Kernel} : Ends (kzalloc size) kernel ptr alloc → ptr ≠ 0 →
      (mapsAllocation alloc process ptr size 7).1 < 0 →
      MallocOutcome process size kernel 0
        { setPages (mapsAllocation alloc process ptr size 7).2 alloc with
          heap := heapFree alloc.heap ptr }
  | granted {ptr index : Nat} {alloc : Kernel} : Ends (kzalloc size) kernel ptr alloc → ptr ≠ 0 →
      index < slobosMaxProgramAllocations →
      ((alloc.processMemory process).allocations index).ptr = 0 →
      0 ≤ (mapsAllocation alloc process ptr size 7).1 →
      MallocOutcome process size kernel ptr
        (setAllocations process (grantedAllocations alloc process index ptr size)
          (setPages (mapsAllocation alloc process ptr size 7).2 alloc))

inductive FreeOutcome (process ptr : Nat) (kernel : Kernel) : Kernel → Prop
  | ignored : FreeOutcome process ptr kernel kernel
  | unmapped {i : Nat} : i < slobosMaxProgramAllocations →
      ((kernel.processMemory process).allocations i).ptr = ptr →
      (mapsAllocation kernel process ptr
        ((kernel.processMemory process).allocations i).size 0).1 < 0 →
      FreeOutcome process ptr kernel
        (setPages (mapsAllocation kernel process ptr
          ((kernel.processMemory process).allocations i).size 0).2 kernel)
  | released {i : Nat} : i < slobosMaxProgramAllocations →
      ((kernel.processMemory process).allocations i).ptr = ptr →
      0 ≤ (mapsAllocation kernel process ptr
        ((kernel.processMemory process).allocations i).size 0).1 →
      FreeOutcome process ptr kernel
        { processUnjoinAllocationArray process ptr
            (setPages (mapsAllocation kernel process ptr
              ((kernel.processMemory process).allocations i).size 0).2 kernel) with
          heap := heapFree kernel.heap ptr }

variable {kernel after : Kernel} {process ptr size index : Nat}

theorem processFindFreeAllocationIndex_some {own : ProcessMemory}
    (h : processFindFreeAllocationIndex own = some index) :
    index < slobosMaxProgramAllocations ∧ (own.allocations index).ptr = 0 := by
  unfold processFindFreeAllocationIndex at h
  obtain ⟨hfree, hmem, -⟩ := List.find?_range_eq_some.mp h
  exact ⟨List.mem_range.mp hmem, of_decide_eq_true hfree⟩

theorem processMalloc_cases (h : Ends (processMalloc process size) kernel ptr after) :
    MallocOutcome process size kernel ptr after := by
  obtain ⟨ptr', alloc, halloc, h⟩ := ends_bind.mp h
  rw [ends_ite] at h
  rcases h with ⟨rfl, h⟩ | ⟨hne, h⟩
  · obtain ⟨rfl, rfl⟩ := ends_pure.mp h
    exact .refused halloc
  rw [ends_get_bind] at h
  cases hindex : processFindFreeAllocationIndex (alloc.processMemory process) with
  | none =>
      simp only [hindex, ends_bind, ends_kfree, ends_pure] at h
      obtain ⟨_, _, rfl, rfl, rfl⟩ := h
      exact .full halloc hne
  | some index =>
      obtain ⟨hlt, hfree⟩ := processFindFreeAllocationIndex_some hindex
      simp only [hindex] at h
      rw [ends_modify_bind, ends_ite] at h
      rcases h with ⟨hneg, h⟩ | ⟨hge, h⟩
      · simp only [ends_bind, ends_kfree, ends_pure] at h
        obtain ⟨_, _, rfl, rfl, rfl⟩ := h
        exact .unmapped halloc hne hneg
      · rw [ends_modify_bind] at h
        obtain ⟨rfl, rfl⟩ := ends_pure.mp h
        exact .granted halloc hne hlt hfree (Int.not_lt.mp hge)

theorem processMalloc_served (h : Ends (processMalloc process size) kernel ptr after) (hne : ptr ≠ 0) :
    ∃ index alloc, Ends (kzalloc size) kernel ptr alloc ∧ index < slobosMaxProgramAllocations ∧
      ((alloc.processMemory process).allocations index).ptr = 0 ∧
      0 ≤ (mapsAllocation alloc process ptr size 7).1 ∧
      after = setAllocations process (grantedAllocations alloc process index ptr size)
        (setPages (mapsAllocation alloc process ptr size 7).2 alloc) := by
  cases processMalloc_cases h with
  | refused => exact absurd rfl hne
  | full => exact absurd rfl hne
  | unmapped => exact absurd rfl hne
  | @granted _ index alloc halloc _ hlt hempty hmapped =>
      exact ⟨index, alloc, halloc, hlt, hempty, hmapped, rfl⟩

theorem processMalloc_granted {alloc : Kernel} (halloc : Ends (kzalloc size) kernel ptr alloc)
    (hne : ptr ≠ 0)
    (hindex : processFindFreeAllocationIndex (alloc.processMemory process) = some index)
    (hge : 0 ≤ (mapsAllocation alloc process ptr size 7).1) :
    Ends (processMalloc process size) kernel ptr
      (setAllocations process (grantedAllocations alloc process index ptr size)
        (setPages (mapsAllocation alloc process ptr size 7).2 alloc)) := by
  refine ends_bind.mpr ⟨ptr, alloc, halloc, ?_⟩
  have hflags : pagingIsWriteable ||| pagingIsPresent ||| pagingAccessFromAll = 7 := rfl
  rw [if_neg hne, ends_get_bind, hindex]
  unfold mapsAllocation at hge ⊢
  simp only [hflags]
  rw [ends_modify_bind, if_neg (Int.not_lt.mpr hge), ends_modify_bind]
  exact ends_pure.mpr ⟨rfl, rfl⟩

theorem processGetAllocationByAddr_some {own : ProcessMemory} {allocation : ProcessAllocation}
    (h : processGetAllocationByAddr own ptr = some allocation) :
    ∃ i < slobosMaxProgramAllocations, own.allocations i = allocation ∧ allocation.ptr = ptr := by
  unfold processGetAllocationByAddr at h
  obtain ⟨i, hfound, rfl⟩ := Option.map_eq_some_iff.mp h
  obtain ⟨hptr, hmem, -⟩ := List.find?_range_eq_some.mp hfound
  exact ⟨i, List.mem_range.mp hmem, rfl, of_decide_eq_true hptr⟩

theorem processFree_cases {result : Unit} (h : Ends (processFree process ptr) kernel result after) :
    FreeOutcome process ptr kernel after := by
  rw [processFree, ends_get_bind, ends_ite] at h
  rcases h with ⟨-, h⟩ | ⟨-, h⟩
  · obtain ⟨-, rfl⟩ := ends_pure.mp h
    exact .ignored
  cases hallocation : processGetAllocationByAddr (kernel.processMemory process) ptr with
  | none =>
      rw [hallocation] at h
      obtain ⟨-, rfl⟩ := ends_pure.mp h
      exact .ignored
  | some allocation =>
      obtain ⟨i, hlt, rfl, rfl⟩ := processGetAllocationByAddr_some hallocation
      simp only [hallocation] at h
      rw [ends_modify_bind, ends_ite] at h
      rcases h with ⟨hneg, h⟩ | ⟨hge, h⟩
      · obtain ⟨-, rfl⟩ := ends_pure.mp h
        exact .unmapped hlt rfl hneg
      · rw [ends_modify_bind] at h
        obtain rfl := ends_kfree.mp h
        exact .released hlt rfl (Int.not_lt.mp hge)

theorem processFree_total (kernel : Kernel) (process ptr : Nat) :
    ∃ after, Ends (processFree process ptr) kernel () after := by
  rw [processFree]
  simp only [ends_get_bind]
  split
  · exact ⟨kernel, ends_pure.mpr ⟨rfl, rfl⟩⟩
  split
  · exact ⟨kernel, ends_pure.mpr ⟨rfl, rfl⟩⟩
  simp only [ends_modify_bind]
  split
  · exact ⟨_, ends_pure.mpr ⟨rfl, rfl⟩⟩
  · exact ⟨_, ends_kfree.mpr rfl⟩

end Kernel

end SlobOS
