import SlobOS.LoadFailures
import SlobOS.Proof.ProcessMemory
import SlobOS.Proof.Programs
import SlobOS.Proof.SlotRequests

/-!
# Memory calls that fail

`process_malloc` fails at three points, with nothing, with a block, or with a block and a mapping that
is refused. What it has done up to there is a row of marks in the heap table, and the release of the
block takes exactly these back, also those of a run that is too short and those of no block at all.
-/

namespace SlobOS

section Heap

variable {heap after : Heap} {size start count : Nat}

theorem HeapSound.marked_free (h : HeapSound heap) (hstart : start < heap.table.total)
    (hfree : ∀ i : Nat, start ≤ i → i < start + count → i < heap.table.total → heap.table.IsFree i)
    (hblock : heap.table.IsFree start)
    (hmarked : Marked heap after start count fun i => chainEntry count (i - start).toNat) {i : Nat}
    (hi : i < heap.table.total) :
    (heapFree after (heapBlockToAddress heap start)).table.entries i = heap.table.entries i := by
  have hindex : heapAddressToBlock after (heapBlockToAddress heap start) = start := by
    rw [heapAddressToBlock_congr hmarked.saddr, heapAddressToBlock_blockToAddress h.sized hstart]
  have hswept := heapMarkBlocksFree_spec after start
  have hin : ∀ j : Int, start ≤ j → j < start + count →
      after.table.entries j = chainEntry count (j - start).toNat := by
    intro j hge hlt
    rw [hmarked.entries, if_pos ⟨hge, hlt⟩]
  have hout : ∀ j : Int, ¬(start ≤ j ∧ j < start + count) →
      after.table.entries j = heap.table.entries j := by
    intro j hj
    rw [hmarked.entries, if_neg hj]
  rw [heapFree, hindex]
  by_cases hreach : Reaches after.table start i
  · obtain ⟨hge, -, hnext⟩ := hreach
    rw [hswept.clear i ⟨hge, hmarked.total ▸ Int.ofNat_lt.mpr hi, hnext⟩]
    apply Eq.symm
    apply h.clean i hi
    rcases Nat.lt_or_ge i (start + count) with hlt | hpast
    · exact hfree i (by omega) hlt hi
    · -- The last mark ends the sweep, and so does the first block if there is none.
      rcases Nat.eq_zero_or_pos count with rfl | hpos
      · by_cases heq : i = start
        · exact heq ▸ hblock
        · have hstop := hnext start (Int.le_refl _) (by omega)
          rw [hout _ (by omega), h.clean start hstart hblock] at hstop
          exact absurd hstop hasNext_free
      · have hstop := hnext (start + count - 1 : Nat) (by omega) (by omega)
        rw [hin _ (by omega) (by omega), hasNext_chainEntry_iff] at hstop
        omega
  · rw [hswept.frame i hreach]
    apply hout
    rintro ⟨hge, hlt⟩
    refine hreach ⟨hge, hmarked.total ▸ Int.ofNat_lt.mpr hi, fun j hj hj' => ?_⟩
    rw [hin j hj (by omega), hasNext_chainEntry_iff]
    omega

theorem HeapSound.malloc_free (h : HeapSound heap) (hne : (heapMalloc heap size).1 ≠ 0) {i : Nat}
    (hi : i < heap.table.total) :
    (heapFree (heapMalloc heap size).2 (heapMalloc heap size).1).table.entries i =
      heap.table.entries i := by
  obtain ⟨start, count, hgiven⟩ := heapMalloc_given hne
  have hle := hgiven.le
  rw [hgiven.address]
  refine h.marked_free hgiven.lt (fun j hge hlt hj => ?_) hgiven.free hgiven.marked hi
  exact hgiven.window j hge (by omega)

end Heap

section Mapping

variable {pages : PageTables} {directory virt phys stop count flags : Nat}

theorem pagingMapRange_aligned (hvirt : virt % pagingPageSize = 0) (hphys : phys % pagingPageSize = 0) :
    (pagingMapRange pages directory virt phys count flags).1 = 0 := by
  induction count generalizing pages virt phys with
  | zero => rfl
  | succ count ih =>
      have hres : (pagingMap pages directory virt phys flags).1 = 0 := by
        rw [pagingMap, if_neg (by omega), pagingSet, pagingIsAligned, hvirt]
        rfl
      have hnext : ∀ address, address % pagingPageSize = 0 →
          toUint32 (address + pagingPageSize) % pagingPageSize = 0 := by
        intro address haligned
        simp only [toUint32, addressSpace, pagingPageSize] at *
        omega
      rw [pagingMapRange]
      simp only [hres, Int.lt_irrefl, if_false]
      exact ih (hnext virt hvirt) (hnext phys hphys)

theorem pagingMapTo_neg (h : (pagingMapTo pages directory virt phys stop flags).1 < 0) :
    (pagingMapTo pages directory virt phys stop flags).2 = pages := by
  unfold pagingMapTo at h ⊢
  by_cases hvirt : virt % pagingPageSize ≠ 0
  · rw [if_pos hvirt]
  by_cases hphys : phys % pagingPageSize ≠ 0
  · rw [if_neg hvirt, if_pos hphys]
  by_cases hstop : stop % pagingPageSize ≠ 0
  · rw [if_neg hvirt, if_neg hphys, if_pos hstop]
  by_cases horder : stop < phys
  · rw [if_neg hvirt, if_neg hphys, if_neg hstop, if_pos horder]
  · rw [if_neg hvirt, if_neg hphys, if_neg hstop, if_neg horder,
      pagingMapRange_aligned (not_not.mp hvirt) (not_not.mp hphys)] at h
    exact absurd h (Int.lt_irrefl 0)

end Mapping

namespace Kernel

open Faulting

variable {kernel alloc after : Kernel} {process ptr size : Nat}

/-- What a call that fails leaves: the allocations, the page tables, and the heap table. -/
structure Unserved (kernel after : Kernel) (process : Nat) : Prop where
  allocations : (after.processMemory process).allocations = (kernel.processMemory process).allocations
  pages : after.pages = kernel.pages
  heap : ∀ i < kernel.heap.table.total, after.heap.table.entries i = kernel.heap.table.entries i

theorem kzalloc_kfree (hsound : HeapSound kernel.heap) (halloc : Ends (kzalloc size) kernel ptr alloc)
    (hne : ptr ≠ 0) :
    Unserved kernel { alloc with heap := heapFree alloc.heap ptr } process := by
  obtain ⟨rfl, hheap, htakes, -⟩ := ends_kzalloc halloc
  refine ⟨?_, htakes.pages, fun i hi => ?_⟩
  · have hmemory := congrArg Kernel.processMemory htakes
    exact congrArg (fun memory => (memory process).allocations) hmemory
  · change (heapFree alloc.heap _).table.entries i = _
    rw [hheap]
    exact hsound.malloc_free hne hi

theorem MallocOutcome.unserved (hsound : HeapSound kernel.heap)
    (h : MallocOutcome process size kernel 0 after) : Unserved kernel after process := by
  generalize hptr : (0 : Nat) = ptr at h
  cases h with
  | refused halloc =>
      obtain ⟨-, rfl⟩ := (kzalloc_null hsound).mp halloc
      exact ⟨rfl, rfl, fun _ _ => rfl⟩
  | full halloc hne => exact kzalloc_kfree hsound halloc hne
  | @unmapped ptr alloc halloc hne hneg =>
      have hpages : (mapsAllocation alloc process ptr size 7).2 = alloc.pages := pagingMapTo_neg hneg
      rw [hpages]
      exact kzalloc_kfree hsound halloc hne
  | granted _ hne => exact absurd hptr.symm hne

/-- A call of `process_malloc` that returns a null pointer has changed nothing. -/
theorem processMalloc_unserved (hsound : HeapSound kernel.heap)
    (h : Ends (processMalloc process size) kernel 0 after) : Unserved kernel after process :=
  (processMalloc_cases h).unserved hsound

theorem processMalloc_unserved_full : ∃ kernel after : Kernel,
    Ends (processMalloc 0 1) kernel 0 after ∧ Unserved kernel after 0 := by
  obtain ⟨kernel, hroom, hfull⟩ : ∃ kernel : Kernel, Room kernel.heap 25600 ∧
      ¬(emptySlots kernel 0).Nonempty :=
    ⟨setAllocations 0 (fun _ => ⟨1, 0⟩) (idleKernel bootBytes unmountedVolume),
      idleKernel_room unmountedVolume, fun ⟨_, hmem⟩ => Nat.one_ne_zero (mem_emptySlots.mp hmem).2⟩
  obtain ⟨ptr, alloc, halloc, hne, -⟩ := kzalloc_succeeds hroom (show blockCount 1 = 1 by decide)
    (by decide) (by decide) 0 (by decide)
  have hends := processMalloc_full halloc hne hfull
  exact ⟨kernel, _, hends, processMalloc_unserved hroom.toHeapSound hends⟩

end Kernel

end SlobOS
