import SlobOS.Proof.Blocks
import SlobOS.Proof.ProcessLoad

/-!
# Room in the heap

The free blocks at the end of the heap are a budget: an allocation draws its own number of blocks
from it at most, and a release draws nothing. As long as the budget lasts, no allocation fails, and what is built from
allocations is built to its end.
-/

namespace SlobOS

open Windows

/-- The heap is in order, and that many blocks at its end are free. -/
structure Room (heap : Heap) (count : Nat) : Prop extends HeapSound heap where
  le : count ≤ heap.table.total
  window : Window heap.table.IsFree (heap.table.total - count) count

variable {heap : Heap} {size rest : Nat}

theorem Room.mono {count : Nat} (h : Room heap count) (hle : rest ≤ count) : Room heap rest := by
  have hcount := h.le
  exact ⟨h.toHeapSound, by omega, h.window.sub (by omega) (by omega)⟩

theorem Room.not_lastTaken (h : Room heap (rest + 1)) : ¬heap.table.LastTaken := by
  have hcount := h.le
  rintro (hzero | htaken)
  · omega
  · exact htaken (h.window _ (by omega) (by omega))

theorem blockCount_bound (hsize : size < addressSpace) (hpos : 0 < blockCount size) :
    size ≤ blockCount size * slobosHeapBlockSize := by
  unfold blockCount heapAlignValueToUpper at *
  by_cases haligned : size % slobosHeapBlockSize = 0
  · rw [if_pos haligned]
    simp only [toUint32, addressSpace, slobosHeapBlockSize] at *
    omega
  · rw [if_neg haligned] at hpos ⊢
    simp only [toUint32, addressSpace, slobosHeapBlockSize] at *
    omega

theorem Room.malloc (h : Room heap (blockCount size + rest)) (hpos : 0 < blockCount size) :
    (heapMalloc heap size).1 ≠ 0 ∧
      (size < addressSpace → (heapMalloc heap size).1 + size < addressSpace) ∧
      Room (heapMalloc heap size).2 rest := by
  have hcount := h.le
  have hfits : Fits heap.table.IsFree heap.table.total (blockCount size) :=
    ⟨_, by omega, h.window.sub (Nat.le_refl _) (by omega)⟩
  have hsound := h.toHeapSound.malloc size
  have hcases := heapMallocBlocks_cases heap (blockCount size)
  rw [show heapMallocBlocks heap (blockCount size) = heapMalloc heap size from rfl] at hcases
  generalize heapMalloc heap size = result at hcases hsound
  cases hcases with
  | fail hnone =>
      rcases hnone with hzero | hnone
      · omega
      · exact absurd hfits hnone
  | short hshort =>
      rcases hshort.noFit with hzero | hnone
      · omega
      · exact absurd hfits hnone
  | @fit start _ hfirst =>
      have hinside := hfirst.inside
      have hpool := h.pool
      have hlt : start < heap.table.total := by omega
      have hlt' : blockCount size < 0x80000000 := by
        simp only [slobosHeapBlockSize] at hpool
        omega
      have hmarked := heapMarkBlocksTaken_spec heap hpos (h.end_le hlt size)
      rw [toInt32_of_lt hlt'] at hsound ⊢
      refine ⟨h.block_ne_null hlt, fun hsize => ?_, hsound, ?_, ?_⟩
      · have hbound := blockCount_bound hsize hpos
        simp only [heapBlockToAddress, h.saddr, slobosHeapAddress, slobosHeapBlockSize,
          addressSpace] at hpool hbound ⊢
        omega
      · rw [hmarked.total]
        omega
      · rw [hmarked.total]
        refine hfirst.leaves hcount h.window fun i hside hfree => ?_
        unfold HeapTable.IsFree
        rw [hmarked.entries, if_neg (by omega)]
        exact hfree

theorem Room.free (h : Room heap rest) (ptr : Nat) : Room (heapFree heap ptr) rest := by
  refine ⟨h.toHeapSound.free ptr, by rw [heapFree_total]; exact h.le, fun i hi hi' => ?_⟩
  rw [heapFree_total] at hi hi'
  exact (h.window i hi hi').release ptr

instance : Supply Room where
  sound h := h.toHeapSound
  mono h hle := h.mono hle
  malloc {heap count size} h hone := by
    rw [Nat.add_comm, ← hone] at h
    obtain ⟨hne, -, hroom⟩ := h.malloc (show 0 < blockCount size by omega)
    exact ⟨hne, hroom⟩
  release h ptr := h.free ptr

namespace Kernel

open Faulting

variable {kernel : Kernel} {directory flags process : Nat}

theorem kzalloc_succeeds {total count : Nat} (h : Room kernel.heap total)
    (hcount : blockCount size = count) (hpos : 0 < count) (hsize : size < addressSpace)
    (rest : Nat) (hle : count + rest ≤ total) :
    ∃ ptr after, Ends (kzalloc size) kernel ptr after ∧ ptr ≠ 0 ∧ Room after.heap rest := by
  subst hcount
  obtain ⟨hne, hlt, hroom⟩ := (h.mono hle).malloc hpos
  have hlt := hlt hsize
  exact ⟨_, _, kzalloc_ends hne hlt, hne, hroom⟩

theorem pagingNewTables_succeeds {left i : Nat} (h : Room kernel.heap (left + rest))
    (hdirectory : directory ≠ 0) :
    ∃ after, Ends (pagingNewTables directory flags left i) kernel () after ∧
      Room after.heap rest := by
  induction left generalizing kernel i with
  | zero =>
      rw [Nat.zero_add] at h
      exact ⟨kernel, ends_pure.mpr ⟨rfl, rfl⟩, h⟩
  | succ left ih =>
      obtain ⟨entry, middle, halloc, hne, hroom⟩ := kzalloc_succeeds h
        (show blockCount pageTableSize = 1 by decide) (by decide) (by decide) (left + rest)
        (by omega)
      obtain ⟨after, hafter, hroom'⟩ := @ih (setDirectoryEntry directory i
        (entry ||| flags ||| pagingIsWriteable) (setPageTable entry i flags middle)) (i + 1) hroom
      refine ⟨after, ends_bind.mpr ⟨entry, middle, halloc, ?_⟩, hroom'⟩
      rw [ends_deref_bind hne, ends_modify_bind, ends_deref_bind hdirectory, ends_modify_bind]
      exact hafter

theorem pagingNew4gb_succeeds (h : Room kernel.heap (1026 + rest)) :
    ∃ chunk after, Ends (pagingNew4gb flags) kernel chunk after ∧ Room after.heap rest := by
  obtain ⟨directory, first, hdirectory, hne, hroom⟩ := kzalloc_succeeds h
    (show blockCount pageTableSize = 1 by decide) (by decide) (by decide) (1024 + (1 + rest))
    (by omega)
  obtain ⟨second, htables, hroom'⟩ := @pagingNewTables_succeeds _ first _ flags 1024 0 hroom hne
  obtain ⟨chunk, third, hchunk, hchunkNe, hroom''⟩ := kzalloc_succeeds hroom'
    (show blockCount paging4gbChunkSize = 1 by decide) (by decide) (by decide) rest (by omega)
  refine ⟨chunk, setChunk chunk directory third, ?_, hroom''⟩
  refine ends_bind.mpr ⟨directory, first, hdirectory, ?_⟩
  refine ends_bind.mpr ⟨(), second, htables, ?_⟩
  refine ends_bind.mpr ⟨chunk, third, hchunk, ?_⟩
  rw [ends_deref_bind hchunkNe, ends_modify_bind]
  exact ends_pure.mpr ⟨rfl, rfl⟩

theorem taskNew_succeeds (h : Room kernel.heap (1027 + rest)) :
    ∃ task after, Ends (taskNew process) kernel task after ∧ Room after.heap rest := by
  obtain ⟨task, first, htask, hne, hroom⟩ := kzalloc_succeeds h
    (show blockCount taskSize = 1 by decide) (by decide) (by decide) (1026 + rest) (by omega)
  obtain ⟨chunk, second, hchunk, hroom'⟩ :=
    @pagingNew4gb_succeeds _ first (pagingIsPresent ||| pagingAccessFromAll) hroom
  refine ⟨task, linkTask task chunk process second, ?_, hroom'⟩
  refine ends_bind.mpr ⟨task, first, htask, ?_⟩
  rw [if_neg hne]
  refine ends_bind.mpr ⟨chunk, second, hchunk, ?_⟩
  rw [if_neg (pagingNew4gb_ne_null hchunk), ends_modify_bind]
  exact ends_pure.mpr ⟨rfl, rfl⟩

end Kernel

end SlobOS
