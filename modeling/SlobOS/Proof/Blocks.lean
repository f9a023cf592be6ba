import SlobOS.Proof.Kernel

/-!
# Single blocks

A structure that fits into one block gets the first free one, wherever free blocks are. What stands
in the blocks that were taken before stays as it is.
-/

namespace SlobOS

open Windows

/-- The heap is in order and that many of its blocks are free. -/
structure FreeBlocks (heap : Heap) (count : Nat) : Prop extends HeapSound heap where
  free : ∃ blocks : List Nat, blocks.Nodup ∧ count ≤ blocks.length ∧
    ∀ block ∈ blocks, block < heap.table.total ∧ heap.table.IsFree block

variable {heap : Heap} {size block count : Nat}

theorem blockCount_one (hpos : 0 < size) (hsize : size ≤ slobosHeapBlockSize) :
    blockCount size = 1 := by
  rw [blockCount_eq (Nat.le_trans hsize (by decide))]
  simp only [slobosHeapBlockSize] at *
  omega

theorem FreeBlocks.mono (h : FreeBlocks heap count) {less : Nat} (hle : less ≤ count) :
    FreeBlocks heap less := by
  obtain ⟨blocks, hnodup, hcount, hfree⟩ := h.free
  exact ⟨h.toHeapSound, blocks, hnodup, by omega, hfree⟩

theorem HeapSound.address (h : HeapSound heap) (hblock : block < heap.table.total) :
    heapBlockToAddress heap block = slobosHeapAddress + block * slobosHeapBlockSize := by
  have hpool := h.pool
  simp only [heapBlockToAddress, h.saddr, slobosHeapAddress, slobosHeapBlockSize, addressSpace]
    at hpool ⊢
  omega

theorem HeapSound.malloc_below (h : HeapSound heap) (hsize : size ≤ slobosHeapBlockSize)
    (hne : (heapMalloc heap size).1 ≠ 0) : (heapMalloc heap size).1 + size < addressSpace := by
  obtain ⟨start, count, hgiven⟩ := heapMalloc_given hne
  have hpool := h.pool
  have hlt := hgiven.lt
  rw [hgiven.address, h.address hlt]
  simp only [slobosHeapAddress, slobosHeapBlockSize, addressSpace] at *
  omega

theorem heapMalloc_one (hsound : HeapSound heap) (hone : blockCount size = 1)
    (hblock : block < heap.table.total) (hfree : heap.table.IsFree block) :
    ∃ start : Nat, (heapMalloc heap size).1 = heapBlockToAddress heap start ∧
      start < heap.table.total ∧ heap.table.IsFree start ∧
      Marked heap (heapMalloc heap size).2 start 1 fun i => chainEntry 1 (i - start).toNat := by
  have hfits : Fits heap.table.IsFree heap.table.total 1 := by
    refine ⟨block, hblock, fun i hi hi' => ?_⟩
    rwa [show i = block by omega]
  have hcases := heapMallocBlocks_cases heap 1
  have hmalloc : heapMalloc heap size = heapMallocBlocks heap 1 :=
    congrArg (heapMallocBlocks heap) hone
  rw [hmalloc]
  generalize heapMallocBlocks heap 1 = result at hcases
  cases hcases with
  | fail hnone =>
      rcases hnone with hzero | hnone
      · omega
      · exact absurd hfits hnone
  | short hshort =>
      rcases hshort.noFit with hzero | hnone
      · omega
      · exact absurd hfits hnone
  | @fit start _ hfirst =>
      have hinside := hfirst.inside
      refine ⟨start, rfl, by omega, hfirst.window start (Nat.le_refl _) (by omega), ?_⟩
      rw [toInt32_of_lt (by decide)]
      exact heapMarkBlocksTaken_spec heap (show 0 < 1 by decide) (hone ▸ hsound.end_le (by omega) size)

theorem FreeBlocks.malloc (h : FreeBlocks heap (count + 1)) (hone : blockCount size = 1) :
    (heapMalloc heap size).1 ≠ 0 ∧ FreeBlocks (heapMalloc heap size).2 count := by
  obtain ⟨blocks, hnodup, hcount, hfree⟩ := h.free
  obtain ⟨block, hmem⟩ := List.exists_mem_of_length_pos (show 0 < blocks.length by omega)
  obtain ⟨start, hptr, hlt, hstart, hmarked⟩ :=
    heapMalloc_one h.toHeapSound hone (hfree block hmem).1 (hfree block hmem).2
  refine ⟨hptr ▸ h.block_ne_null hlt, h.toHeapSound.malloc size, blocks.erase start,
    hnodup.erase start, ?_, fun other hother => ?_⟩
  · rw [List.length_erase]
    split <;> omega
  · obtain ⟨hne, hother⟩ := hnodup.mem_erase_iff.mp hother
    obtain ⟨hlt', hfree'⟩ := hfree other hother
    refine ⟨hmarked.total ▸ hlt', ?_⟩
    unfold HeapTable.IsFree at hfree' ⊢
    rwa [hmarked.entries, if_neg (by omega)]

theorem FreeBlocks.release (h : FreeBlocks heap count) (ptr : Nat) :
    FreeBlocks (heapFree heap ptr) count := by
  obtain ⟨blocks, hnodup, hcount, hfree⟩ := h.free
  refine ⟨h.toHeapSound.free ptr, blocks, hnodup, hcount, fun block hblock => ?_⟩
  obtain ⟨hlt, hblock⟩ := hfree block hblock
  exact ⟨by rwa [heapFree_total], hblock.release ptr⟩

/-- What a heap has left, as a number of blocks: a request for one block is served and lowers the
number by one, and a release does not lower it. -/
class Supply (supply : Heap → Nat → Prop) : Prop where
  sound : ∀ {heap count}, supply heap count → HeapSound heap
  mono : ∀ {heap count less}, supply heap count → less ≤ count → supply heap less
  malloc : ∀ {heap count size}, supply heap (count + 1) → blockCount size = 1 →
    (heapMalloc heap size).1 ≠ 0 ∧ supply (heapMalloc heap size).2 count
  release : ∀ {heap count}, supply heap count → ∀ ptr, supply (heapFree heap ptr) count

instance : Supply FreeBlocks where
  sound h := h.toHeapSound
  mono h hle := h.mono hle
  malloc h hone := h.malloc hone
  release h ptr := h.release ptr

namespace Kernel

open Faulting

variable {kernel middle after : Kernel} {ptr : Nat} {supply : Heap → Nat → Prop} [Supply supply]

theorem kzalloc_block (h : supply kernel.heap (count + 1)) (hpos : 0 < size)
    (hsize : size ≤ slobosHeapBlockSize) : ∃ ptr after,
      Ends (kzalloc size) kernel ptr after ∧ ptr ≠ 0 ∧ supply after.heap count := by
  have hsound := Supply.sound h
  obtain ⟨hne, hfree⟩ := Supply.malloc h (blockCount_one hpos hsize)
  exact ⟨_, _, kzalloc_ends hne (hsound.malloc_below hsize hne), hne, hfree⟩

theorem kzalloc_total (hsound : HeapSound kernel.heap) (hsize : size ≤ slobosHeapBlockSize) :
    ∃ ptr after, Ends (kzalloc size) kernel ptr after := by
  by_cases hnull : (heapMalloc kernel.heap size).1 = 0
  · exact ⟨0, kernel, (kzalloc_null hsound).mpr ⟨hnull, rfl⟩⟩
  · exact ⟨_, _, kzalloc_ends hnull (hsound.malloc_below hsize hnull)⟩

/-- The blocks in use stay in use, and what stands in them stays as it is. -/
def Preserves (kernel after : Kernel) : Prop :=
  ∀ block, Holds kernel.heap block → Holds after.heap block ∧
    ∀ pages, ∀ i < slobosHeapBlockSize,
      after.memory pages (slobosHeapAddress + block * slobosHeapBlockSize + i) =
        kernel.memory pages (slobosHeapAddress + block * slobosHeapBlockSize + i)

instance : Frame Preserves where
  refl _ _ h := ⟨h, fun _ _ _ => rfl⟩
  trans h h' block hblock := by
    obtain ⟨hmiddle, hbytes⟩ := h block hblock
    obtain ⟨hlast, hbytes'⟩ := h' block hmiddle
    exact ⟨hlast, fun pages i hi => (hbytes' pages i hi).trans (hbytes pages i hi)⟩

/-- The block at the address has been taken since, and nothing else has happened to the blocks in
use. -/
structure Takes (kernel after : Kernel) (ptr : Nat) : Prop where
  preserves : Preserves kernel after
  taken : ∃ block, ptr = slobosHeapAddress + block * slobosHeapBlockSize ∧
    Holds after.heap block ∧ ¬Holds kernel.heap block

theorem Takes.writeBytes (h : Takes kernel after ptr) (hsize : size ≤ slobosHeapBlockSize)
    (bytes : Nat → UInt8) : Takes kernel (writeBytes ptr size bytes after) ptr := by
  obtain ⟨new, rfl, hnew, hfree⟩ := h.taken
  refine ⟨fun block hblock => ?_, new, rfl, hnew, hfree⟩
  obtain ⟨hholds, hbytes⟩ := h.preserves block hblock
  refine ⟨hholds, fun pages i hi => ?_⟩
  have hne : block ≠ new := fun heq => hfree (heq ▸ hblock)
  have hout : ¬(slobosHeapAddress + new * slobosHeapBlockSize ≤
        slobosHeapAddress + block * slobosHeapBlockSize + i ∧
      slobosHeapAddress + block * slobosHeapBlockSize + i <
        slobosHeapAddress + new * slobosHeapBlockSize + size) := by
    simp only [slobosHeapBlockSize] at *
    omega
  rw [← hbytes pages i hi]
  exact if_neg hout

theorem kzalloc_takes (hsound : HeapSound kernel.heap) (h : Ends (kzalloc size) kernel ptr after)
    (hpos : 0 < size) (hsize : size ≤ slobosHeapBlockSize) (hne : ptr ≠ 0) :
    Takes kernel after ptr ∧ ∀ pages, ∀ i < size, after.memory pages (ptr + i) = 0 := by
  have hone := blockCount_one hpos hsize
  rw [kzalloc, ends_bind] at h
  obtain ⟨_, _, hmalloc, h⟩ := h
  obtain ⟨rfl, rfl⟩ := ends_kmalloc.mp hmalloc
  rw [ends_ite, ends_ite] at h
  rcases h with ⟨-, h⟩ | ⟨-, ⟨-, h⟩ | ⟨-, h⟩⟩
  · exact absurd (ends_pure.mp h).1 hne
  · exact absurd h ends_throw
  rw [ends_modify_bind] at h
  obtain ⟨rfl, rfl⟩ := ends_pure.mp h
  obtain ⟨new, haddress, hfree, hnew⟩ :=
    hsound.malloc_holds (by omega : 0 < blockCount size) hne
  have htotal : (heapMalloc kernel.heap size).2.table.total = kernel.heap.table.total :=
    heapMallocBlocks_total _ _
  have htakes : Takes kernel { kernel with heap := (heapMalloc kernel.heap size).2 }
      (heapMalloc kernel.heap size).1 := by
    refine ⟨fun block hblock => ⟨(hblock.malloc size).holds, fun _ _ _ => rfl⟩, new, ?_, hnew, ?_⟩
    · rw [haddress, hsound.address (htotal ▸ hnew.lt)]
    · exact fun hblock => hblock.taken hfree
  refine ⟨htakes.writeBytes hsize _, fun pages i hi => ?_⟩
  simp only [writeBytes]
  rw [if_pos (by omega)]

end Kernel

end SlobOS
