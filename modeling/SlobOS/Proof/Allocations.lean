import SlobOS.Proof.Kernel

/-!
# One allocation of a process

An allocation that has been recorded stands for a chain of blocks and for the pages at their own
addresses. What a request grants, what a release clears and what a mapping opens are stretches of the
same blocks.
-/

namespace SlobOS

open Windows Tilings

def ProcessAllocation.span (allocation : ProcessAllocation) (heap : Heap) : Span :=
  ⟨(heapAddressToBlock heap allocation.ptr).toNat, blockCount allocation.size⟩

def blockPage (heap : Heap) (block : Nat) : Nat := heapBlockToAddress heap block / pagingPageSize

/-- The blocks of the allocation are a chain in the table, and hold what has been asked for. -/
structure HeldAllocation (heap : Heap) (allocation : ProcessAllocation) : Prop where
  address : allocation.ptr = heapBlockToAddress heap (allocation.span heap).start
  chained : Chained heap.table (allocation.span heap)
  bound : allocation.ptr + allocation.size < addressSpace

variable {heap after : Heap} {allocation : ProcessAllocation} {block size ptr : Nat} {span : Span}

theorem HeapSound.blockAddress (h : HeapSound heap) (hblock : block < heap.table.total) :
    heapBlockToAddress heap block = (0x2000 + block) * pagingPageSize := by
  have hpool := h.pool
  simp only [heapBlockToAddress, h.saddr, slobosHeapAddress, slobosHeapBlockSize, addressSpace,
    pagingPageSize] at hpool ⊢
  omega

theorem HeapSound.blockPage (h : HeapSound heap) (hblock : block < heap.table.total) :
    SlobOS.blockPage heap block = 0x2000 + block := by
  rw [SlobOS.blockPage, h.blockAddress hblock]
  exact Nat.mul_div_cancel _ (by decide)

theorem HeapSound.blockPage_lt (h : HeapSound heap) (hblock : block < heap.table.total) :
    SlobOS.blockPage heap block < pageCount := by
  have hpool := h.pool
  rw [h.blockPage hblock]
  simp only [slobosHeapBlockSize] at hpool
  simp only [pageCount]
  omega

theorem Chained.not_isFree (h : Chained heap.table span) (hcover : span.Covers block) :
    ¬heap.table.IsFree block := by
  simp only [Span.Covers, Span.stop] at hcover
  have hmark := h.marked (block - span.start) (by omega)
  rw [show span.start + (block - span.start) = block by omega] at hmark
  exact not_isFree_of_eq_chainEntry hmark

namespace HeldAllocation

theorem start_lt (h : HeldAllocation heap allocation) :
    (allocation.span heap).start < heap.table.total :=
  h.chained.start_lt

theorem kept (h : HeldAllocation heap allocation) (hsaddr : after.saddr = heap.saddr)
    (htotal : after.table.total = heap.table.total)
    (hentries : ∀ block, (allocation.span heap).Covers block →
      after.table.entries block = heap.table.entries block) :
    HeldAllocation after allocation ∧ allocation.span after = allocation.span heap := by
  have hspan : allocation.span after = allocation.span heap := by
    rw [ProcessAllocation.span, ProcessAllocation.span, heapAddressToBlock_congr hsaddr]
  refine ⟨⟨?_, ⟨?_, ?_, fun k hk => ?_⟩, h.bound⟩, hspan⟩
  · rw [hspan, heapBlockToAddress_congr hsaddr]
    exact h.address
  · rw [hspan]
    exact h.chained.nonempty
  · rw [hspan, htotal]
    exact h.chained.inside
  · rw [hspan] at hk ⊢
    unfold HeapTable.cell
    rw [hentries _ (by simp only [Span.Covers, Span.stop]; omega)]
    exact h.chained.marked k hk

theorem pages (h : HeldAllocation heap allocation) (hsound : HeapSound heap) :
    allocation.ptr = (0x2000 + (allocation.span heap).start) * pagingPageSize ∧
      pagingAlignAddress (toUint32 (allocation.ptr + allocation.size)) =
        (0x2000 + (allocation.span heap).start + (allocation.span heap).len) * pagingPageSize ∧
      0x2000 + (allocation.span heap).start + (allocation.span heap).len < pageCount := by
  have hpool := hsound.pool
  have hptr := h.address.trans (hsound.blockAddress h.start_lt)
  have hbound := h.bound
  have hstop := h.chained.inside
  have hlen : (allocation.span heap).len =
      (allocation.size + (slobosHeapBlockSize - 1)) / slobosHeapBlockSize :=
    blockCount_eq (by
      simp only [pagingPageSize, addressSpace] at hptr hbound
      omega)
  simp only [Span.stop, slobosHeapBlockSize] at hpool hstop hlen
  refine ⟨hptr, ?_, ?_⟩
  · rw [pagingAlignAddress_eq (toUint32_lt _), toUint32, Nat.mod_eq_of_lt hbound, hptr]
    simp only [stopPage, pagingPageSize, pageCount] at *
    omega
  · simp only [pageCount]
    omega

theorem maps (h : HeldAllocation heap allocation) (hsound : HeapSound heap) (pages : PageTables)
    (directory flags : Nat) : ∃ pages',
      pagingMapTo pages directory allocation.ptr allocation.ptr
        (pagingAlignAddress (toUint32 (allocation.ptr + allocation.size))) flags = (0, pages') ∧
      Maps pages pages' directory (0x2000 + (allocation.span heap).start)
        (0x2000 + (allocation.span heap).start) (allocation.span heap).len flags := by
  obtain ⟨hptr, hstop, hlt⟩ := h.pages hsound
  obtain ⟨pages', hmap, hmaps⟩ := @pagingMapTo_maps pages directory
    (0x2000 + (allocation.span heap).start) (0x2000 + (allocation.span heap).start)
    (0x2000 + (allocation.span heap).start + (allocation.span heap).len) flags (by omega) (by omega)
    hlt (by omega)
  rw [Nat.add_sub_cancel_left] at hmaps
  rw [← hptr, ← hstop] at hmap
  exact ⟨pages', hmap, hmaps⟩

end HeldAllocation

/-- The allocation is made of blocks that were free, and nothing else has changed. -/
structure Grant (before after : Heap) (allocation : ProcessAllocation) : Prop where
  sound : HeapSound after
  saddr : after.saddr = before.saddr
  total : after.table.total = before.table.total
  held : HeldAllocation after allocation
  free : ∀ block, (allocation.span after).Covers block → before.table.IsFree block
  frame : ∀ block : Nat, ¬(allocation.span after).Covers block →
    after.table.entries block = before.table.entries block

/-- The last block is taken, or there is room for the request in one piece and it is for something. -/
def Serves (heap : Heap) (size : Nat) : Prop :=
  heap.table.LastTaken ∨
    (size ≠ 0 ∧ Fits heap.table.IsFree heap.table.total (blockCount size))

theorem heapMalloc_grant (hsound : HeapSound heap) (hserves : Serves heap size)
    (hne : (heapMalloc heap size).1 ≠ 0)
    (hbound : (heapMalloc heap size).1 + size < addressSpace) :
    Grant heap (heapMalloc heap size).2 ⟨(heapMalloc heap size).1, size⟩ := by
  have hafter := hsound.malloc size
  have hcases := heapMallocBlocks_cases heap (blockCount size)
  rw [show heapMallocBlocks heap (blockCount size) = heapMalloc heap size from rfl] at hcases
  generalize heapMalloc heap size = result at hcases hafter hne hbound
  cases hcases with
  | fail => exact absurd rfl hne
  | @short start hshort =>
      exfalso
      rcases hserves with hlast | ⟨hsize, hfits⟩
      · exact hshort.run.isFree_last hshort.lt hlast
      rcases hshort.noFit with hzero | hnone
      · -- A request so large that its size wraps around would end behind the address space.
        rw [hsound.blockAddress hshort.lt] at hbound
        rw [blockCount_eq (by simp only [pagingPageSize, addressSpace] at hbound; omega)] at hzero
        simp only [slobosHeapBlockSize] at hzero
        omega
      · exact hnone hfits
  | @fit start hpos hfirst =>
      have hinside := hfirst.inside
      have hpool := hsound.pool
      have hcount : blockCount size < 0x80000000 := by
        simp only [slobosHeapBlockSize] at hpool
        omega
      have hlt : start < heap.table.total := by omega
      have hmarked := heapMarkBlocksTaken_spec heap hpos (hsound.end_le hlt size)
      rw [toInt32_of_lt hcount] at hafter ⊢
      have hblock := heapAddressToBlock_blockToAddress hsound.sized hlt
      generalize heapMarkBlocksTaken heap start (blockCount size) = marked at hafter hmarked
      have hspan : (⟨heapBlockToAddress heap start, size⟩ : ProcessAllocation).span marked =
          ⟨start, blockCount size⟩ := by
        rw [ProcessAllocation.span, heapAddressToBlock_congr hmarked.saddr, hblock]
        rfl
      refine ⟨hafter, hmarked.saddr, hmarked.total, ⟨?_, ⟨?_, ?_, fun k hk => ?_⟩, hbound⟩,
        fun block hcover => ?_, fun block hcover => ?_⟩
      · rw [hspan, heapBlockToAddress_congr hmarked.saddr]
      · rw [hspan]
        exact hpos
      · rw [hspan, hmarked.total]
        exact hinside
      · rw [hspan] at hk ⊢
        change k < blockCount size at hk
        unfold HeapTable.cell
        rw [hmarked.entries, if_pos (by push_cast; omega)]
        congr 1
        push_cast
        omega
      · rw [hspan] at hcover
        exact hfirst.window block hcover.1 hcover.2
      · rw [hspan] at hcover
        simp only [Span.Covers, Span.stop] at hcover
        rw [hmarked.entries, if_neg (by omega)]

theorem HeldAllocation.release (h : HeldAllocation heap allocation) (hsound : HeapSound heap)
    (hcover : ¬(allocation.span heap).Covers block) :
    (heapFree heap allocation.ptr).table.entries block = heap.table.entries block := by
  rw [h.address, h.chained.free_entries hsound.sized, if_neg]
  simp only [Span.Covers] at hcover
  omega

theorem pageOffset_block (hsound : HeapSound heap) (hblock : block < heap.table.total)
    (hstop : span.stop ≤ heap.table.total) :
    pageOffset (0x2000 + span.start) (blockPage heap block) < span.len ↔ span.Covers block := by
  have hpool := hsound.pool
  rw [hsound.blockPage hblock]
  simp only [slobosHeapBlockSize, Span.stop] at hpool hstop
  simp only [pageOffset, pageCount, Span.Covers, Span.stop]
  omega

theorem Maps.userWriteable {pages pages' : PageTables} {directory page frame count flags at' : Nat}
    (h : Maps pages pages' directory page frame count flags)
    (hdistinct : DistinctTables pages directory) (hflags : flags < 8) (hat : at' < pageCount)
    (hopen : UserWriteable pages' directory at') :
    (pageOffset page at' < count ∧ flags = 7) ∨
      (¬pageOffset page at' < count ∧ UserWriteable pages directory at') := by
  obtain ⟨hdirectory, hentry⟩ := hopen
  rw [h.directories] at hdirectory
  rw [h.entry hdistinct at' hat] at hentry
  by_cases hin : pageOffset page at' < count
  · rw [if_pos hin, page_or_flags (show flags < pagingPageSize by
      simp only [pagingPageSize]; omega)] at hentry
    refine Or.inl ⟨hin, ?_⟩
    simp only [pagingPageSize] at hentry
    omega
  · rw [if_neg hin] at hentry
    exact Or.inr ⟨hin, hdirectory, hentry⟩

end SlobOS
