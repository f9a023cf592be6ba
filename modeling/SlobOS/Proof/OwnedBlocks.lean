import SlobOS.Proof.Allocations
import SlobOS.Proof.SingleBlocks

/-!
# Addresses and the chains they own

An address that has been handed out owns the blocks of its chain. Chains that share a block are the
same one, so different addresses own different blocks, whatever has been asked for and given back.
-/

namespace SlobOS

open Windows Tilings

def Within (heap : Heap) (ptr block : Nat) : Prop :=
  ∃ span, Chained heap.table span ∧ ptr = heapBlockToAddress heap span.start ∧ span.Covers block

def Owns (heap : Heap) (ptr : Nat) : Prop := ∃ block, Within heap ptr block

def Fills (before after : Heap) : Prop :=
  ∃ last, last + 1 = before.table.total ∧ before.table.IsFree last ∧ Holds after last

variable {heap middle after : Heap} {left right span : Span} {allocation : ProcessAllocation}
  {ptr ptr' block size : Nat}

theorem blockPage_congr (h : HeapSound heap) (h' : HeapSound after) (block : Nat) :
    blockPage after block = blockPage heap block := by
  rw [blockPage, blockPage, heapBlockToAddress_congr (h'.saddr.trans h.saddr.symm)]

theorem Chained.entry (h : Chained heap.table span) (hcover : span.Covers block) :
    heap.table.entries block = chainEntry span.len (block - span.start) := by
  simp only [Span.Covers, Span.stop] at hcover
  have hmark := h.marked (block - span.start) (by omega)
  rwa [show span.start + (block - span.start) = block by omega] at hmark

theorem Chained.start_le (h : Chained heap.table left) (h' : Chained heap.table right)
    (hleft : left.Covers block) (hright : right.Covers block) : right.start ≤ left.start := by
  by_contra hlt
  have hpos := h'.nonempty
  simp only [Span.Covers, Span.stop] at hleft hright
  have hcover : left.Covers right.start := by
    simp only [Span.Covers, Span.stop]
    omega
  have hcover' : right.Covers right.start := by
    simp only [Span.Covers, Span.stop]
    omega
  have hentry := h.entry hcover
  have hentry' := h'.entry hcover'
  have hfirst := (isFirstEntry_chainEntry_iff right.len (right.start - right.start)).mpr (by omega)
  rw [← hentry', hentry, isFirstEntry_chainEntry_iff] at hfirst
  omega

theorem Chained.len_le (h : Chained heap.table left) (h' : Chained heap.table right)
    (hstart : left.start = right.start) : right.len ≤ left.len := by
  by_contra hlt
  have hpos := h.nonempty
  have hcover : left.Covers (left.start + (left.len - 1)) := by
    simp only [Span.Covers, Span.stop]
    omega
  have hcover' : right.Covers (left.start + (left.len - 1)) := by
    simp only [Span.Covers, Span.stop]
    omega
  have hentry := h.entry hcover
  have hentry' := h'.entry hcover'
  have hnext := (hasNext_chainEntry_iff right.len (left.start + (left.len - 1) - right.start)).mpr
    (by omega)
  rw [← hentry', hentry, hasNext_chainEntry_iff] at hnext
  omega

theorem Chained.eq_of_start (h : Chained heap.table left) (h' : Chained heap.table right)
    (hstart : left.start = right.start) : left = right := by
  have hlen := Nat.le_antisymm (h'.len_le h hstart.symm) (h.len_le h' hstart)
  cases left
  cases right
  exact congrArg₂ Span.mk hstart hlen

theorem Chained.eq_of_covers (h : Chained heap.table left) (h' : Chained heap.table right)
    (hleft : left.Covers block) (hright : right.Covers block) : left = right :=
  h.eq_of_start h' (Nat.le_antisymm (h'.start_le h hright hleft) (h.start_le h' hleft hright))

theorem Chained.covers_start (h : Chained heap.table span) : span.Covers span.start := by
  have hpos := h.nonempty
  simp only [Span.Covers, Span.stop]
  omega

theorem Chained.lt (h : Chained heap.table span) (hcover : span.Covers block) :
    block < heap.table.total := by
  have hinside := h.inside
  simp only [Span.Covers] at hcover
  omega

theorem Chained.within (h : Chained heap.table span) (hcover : span.Covers block) :
    Within heap (heapBlockToAddress heap span.start) block :=
  ⟨span, h, rfl, hcover⟩

theorem Chained.within_iff (h : Chained heap.table span) (hsound : HeapSound heap) :
    Within heap (heapBlockToAddress heap span.start) block ↔ span.Covers block := by
  refine ⟨?_, h.within⟩
  rintro ⟨other, hother, haddress, hcover⟩
  have hstart := heapBlockToAddress_injective hsound.sized h.start_lt hother.start_lt haddress
  exact h.eq_of_start hother hstart ▸ hcover

theorem Chained.spared (h : Chained heap.table span)
    (hspares : ∀ block, span.Covers block → Spares block heap after) : Chained after.table span := by
  have hpos := h.nonempty
  have hlast := (hspares (span.start + (span.len - 1))
    (by simp only [Span.Covers, Span.stop]; omega)).holds.lt
  refine ⟨hpos, by simp only [Span.stop]; omega, fun k hk => ?_⟩
  have hkept := (hspares (span.start + k) (by simp only [Span.Covers, Span.stop]; omega)).kept
  exact hkept.trans (h.marked k hk)

namespace Within

theorem owns (h : Within heap ptr block) : Owns heap ptr := ⟨block, h⟩

theorem holds (h : Within heap ptr block) (hsound : HeapSound heap) : Holds heap block := by
  obtain ⟨span, hchained, -, hcover⟩ := h
  exact ⟨hsound, hchained.lt hcover, hchained.not_isFree hcover⟩

theorem unique (h : Within heap ptr block) (h' : Within heap ptr' block) : ptr = ptr' := by
  obtain ⟨span, hchained, rfl, hcover⟩ := h
  obtain ⟨other, hother, rfl, hcover'⟩ := h'
  rw [hchained.eq_of_covers hother hcover hcover']

theorem head (h : Within heap ptr block) : ∃ first : Nat, first < heap.table.total ∧
    ptr = heapBlockToAddress heap first ∧ Within heap ptr first := by
  obtain ⟨span, hchained, rfl, -⟩ := h
  exact ⟨span.start, hchained.start_lt, rfl, hchained.within hchained.covers_start⟩

theorem spared (h : Within heap ptr block) (hsound : HeapSound heap)
    (hspares : ∀ block, Within heap ptr block → Spares block heap after) :
    Within after ptr block := by
  obtain ⟨span, hchained, rfl, hcover⟩ := h
  have hspared : ∀ block, span.Covers block → Spares block heap after :=
    fun block hin => hspares block (hchained.within hin)
  have hsaddr : after.saddr = heap.saddr :=
    (hspared block hcover).holds.saddr.trans hsound.saddr.symm
  exact ⟨span, hchained.spared hspared, (heapBlockToAddress_congr hsaddr _).symm, hcover⟩

end Within

namespace Owns

theorem spared (h : Owns heap ptr) (hsound : HeapSound heap)
    (hspares : ∀ block, Within heap ptr block → Spares block heap after) :
    Within after ptr block ↔ Within heap ptr block := by
  obtain ⟨owned, span, hchained, rfl, hcover⟩ := h
  have hspared : ∀ block, span.Covers block → Spares block heap after :=
    fun block hin => hspares block (hchained.within hin)
  have hsound' := (hspared owned hcover).holds.toHeapSound
  have hsaddr : after.saddr = heap.saddr := hsound'.saddr.trans hsound.saddr.symm
  rw [hchained.within_iff hsound, ← heapBlockToAddress_congr hsaddr,
    (hchained.spared hspared).within_iff hsound']

theorem guards (h : Owns heap ptr) (hsound : HeapSound heap) (hout : ¬Within heap ptr block) :
    Guards heap block ptr := by
  obtain ⟨owned, span, hchained, rfl, -⟩ := h
  rw [hchained.within_iff hsound] at hout
  have hpos := hchained.nonempty
  simp only [Span.Covers, Span.stop] at hout
  rw [Guards, heapAddressToBlock_blockToAddress hsound.sized hchained.start_lt]
  by_cases habove : block < span.start
  · exact Or.inl (by omega)
  · refine Or.inr ⟨(span.start + (span.len - 1) : Nat), by omega, by omega, ?_⟩
    rw [hchained.entry (by simp only [Span.Covers, Span.stop]; omega), hasNext_chainEntry_iff]
    omega

end Owns

theorem Fills.later (h : Fills heap middle)
    (hspares : ∀ block, heap.table.IsFree block → Holds middle block → Spares block middle after) :
    Fills heap after := by
  obtain ⟨last, hlast, hfree, hheld⟩ := h
  exact ⟨last, hlast, hfree, (hspares last hfree hheld).holds⟩

theorem Fills.earlier (h : Fills middle after) (hsound : HeapSound heap)
    (htotal : middle.table.total = heap.table.total)
    (hspares : ∀ block, Holds heap block → Spares block heap middle) : Fills heap after := by
  obtain ⟨last, hlast, hfree, hheld⟩ := h
  refine ⟨last, htotal ▸ hlast, ?_, hheld⟩
  by_contra htaken
  exact (hspares last ⟨hsound, by omega, htaken⟩).holds.taken hfree

theorem HeldAllocation.within_iff (h : HeldAllocation heap allocation) (hsound : HeapSound heap) :
    Within heap allocation.ptr block ↔ (allocation.span heap).Covers block := by
  have hiff := @Chained.within_iff heap (allocation.span heap) block h.chained hsound
  rwa [← h.address] at hiff

theorem HeldAllocation.owns (h : HeldAllocation heap allocation) : Owns heap allocation.ptr := by
  have hwithin := h.chained.within h.chained.covers_start
  rw [← h.address] at hwithin
  exact hwithin.owns

theorem HeldAllocation.spared (h : HeldAllocation heap allocation) (hsound : HeapSound heap)
    (hspares : ∀ block, Within heap allocation.ptr block → Spares block heap after) :
    HeldAllocation after allocation := by
  have hspared : ∀ block, (allocation.span heap).Covers block → Spares block heap after :=
    fun block hin => hspares block ((h.within_iff hsound).mpr hin)
  have hsaddr : after.saddr = heap.saddr :=
    (hspared _ h.chained.covers_start).holds.saddr.trans hsound.saddr.symm
  have hspan : allocation.span after = allocation.span heap := by
    rw [ProcessAllocation.span, ProcessAllocation.span, heapAddressToBlock_congr hsaddr]
  refine ⟨?_, hspan ▸ h.chained.spared hspared, h.bound⟩
  rw [hspan, heapBlockToAddress_congr hsaddr]
  exact h.address

/-- A request for something that is not refused is an allocation, or else it uses up the heap. -/
theorem heapMalloc_grant_or_fills (hsound : HeapSound heap) (hsize : size ≠ 0)
    (hne : (heapMalloc heap size).1 ≠ 0) (hbound : (heapMalloc heap size).1 + size < addressSpace) :
    Grant heap (heapMalloc heap size).2 ⟨(heapMalloc heap size).1, size⟩ ∨
      Fills heap (heapMalloc heap size).2 := by
  by_cases hserves : Serves heap size
  · exact Or.inl (heapMalloc_grant hsound hserves hne hbound)
  right
  rw [Serves, not_or, not_and] at hserves
  obtain ⟨hlast, hfits⟩ := hserves
  obtain ⟨start, count, hgiven⟩ := heapMalloc_given hne
  have hlt := hgiven.lt
  have haddress := hgiven.address
  rw [hsound.blockAddress hlt] at haddress
  have hcount : blockCount size = (size + (slobosHeapBlockSize - 1)) / slobosHeapBlockSize :=
    blockCount_eq (by simp only [pagingPageSize, addressSpace] at *; omega)
  have heq := hgiven.eq (hsound.end_le hlt size)
  -- A run that fits would have been an answer to a request that fits.
  have hover : heap.table.total < start + count := by
    by_contra hinside
    refine hfits hsize ⟨start, by omega, ?_⟩
    have hwindow := hgiven.window
    rwa [Nat.min_eq_left (by omega)] at hwindow
  rw [HeapTable.LastTaken, not_or, not_not] at hlast
  refine ⟨heap.table.total - 1, by omega, hlast.2, hsound.malloc size, ?_, ?_⟩
  · rw [hgiven.marked.total]
    omega
  · exact not_isFree_of_eq_chainEntry (by rw [hgiven.marked.entries, if_pos (by omega)])

theorem heapMalloc_grant_one (hsound : HeapSound heap) (hpos : 0 < size)
    (hsize : size ≤ slobosHeapBlockSize) (hne : (heapMalloc heap size).1 ≠ 0)
    (hbound : (heapMalloc heap size).1 + size < addressSpace) :
    Grant heap (heapMalloc heap size).2 ⟨(heapMalloc heap size).1, size⟩ := by
  obtain ⟨start, count, hgiven⟩ := heapMalloc_given hne
  have hlt := hgiven.lt
  refine heapMalloc_grant hsound (Or.inr ⟨by omega, start, ?_, ?_⟩) hne hbound
  · rw [blockCount_one hpos hsize]
    omega
  · have hwindow := hgiven.window
    rw [blockCount_one hpos hsize] at hwindow ⊢
    rwa [Nat.min_eq_left (by omega)] at hwindow

theorem Grant.within_free (h : Grant heap after allocation)
    (hwithin : Within after allocation.ptr block) : heap.table.IsFree block :=
  h.free block ((h.held.within_iff h.sound).mp hwithin)

theorem Grant.ne (h : Grant heap after allocation) (hsound : HeapSound heap) (howns : Owns heap ptr) :
    ptr ≠ allocation.ptr := by
  obtain ⟨block, hwithin⟩ := howns
  obtain ⟨first, hlt, rfl, hfirst⟩ := hwithin.head
  intro heq
  have hstart := h.held.address
  rw [← heq, heapBlockToAddress_congr h.saddr] at hstart
  have hsame := heapBlockToAddress_injective hsound.sized hlt (h.total ▸ h.held.start_lt) hstart
  exact (hfirst.holds hsound).taken (hsame ▸ h.free _ h.held.chained.covers_start)

/-- Each of the addresses owns a chain, and no two of them are the same. -/
structure OwnsEach (heap : Heap) (ptrs : List Nat) : Prop extends HeapSound heap where
  nodup : ptrs.Nodup
  owns : ∀ ptr ∈ ptrs, Owns heap ptr

namespace OwnsEach

variable {ptrs : List Nat}

theorem spared (h : OwnsEach heap ptrs) (hsound : HeapSound after)
    (hspares : ∀ ptr ∈ ptrs, ∀ block, Within heap ptr block → Spares block heap after) :
    OwnsEach after ptrs := by
  refine ⟨hsound, h.nodup, fun ptr hptr => ?_⟩
  obtain ⟨block, hwithin⟩ := h.owns ptr hptr
  exact ⟨block, hwithin.spared h.toHeapSound (hspares ptr hptr)⟩

theorem cons (h : OwnsEach heap ptrs) (hgrant : Grant heap after allocation)
    (hspares : ∀ block, Holds heap block → Spares block heap after) :
    OwnsEach after (allocation.ptr :: ptrs) := by
  have hspared := h.spared hgrant.sound fun _ _ block hwithin =>
    hspares block (hwithin.holds h.toHeapSound)
  refine ⟨hgrant.sound, List.nodup_cons.mpr ⟨fun hmem => ?_, h.nodup⟩, fun ptr hptr => ?_⟩
  · exact hgrant.ne h.toHeapSound (h.owns _ hmem) rfl
  · rcases List.mem_cons.mp hptr with rfl | hptr
    · exact hgrant.held.owns
    · exact hspared.owns ptr hptr

theorem perm {ptrs' : List Nat} (h : OwnsEach heap ptrs) (hperm : ptrs.Perm ptrs') :
    OwnsEach heap ptrs' :=
  ⟨h.toHeapSound, hperm.nodup_iff.mp h.nodup, fun ptr hptr => h.owns ptr (hperm.mem_iff.mpr hptr)⟩

end OwnsEach

end SlobOS
