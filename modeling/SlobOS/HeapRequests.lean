import SlobOS.Proof.HeldBlocks
import SlobOS.Kernel

/-!
# Requests to the heap

A request for blocks is answered by first fit as long as the blocks fit or the last block of the table
is taken. A request for bytes is rounded up to blocks in 32 bits; where the sum wraps it becomes a
request for no block at all, which the search answers with the run that ends the table.
-/

namespace SlobOS

open Windows Faulting

/-- The heap lies in memory, behind the null pointer, and its end is an address. -/
structure Heap.Placed (heap : Heap) : Prop where
  saddr_pos : 0 < heap.saddr
  stop_lt : heap.saddr + heap.table.total * slobosHeapBlockSize < addressSpace

/-- The answer of a first fit allocator: nothing exactly if the blocks do not fit, and otherwise the
lowest window, whose entries are the only ones that change. -/
structure FirstFit (heap : Heap) (n : Nat) (result : Nat × Heap) : Prop where
  fails : result.1 = 0 ∧ result.2.table.entries = heap.table.entries ↔
    ¬Fits heap.table.IsFree heap.table.total n
  lowest : Fits heap.table.IsFree heap.table.total n →
    ∃ start : Nat, IsFirst heap.table.IsFree heap.table.total n start ∧
      result.1 = heapBlockToAddress heap start ∧
      ∀ i : Int, result.2.table.entries i ≠ heap.table.entries i ↔
        (start : Int) ≤ i ∧ i < start + n

variable {heap after : Heap} {n start size : Nat}

namespace Heap.Placed

theorem total_lt (h : heap.Placed) : heap.table.total < 0x100000 := by
  have hstop := h.stop_lt
  simp only [slobosHeapBlockSize, addressSpace] at hstop
  omega

theorem blockToAddress (h : heap.Placed) (hstart : start ≤ heap.table.total) :
    heapBlockToAddress heap start = heap.saddr + start * slobosHeapBlockSize := by
  have hstop := h.stop_lt
  simp only [heapBlockToAddress, slobosHeapBlockSize, addressSpace] at hstop ⊢
  omega

theorem block_ne_null (h : heap.Placed) (hstart : start ≤ heap.table.total) :
    heapBlockToAddress heap start ≠ 0 := by
  have hpos := h.saddr_pos
  rw [h.blockToAddress hstart]
  omega

end Heap.Placed

theorem not_shortRun_of_fits (h : Fits heap.table.IsFree heap.table.total n) (hn : 1 ≤ n) :
    ¬ShortRun heap.table n start := by
  intro hshort
  rcases hshort.noFit with hzero | hnone
  · omega
  · exact hnone h

theorem isFree_ne_chainEntry {len k : Nat} {i : Nat} (hfree : heap.table.IsFree i) :
    chainEntry len k ≠ heap.table.entries i := by
  intro heq
  exact not_isFree_of_eq_chainEntry heq.symm hfree

theorem marked_changes_iff (hwindow : Window heap.table.IsFree start n)
    (hmarked : Marked heap after start n fun i => chainEntry n (i - start).toNat) (i : Int) :
    after.table.entries i ≠ heap.table.entries i ↔ (start : Int) ≤ i ∧ i < start + n := by
  rw [hmarked.entries]
  by_cases hin : (start : Int) ≤ i ∧ i < start + n
  · rw [if_pos hin]
    obtain ⟨j, rfl⟩ := Int.eq_ofNat_of_zero_le (show 0 ≤ i by omega)
    exact iff_of_true (isFree_ne_chainEntry (hwindow j (by omega) (by omega))) hin
  · rw [if_neg hin]
    exact iff_of_false (fun hne => hne rfl) hin

theorem firstFit_of_isFirst (hplaced : heap.Placed) (hn : 1 ≤ n)
    (hfirst : IsFirst heap.table.IsFree heap.table.total n start)
    (hmarked : Marked heap after start n fun i => chainEntry n (i - start).toNat) :
    FirstFit heap n (heapBlockToAddress heap start, after) where
  fails := by
    have hinside := hfirst.inside
    have hle : start ≤ heap.table.total := by omega
    refine iff_of_false (fun h => ?_) fun hnone => hnone hfirst.fits
    exact hplaced.block_ne_null hle h.1
  lowest _ := ⟨start, hfirst, rfl, marked_changes_iff hfirst.window hmarked⟩

/-- Requests are answered by first fit exactly while they fit or the last block is taken. -/
theorem firstFit_iff (hplaced : heap.Placed) (hn : 1 ≤ n) :
    FirstFit heap n (heapMallocBlocks heap n) ↔
      Fits heap.table.IsFree heap.table.total n ∨ heap.table.LastTaken := by
  have hcases := heapMallocBlocks_cases heap n
  generalize heapMallocBlocks heap n = result at hcases
  cases hcases with
  | fail hnone hlast =>
      have hnone : ¬Fits heap.table.IsFree heap.table.total n := hnone.resolve_left (by omega)
      refine iff_of_true ⟨?_, fun hfits => absurd hfits hnone⟩ (Or.inr hlast)
      exact iff_of_true ⟨rfl, rfl⟩ hnone
  | fit _ hfirst =>
      have hinside := hfirst.inside
      have htotal := hplaced.total_lt
      have hlt : n < 0x80000000 := by omega
      refine iff_of_true (firstFit_of_isFirst hplaced hn hfirst ?_) (Or.inl hfirst.fits)
      rw [toInt32_of_lt hlt]
      exact heapMarkBlocksTaken_spec heap hn (by omega)
  | short hshort =>
      have hlt := hshort.lt
      refine iff_of_false (fun h => ?_) fun h => ?_
      · have hnone := hshort.noFit.resolve_left (by omega)
        exact hplaced.block_ne_null (Nat.le_of_lt hlt) (h.fails.mpr hnone).1
      · rcases h with hfits | hlast
        · exact not_shortRun_of_fits hfits hn hshort
        · exact hshort.run.isFree_last hlt hlast

theorem freshKernelHeap_placed : freshKernelHeap.heap.Placed := by
  have hsaddr : freshKernelHeap.heap.saddr = slobosHeapAddress := kheapInit_saddr _
  constructor
  · rw [hsaddr]
    decide
  · rw [hsaddr, freshKernelHeap_total]
    decide

theorem firstFit_iff_kernel :
    FirstFit freshKernelHeap.heap 2 (heapMallocBlocks freshKernelHeap.heap 2) ↔
      Fits freshKernelHeap.heap.table.IsFree freshKernelHeap.heap.table.total 2 ∨
        freshKernelHeap.heap.table.LastTaken :=
  firstFit_iff freshKernelHeap_placed (by decide)

/-- Asked for one block more than it has, the empty kernel heap hands out its first block. -/
theorem not_firstFit :
    ¬∀ (heap : Heap) n, heap.Placed → 1 ≤ n → FirstFit heap n (heapMallocBlocks heap n) := by
  intro hall
  have hnone : ¬Fits freshKernelHeap.heap.table.IsFree freshKernelHeap.heap.table.total 25601 := by
    rintro ⟨start, hinside, -⟩
    rw [freshKernelHeap_total] at hinside
    omega
  have hfirst := (hall _ 25601 freshKernelHeap_placed (by decide)).fails.mpr hnone
  have hstart : heapGetStartBlock freshKernelHeap.heap 25601 = (0 : Nat) :=
    freshKernelHeap_startBlock 25601
  rw [heapMallocBlocks_of_nonneg hstart] at hfirst
  exact freshKernelHeap_placed.block_ne_null (Nat.zero_le _) hfirst.1

/-! ### Requests for bytes -/

def heapMallocFrom (mallocBlocks : Heap → Nat → Nat × Heap) (heap : Heap) (size : Nat) : Nat × Heap :=
  let alignedSize := heapAlignValueToUpper size
  mallocBlocks heap (alignedSize / slobosHeapBlockSize)

def kmallocFrom (mallocBlocks : Heap → Nat → Nat × Heap) (size : Nat) : KernelM Nat :=
  fun kernel =>
    let (ptr, heap) := heapMallocFrom mallocBlocks kernel.heap size
    pure (ptr, { kernel with heap := heap })

def kzallocFrom (mallocBlocks : Heap → Nat → Nat × Heap) (size : Nat) : KernelM Nat := do
  let ptr ← kmallocFrom mallocBlocks size
  if ptr = 0 then pure 0
  else if addressSpace ≤ ptr + size then throw .runaway
  else do
    modify (Kernel.writeBytes ptr size fun _ => 0)
    pure ptr

theorem heapMalloc_eq : heapMalloc = heapMallocFrom heapMallocBlocks := rfl

theorem kzalloc_eq : Kernel.kzalloc = kzallocFrom heapMallocBlocks := rfl

/-- The blocks from `start` on lie in the table, were free and are taken now. -/
structure Reserves (heap after : Heap) (start count : Nat) : Prop where
  inside : start + count ≤ heap.table.total
  free : Window heap.table.IsFree start count
  taken : ∀ i, start ≤ i → i < start + count → ¬after.table.IsFree i

def ReservesBlocks (heap : Heap) (count : Nat) (result : Nat × Heap) : Prop :=
  result.1 = 0 ∨ ∃ start : Nat, result.1 = heapBlockToAddress heap start ∧
    Reserves heap result.2 start count

/-- A result other than `0` is the start of at least one newly reserved block, and the reserved blocks
have room for the bytes. -/
def BytesReserved (heap : Heap) (size : Nat) (result : Nat × Heap) : Prop :=
  result.1 ≠ 0 → ∃ start count : Nat, 0 < count ∧ result.1 = heapBlockToAddress heap start ∧
    Reserves heap result.2 start count ∧ size ≤ count * slobosHeapBlockSize

/-- The program comes back, and it changes no byte outside of the blocks that it has reserved. -/
def ZeroesReserved (program : KernelM Nat) (heap : Heap) : Prop :=
  ∀ kernel : Kernel, kernel.heap = heap → ∃ ptr after, Ends program kernel ptr after ∧
    ∀ pages address, after.memory pages address ≠ kernel.memory pages address →
      ∃ block : Nat, Reserves heap after.heap block 1 ∧ heapBlockToAddress heap block ≤ address ∧
        address < heapBlockToAddress heap block + slobosHeapBlockSize

structure RequestCovered (mallocBlocks : Heap → Nat → Nat × Heap) (heap : Heap) (size : Nat) :
    Prop where
  reserved : BytesReserved heap size (heapMallocFrom mallocBlocks heap size)
  zeroes : ZeroesReserved (kzallocFrom mallocBlocks size) heap

/-- The sizes that the rounding keeps apart from `0`. -/
def Roundable (size : Nat) : Prop := 0 < size ∧ size ≤ 0xFFFFF000

section Bytes

variable {mallocBlocks : Heap → Nat → Nat × Heap} {count : Nat}

theorem blockCount_of_roundable (h : Roundable size) :
    1 ≤ blockCount size ∧ size ≤ blockCount size * slobosHeapBlockSize := by
  obtain ⟨hpos, hle⟩ := h
  rw [blockCount_eq hle, slobosHeapBlockSize]
  omega

theorem blockCount_of_not_roundable (h : ¬Roundable size) (hsize : size < addressSpace) :
    blockCount size = 0 := by
  rcases Nat.eq_zero_or_pos size with hzero | hpos
  · rw [hzero]
    rfl
  have hlt : 0xFFFFF000 < size := Nat.lt_of_not_le fun hle => h ⟨hpos, hle⟩
  have hround : size % slobosHeapBlockSize ≠ 0 := by
    simp only [slobosHeapBlockSize, addressSpace] at hsize ⊢
    omega
  rw [blockCount, heapAlignValueToUpper, if_neg hround]
  simp only [toUint32, addressSpace, slobosHeapBlockSize] at hsize ⊢
  omega

theorem Reserves.block (h : Reserves heap after start count) {i : Nat} (hi : i < count) :
    Reserves heap after (start + i) 1 := by
  have hinside := h.inside
  exact ⟨by omega, h.free.sub (by omega) (by omega), fun j hj hj' => h.taken j (by omega) (by omega)⟩

theorem ends_kmallocFrom {kernel : Kernel} : Ends (kmallocFrom mallocBlocks size) kernel
    (heapMallocFrom mallocBlocks kernel.heap size).1
    { kernel with heap := (heapMallocFrom mallocBlocks kernel.heap size).2 } := rfl

theorem zeroesReserved_null (hnull : (heapMallocFrom mallocBlocks heap size).1 = 0) :
    ZeroesReserved (kzallocFrom mallocBlocks size) heap := by
  rintro kernel rfl
  refine ⟨0, { kernel with heap := (heapMallocFrom mallocBlocks kernel.heap size).2 }, ?_,
    fun pages address hne => absurd rfl hne⟩
  refine ends_bind.mpr ⟨_, _, ends_kmallocFrom, ?_⟩
  rw [if_pos hnull]
  exact ends_pure.mpr ⟨rfl, rfl⟩

theorem exists_block {base address : Nat} (hrange : base ≤ address ∧ address < base + size)
    (hsize : size ≤ count * slobosHeapBlockSize) :
    ∃ i < count, base + i * slobosHeapBlockSize ≤ address ∧
      address < base + i * slobosHeapBlockSize + slobosHeapBlockSize := by
  simp only [slobosHeapBlockSize] at hsize ⊢
  exact ⟨(address - base) / 4096, by omega, by omega, by omega⟩

theorem zeroesReserved_of_reserves (hplaced : heap.Placed)
    (haddress : (heapMallocFrom mallocBlocks heap size).1 = heapBlockToAddress heap start)
    (hreserves : Reserves heap (heapMallocFrom mallocBlocks heap size).2 start count)
    (hsize : size ≤ count * slobosHeapBlockSize) :
    ZeroesReserved (kzallocFrom mallocBlocks size) heap := by
  rintro kernel rfl
  have hinside := hreserves.inside
  have hstop := hplaced.stop_lt
  have hptr := hplaced.blockToAddress (show start ≤ kernel.heap.table.total by omega)
  have hne := hplaced.block_ne_null (show start ≤ kernel.heap.table.total by omega)
  rw [← haddress] at hne
  have hroom : ¬addressSpace ≤ (heapMallocFrom mallocBlocks kernel.heap size).1 + size := by
    rw [haddress, hptr]
    simp only [slobosHeapBlockSize] at hsize hstop ⊢
    omega
  refine ⟨(heapMallocFrom mallocBlocks kernel.heap size).1,
    Kernel.writeBytes (heapMallocFrom mallocBlocks kernel.heap size).1 size (fun _ => 0)
    { kernel with heap := (heapMallocFrom mallocBlocks kernel.heap size).2 }, ?_,
    fun pages address hchanged => ?_⟩
  · refine ends_bind.mpr ⟨_, _, ends_kmallocFrom, ?_⟩
    rw [if_neg hne, if_neg hroom]
    exact ends_modify_bind.mpr (ends_pure.mpr ⟨rfl, rfl⟩)
  · have hrange : (heapMallocFrom mallocBlocks kernel.heap size).1 ≤ address ∧
        address < (heapMallocFrom mallocBlocks kernel.heap size).1 + size := by
      by_contra hout
      exact hchanged (if_neg hout)
    rw [haddress] at hrange
    obtain ⟨i, hi, hblock⟩ := exists_block hrange hsize
    refine ⟨start + i, hreserves.block hi, ?_⟩
    rwa [hplaced.blockToAddress (by omega), Nat.add_mul, ← Nat.add_assoc, ← hptr]

/-- If the blocks are reserved as they are asked for, a request for bytes is covered exactly when its
size is not rounded to `0`, or when the last block of the table is taken. -/
theorem requestCovered_iff (hplaced : heap.Placed)
    (hblocks : ∀ count, 1 ≤ count → ReservesBlocks heap count (mallocBlocks heap count))
    (hnone : mallocBlocks heap 0 = heapMallocBlocks heap 0) (hsize : size < addressSpace) :
    RequestCovered mallocBlocks heap size ↔ Roundable size ∨ heap.table.LastTaken := by
  have hresult : heapMallocFrom mallocBlocks heap size = mallocBlocks heap (blockCount size) := rfl
  by_cases hround : Roundable size
  · refine iff_of_true ?_ (Or.inl hround)
    obtain ⟨hpos, hroom⟩ := blockCount_of_roundable hround
    rcases hblocks _ hpos with hnull | ⟨start, haddress, hreserves⟩
    · exact ⟨fun hne => absurd hnull hne, zeroesReserved_null hnull⟩
    · exact ⟨fun _ => ⟨start, _, hpos, haddress, hreserves, hroom⟩,
        zeroesReserved_of_reserves hplaced haddress hreserves hroom⟩
  rw [or_iff_right hround]
  rw [blockCount_of_not_roundable hround hsize, hnone] at hresult
  have hcases := heapMallocBlocks_cases heap 0
  rw [← hresult] at hcases
  constructor
  · intro h
    have hreserved := h.reserved
    generalize heapMallocFrom mallocBlocks heap size = result at hcases hreserved
    cases hcases with
    | fail _ hlast => exact hlast
    | fit hpos => omega
    | @short start hshort =>
        -- No block has been marked, so none has become taken.
        obtain ⟨start', count, hpos, -, hreserves, -⟩ :=
          hreserved (hplaced.block_ne_null (Nat.le_of_lt hshort.lt))
        have htaken := hreserves.taken start' (Nat.le_refl _) (by omega)
        rw [show toInt32 (0 : Nat) = 0 from rfl, heapMarkBlocksTaken_zero] at htaken
        exact absurd (hreserves.free start' (Nat.le_refl _) (by omega)) htaken
  · intro hlast
    have hnull : (heapMallocFrom mallocBlocks heap size).1 = 0 := by
      generalize heapMallocFrom mallocBlocks heap size = result at hcases
      cases hcases with
      | fail => rfl
      | fit hpos => omega
      | short hshort => exact absurd hlast (hshort.run.isFree_last hshort.lt)
    exact ⟨fun hne => absurd hnull hne, zeroesReserved_null hnull⟩

/-- The allocator of the heap, kept from handing out a run that is too short. -/
def heapMallocFitting (heap : Heap) (n : Nat) : Nat × Heap :=
  if n = 0 ∨ heapGetStartBlock heap n + n ≤ heap.table.total then heapMallocBlocks heap n
  else (0, heap)

theorem heapMallocFitting_zero (heap : Heap) :
    heapMallocFitting heap 0 = heapMallocBlocks heap 0 := if_pos (Or.inl rfl)

theorem heapMallocFitting_reserves (hplaced : heap.Placed) (hn : 1 ≤ n) :
    ReservesBlocks heap n (heapMallocFitting heap n) := by
  have hzero : n ≠ 0 := by omega
  by_cases hroom : heapGetStartBlock heap n + n ≤ heap.table.total
  · have hsame : heapMallocFitting heap n = heapMallocBlocks heap n := if_pos (Or.inr hroom)
    have hstart := heapGetStartBlock_cases heap n
    rw [hsame]
    generalize hresult : heapGetStartBlock heap n = result at hstart hroom
    cases hstart with
    | fail =>
        rw [heapMallocBlocks_of_neg (by rw [hresult]; decide)]
        exact Or.inl rfl
    | @fit start _ hfirst =>
        have hinside := hfirst.inside
        have htotal := hplaced.total_lt
        have hlt : n < 0x80000000 := by omega
        have hmarked := heapMarkBlocksTaken_spec heap hn (show start + n ≤ 0x80000000 by omega)
        rw [heapMallocBlocks_of_nonneg hresult, toInt32_of_lt hlt]
        refine Or.inr ⟨start, rfl, hinside, hfirst.window, fun i hi hi' => ?_⟩
        apply not_isFree_of_eq_chainEntry
        rw [hmarked.entries, if_pos (by omega)]
    | @short start hshort =>
        have hwindow := hshort.run.window.sub (Nat.le_refl _) (show start + n ≤ _ by omega)
        exact absurd hshort (not_shortRun_of_fits ⟨start, by omega, hwindow⟩ hn)
  · have hnull : heapMallocFitting heap n = (0, heap) := if_neg (not_or.mpr ⟨hzero, hroom⟩)
    rw [hnull]
    exact Or.inl rfl

end Bytes

theorem requestCovered_iff_kernel :
    RequestCovered heapMallocFitting freshKernelHeap.heap 4096 ↔
      Roundable 4096 ∨ freshKernelHeap.heap.table.LastTaken :=
  requestCovered_iff freshKernelHeap_placed
    (fun _ hcount => heapMallocFitting_reserves freshKernelHeap_placed hcount)
    (heapMallocFitting_zero _) (by decide)

/-- A request for no byte, answered with the first block of the empty kernel heap. -/
theorem not_requestCovered : ¬∀ mallocBlocks (heap : Heap) size,
    (∀ (heap : Heap) count, heap.Placed → 1 ≤ count →
      ReservesBlocks heap count (mallocBlocks heap count)) →
    (∀ heap, mallocBlocks heap 0 = heapMallocBlocks heap 0) → heap.Placed → size < addressSpace →
      RequestCovered mallocBlocks heap size := by
  intro hall
  have hcovered := hall heapMallocFitting freshKernelHeap.heap 0
    (fun _ _ hplaced hcount => heapMallocFitting_reserves hplaced hcount) heapMallocFitting_zero
    freshKernelHeap_placed (by decide)
  have hnull : heapMallocFrom heapMallocFitting freshKernelHeap.heap 0 =
      heapMallocBlocks freshKernelHeap.heap 0 := heapMallocFitting_zero _
  have hreserved := hcovered.reserved
  rw [hnull, heapMallocBlocks_of_nonneg (freshKernelHeap_startBlock 0)] at hreserved
  obtain ⟨start, count, hpos, -, hreserves, -⟩ :=
    hreserved (freshKernelHeap_placed.block_ne_null (Nat.zero_le _))
  have htaken := hreserves.taken start (Nat.le_refl _) (by omega)
  exact htaken (hreserves.free start (Nat.le_refl _) (by omega))

end SlobOS
