import SlobOS.Proof.HeapMark
import SlobOS.Lib.Tilings

/-!
# One allocation, one release

`heap_malloc_blocks` by cases, the round trip between block numbers and addresses, and the table as
a tiling by chains: an allocation that fits adds a chain, a release of a chain takes it out.
-/

namespace SlobOS

open Windows Tilings

def HeapTable.LastTaken (table : HeapTable) : Prop := table.total = 0 ∨ ¬table.IsFree (table.total - 1)

instance (table : HeapTable) : Decidable table.LastTaken :=
  inferInstanceAs (Decidable (_ ∨ _))

/-- The blocks do not fit, and the run that ends the table is taken in their place. -/
structure ShortRun (table : HeapTable) (n start : Nat) : Prop where
  noFit : n = 0 ∨ ¬Fits table.IsFree table.total n
  lt : start < table.total
  run : RunBefore table table.total start

/-- The outcome of the search: no block, the leftmost window, or the short run at the end. -/
inductive StartBlock (heap : Heap) (n : Nat) : Int → Prop
  | fail : (n = 0 ∨ ¬Fits heap.table.IsFree heap.table.total n) → heap.table.LastTaken →
      StartBlock heap n (-enomem)
  | fit {start : Nat} : 0 < n → IsFirst heap.table.IsFree heap.table.total n start →
      StartBlock heap n start
  | short {start : Nat} : ShortRun heap.table n start → StartBlock heap n start

theorem heapGetStartBlock_cases (heap : Heap) (n : Nat) :
    StartBlock heap n (heapGetStartBlock heap n) := by
  have hscan := heapGetStartBlock_scan heap.table n
  unfold heapGetStartBlock
  generalize heapGetStartBlockLoop heap.table n heap.table.total 0 0 (-1) = result at hscan
  cases hscan with
  | @found start hn hfirst =>
      rw [if_neg (show ((start : Nat) : Int) ≠ -1 by omega)]
      exact .fit hn hfirst
  | @tail start hnone hrun =>
      have hle := hrun.le
      by_cases heq : start = heap.table.total
      · rw [if_pos (runStart_eq_neg_one_iff.mpr heq)]
        rw [heq] at hrun
        exact .fail hnone hrun.maximal
      · rw [if_neg (mt runStart_eq_neg_one_iff.mp heq)]
        rw [runStart, if_neg heq]
        exact .short ⟨hnone, by omega, hrun⟩

theorem heapMallocBlocks_of_neg {heap : Heap} {n : Nat} (h : heapGetStartBlock heap n < 0) :
    heapMallocBlocks heap n = (0, heap) := if_pos h

theorem heapMallocBlocks_of_nonneg {heap : Heap} {n start : Nat}
    (h : heapGetStartBlock heap n = start) :
    heapMallocBlocks heap n =
      (heapBlockToAddress heap start, heapMarkBlocksTaken heap start (toInt32 n)) := by
  simp only [heapMallocBlocks, h]
  rw [if_neg (by omega)]

inductive MallocResult (heap : Heap) (n : Nat) : Nat × Heap → Prop
  | fail : (n = 0 ∨ ¬Fits heap.table.IsFree heap.table.total n) → heap.table.LastTaken →
      MallocResult heap n (0, heap)
  | fit {start : Nat} : 0 < n → IsFirst heap.table.IsFree heap.table.total n start →
      MallocResult heap n
        (heapBlockToAddress heap start, heapMarkBlocksTaken heap start (toInt32 n))
  | short {start : Nat} : ShortRun heap.table n start →
      MallocResult heap n
        (heapBlockToAddress heap start, heapMarkBlocksTaken heap start (toInt32 n))

theorem heapMallocBlocks_cases (heap : Heap) (n : Nat) :
    MallocResult heap n (heapMallocBlocks heap n) := by
  have hstart := heapGetStartBlock_cases heap n
  generalize hresult : heapGetStartBlock heap n = result at hstart
  cases hstart with
  | fail hnone hlast =>
      rw [heapMallocBlocks_of_neg (by rw [hresult]; decide)]
      exact .fail hnone hlast
  | fit hn hfirst =>
      rw [heapMallocBlocks_of_nonneg hresult]
      exact .fit hn hfirst
  | short hshort =>
      rw [heapMallocBlocks_of_nonneg hresult]
      exact .short hshort

theorem heapMarkBlocksTaken_frame (heap : Heap) (start n : Int) :
    (heapMarkBlocksTaken heap start n).table.total = heap.table.total ∧
      (heapMarkBlocksTaken heap start n).saddr = heap.saddr :=
  heapMarkBlocksTakenLoop_frame heap _ _ _ _

@[simp]
theorem heapMallocBlocks_total (heap : Heap) (n : Nat) :
    (heapMallocBlocks heap n).2.table.total = heap.table.total := by
  unfold heapMallocBlocks
  dsimp only
  split
  · rfl
  · exact (heapMarkBlocksTaken_frame heap _ _).1

@[simp]
theorem heapMallocBlocks_saddr (heap : Heap) (n : Nat) :
    (heapMallocBlocks heap n).2.saddr = heap.saddr := by
  unfold heapMallocBlocks
  dsimp only
  split
  · rfl
  · exact (heapMarkBlocksTaken_frame heap _ _).2

@[simp]
theorem heapFree_total (heap : Heap) (ptr : Nat) :
    (heapFree heap ptr).table.total = heap.table.total :=
  (heapMarkBlocksFree_spec heap _).total

@[simp]
theorem heapFree_saddr (heap : Heap) (ptr : Nat) : (heapFree heap ptr).saddr = heap.saddr :=
  (heapMarkBlocksFree_spec heap _).saddr

theorem RunBefore.isFree_last {table : HeapTable} {start : Nat}
    (hrun : RunBefore table table.total start) (hlt : start < table.total) : ¬table.LastTaken := by
  have hfree := hrun.window (table.total - 1) (by omega) (by omega)
  rintro (hzero | htaken)
  · omega
  · exact htaken hfree

theorem toInt32_of_lt {n : Nat} (hn : n < 0x80000000) : toInt32 n = n := by
  simp only [toInt32, addressSpace, Int.bmod]
  omega

/-- The heap lies in an address range whose length is a pointer difference. -/
structure Heap.Sized (heap : Heap) : Prop where
  saddr_lt : heap.saddr < addressSpace
  pool : heap.table.total * slobosHeapBlockSize < 0x80000000

theorem Heap.Sized.total_lt {heap : Heap} (h : heap.Sized) : heap.table.total < 0x80000 := by
  have hpool := h.pool
  simp only [slobosHeapBlockSize] at hpool
  omega

theorem Heap.Sized.congr {heap after : Heap} (h : heap.Sized) (hsaddr : after.saddr = heap.saddr)
    (htotal : after.table.total = heap.table.total) : after.Sized :=
  ⟨hsaddr ▸ h.saddr_lt, htotal ▸ h.pool⟩

theorem heapAddressToBlock_congr {heap after : Heap} (hsaddr : after.saddr = heap.saddr)
    (addr : Nat) : heapAddressToBlock after addr = heapAddressToBlock heap addr := by
  simp only [heapAddressToBlock, hsaddr]

theorem heapBlockToAddress_congr {heap after : Heap} (hsaddr : after.saddr = heap.saddr)
    (block : Int) : heapBlockToAddress after block = heapBlockToAddress heap block := by
  simp only [heapBlockToAddress, hsaddr]

theorem heapAddressToBlock_blockToAddress {heap : Heap} (hsized : heap.Sized) {block : Nat}
    (hblock : block < heap.table.total) :
    heapAddressToBlock heap (heapBlockToAddress heap block) = block := by
  obtain ⟨hsaddr, hpool⟩ := hsized
  simp only [slobosHeapBlockSize, addressSpace] at hsaddr hpool
  have hdiff : toInt32 ((heapBlockToAddress heap block : Int) - heap.saddr) = block * 4096 := by
    simp only [toInt32, heapBlockToAddress, slobosHeapBlockSize, addressSpace, Int.bmod]
    omega
  rw [heapAddressToBlock, hdiff]
  exact Int.mul_tdiv_cancel _ (by decide)

theorem heapBlockToAddress_injective {heap : Heap} (hsized : heap.Sized) {block block' : Nat}
    (hblock : block < heap.table.total) (hblock' : block' < heap.table.total)
    (heq : heapBlockToAddress heap block = heapBlockToAddress heap block') : block = block' := by
  have hround := heapAddressToBlock_blockToAddress hsized hblock
  rw [heq, heapAddressToBlock_blockToAddress hsized hblock'] at hround
  omega

/-! ### The table as a tiling -/

theorem chainEntry_delimits :
    Delimits chainEntry heapBlockTableEntryFree IsFirstEntry (fun entry => ¬HasNext entry) where
  first_iff := fun _ => isFirstEntry_chainEntry_iff _ _
  last_iff := fun hk => by rw [hasNext_chainEntry_iff]; omega
  blank_not_first := by decide

def HeapTable.cell (table : HeapTable) (i : Nat) : UInt8 := table.entries i

/-- The spans of blocks are exactly the chains of the table, and the other entries are free. -/
def Decomposes (table : HeapTable) (spans : List Span) : Prop :=
  Tiles chainEntry heapBlockTableEntryFree table.cell table.total spans

/-- The heap is well placed, its table decomposes, and no write has left the table. -/
structure HeapInv (heap : Heap) (spans : List Span) : Prop where
  sized : heap.Sized
  decomposes : Decomposes heap.table spans
  written : ∀ i ∈ heap.table.written, 0 ≤ i ∧ i < heap.table.total

variable {heap : Heap} {spans : List Span} {span : Span}

theorem HeapTable.isFree_of_eq_free {table : HeapTable} {i : Nat}
    (h : table.entries i = heapBlockTableEntryFree) : table.IsFree i := by
  unfold HeapTable.IsFree
  rw [h]
  decide

structure Chained (table : HeapTable) (span : Span) : Prop where
  nonempty : 0 < span.len
  inside : span.stop ≤ table.total
  marked : ∀ k < span.len, table.cell (span.start + k) = chainEntry span.len k

namespace Chained

theorem start_lt (h : Chained heap.table span) : span.start < heap.table.total := by
  have hpos := h.nonempty
  have hstop := h.inside
  simp only [Span.stop] at hstop
  omega

theorem reaches_iff (h : Chained heap.table span) (i : Int) :
    Reaches heap.table span.start i ↔ (span.start : Int) ≤ i ∧ i < span.stop := by
  have hpos := h.nonempty
  have hstop := h.inside
  have hnext : ∀ k, k < span.len →
      (HasNext (heap.table.entries ((span.start + k : Nat) : Int)) ↔ k + 1 < span.len) := by
    intro k hk
    rw [show heap.table.entries ((span.start + k : Nat) : Int) = heap.table.cell (span.start + k)
      from rfl, h.marked k hk, hasNext_chainEntry_iff]
  simp only [Span.stop] at hstop ⊢
  constructor
  · rintro ⟨hle, _, hall⟩
    refine ⟨hle, ?_⟩
    by_contra hge
    have hlast := hall ((span.start + (span.len - 1) : Nat) : Int) (by omega) (by omega)
    have := (hnext (span.len - 1) (by omega)).mp hlast
    omega
  · rintro ⟨hle, hlt⟩
    refine ⟨hle, by omega, fun j hj hj' => ?_⟩
    have hk := (hnext (j - span.start).toNat (by omega)).mpr (by omega)
    rwa [show ((span.start + (j - span.start).toNat : Nat) : Int) = j by omega] at hk

theorem free_entries (h : Chained heap.table span) (hsized : heap.Sized) (i : Int) :
    (heapFree heap (heapBlockToAddress heap span.start)).table.entries i =
      if (span.start : Int) ≤ i ∧ i < span.stop then heapBlockTableEntryFree
      else heap.table.entries i := by
  rw [heapFree, heapAddressToBlock_blockToAddress hsized h.start_lt]
  have hswept := heapMarkBlocksFree_spec heap span.start
  split
  case isTrue hin => exact hswept.clear i ((h.reaches_iff i).mpr hin)
  case isFalse hout => exact hswept.frame i (mt (h.reaches_iff i).mp hout)

end Chained

namespace Decomposes

theorem isFree_iff (h : Decomposes heap.table spans) {i : Nat} (hi : i < heap.table.total) :
    heap.table.IsFree i ↔ ∀ span ∈ spans, ¬span.Covers i := by
  constructor
  · intro hfree span hspan hcover
    have hcell := h.cell_eq_mark hspan hcover
    unfold HeapTable.IsFree at hfree
    rw [show heap.table.entries i = heap.table.cell i from rfl, hcell,
      heapGetEntryType_chainEntry] at hfree
    exact absurd hfree (by decide)
  · exact fun hnone => HeapTable.isFree_of_eq_free (h.outside i hi hnone)

theorem malloc (h : Decomposes heap.table spans) {n start : Nat} (hn : 0 < n)
    (hlt : heap.table.total < 0x80000000) (hfirst : IsFirst heap.table.IsFree heap.table.total n start) :
    Decomposes (heapMarkBlocksTaken heap start (toInt32 n)).table (⟨start, n⟩ :: spans) := by
  have hinside := hfirst.inside
  rw [toInt32_of_lt (by omega)]
  have hmarked := heapMarkBlocksTaken_spec heap hn (show start + n ≤ 0x80000000 by omega)
  unfold Decomposes
  rw [hmarked.total]
  refine Tiles.cons h hn hinside (fun i hi => ?_) (fun k (hk : k < n) => ?_) fun i hi hnot => ?_
  · simp only [Span.Covers, Span.stop] at hi
    exact (h.isFree_iff (by omega)).mp (hfirst.window i hi.1 hi.2)
  · unfold HeapTable.cell
    rw [hmarked.entries, if_pos (by push_cast; omega)]
    congr 1
    push_cast
    omega
  · simp only [Span.Covers, Span.stop] at hnot
    unfold HeapTable.cell
    rw [hmarked.entries, if_neg (by omega)]

theorem chained (h : Decomposes heap.table spans) (hspan : span ∈ spans) :
    Chained heap.table span :=
  ⟨h.nonempty span hspan, h.inside span hspan, h.marked span hspan⟩

theorem free (h : Decomposes heap.table spans) (hsized : heap.Sized) (hspan : span ∈ spans) :
    Decomposes (heapFree heap (heapBlockToAddress heap span.start)).table (spans.erase span) := by
  have hentries := (h.chained hspan).free_entries hsized
  unfold Decomposes
  rw [heapFree_total]
  refine Tiles.erase h hspan (fun i hi => ?_) fun i _ hnot => ?_
  · simp only [Span.Covers, Span.stop] at hi
    unfold HeapTable.cell
    rw [hentries, if_pos (by simp only [Span.stop]; omega)]
  · simp only [Span.Covers, Span.stop] at hnot
    unfold HeapTable.cell
    rw [hentries, if_neg (by simp only [Span.stop]; omega)]

end Decomposes

namespace HeapInv

theorem isFree_iff (h : HeapInv heap spans) {i : Nat} (hi : i < heap.table.total) :
    heap.table.IsFree i ↔ ∀ span ∈ spans, ¬span.Covers i :=
  h.decomposes.isFree_iff hi

theorem malloc (h : HeapInv heap spans) {n start : Nat} (hn : 0 < n)
    (hfirst : IsFirst heap.table.IsFree heap.table.total n start) :
    HeapInv (heapMarkBlocksTaken heap start (toInt32 n)) (⟨start, n⟩ :: spans) := by
  have hinside := hfirst.inside
  have htotal := h.sized.total_lt
  have hlt : n < 0x80000000 := by omega
  have hmarked := heapMarkBlocksTaken_spec heap hn (show start + n ≤ 0x80000000 by omega)
  rw [← toInt32_of_lt hlt] at hmarked
  refine ⟨h.sized.congr hmarked.saddr hmarked.total,
    h.decomposes.malloc hn (Nat.lt_trans htotal (by decide)) hfirst, ?_⟩
  intro i hi
  rw [hmarked.total]
  rcases (hmarked.written i).mp hi with hold | hnew
  · exact h.written i hold
  · omega

theorem free_entries (h : HeapInv heap spans) (hspan : span ∈ spans) (i : Int) :
    (heapFree heap (heapBlockToAddress heap span.start)).table.entries i =
      if (span.start : Int) ≤ i ∧ i < span.stop then heapBlockTableEntryFree
      else heap.table.entries i :=
  (h.decomposes.chained hspan).free_entries h.sized i

theorem free (h : HeapInv heap spans) (hspan : span ∈ spans) :
    HeapInv (heapFree heap (heapBlockToAddress heap span.start)) (spans.erase span) := by
  have hstop := h.decomposes.inside span hspan
  have hchained := h.decomposes.chained hspan
  have hblock := heapAddressToBlock_blockToAddress h.sized hchained.start_lt
  have hswept := heapMarkBlocksFree_spec heap span.start
  rw [← hblock] at hswept
  refine ⟨h.sized.congr hswept.saddr hswept.total, h.decomposes.free h.sized hspan, ?_⟩
  intro i hi
  rw [heapFree_total]
  rcases (hswept.written i).mp hi with hold | hreach
  · exact h.written i hold
  · rw [hblock] at hreach
    have hin := (hchained.reaches_iff i).mp hreach
    omega

end HeapInv

end SlobOS
