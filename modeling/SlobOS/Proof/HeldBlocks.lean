import SlobOS.HeapRuns

/-!
# Blocks that stay taken

A block in use is given back only by a sweep that reaches it. A sweep from above the block does not,
and neither does one from below that meets the end of a chain on its way. Every address that the heap
hands out later is of one of these kinds, also when the request is for no block or for more than there
are, and so is the null pointer as long as some byte below the table ends its sweep. None of this
needs the table to be a tiling.
-/

namespace SlobOS

open Windows

def blockCount (size : Nat) : Nat := heapAlignValueToUpper size / slobosHeapBlockSize

theorem blockCount_eq {size : Nat} (hsize : size ≤ 0xFFFFF000) :
    blockCount size = (size + (slobosHeapBlockSize - 1)) / slobosHeapBlockSize := by
  unfold blockCount heapAlignValueToUpper
  by_cases haligned : size % slobosHeapBlockSize = 0
  · rw [if_pos haligned]
    simp only [toUint32, addressSpace, slobosHeapBlockSize] at *
    omega
  · rw [if_neg haligned]
    simp only [toUint32, addressSpace, slobosHeapBlockSize] at *
    omega

theorem blockCount_lt (size : Nat) : blockCount size < 0x100000 := by
  unfold blockCount heapAlignValueToUpper
  by_cases haligned : size % slobosHeapBlockSize = 0
  · rw [if_pos haligned]
    simp only [toUint32, addressSpace, slobosHeapBlockSize]
    omega
  · rw [if_neg haligned]
    simp only [toUint32, addressSpace, slobosHeapBlockSize]
    omega

/-- What an allocation hands out: nothing, or the start of a free run and a chain of marks from
there. -/
inductive MallocShape (heap : Heap) (size : Nat) : Nat × Heap → Prop
  | fail : MallocShape heap size (0, heap)
  | marks {start count : Nat} {after : Heap} : start < heap.table.total →
      Window heap.table.IsFree start (min (blockCount size) (heap.table.total - start)) →
      heap.table.IsFree start →
      count ≤ blockCount size → (start + blockCount size ≤ 0x80000000 → count = blockCount size) →
      Marked heap after start count (fun i => chainEntry count (i - start).toNat) →
      MallocShape heap size (heapBlockToAddress heap start, after)

theorem heapMarkBlocksTaken_count (heap : Heap) (start : Nat) {n : Nat} (hn : n < 0x80000000) :
    ∃ count : Nat, count ≤ n ∧ (start + n ≤ 0x80000000 → count = n) ∧
      Marked heap (heapMarkBlocksTaken heap start (toInt32 n)) start count
        fun i => chainEntry count (i - start).toNat := by
  rw [toInt32_of_range (by omega) (by omega)]
  by_cases hmarks : 0 < n ∧ start + n ≤ 0x80000000
  · exact ⟨n, Nat.le_refl n, fun _ => rfl, heapMarkBlocksTaken_spec heap hmarks.1 hmarks.2⟩
  · have hnone : toInt32 ((start : Int) + n - 1) < start := by
      simp only [toInt32, addressSpace, Int.bmod]
      omega
    refine ⟨0, Nat.zero_le n, fun hend => by omega, ?_⟩
    rw [heapMarkBlocksTaken_of_lt heap hnone]
    exact ⟨fun i => by rw [if_neg (by omega)], rfl, rfl,
      fun i => ⟨Or.inl, fun h => h.resolve_right (by omega)⟩⟩

theorem heapMalloc_shape (heap : Heap) (size : Nat) :
    MallocShape heap size (heapMalloc heap size) := by
  have hsize := Nat.lt_trans (blockCount_lt size) (show 0x100000 < 0x80000000 by decide)
  have hcases := heapMallocBlocks_cases heap (blockCount size)
  unfold heapMalloc
  change MallocShape heap size (heapMallocBlocks heap (blockCount size))
  generalize heapMallocBlocks heap (blockCount size) = result at hcases
  cases hcases with
  | fail => exact .fail
  | @fit start hn hfirst =>
      have hinside := hfirst.inside
      obtain ⟨count, hle, heq, hmarked⟩ := heapMarkBlocksTaken_count heap start hsize
      exact .marks (by omega) (hfirst.window.sub (Nat.le_refl _) (by omega))
        (hfirst.window start (Nat.le_refl _) (by omega)) hle heq hmarked
  | @short start hshort =>
      have hlt := hshort.lt
      obtain ⟨count, hle, heq, hmarked⟩ := heapMarkBlocksTaken_count heap start hsize
      exact .marks hlt (hshort.run.window.sub (Nat.le_refl _) (by omega))
        (hshort.run.window start (Nat.le_refl _) (by omega)) hle heq hmarked

/-- What a request that is not refused has got: the free blocks from the start on, as far as the table
goes. -/
structure GivenBlocks (heap : Heap) (size start count : Nat) : Prop where
  lt : start < heap.table.total
  address : (heapMalloc heap size).1 = heapBlockToAddress heap start
  window : Window heap.table.IsFree start (min (blockCount size) (heap.table.total - start))
  free : heap.table.IsFree start
  le : count ≤ blockCount size
  eq : start + blockCount size ≤ 0x80000000 → count = blockCount size
  marked : Marked heap (heapMalloc heap size).2 start count (fun i => chainEntry count (i - start).toNat)

theorem heapMalloc_given {heap : Heap} {size : Nat} (hne : (heapMalloc heap size).1 ≠ 0) :
    ∃ start count, GivenBlocks heap size start count := by
  have hshape := heapMalloc_shape heap size
  generalize hresult : heapMalloc heap size = result at hshape hne
  cases hshape with
  | fail => exact absurd rfl hne
  | @marks start count after hlt hwindow hfree hle heq hmarked =>
      have haddress := congrArg Prod.fst hresult
      rw [← show (heapMalloc heap size).2 = after from congrArg Prod.snd hresult] at hmarked
      exact ⟨start, count, hlt, haddress, hwindow, hfree, hle, heq, hmarked⟩

/-- The kernel heap, in a state it can be in: in its place, with nothing but a type in the entry of a
free block, and with a byte below the table at which the sweep for a null pointer ends. -/
structure HeapSound (heap : Heap) : Prop where
  saddr : heap.saddr = slobosHeapAddress
  pool : heap.table.total * slobosHeapBlockSize < 0x80000000
  clean : ∀ i < heap.table.total, heap.table.IsFree i →
    heap.table.entries i = heapBlockTableEntryFree
  lowStop : ∃ k : Int, -8192 ≤ k ∧ k < 0 ∧ ¬HasNext (heap.table.entries k)

structure Holds (heap : Heap) (block : Nat) : Prop extends HeapSound heap where
  lt : block < heap.table.total
  taken : ¬heap.table.IsFree block

def Shields (heap : Heap) (block : Nat) (start : Int) : Prop :=
  (block : Int) < start ∨ ∃ k, start ≤ k ∧ k < block ∧ ¬HasNext (heap.table.entries k)

def Guards (heap : Heap) (block ptr : Nat) : Prop :=
  Shields heap block (heapAddressToBlock heap ptr)

/-- On the way from one state of the heap to another the block stays taken as it is, and the pointers
that did not reach it still do not. -/
structure Spares (block : Nat) (before after : Heap) : Prop where
  holds : Holds after block
  kept : after.table.entries block = before.table.entries block
  guards : ∀ ptr, Guards before block ptr → Guards after block ptr

variable {heap middle after : Heap} {block start ptr size : Nat}

theorem Spares.refl (h : Holds heap block) : Spares block heap heap := ⟨h, rfl, fun _ => id⟩

theorem Spares.trans (h : Spares block heap middle) (h' : Spares block middle after) :
    Spares block heap after :=
  ⟨h'.holds, h'.kept.trans h.kept, fun ptr hptr => h'.guards ptr (h.guards ptr hptr)⟩

theorem HeapSound.sized (h : HeapSound heap) : heap.Sized :=
  ⟨h.saddr ▸ (by decide), h.pool⟩

theorem HeapSound.block_ne_null (h : HeapSound heap) (hstart : start < heap.table.total) :
    heapBlockToAddress heap start ≠ 0 := by
  have hpool := h.pool
  simp only [slobosHeapBlockSize] at hpool
  simp only [heapBlockToAddress, h.saddr, slobosHeapAddress, slobosHeapBlockSize, addressSpace]
  omega

theorem HeapSound.nullBlock (h : HeapSound heap) : heapAddressToBlock heap 0 = -8192 := by
  rw [heapAddressToBlock, h.saddr]
  decide

theorem HeapSound.guards_null (h : HeapSound heap) : Guards heap block 0 := by
  obtain ⟨k, hge, hlt, hstop⟩ := h.lowStop
  rw [Guards, h.nullBlock]
  exact Or.inr ⟨k, hge, by omega, hstop⟩

theorem hasNext_free : ¬HasNext heapBlockTableEntryFree := by decide

theorem not_isFree_of_eq_chainEntry {len k : Nat}
    (h : heap.table.entries block = chainEntry len k) : ¬heap.table.IsFree block := by
  unfold HeapTable.IsFree
  rw [h, heapGetEntryType_chainEntry]
  decide

theorem not_holds_of_same (htotal : after.table.total = heap.table.total)
    (hentries : ∀ i < heap.table.total, after.table.entries i = heap.table.entries i)
    (hfree : heap.table.IsFree block) : ¬Holds after block := by
  intro hblock
  have htaken := hblock.taken
  unfold HeapTable.IsFree at hfree htaken
  rw [hentries block (htotal ▸ hblock.lt)] at htaken
  exact htaken hfree

/-! ### Allocations -/

section Malloc

variable {count : Nat}

theorem HeapSound.marked (h : HeapSound heap)
    (hmarked : Marked heap after start count fun i => chainEntry count (i - start).toNat) :
    HeapSound after := by
  refine ⟨by rw [hmarked.saddr, h.saddr], by rw [hmarked.total]; exact h.pool, ?_, ?_⟩
  · intro i hi hfree
    by_cases hin : (start : Int) ≤ i ∧ (i : Int) < start + count
    · exact absurd hfree (not_isFree_of_eq_chainEntry (by rw [hmarked.entries, if_pos hin]))
    · unfold HeapTable.IsFree at hfree
      rw [hmarked.entries, if_neg hin] at hfree ⊢
      exact h.clean i (hmarked.total ▸ hi) hfree
  · obtain ⟨k, hge, hlt, hstop⟩ := h.lowStop
    exact ⟨k, hge, hlt, by rwa [hmarked.entries, if_neg (by omega)]⟩

theorem HeapSound.malloc (h : HeapSound heap) (size : Nat) :
    HeapSound (heapMalloc heap size).2 := by
  have hshape := heapMalloc_shape heap size
  generalize heapMalloc heap size = result at hshape
  cases hshape with
  | fail => exact h
  | marks _ _ _ _ _ hmarked => exact h.marked hmarked

theorem Holds.marked (h : Holds heap block) (hcount : count ≤ blockCount size)
    (hwindow : Window heap.table.IsFree start
      (min (blockCount size) (heap.table.total - start)))
    (hmarked : Marked heap after start count fun i => chainEntry count (i - start).toNat) :
    Spares block heap after := by
  have hlt := h.lt
  -- The marks lie above the block, or end below it.
  have hside : block < start ∨ start + count ≤ block := by
    by_contra hin
    exact h.taken (hwindow block (by omega) (by omega))
  have hkeep : after.table.entries block = heap.table.entries block := by
    rw [hmarked.entries, if_neg (by omega)]
  refine ⟨⟨h.toHeapSound.marked hmarked, hmarked.total ▸ hlt, ?_⟩, hkeep, fun ptr hptr => ?_⟩
  · have htaken := h.taken
    unfold HeapTable.IsFree at htaken ⊢
    rwa [hkeep]
  · unfold Guards at hptr ⊢
    rw [heapAddressToBlock_congr hmarked.saddr]
    rcases hptr with habove | ⟨k, hge, hk, hstop⟩
    · exact Or.inl habove
    by_cases hin : (start : Int) ≤ k ∧ k < start + count
    · -- The chain covers the stop, and its own last entry stops the sweep.
      refine Or.inr ⟨start + count - 1, by omega, by omega, ?_⟩
      rw [hmarked.entries, if_pos (by omega), hasNext_chainEntry_iff]
      omega
    · exact Or.inr ⟨k, hge, hk, by rwa [hmarked.entries, if_neg hin]⟩

theorem Holds.malloc (h : Holds heap block) (size : Nat) :
    Spares block heap (heapMalloc heap size).2 := by
  have hshape := heapMalloc_shape heap size
  generalize heapMalloc heap size = result at hshape
  cases hshape with
  | fail => exact .refl h
  | marks _ hwindow _ hcount _ hmarked => exact h.marked hcount hwindow hmarked

theorem Holds.malloc_guards (h : Holds heap block) (size : Nat) :
    Guards (heapMalloc heap size).2 block (heapMalloc heap size).1 := by
  have hspares := h.malloc size
  have hshape := heapMalloc_shape heap size
  generalize heapMalloc heap size = result at hshape hspares
  cases hshape with
  | fail => exact h.guards_null
  | @marks start count after hstart hwindow hfree hcount _ hmarked =>
      have hlt := h.lt
      rw [Guards, heapAddressToBlock_congr hmarked.saddr,
        heapAddressToBlock_blockToAddress h.sized hstart]
      have hside : block < start ∨ start + count ≤ block := by
        by_contra hin
        exact h.taken (hwindow block (by omega) (by omega))
      have hne : block ≠ start := fun heq => h.taken (heq ▸ hfree)
      rcases hside with habove | hbelow
      · exact Or.inl (by omega)
      by_cases hzero : count = 0
      · by_cases habove : block < start
        · exact Or.inl (by omega)
        -- Nothing is marked, and the entry of a free block stops the sweep.
        refine Or.inr ⟨start, by omega, by omega, ?_⟩
        rw [hmarked.entries, if_neg (by omega), h.clean start hstart hfree]
        exact hasNext_free
      · refine Or.inr ⟨start + count - 1, by omega, by omega, ?_⟩
        rw [hmarked.entries, if_pos (by omega), hasNext_chainEntry_iff]
        omega

/-- No request makes the index of its last block overflow: the blocks of the pool are below `2^19`
and those of a request below `2^20`. -/
theorem HeapSound.end_le (h : HeapSound heap) {start : Nat} (hlt : start < heap.table.total)
    (size : Nat) : start + blockCount size ≤ 0x80000000 := by
  have hpool := h.pool
  have hsize := blockCount_lt size
  simp only [slobosHeapBlockSize] at hpool
  omega

theorem HeapSound.malloc_holds (h : HeapSound heap) (hpos : 0 < blockCount size)
    (hne : (heapMalloc heap size).1 ≠ 0) :
    ∃ block : Nat, (heapMalloc heap size).1 = heapBlockToAddress heap block ∧
      heap.table.IsFree block ∧ Holds (heapMalloc heap size).2 block := by
  obtain ⟨start, count, hgiven⟩ := heapMalloc_given hne
  have heq := hgiven.eq (h.end_le hgiven.lt size)
  refine ⟨start, hgiven.address, hgiven.free, h.marked hgiven.marked, hgiven.marked.total ▸ hgiven.lt, ?_⟩
  exact not_isFree_of_eq_chainEntry (by rw [hgiven.marked.entries, if_pos (by omega)])

end Malloc

/-! ### Releases -/

theorem HeapSound.free (h : HeapSound heap) (ptr : Nat) : HeapSound (heapFree heap ptr) := by
  have hswept := heapMarkBlocksFree_spec heap (heapAddressToBlock heap ptr)
  have hentry : ∀ i, (heapFree heap ptr).table.entries i = heapBlockTableEntryFree ∨
      (heapFree heap ptr).table.entries i = heap.table.entries i := by
    intro i
    by_cases hreach : Reaches heap.table (heapAddressToBlock heap ptr) i
    · exact Or.inl (hswept.clear i hreach)
    · exact Or.inr (hswept.frame i hreach)
  refine ⟨by rw [heapFree_saddr, h.saddr], by rw [heapFree_total]; exact h.pool, ?_, ?_⟩
  · intro i hi hfree
    rcases hentry i with hclear | hframe
    · exact hclear
    · unfold HeapTable.IsFree at hfree
      rw [hframe] at hfree ⊢
      exact h.clean i (by rwa [heapFree_total] at hi) hfree
  · obtain ⟨k, hge, hlt, hstop⟩ := h.lowStop
    refine ⟨k, hge, hlt, ?_⟩
    rcases hentry k with hclear | hframe
    · rw [hclear]
      exact hasNext_free
    · rwa [hframe]

theorem Guards.not_reaches (hguards : Guards heap block ptr) :
    ¬Reaches heap.table (heapAddressToBlock heap ptr) block := by
  rintro ⟨hge, -, hnext⟩
  rcases hguards with habove | ⟨k, hk, hlt, hstop⟩
  · omega
  · exact hstop (hnext k hk hlt)

theorem HeapSound.release_null (h : HeapSound heap) (block : Nat) :
    (heapFree heap 0).table.entries block = heap.table.entries block :=
  (heapMarkBlocksFree_spec heap _).frame block (@HeapSound.guards_null heap block h).not_reaches

theorem Holds.free (h : Holds heap block) (hguards : Guards heap block ptr) :
    Spares block heap (heapFree heap ptr) := by
  have hswept := heapMarkBlocksFree_spec heap (heapAddressToBlock heap ptr)
  have hkeep := hswept.frame block hguards.not_reaches
  refine ⟨⟨h.toHeapSound.free ptr, by rw [heapFree_total]; exact h.lt, ?_⟩, hkeep,
    fun other hother => ?_⟩
  · have htaken := h.taken
    unfold HeapTable.IsFree at htaken ⊢
    rwa [heapFree, hkeep]
  · unfold Guards at hother ⊢
    rw [heapAddressToBlock_congr (heapFree_saddr heap ptr)]
    rcases hother with habove | ⟨k, hge, hk, hstop⟩
    · exact Or.inl habove
    refine Or.inr ⟨k, hge, hk, ?_⟩
    by_cases hreach : Reaches heap.table (heapAddressToBlock heap ptr) k
    · rw [heapFree, hswept.clear k hreach]
      exact hasNext_free
    · rwa [heapFree, hswept.frame k hreach]

theorem HeapTable.IsFree.release (h : heap.table.IsFree block) (ptr : Nat) :
    (heapFree heap ptr).table.IsFree block := by
  have hswept := heapMarkBlocksFree_spec heap (heapAddressToBlock heap ptr)
  by_cases hreach : Reaches heap.table (heapAddressToBlock heap ptr) block
  · exact HeapTable.isFree_of_eq_free (hswept.clear block hreach)
  · unfold HeapTable.IsFree at h ⊢
    rwa [heapFree, hswept.frame block hreach]

/-- `OEMIdentifier` of the boot sector starts at `0x7c03`, below the table. -/
def BootSectorBelow (entries : Int → UInt8) : Prop := entries (-509) = 0x53

theorem kheapInit_entries (entries : Int → UInt8) {i : Int} (hi : i < 0) :
    (kheapInit entries).table.entries i = entries i := by
  have hneg : ¬0 ≤ i := by omega
  simp [kheapInit, heapCreate, heapValidateAlignment, heapValidateTable, kernelHeapTable, toUint32,
    addressSpace, slobosHeapAddress, slobosHeapSizeBytes, slobosHeapBlockSize, hneg]

theorem HeapInv.entries_of_nil (h : HeapInv heap []) {i : Nat} (hi : i < heap.table.total) :
    heap.table.entries i = heapBlockTableEntryFree :=
  h.decomposes.outside i hi (by simp)

theorem kheapInit_sound {entries : Int → UInt8} (h : BootSectorBelow entries) :
    HeapSound (kheapInit entries) where
  saddr := kheapInit_saddr entries
  pool := (kheapInit_inv entries).sized.pool
  clean := fun _ hi _ => (kheapInit_inv entries).entries_of_nil hi
  lowStop := by
    refine ⟨-509, by decide, by decide, ?_⟩
    rw [kheapInit_entries entries (by decide), h]
    decide

end SlobOS
