import SlobOS.Proof.Blocks

/-!
# Blocks taken one by one

A structure that fits into one block changes one entry of the table when it is allocated, and the same
entry when it is released. So what is left over of a row of allocations can be read off the table.
-/

namespace SlobOS

open Windows Tilings

/-- Between the two states a free block has been taken as a chain of its own. -/
structure TakesBlock (heap after : Heap) (block : Nat) : Prop where
  lt : block < heap.table.total
  free : heap.table.IsFree block
  entries : ∀ i : Int, after.table.entries i =
    if i = block then chainEntry 1 0 else heap.table.entries i
  total : after.table.total = heap.table.total
  saddr : after.saddr = heap.saddr

variable {heap after : Heap} {block size count ptr : Nat}

theorem chained_one_iff : Chained heap.table ⟨block, 1⟩ ↔
    block < heap.table.total ∧ heap.table.entries block = chainEntry 1 0 := by
  constructor
  · intro h
    exact ⟨h.inside, h.marked 0 Nat.one_pos⟩
  · rintro ⟨hlt, hentry⟩
    refine ⟨Nat.one_pos, hlt, fun k hk => ?_⟩
    obtain rfl : k = 0 := Nat.lt_one_iff.mp hk
    exact hentry

namespace TakesBlock

theorem chained (h : TakesBlock heap after block) : Chained after.table ⟨block, 1⟩ :=
  chained_one_iff.mpr ⟨h.total ▸ h.lt, by rw [h.entries, if_pos rfl]⟩

theorem not_isFree (h : TakesBlock heap after block) : ¬after.table.IsFree block :=
  not_isFree_of_eq_chainEntry (by rw [h.entries, if_pos rfl])

theorem isFree_iff (h : TakesBlock heap after block) {other : Nat} :
    after.table.IsFree other ↔ heap.table.IsFree other ∧ other ≠ block := by
  by_cases heq : other = block
  · rw [heq]
    exact iff_of_false h.not_isFree fun hfree => hfree.2 rfl
  · have hentry := h.entries other
    rw [if_neg (by omega)] at hentry
    rw [HeapTable.IsFree, HeapTable.IsFree, hentry]
    exact ⟨fun hfree => ⟨hfree, heq⟩, fun hfree => hfree.1⟩

theorem keeps (h : TakesBlock heap after block) {other : Nat}
    (hother : Chained heap.table ⟨other, 1⟩) : Chained after.table ⟨other, 1⟩ ∧ other ≠ block := by
  obtain ⟨hlt, hentry⟩ := chained_one_iff.mp hother
  have hne : other ≠ block := by
    rintro rfl
    exact not_isFree_of_eq_chainEntry hentry h.free
  refine ⟨chained_one_iff.mpr ⟨h.total ▸ hlt, ?_⟩, hne⟩
  rw [h.entries, if_neg (by omega)]
  exact hentry

theorem freeBlocks_iff (h : TakesBlock heap after block) (hsound : HeapSound heap)
    (hsound' : HeapSound after) : FreeBlocks heap (count + 1) ↔ FreeBlocks after count := by
  constructor
  · intro hfree
    obtain ⟨blocks, hnodup, hcount, hblocks⟩ := hfree.free
    refine ⟨hsound', blocks.erase block, hnodup.erase block, ?_, fun other hother => ?_⟩
    · rw [List.length_erase]
      split <;> omega
    · obtain ⟨hne, hmem⟩ := hnodup.mem_erase_iff.mp hother
      obtain ⟨hlt, hother⟩ := hblocks other hmem
      exact ⟨h.total ▸ hlt, h.isFree_iff.mpr ⟨hother, hne⟩⟩
  · intro hfree
    obtain ⟨blocks, hnodup, hcount, hblocks⟩ := hfree.free
    have hnew : block ∉ blocks := fun hmem => h.not_isFree (hblocks block hmem).2
    refine ⟨hsound, block :: blocks, List.nodup_cons.mpr ⟨hnew, hnodup⟩, ?_, ?_⟩
    · rw [List.length_cons]
      omega
    · intro other hother
      rcases List.mem_cons.mp hother with rfl | hmem
      · exact ⟨h.lt, h.free⟩
      · obtain ⟨hlt, hother⟩ := hblocks other hmem
        exact ⟨h.total ▸ hlt, (h.isFree_iff.mp hother).1⟩

end TakesBlock

/-- Between the two states these free blocks have been taken, each as a chain of its own. -/
structure TakesBlocks (heap after : Heap) (blocks : List Nat) : Prop where
  nodup : blocks.Nodup
  lt : ∀ block ∈ blocks, block < heap.table.total
  free : ∀ block ∈ blocks, heap.table.IsFree block
  entries : ∀ i : Int, after.table.entries i =
    if ∃ block ∈ blocks, i = (block : Nat) then chainEntry 1 0 else heap.table.entries i
  total : after.table.total = heap.table.total
  saddr : after.saddr = heap.saddr

namespace TakesBlocks

variable {middle : Heap} {blocks : List Nat}

theorem nil (heap : Heap) : TakesBlocks heap heap [] where
  nodup := List.nodup_nil
  lt := by simp
  free := by simp
  entries := by simp
  total := rfl
  saddr := rfl

theorem chained (h : TakesBlocks heap after blocks) (hmem : block ∈ blocks) :
    Chained after.table ⟨block, 1⟩ := by
  refine chained_one_iff.mpr ⟨h.total ▸ h.lt block hmem, ?_⟩
  rw [h.entries, if_pos ⟨block, hmem, rfl⟩]

theorem cons (h : TakesBlocks heap middle blocks) (hlast : TakesBlock middle after block) :
    TakesBlocks heap after (block :: blocks) := by
  have hnew : block ∉ blocks := by
    intro hmem
    exact (hlast.keeps (h.chained hmem)).2 rfl
  have hentry : middle.table.entries block = heap.table.entries block := by
    rw [h.entries]
    apply if_neg
    rintro ⟨other, hmem, heq⟩
    exact hnew (Int.ofNat_inj.mp heq ▸ hmem)
  refine ⟨List.nodup_cons.mpr ⟨hnew, h.nodup⟩, ?_, ?_, fun i => ?_, hlast.total.trans h.total,
    hlast.saddr.trans h.saddr⟩
  · intro other hother
    rcases List.mem_cons.mp hother with rfl | hmem
    · exact h.total ▸ hlast.lt
    · exact h.lt other hmem
  · intro other hother
    rcases List.mem_cons.mp hother with rfl | hmem
    · have hfree := hlast.free
      rwa [HeapTable.IsFree, hentry] at hfree
    · exact h.free other hmem
  · rw [hlast.entries, h.entries]
    by_cases heq : i = block
    · rw [if_pos heq, if_pos ⟨block, List.mem_cons_self, heq⟩]
    · rw [if_neg heq]
      simp only [List.mem_cons, exists_eq_or_imp, heq, false_or]

end TakesBlocks

theorem FreeBlocks.zero (hsound : HeapSound heap) : FreeBlocks heap 0 :=
  ⟨hsound, [], List.nodup_nil, Nat.le_refl 0, by simp⟩

theorem freeBlocks_one_iff (hsound : HeapSound heap) :
    FreeBlocks heap 1 ↔ ∃ block < heap.table.total, heap.table.IsFree block := by
  constructor
  · intro h
    obtain ⟨blocks, -, hcount, hblocks⟩ := h.free
    obtain ⟨block, hmem⟩ := List.exists_mem_of_length_pos (Nat.lt_of_lt_of_le Nat.one_pos hcount)
    exact ⟨block, hblocks block hmem⟩
  · rintro ⟨block, hblock⟩
    exact ⟨hsound, [block], List.nodup_singleton block, Nat.le_refl 1, by simpa using hblock⟩

theorem heapMalloc_none (hsound : HeapSound heap) (hone : blockCount size = 1) (hfree : ¬FreeBlocks heap 1) :
    (heapMalloc heap size).1 = 0 := by
  have hnone := mt (freeBlocks_one_iff hsound).mpr hfree
  have hcases := heapMallocBlocks_cases heap 1
  have hmalloc : heapMalloc heap size = heapMallocBlocks heap 1 :=
    congrArg (heapMallocBlocks heap) hone
  rw [hmalloc]
  generalize heapMallocBlocks heap 1 = result at hcases
  cases hcases with
  | fail => rfl
  | @fit start _ hfirst =>
      have hinside := hfirst.inside
      exact absurd ⟨start, by omega, hfirst.window start (Nat.le_refl _) (by omega)⟩ hnone
  | @short start hshort =>
      have hlt := hshort.lt
      exact absurd ⟨start, hlt, hshort.run.window start (Nat.le_refl _) (by omega)⟩ hnone

theorem heapMalloc_single (hsound : HeapSound heap) (hone : blockCount size = 1) :
    (¬FreeBlocks heap 1 ∧ (heapMalloc heap size).1 = 0) ∨
      ∃ block : Nat, (heapMalloc heap size).1 = heapBlockToAddress heap block ∧
        TakesBlock heap (heapMalloc heap size).2 block := by
  by_cases hfree : FreeBlocks heap 1
  · obtain ⟨block, hlt, hblock⟩ := (freeBlocks_one_iff hsound).mp hfree
    obtain ⟨start, hptr, hstart, hstart', hmarked⟩ := heapMalloc_one hsound hone hlt hblock
    refine Or.inr ⟨start, hptr, hstart, hstart', fun i => ?_, hmarked.total, hmarked.saddr⟩
    rw [hmarked.entries]
    by_cases heq : i = start
    · rw [if_pos heq, if_pos (by omega), heq, Int.sub_self]
      rfl
    · rw [if_neg heq, if_neg (by omega)]
  · exact Or.inl ⟨hfree, heapMalloc_none hsound hone hfree⟩

theorem heapFree_single (hsound : HeapSound heap) (h : Chained heap.table ⟨block, 1⟩) (i : Int) :
    (heapFree heap (heapBlockToAddress heap block)).table.entries i =
      if i = block then heapBlockTableEntryFree else heap.table.entries i := by
  rw [h.free_entries hsound.sized]
  apply if_congr _ rfl rfl
  simp only [Span.stop]
  omega

theorem heapFree_single_keeps (hsound : HeapSound heap) (h : Chained heap.table ⟨block, 1⟩)
    {other : Nat} (hother : Chained heap.table ⟨other, 1⟩) (hne : other ≠ block) :
    Chained (heapFree heap (heapBlockToAddress heap block)).table ⟨other, 1⟩ := by
  obtain ⟨hlt, hentry⟩ := chained_one_iff.mp hother
  refine chained_one_iff.mpr ⟨by rwa [heapFree_total], ?_⟩
  rw [heapFree_single hsound h, if_neg (by omega)]
  exact hentry

/-- Between the two states these blocks have been released, and no other entry has changed. -/
structure Releases (heap after : Heap) (blocks : List Nat) : Prop where
  sound : HeapSound after
  entries : ∀ i : Int, after.table.entries i =
    if ∃ block ∈ blocks, i = (block : Nat) then heapBlockTableEntryFree else heap.table.entries i
  total : after.table.total = heap.table.total

namespace Releases

variable {middle : Heap} {blocks : List Nat}

theorem nil (hsound : HeapSound heap) : Releases heap heap [] where
  sound := hsound
  entries := by simp
  total := rfl

theorem cons (h : Releases heap middle blocks) (hchained : Chained heap.table ⟨block, 1⟩)
    (hnew : block ∉ blocks) :
    Releases heap (heapFree middle (heapBlockToAddress middle block)) (block :: blocks) := by
  obtain ⟨hlt, hentry⟩ := chained_one_iff.mp hchained
  have hsame : middle.table.entries block = heap.table.entries block := by
    rw [h.entries]
    apply if_neg
    rintro ⟨other, hmem, heq⟩
    exact hnew (Int.ofNat_inj.mp heq ▸ hmem)
  have hmiddle : Chained middle.table ⟨block, 1⟩ :=
    chained_one_iff.mpr ⟨h.total ▸ hlt, hsame.trans hentry⟩
  refine ⟨h.sound.free _, fun i => ?_, (heapFree_total _ _).trans h.total⟩
  rw [heapFree_single h.sound hmiddle, h.entries]
  by_cases heq : i = block
  · rw [if_pos heq, if_pos ⟨block, List.mem_cons_self, heq⟩]
  · rw [if_neg heq]
    simp only [List.mem_cons, exists_eq_or_imp, heq, false_or]

end Releases

def takeBlocks : Nat → Heap → Heap
  | 0, heap => heap
  | count + 1, heap => takeBlocks count (heapMallocBlocks heap 1).2

theorem takeBlocks_succ (count : Nat) (heap : Heap) :
    takeBlocks (count + 1) heap = (heapMallocBlocks (takeBlocks count heap) 1).2 := by
  induction count generalizing heap with
  | zero => rfl
  | succ count ih => rw [takeBlocks, ih, takeBlocks]

namespace Kernel

open Faulting

variable {kernel after : Kernel}

theorem kzalloc_oneBlock (hsound : HeapSound kernel.heap) (hpos : 0 < size)
    (hsize : size ≤ slobosHeapBlockSize) (h : Ends (kzalloc size) kernel ptr after) :
    (¬FreeBlocks kernel.heap 1 ∧ ptr = 0 ∧ after = kernel) ∨
      ∃ block : Nat, ptr ≠ 0 ∧ ptr = heapBlockToAddress kernel.heap block ∧
        TakesBlock kernel.heap after.heap block ∧ HeapSound after.heap := by
  obtain ⟨hptr, hheap, -, -⟩ := ends_kzalloc h
  rcases heapMalloc_single hsound (blockCount_one hpos hsize) with ⟨hnone, hnull⟩ | ⟨block, heq, htakes⟩
  · obtain rfl : ptr = 0 := hptr.trans hnull
    exact Or.inl ⟨hnone, rfl, ((kzalloc_null hsound).mp h).2⟩
  · refine Or.inr ⟨block, ?_, hptr.trans heq, hheap ▸ htakes, hheap ▸ hsound.malloc size⟩
    rw [hptr, heq]
    exact hsound.block_ne_null htakes.lt

theorem kzalloc_none (hsound : HeapSound kernel.heap) (hpos : 0 < size) (hsize : size ≤ slobosHeapBlockSize)
    (hfree : ¬FreeBlocks kernel.heap 1) :
    (heapMalloc kernel.heap size).1 = 0 ∧ Ends (kzalloc size) kernel 0 kernel := by
  have hnull := heapMalloc_none hsound (blockCount_one hpos hsize) hfree
  exact ⟨hnull, (kzalloc_null hsound).mpr ⟨hnull, rfl⟩⟩

structure TakesFree (heap after : Heap) (taken : Nat) : Prop where
  sound : HeapSound after
  left : ∀ count, FreeBlocks heap (taken + count) ↔ FreeBlocks after count

theorem TakesFree.trans {heap middle after : Heap} {taken taken' : Nat}
    (h : TakesFree heap middle taken) (h' : TakesFree middle after taken') :
    TakesFree heap after (taken + taken') where
  sound := h'.sound
  left count := by rw [Nat.add_assoc, h.left, h'.left]

theorem kzalloc_counted (hsound : HeapSound kernel.heap) (hpos : 0 < size)
    (hsize : size ≤ slobosHeapBlockSize) (h : Ends (kzalloc size) kernel ptr after) :
    (ptr = 0 ∧ ¬FreeBlocks kernel.heap 1 ∧ after = kernel) ∨
      (ptr ≠ 0 ∧ TakesFree kernel.heap after.heap 1) := by
  rcases kzalloc_oneBlock hsound hpos hsize h with
    ⟨hnone, hnull, hsame⟩ | ⟨block, hne, -, htakes, hsound'⟩
  · exact Or.inl ⟨hnull, hnone, hsame⟩
  · refine Or.inr ⟨hne, hsound', fun count => ?_⟩
    rw [Nat.add_comm]
    exact htakes.freeBlocks_iff hsound hsound'

/-- These blocks have been taken one after the other, and nothing else has happened to the heap. -/
structure TakenRow (before : Heap) (blocks : List Nat) (heap : Heap) : Prop where
  takes : TakesBlocks before heap blocks
  sound : HeapSound heap
  same : heap = takeBlocks blocks.length before
  left : ∀ count, FreeBlocks before (blocks.length + count) ↔ FreeBlocks heap count

namespace TakenRow

variable {before heap : Heap} {blocks : List Nat}

theorem nil (hsound : HeapSound heap) : TakenRow heap [] heap where
  takes := .nil heap
  sound := hsound
  same := rfl
  left count := by rw [List.length_nil, Nat.zero_add]

theorem kzalloc (h : TakenRow before blocks kernel.heap) (hpos : 0 < size)
    (hsize : size ≤ slobosHeapBlockSize) (halloc : Ends (Kernel.kzalloc size) kernel ptr after)
    (hne : ptr ≠ 0) : ∃ block : Nat, ptr = heapBlockToAddress before block ∧
      TakenRow before (block :: blocks) after.heap := by
  rcases kzalloc_oneBlock h.sound hpos hsize halloc with ⟨-, hnull, -⟩ | ⟨block, -, hptr, htakes, hsound⟩
  · exact absurd hnull hne
  refine ⟨block, ?_, h.takes.cons htakes, hsound, ?_, fun count => ?_⟩
  · rw [hptr, heapBlockToAddress_congr h.takes.saddr]
  · rw [(ends_kzalloc halloc).2.1, List.length_cons, takeBlocks_succ, ← h.same, heapMalloc]
    exact congrArg (fun blocks => (heapMallocBlocks kernel.heap blocks).2) (blockCount_one hpos hsize)
  · rw [← htakes.freeBlocks_iff h.sound hsound, ← h.left, List.length_cons, Nat.add_assoc,
      Nat.add_comm 1]

theorem kzalloc_succeeds {count : Nat} (h : TakenRow before blocks kernel.heap) (hpos : 0 < size)
    (hsize : size ≤ slobosHeapBlockSize) (hfree : FreeBlocks before count)
    (hlt : blocks.length < count) : ∃ ptr after,
      Ends (Kernel.kzalloc size) kernel ptr after ∧ ptr ≠ 0 := by
  have hleft := (h.left 1).mp (hfree.mono hlt)
  obtain ⟨ptr, after, halloc, hne, -⟩ := kzalloc_block hleft hpos hsize
  exact ⟨ptr, after, halloc, hne⟩

theorem holds {block : Nat} (h : TakenRow before blocks heap) (hmem : block ∈ blocks) :
    Holds heap block := by
  obtain ⟨hlt, hentry⟩ := chained_one_iff.mp (h.takes.chained hmem)
  exact ⟨h.sound, hlt, not_isFree_of_eq_chainEntry hentry⟩

theorem address {block : Nat} (h : TakenRow before blocks heap) (hmem : block ∈ blocks) :
    heapBlockToAddress before block = slobosHeapAddress + block * slobosHeapBlockSize :=
  (heapBlockToAddress_congr h.takes.saddr block).symm.trans (h.sound.address (h.holds hmem).lt)

theorem freeBlocks (h : TakenRow before blocks heap) : FreeBlocks before blocks.length := by
  apply (h.left 0).mpr
  exact .zero h.sound

end TakenRow

end Kernel

end SlobOS
