import SlobOS.PhysicalMaps
import SlobOS.Proof.Allocations

/-!
# What keeps a page directory

A call keeps a chunk when its blocks stay in use and the words of the chunk structure and of the
directory stay as they are. Mapping stores to the tables alone, and the allocator to other blocks.
-/

namespace SlobOS

namespace Physical

open Faulting Kernel

/-- The blocks of a chunk are in use, and the chunk and the directory name them. -/
structure Owned (kernel : Kernel) (b : ChunkBlocks) : Prop where
  holds : ∀ block ∈ b.blocks, Holds kernel.heap block
  chunk : word kernel (blockAddress b.chunk) 0 = blockAddress b.directory
  names : ∀ i < pagingTotalEntriesPerTable,
    tableAddress (word kernel (blockAddress b.directory) i) = blockAddress (b.table i)

/-- The blocks of a chunk stay in use, and the chunk structure and the directory stay as they are. -/
structure Leaves (b : ChunkBlocks) (kernel after : Kernel) : Prop where
  spares : ∀ block ∈ b.blocks, Holds kernel.heap block → Spares block kernel.heap after.heap
  chunk : SameBytes (blockAddress b.chunk) paging4gbChunkSize kernel after
  directory : SameBytes (blockAddress b.directory) pageTableSize kernel after

variable {b : ChunkBlocks} {kernel middle after : Kernel} {virt phys physEnd flags val ptr size : Nat}
  {res : Int}

instance : Frame (Leaves b) where
  refl _ := ⟨fun _ _ hblock => .refl hblock, Frame.refl _, Frame.refl _⟩
  trans h h' := by
    refine ⟨fun block hmem hblock => ?_, Frame.trans h.chunk h'.chunk,
      Frame.trans h.directory h'.directory⟩
    have hspares := h.spares block hmem hblock
    exact hspares.trans (h'.spares block hmem hspares.holds)

theorem Leaves.entry (h : Leaves b kernel after) {i : Nat} (hi : i < pagingTotalEntriesPerTable) :
    word after (blockAddress b.directory) i = word kernel (blockAddress b.directory) i :=
  h.directory.word (entryCell_le hi) (b.blockAddress_below b.directory_mem)

theorem Leaves.chunkWord (h : Leaves b kernel after) :
    word after (blockAddress b.chunk) 0 = word kernel (blockAddress b.chunk) 0 := by
  have hbelow := b.blockAddress_below b.chunk_mem
  refine h.chunk.word (show 4 * 0 + 4 ≤ paging4gbChunkSize by decide) ?_
  simp only [slobosHeapBlockSize, paging4gbChunkSize] at hbelow ⊢
  omega

theorem Owned.leaves (h : Owned kernel b) (hleaves : Leaves b kernel after) : Owned after b where
  holds block hmem := (hleaves.spares block hmem (h.holds block hmem)).holds
  chunk := hleaves.chunkWord.trans h.chunk
  names i hi := by
    rw [hleaves.entry hi]
    exact h.names i hi

theorem Owned.represents (h : Owned kernel b) : Represents kernel b (tablesOf kernel) :=
  ⟨h.chunk, h.names, fun _ _ => rfl, fun _ _ _ _ => rfl⟩

theorem Built.owned {flags : UInt8} {start : Kernel} (hbuilt : Built start kernel flags b)
    (hrow : TakenRow start.heap b.blocks kernel.heap) : Owned kernel b := by
  refine ⟨fun block hmem => hrow.holds hmem, hbuilt.chunk, fun i hi => ?_⟩
  rw [hbuilt.entry i hi, tableAddress_entry]

theorem Built.entry_lt {flags : UInt8} {start : Kernel} (hbuilt : Built start kernel flags b)
    (htotal : start.heap.table.total ≤ slobosHeapSizeBytes / slobosHeapBlockSize) {i : Nat}
    (hi : i < pagingTotalEntriesPerTable) : word kernel (blockAddress b.directory) i < 0x10000000 := by
  have hlt := hbuilt.takes.lt _ (b.table_mem hi)
  have hbelow : blockAddress (b.table i) < 0x10000000 := by
    simp only [blockAddress, slobosHeapAddress, slobosHeapBlockSize, slobosHeapSizeBytes] at htotal ⊢
    omega
  rw [hbuilt.entry i hi, Nat.or_assoc]
  refine Nat.or_lt_two_pow (n := 28) hbelow (Nat.or_lt_two_pow (n := 28) ?_ (by decide))
  exact Nat.lt_trans (flags_lt flags) (by decide)

theorem Built.entry_odd_iff {flags : UInt8} {start : Kernel} (hbuilt : Built start kernel flags b)
    {i : Nat} (hi : i < pagingTotalEntriesPerTable) :
    word kernel (blockAddress b.directory) i % 2 = 1 ↔ flags.toNat % 2 = 1 := by
  have heven : ¬blockAddress (b.table i) % 2 = 1 := by
    simp only [blockAddress, slobosHeapAddress, slobosHeapBlockSize]
    omega
  rw [hbuilt.entry i hi, Nat.or_mod_two_eq_one, Nat.or_mod_two_eq_one, or_iff_left (by decide),
    or_iff_right heven]

theorem Built.entry_odd {flags : UInt8} {start : Kernel} (hbuilt : Built start kernel flags b)
    (hpresent : flags.toNat % 2 = 1) {i : Nat} (hi : i < pagingTotalEntriesPerTable) :
    word kernel (blockAddress b.directory) i % 2 = 1 :=
  (hbuilt.entry_odd_iff hi).mpr hpresent

theorem Owned.load (h : Owned kernel b) {directory : Nat} :
    Ends (loadWord (blockAddress b.chunk) 0) kernel directory after ↔
      directory = blockAddress b.directory ∧ after = kernel := by
  rw [ends_loadWord, h.chunk]
  exact and_iff_right (blockAddress_ne_zero _)

theorem Leaves.guards (h : Leaves b kernel after) (howned : Owned kernel b)
    (hguards : ∀ block ∈ b.blocks, Guards kernel.heap block ptr) :
    ∀ block ∈ b.blocks, Guards after.heap block ptr := fun block hmem =>
  (h.spares block hmem (howned.holds block hmem)).guards ptr (hguards block hmem)

theorem pagingGet_same {directory result : Nat}
    (h : Ends (pagingGet directory virt) kernel result after) : after = kernel := by
  obtain ⟨entry, _, hload, hrest⟩ := ends_bind.mp h
  obtain ⟨-, rfl, rfl⟩ := ends_loadWord.mp hload
  exact (ends_loadWord.mp hrest).2.2

theorem storeCell_leaves {block index : Nat} (hchunk : b.chunk ≠ block) (hdirectory : b.directory ≠ block)
    (hindex : index < pagingTotalEntriesPerTable) (val : Nat) (kernel : Kernel) :
    Leaves b kernel (putMemory (blockAddress block + 4 * index) (wordBytes val) kernel) where
  spares _ _ hblock := .refl hblock
  chunk := (storeCell_sameBytes hchunk (entryCell_le hindex) val kernel).mono (by decide)
  directory := storeCell_sameBytes hdirectory (entryCell_le hindex) val kernel

theorem pagingSet_leaves (howned : Owned kernel b) (hvirt : virt < addressSpace)
    (h : Ends (pagingSet (blockAddress b.directory) virt val) kernel res after) :
    Leaves b kernel after := by
  by_cases haligned : pagingIsAligned virt
  · have hpage := page_lt hvirt
    obtain ⟨page, rfl⟩ := aligned_page (beq_iff_eq.mp haligned)
    rw [Nat.mul_div_cancel _ (by decide)] at hpage
    have hi := directoryIndex_lt hpage
    simp only [pagingSet, pagingIsAligned_page, pagingGetIndexes_page] at h
    obtain ⟨entry, _, hload, hrest⟩ := ends_bind.mp h
    obtain ⟨-, rfl, rfl⟩ := ends_loadWord.mp hload
    obtain ⟨_, _, hstore, hlast⟩ := ends_bind.mp hrest
    obtain ⟨-, rfl⟩ := ends_storeWord.mp hstore
    obtain ⟨-, rfl⟩ := ends_pure.mp hlast
    rw [howned.names _ hi]
    exact storeCell_leaves (b.chunk_ne_table hi) (b.directory_ne_table hi)
      (Nat.mod_lt _ (by decide)) val _
  · have hfalse : pagingIsAligned virt = false := Bool.eq_false_iff.mpr haligned
    simp only [pagingSet, hfalse] at h
    obtain ⟨-, rfl⟩ := ends_pure.mp h
    exact Frame.refl _

theorem pagingMap_leaves (howned : Owned kernel b) (hvirt : virt < addressSpace)
    (h : Ends (pagingMap (blockAddress b.chunk) virt phys flags) kernel res after) :
    Leaves b kernel after := by
  unfold pagingMap at h
  split at h
  · obtain ⟨-, rfl⟩ := ends_pure.mp h
    exact Frame.refl _
  · obtain ⟨directory, _, hload, hset⟩ := ends_bind.mp h
    obtain ⟨rfl, rfl⟩ := howned.load.mp hload
    exact pagingSet_leaves howned hvirt hset

theorem pagingMapRange_leaves {count : Nat} (howned : Owned kernel b) (hvirt : virt < addressSpace)
    (h : Ends (pagingMapRange (blockAddress b.chunk) virt phys count flags) kernel res after) :
    Leaves b kernel after := by
  induction count generalizing kernel virt phys with
  | zero =>
      obtain ⟨-, rfl⟩ := ends_pure.mp h
      exact Frame.refl _
  | succ count ih =>
      obtain ⟨code, middle, hmap, hrest⟩ := ends_bind.mp h
      have hleaves := pagingMap_leaves howned hvirt hmap
      rcases ends_ite.mp hrest with ⟨-, hrest⟩ | ⟨-, hrest⟩
      · obtain ⟨-, rfl⟩ := ends_pure.mp hrest
        exact hleaves
      · exact Frame.trans hleaves (ih (howned.leaves hleaves) (toUint32_lt _) hrest)

theorem pagingMapTo_leaves (howned : Owned kernel b) (hvirt : virt < addressSpace)
    (h : Ends (pagingMapTo (blockAddress b.chunk) virt phys physEnd flags) kernel res after) :
    Leaves b kernel after := by
  have hrefused : ∀ {code : Int}, Ends (pure code : KernelM Int) kernel res after →
      Leaves b kernel after := by
    intro code hpure
    obtain ⟨-, rfl⟩ := ends_pure.mp hpure
    exact Frame.refl _
  unfold pagingMapTo at h
  split_ifs at h
  · exact hrefused h
  · exact hrefused h
  · exact hrefused h
  · exact hrefused h
  · exact pagingMapRange_leaves howned hvirt h

theorem kmalloc_leaves (h : Ends (kmalloc size) kernel ptr after) : Leaves b kernel after := by
  obtain ⟨-, rfl⟩ := ends_kmalloc.mp h
  exact ⟨fun _ _ hblock => hblock.malloc size, fun _ _ => rfl, fun _ _ => rfl⟩

theorem kzalloc_leaves (howned : Owned kernel b) (h : Ends (kzalloc size) kernel ptr after) :
    Leaves b kernel after where
  spares _ _ hblock := (kzalloc_spares h hblock).1
  chunk := (kzalloc_sameBytes h (howned.holds _ b.chunk_mem)).mono (by decide)
  directory := kzalloc_sameBytes h (howned.holds _ b.directory_mem)

theorem kfree_leaves {result : Unit} (hguards : ∀ block ∈ b.blocks, Guards kernel.heap block ptr)
    (h : Ends (kfree ptr) kernel result after) : Leaves b kernel after := by
  obtain rfl := ends_kfree.mp h
  exact ⟨fun block hmem hblock => hblock.free (hguards block hmem), fun _ _ => rfl, fun _ _ => rfl⟩

theorem kzalloc_other (howned : Owned kernel b) (h : Ends (kzalloc size) kernel ptr after)
    (hne : ptr ≠ 0) : ∃ block, ptr = blockAddress block ∧ block ∉ b.blocks ∧
      blockAddress block + slobosHeapBlockSize ≤ addressSpace := by
  have hsound := (howned.holds _ b.chunk_mem).toHeapSound
  have htotal := hsound.sized.total_lt
  obtain ⟨rfl, -, -, -⟩ := ends_kzalloc h
  obtain ⟨start, count, hgiven⟩ := heapMalloc_given hne
  have hlt := hgiven.lt
  refine ⟨start, hgiven.address.trans (hsound.address hlt),
    fun hmem => (howned.holds start hmem).taken hgiven.free, ?_⟩
  simp only [blockAddress, slobosHeapAddress, slobosHeapBlockSize, addressSpace]
  omega

end Physical

end SlobOS
