import SlobOS.Proof.PhysicalChunks

/-!
# The copy of a string through a page directory

The string is copied to a buffer of the kernel that the directory of the task maps to itself, and from
there to its place. Only the place is the caller's choice.
-/

namespace SlobOS

namespace Physical

open Faulting Kernel

/-- The address is none of the directory or of the chunk structure. -/
def OutsideChunk (chunk directory address : Nat) : Prop :=
  ¬(chunk ≤ address ∧ address < chunk + paging4gbChunkSize) ∧
    ¬(directory ≤ address ∧ address < directory + pageTableSize)

variable {b : ChunkBlocks} {kernel after : Kernel} {place : Nat → Kernel → Option Nat}
  {address dest src virt phys val : Nat} {byte : UInt8} {res : Int}

@[simp]
theorem ends_storeByte {result : Unit} : Ends (storeByte place address byte) kernel result after ↔
    ∃ physical, place (toUint32 address) kernel = some physical ∧
      after = putMemory physical [byte] kernel := by
  rw [storeByte, ends_get_bind]
  cases place (toUint32 address) kernel with
  | none => exact iff_of_false ends_throw (by simp)
  | some physical => simp

@[simp]
theorem ends_loadByte {result : UInt8} : Ends (loadByte place address) kernel result after ↔
    ∃ physical, place (toUint32 address) kernel = some physical ∧ result = bytes kernel physical ∧
      after = kernel := by
  rw [loadByte, ends_get_bind]
  cases place (toUint32 address) kernel with
  | none => exact iff_of_false ends_throw (by simp)
  | some physical => simp

theorem storeByte_leaves {physical : Nat}
    (h : OutsideChunk (blockAddress b.chunk) (blockAddress b.directory) physical) (byte : UInt8)
    (kernel : Kernel) : Leaves b kernel (putMemory physical [byte] kernel) := by
  obtain ⟨hchunk, hdirectory⟩ := h
  refine ⟨fun _ _ hblock => .refl hblock, putMemory_sameBytes ?_ kernel,
    putMemory_sameBytes ?_ kernel⟩
  · simp only [Disjoint, List.length_singleton]
    omega
  · simp only [Disjoint, List.length_singleton]
    omega

/-- Where a string is stored there is neither the chunk structure nor the directory, under a condition
that the stores keep. -/
def StoresSafely (b : ChunkBlocks) (place : Nat → Kernel → Option Nat) (dest count : Nat)
    (cond : Kernel → Prop) : Prop :=
  ∀ kernel j physical, cond kernel → j ≤ count → place (toUint32 (dest + j)) kernel = some physical →
    OutsideChunk (blockAddress b.chunk) (blockAddress b.directory) physical ∧
      ∀ byte, cond (putMemory physical [byte] kernel)

theorem StoresSafely.store {cond : Kernel → Prop} {j count : Nat} {result : Unit}
    (hsafe : StoresSafely b place dest count cond) (hcond : cond kernel) (hle : j ≤ count)
    (h : Ends (storeByte place (dest + j) byte) kernel result after) :
    Leaves b kernel after ∧ cond after := by
  obtain ⟨physical, hplace, rfl⟩ := ends_storeByte.mp h
  obtain ⟨houtside, hkept⟩ := hsafe kernel j physical hcond hle hplace
  exact ⟨storeByte_leaves houtside byte kernel, hkept byte⟩

theorem strncpyLoop_leaves {cond : Kernel → Prop} {left i count : Nat} {result : Unit}
    (hsafe : StoresSafely b place dest count cond) (hcond : cond kernel) (hle : i + left ≤ count)
    (h : Ends (strncpyLoop place dest src left i) kernel result after) :
    Leaves b kernel after ∧ cond after := by
  induction left generalizing kernel i with
  | zero => exact hsafe.store hcond hle h
  | succ left ih =>
      obtain ⟨byte, _, hload, hrest⟩ := ends_bind.mp h
      obtain ⟨-, -, -, rfl⟩ := ends_loadByte.mp hload
      rcases ends_ite.mp hrest with ⟨-, hlast⟩ | ⟨-, hrest⟩
      · exact hsafe.store hcond (by omega) hlast
      · obtain ⟨_, middle, hfirst, hlater⟩ := ends_bind.mp hrest
        obtain ⟨hleaves, hmiddle⟩ := hsafe.store hcond (by omega) hfirst
        obtain ⟨hleaves', hafter⟩ := ih hmiddle (by omega) hlater
        exact ⟨Frame.trans hleaves hleaves', hafter⟩

/-- A block that is not one of the chunk, and that its directory maps to itself. -/
structure BlockMapped (kernel : Kernel) (b : ChunkBlocks) (block : Nat) : Prop where
  names : ∀ i < pagingTotalEntriesPerTable,
    tableAddress (word kernel (blockAddress b.directory) i) = blockAddress (b.table i)
  page : pageWord kernel (blockAddress b.directory) (blockAddress block / pagingPageSize) =
    blockAddress block ||| 7

variable {block j : Nat}

theorem walk_iff {physical : Nat} : walk (blockAddress block) virt kernel = some physical ↔
    (word kernel (blockAddress block) (virt / pagingPageSize / pagingTotalEntriesPerTable) % 2 = 1 ∧
      pageWord kernel (blockAddress block) (virt / pagingPageSize) % 2 = 1) ∧
    tableAddress (pageWord kernel (blockAddress block) (virt / pagingPageSize)) +
      virt % pagingPageSize = physical := by
  have hbase : tableAddress (blockAddress block) = blockAddress block := blockAddress_page block
  have hindex : virt / (pagingTotalEntriesPerTable * pagingPageSize) =
      virt / pagingPageSize / pagingTotalEntriesPerTable := by
    rw [Nat.div_div_eq_div_mul, Nat.mul_comm]
  simp only [walk, hbase, hindex, pageWord, Option.ite_none_right_eq_some, Option.some.injEq]

theorem BlockMapped.walk (h : BlockMapped kernel b block)
    (hbelow : blockAddress block + slobosHeapBlockSize ≤ addressSpace) (hj : j < slobosHeapBlockSize)
    {physical : Nat} (hwalk : walk (blockAddress b.directory) (toUint32 (blockAddress block + j)) kernel =
      some physical) : physical = blockAddress block + j := by
  obtain ⟨hpage, hoffset⟩ := @blockAddress_add block j hj
  rw [blockAddress_offset hbelow hj] at hwalk
  obtain ⟨-, hphysical⟩ := walk_iff.mp hwalk
  rw [hpage, hoffset, h.page, tableAddress_or (blockAddress_aligned block) (by decide)] at hphysical
  exact hphysical.symm

theorem BlockMapped.store (h : BlockMapped kernel b block) (hblock : block ∉ b.blocks)
    (hbelow : blockAddress block + slobosHeapBlockSize ≤ addressSpace) (hj : j < slobosHeapBlockSize)
    (byte : UInt8) : BlockMapped (putMemory (blockAddress block + j) [byte] kernel) b block := by
  have hsame : ∀ {other}, other ∈ b.blocks → ∀ i < pagingTotalEntriesPerTable,
      word (putMemory (blockAddress block + j) [byte] kernel) (blockAddress other) i =
        word kernel (blockAddress other) i := by
    intro other hmem i hi
    have hne : other ≠ block := fun heq => hblock (heq ▸ hmem)
    have hbytes : SameBytes (blockAddress other) slobosHeapBlockSize kernel
        (putMemory (blockAddress block + j) [byte] kernel) :=
      putMemory_sameBytes ((blockAddress_disjoint hne).mono (Nat.le_refl _) (Nat.le_refl _)
        (Nat.le_add_right _ _) (by rw [List.length_singleton]; omega)) kernel
    exact hbytes.word (entryCell_le hi) (b.blockAddress_below hmem)
  have hpage := directoryIndex_lt (page_lt (blockAddress_lt hbelow))
  constructor
  · intro i hi
    rw [hsame b.directory_mem i hi]
    exact h.names i hi
  · have hword := h.page
    rw [pageWord, h.names _ hpage] at hword
    rw [pageWord, hsame b.directory_mem _ hpage, h.names _ hpage,
      hsame (b.table_mem hpage) _ (Nat.mod_lt _ (by decide))]
    exact hword

theorem outsideChunk_block (hblock : block ∉ b.blocks) (hj : j < slobosHeapBlockSize) :
    OutsideChunk (blockAddress b.chunk) (blockAddress b.directory) (blockAddress block + j) := by
  have hchunk : b.chunk ≠ block := fun heq => hblock (heq ▸ b.chunk_mem)
  have hdirectory : b.directory ≠ block := fun heq => hblock (heq ▸ b.directory_mem)
  simp only [OutsideChunk, blockAddress, slobosHeapBlockSize, paging4gbChunkSize, pageTableSize] at *
  omega

theorem storesSafely_walk {count : Nat} (hblock : block ∉ b.blocks)
    (hbelow : blockAddress block + slobosHeapBlockSize ≤ addressSpace)
    (hcount : count < slobosHeapBlockSize) :
    StoresSafely b (walk (blockAddress b.directory)) (blockAddress block) count
      (fun kernel => BlockMapped kernel b block) := by
  intro kernel j physical hmapped hj hwalk
  obtain rfl := hmapped.walk hbelow (by omega) hwalk
  exact ⟨outsideChunk_block hblock (by omega), hmapped.store hblock hbelow (by omega)⟩

theorem storesSafely_kernel {count : Nat} (h : ∀ i ≤ count, OutsideChunk (blockAddress b.chunk)
      (blockAddress b.directory) (toUint32 (dest + i))) :
    StoresSafely b kernelPlace dest count (fun _ => True) := by
  intro kernel j physical _ hj hplace
  obtain rfl := Option.some.inj hplace
  exact ⟨h j hj, fun _ => trivial⟩

theorem pagingMap_block (howned : Owned kernel b)
    (hbelow : blockAddress block + slobosHeapBlockSize ≤ addressSpace) :
    ∃ after, Ends (pagingMap (blockAddress b.chunk) (blockAddress block) (blockAddress block) 7) kernel 0
      after ∧ BlockMapped after b block := by
  have hlt := blockAddress_lt hbelow
  have hpage := page_lt hlt
  have hval : blockAddress block ||| 7 < addressSpace := or_lt_addressSpace hlt (by decide)
  obtain ⟨after, hmap, hafter⟩ := pagingMap_refines b hlt hval kernel _ howned.represents
  have habstract := @pagingMap_page (tablesOf kernel) (blockAddress b.directory)
    (blockAddress block / pagingPageSize) (blockAddress block / pagingPageSize) 7
  rw [blockAddress_page] at habstract
  simp only [habstract] at hmap hafter
  refine ⟨after, hmap, hafter.names, ?_⟩
  rw [← hafter.reads hpage, pageEntry_store howned.represents.distinct hpage hpage, if_pos rfl]

theorem copyStringFromTask_leaves {virtual : Nat} {max : Int} (howned : Owned kernel b)
    (hphys : max < pagingPageSize → ∀ i ≤ (max - 1).toNat, OutsideChunk (blockAddress b.chunk)
      (blockAddress b.directory) (toUint32 (phys + i)))
    (h : Ends (copyStringFromTask (blockAddress b.chunk) virtual phys max) kernel res after) :
    Leaves b kernel after := by
  unfold copyStringFromTask at h
  rcases ends_ite.mp h with ⟨-, hrefused⟩ | ⟨hmax, hbody⟩
  · obtain ⟨-, rfl⟩ := ends_pure.mp hrefused
    exact Frame.refl _
  obtain ⟨tmp, first, halloc, hgiven⟩ := ends_bind.mp hbody
  have hfirst := kzalloc_leaves howned halloc
  rcases ends_ite.mp hgiven with ⟨-, hnull⟩ | ⟨hne, hloads⟩
  · obtain ⟨-, rfl⟩ := ends_pure.mp hnull
    exact hfirst
  have howned' := howned.leaves hfirst
  obtain ⟨block, rfl, hother, hbelow⟩ := kzalloc_other howned halloc hne
  have hguards : ∀ other ∈ b.blocks, Guards first.heap other (blockAddress block) := fun other hmem =>
    (kzalloc_spares halloc (howned.holds other hmem)).2
  -- The page of the buffer is mapped, and the string is copied to it.
  obtain ⟨directory, loaded, hload, hgets⟩ := ends_bind.mp hloads
  obtain ⟨hdirectory, hloaded⟩ := howned'.load.mp hload
  rw [hdirectory, hloaded] at hgets
  obtain ⟨oldEntry, got, hget, hmaps⟩ := ends_bind.mp hgets
  rw [pagingGet_same hget] at hmaps
  obtain ⟨_, mapped, hmap, hswitches⟩ := ends_bind.mp hmaps
  have hmapped := pagingMap_leaves howned' (blockAddress_lt hbelow) hmap
  obtain ⟨mapped', hmap', hpage⟩ := pagingMap_block howned' hbelow
  rw [← (hmap.unique hmap').2] at hpage
  have howned'' := howned'.leaves hmapped
  obtain ⟨directory', switched, hload', hcopies⟩ := ends_bind.mp hswitches
  obtain ⟨hdirectory', hswitched⟩ := howned''.load.mp hload'
  rw [hdirectory', hswitched] at hcopies
  obtain ⟨_, copied, hcopy, hsets⟩ := ends_bind.mp hcopies
  have hcount : (max - 1).toNat < slobosHeapBlockSize := by
    simp only [pagingPageSize, slobosHeapBlockSize] at hmax ⊢
    omega
  obtain ⟨hcopied, -⟩ := strncpyLoop_leaves (storesSafely_walk hother hbelow hcount) hpage
    (Nat.le_of_eq (Nat.zero_add _)) hcopy
  -- The entry is restored, and the buffer is copied to its place.
  obtain ⟨_, restored, hset, hends⟩ := ends_bind.mp hsets
  have hrestored := pagingSet_leaves (howned''.leaves hcopied) (blockAddress_lt hbelow) hset
  have hall : Leaves b first restored := Frame.trans hmapped (Frame.trans hcopied hrestored)
  rcases ends_ite.mp hends with ⟨-, hfails⟩ | ⟨-, hstores⟩
  · obtain ⟨_, released, hfree, hlast⟩ := ends_bind.mp hfails
    obtain ⟨-, rfl⟩ := ends_pure.mp hlast
    exact Frame.trans hfirst (Frame.trans hall (kfree_leaves (hall.guards howned' hguards) hfree))
  · obtain ⟨_, stored, hstore, hreleases⟩ := ends_bind.mp hstores
    obtain ⟨hstored, -⟩ := strncpyLoop_leaves (storesSafely_kernel (hphys (by omega))) trivial
      (Nat.le_of_eq (Nat.zero_add _)) hstore
    have hall' : Leaves b first stored := Frame.trans hall hstored
    obtain ⟨_, released, hfree, hlast⟩ := ends_bind.mp hreleases
    obtain ⟨-, rfl⟩ := ends_pure.mp hlast
    exact Frame.trans hfirst (Frame.trans hall' (kfree_leaves (hall'.guards howned' hguards) hfree))

theorem BlockMapped.present (h : BlockMapped kernel b block)
    (hbelow : blockAddress block + slobosHeapBlockSize ≤ addressSpace) (hj : j < slobosHeapBlockSize)
    (hpresent : ∀ i < pagingTotalEntriesPerTable, word kernel (blockAddress b.directory) i % 2 = 1) :
    Physical.walk (blockAddress b.directory) (toUint32 (blockAddress block + j)) kernel =
      some (blockAddress block + j) := by
  have htable := directoryIndex_lt (page_lt (blockAddress_lt hbelow))
  obtain ⟨hpage, hoffset⟩ := @blockAddress_add block j hj
  rw [blockAddress_offset hbelow hj, walk_iff, hpage, hoffset, h.page]
  refine ⟨⟨hpresent _ htable, Nat.or_mod_two_eq_one.mpr (Or.inr (by decide))⟩, ?_⟩
  rw [tableAddress_or (blockAddress_aligned block) (by decide)]

theorem ends_strncpy_one {result : Unit} : Ends (strncpy place dest src 1) kernel result after ↔
    ∃ physical, place (toUint32 dest) kernel = some physical ∧ after = putMemory physical [0] kernel :=
  ends_storeByte

end Physical

end SlobOS
