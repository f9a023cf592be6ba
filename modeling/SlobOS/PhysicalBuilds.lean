import SlobOS.Paths
import SlobOS.Proof.PhysicalWords
import SlobOS.Proof.SingleBlocks

/-!
# Building a page directory

`paging_new_4gb` takes 1026 blocks, one by one: the directory, a table for each of its entries, and the
chunk structure. It does not look at what the allocator returns, so it ends exactly when there are as
many.
-/

namespace SlobOS

namespace Physical

open Faulting Kernel

def tableRow (table : Nat → Nat) (count : Nat) : List Nat := ((List.range count).map table).reverse

/-- The blocks of a directory, of its tables and of the chunk structure: all of them different, with
addresses of 32 bits. -/
structure ChunkBlocks where
  chunk : Nat
  directory : Nat
  table : Nat → Nat
  nodup : (chunk :: (tableRow table pagingTotalEntriesPerTable ++ [directory])).Nodup
  below : ∀ block ∈ chunk :: (tableRow table pagingTotalEntriesPerTable ++ [directory]), block < 0x80000

def ChunkBlocks.blocks (b : ChunkBlocks) : List Nat :=
  b.chunk :: (tableRow b.table pagingTotalEntriesPerTable ++ [b.directory])

def pageWord (kernel : Kernel) (directory page : Nat) : Nat :=
  word kernel (tableAddress (word kernel directory (page / pagingTotalEntriesPerTable)))
    (page % pagingTotalEntriesPerTable)

/-- A chunk has been built in blocks that were free, and every page translates to itself with the
flags. -/
structure Built (kernel after : Kernel) (flags : UInt8) (b : ChunkBlocks) : Prop where
  takes : TakesBlocks kernel.heap after.heap b.blocks
  chunk : word after (blockAddress b.chunk) 0 = blockAddress b.directory
  entry : ∀ i < pagingTotalEntriesPerTable, word after (blockAddress b.directory) i =
    blockAddress (b.table i) ||| flags.toNat ||| pagingIsWriteable
  page : ∀ page < pageCount, pageWord after (blockAddress b.directory) page =
    page * pagingPageSize ||| flags.toNat

/-- The call returns a null pointer and leaves the table of the heap as it was, or it builds a
chunk. -/
def NewMeets (kernel : Kernel) (flags : UInt8) : Prop :=
  ∃ chunk after, Ends (pagingNew4gb flags) kernel chunk after ∧
    ((chunk = 0 ∧ after.heap.table.entries = kernel.heap.table.entries) ∨
      ∃ b : ChunkBlocks, chunk = blockAddress b.chunk ∧ Built kernel after flags b)

section Blocks

variable {table : Nat → Nat} {count block i j : Nat}

theorem mem_tableRow : block ∈ tableRow table count ↔ ∃ i < count, table i = block := by
  simp only [tableRow, List.mem_reverse, List.mem_map, List.mem_range]

@[simp]
theorem tableRow_length : (tableRow table count).length = count := by
  rw [tableRow, List.length_reverse, List.length_map, List.length_range]

theorem tableRow_succ (table : Nat → Nat) (count : Nat) :
    tableRow table (count + 1) = table count :: tableRow table count := by
  rw [tableRow, List.range_succ, List.map_append, List.map_singleton, List.reverse_append, tableRow]
  rfl

theorem tableRow_update (table : Nat → Nat) (count block : Nat) :
    tableRow (Function.update table count block) (count + 1) = block :: tableRow table count := by
  have hsame : (List.range count).map (Function.update table count block) =
      (List.range count).map table := by
    apply List.map_congr_left
    intro i hi
    exact Function.update_of_ne (Nat.ne_of_lt (List.mem_range.mp hi)) _ _
  rw [tableRow_succ, Function.update_self, tableRow, hsame, tableRow]

theorem tableRow_injective (h : (tableRow table count).Nodup) (hi : i < count) (hj : j < count)
    (heq : table i = table j) : i = j := by
  have hmap := List.nodup_reverse.mp h
  exact List.inj_on_of_nodup_map hmap (List.mem_range.mpr hi) (List.mem_range.mpr hj) heq

namespace ChunkBlocks

variable (b : ChunkBlocks)

theorem blocks_length : b.blocks.length = 1026 := by
  rw [blocks, List.length_cons, List.length_append, tableRow_length]
  rfl

theorem mem_blocks : block ∈ b.blocks ↔
    block = b.chunk ∨ block = b.directory ∨ ∃ i < pagingTotalEntriesPerTable, b.table i = block := by
  rw [blocks, List.mem_cons, List.mem_append, mem_tableRow, List.mem_singleton,
    or_comm (a := block = b.directory)]

theorem chunk_mem : b.chunk ∈ b.blocks := b.mem_blocks.mpr (Or.inl rfl)

theorem directory_mem : b.directory ∈ b.blocks := b.mem_blocks.mpr (Or.inr (Or.inl rfl))

theorem table_mem (hi : i < pagingTotalEntriesPerTable) : b.table i ∈ b.blocks :=
  b.mem_blocks.mpr (Or.inr (Or.inr ⟨i, hi, rfl⟩))

theorem table_injective (hi : i < pagingTotalEntriesPerTable) (hj : j < pagingTotalEntriesPerTable)
    (heq : b.table i = b.table j) : i = j :=
  tableRow_injective (List.nodup_cons.mp b.nodup).2.of_append_left hi hj heq

theorem chunk_ne_directory : b.chunk ≠ b.directory := by
  intro heq
  apply (List.nodup_cons.mp b.nodup).1
  rw [heq]
  exact List.mem_append_right _ (List.mem_singleton_self _)

theorem chunk_ne_table (hi : i < pagingTotalEntriesPerTable) : b.chunk ≠ b.table i := by
  intro heq
  apply (List.nodup_cons.mp b.nodup).1
  rw [heq]
  exact List.mem_append_left _ (mem_tableRow.mpr ⟨i, hi, rfl⟩)

theorem directory_ne_table (hi : i < pagingTotalEntriesPerTable) : b.directory ≠ b.table i := by
  intro heq
  have hdisjoint := (List.nodup_append.mp (List.nodup_cons.mp b.nodup).2).2.2
  exact hdisjoint _ (mem_tableRow.mpr ⟨i, hi, rfl⟩) _ (List.mem_singleton_self _) heq.symm

theorem blockAddress_below (hmem : block ∈ b.blocks) :
    blockAddress block + slobosHeapBlockSize ≤ addressSpace := by
  have hlt := b.below block hmem
  simp only [blockAddress, slobosHeapAddress, slobosHeapBlockSize, addressSpace]
  omega

end ChunkBlocks

end Blocks

variable {kernel middle after before : Kernel} {entry directory i left block count : Nat}

def tableValue (offset : Int) (flags b : Nat) : Nat :=
  ((offset + b * pagingPageSize) % addressSpace).toNat ||| flags

theorem tableValue_lt (offset : Int) {flags : Nat} (hflags : flags < 256) (b : Nat) :
    tableValue offset flags b < addressSpace := by
  have hvalue : ((offset + b * pagingPageSize) % addressSpace).toNat < addressSpace := by
    have hpos : (0 : Int) < addressSpace := by decide
    have hlt := Int.emod_lt_of_pos (offset + b * pagingPageSize) hpos
    omega
  exact Nat.or_lt_two_pow (n := 32) hvalue (Nat.lt_trans hflags (by decide))

def tableOffset (i : Nat) : Int := toInt32 (i * (pagingTotalEntriesPerTable * pagingPageSize))

theorem tableOffset_succ (i : Nat) :
    toInt32 (tableOffset i + pagingTotalEntriesPerTable * pagingPageSize) = tableOffset (i + 1) := by
  rw [tableOffset, toInt32_add, tableOffset, Int.natCast_succ, Int.add_mul, Int.one_mul]

theorem tableValue_eq {flags b : Nat} (hi : i < pagingTotalEntriesPerTable)
    (hb : b < pagingTotalEntriesPerTable) : tableValue (tableOffset i) flags b =
      (i * pagingTotalEntriesPerTable + b) * pagingPageSize ||| flags := by
  have hsum : ((tableOffset i + b * pagingPageSize) % addressSpace).toNat =
      (i * pagingTotalEntriesPerTable + b) * pagingPageSize := by
    simp only [tableOffset, toInt32, addressSpace, pagingTotalEntriesPerTable, pagingPageSize,
      Int.bmod] at *
    omega
  rw [tableValue, hsum]

/-- The words of the table have been stored from an index on, and nothing else. -/
structure Filled (kernel after : Kernel) (entry : Nat) (value : Nat → Nat) (first : Nat) : Prop where
  writes : WritesMemory kernel after
  words : ∀ b, first ≤ b → b < pagingTotalEntriesPerTable → word after entry b = value b
  same : ∀ {base size}, Disjoint base size (entry + 4 * first) (pageTableSize - 4 * first) →
    SameBytes base size kernel after

theorem pagingFillTable_spec {flags b : Nat} {offset : Int} (hne : entry ≠ 0)
    (hlt : entry + pageTableSize ≤ addressSpace) (hflags : flags < 256)
    (hstop : b + left = pagingTotalEntriesPerTable) :
    ∃ after, Ends (pagingFillTable entry flags offset left b) kernel () after ∧
      Filled kernel after entry (tableValue offset flags) b := by
  induction left generalizing kernel b with
  | zero =>
      exact ⟨kernel, ends_pure.mpr ⟨rfl, rfl⟩, Frame.refl _, fun b' _ _ => by omega,
        fun _ => Frame.refl _⟩
  | succ left ih =>
      have hsize : pageTableSize = 4 * pagingTotalEntriesPerTable := rfl
      have hvalue := tableValue_lt offset hflags b
      obtain ⟨after, hrest, hfilled⟩ := @ih (putMemory (entry + 4 * b)
        (wordBytes (tableValue offset flags b)) kernel) (b + 1) (by omega)
      refine ⟨after, ?_, Frame.trans (putMemory_writes _ _ _) hfilled.writes, fun b' hge hb' => ?_,
        fun hdisjoint => ?_⟩
      · rw [pagingFillTable, ends_bind]
        exact ⟨(), _, ends_storeWord.mpr ⟨hne, rfl⟩, hrest⟩
      · rcases Nat.eq_or_lt_of_le hge with rfl | hlater
        · have hsame : SameBytes (entry + 4 * b) 4 _ after :=
            hfilled.same (Or.inl (by omega))
          have hword := hsame.word (show 4 * 0 + 4 ≤ 4 by decide) (by omega)
          exact hword.trans (word_storeWord hvalue (by omega))
        · exact hfilled.words b' hlater hb'
      · have hfirst : Disjoint _ _ (entry + 4 * b) 4 :=
          hdisjoint.mono (Nat.le_refl _) (Nat.le_refl _) (Nat.le_refl _) (by omega)
        have hlater : Disjoint _ _ (entry + 4 * (b + 1)) (pageTableSize - 4 * (b + 1)) :=
          hdisjoint.mono (Nat.le_refl _) (Nat.le_refl _) (by omega) (by omega)
        exact Frame.trans (storeWord_sameBytes hfirst _ _) (hfilled.same hlater)

/-! ### The tables -/

/-- The directory names the first tables, and they map their part of the address space to itself. -/
structure TableWords (kernel : Kernel) (flags directory : Nat) (table : Nat → Nat) (count : Nat) :
    Prop where
  names : ∀ i < count, word kernel (blockAddress directory) i =
    blockAddress (table i) ||| flags ||| pagingIsWriteable
  maps : ∀ i < count, ∀ b < pagingTotalEntriesPerTable, word kernel (blockAddress (table i)) b =
    (i * pagingTotalEntriesPerTable + b) * pagingPageSize ||| flags

/-- The first tables are in blocks taken after that of the directory. -/
structure TablesBuilt (before kernel : Kernel) (flags directory : Nat) (table : Nat → Nat)
    (count : Nat) : Prop extends TableWords kernel flags directory table count where
  row : TakenRow before.heap (tableRow table count ++ [directory]) kernel.heap

section Tables

variable {table : Nat → Nat} {flags : Nat} {offset : Int}

theorem ends_pagingNewTable {result : Unit}
    (h : Ends (pagingNewTable directory flags i offset) kernel result after) :
    directory ≠ 0 ∧ ∃ entry middle, Ends (kzalloc pageTableSize) kernel entry middle ∧ entry ≠ 0 := by
  simp only [pagingNewTable, ends_bind, ends_storeWord] at h
  obtain ⟨entry, middle, halloc, _, _, hfill, hdirectory, -⟩ := h
  refine ⟨hdirectory, entry, middle, halloc, ?_⟩
  obtain ⟨left, hleft⟩ : ∃ left, pagingTotalEntriesPerTable = left + 1 := ⟨1023, rfl⟩
  rw [hleft, pagingFillTable, ends_bind] at hfill
  obtain ⟨_, _, hstore, -⟩ := hfill
  exact (ends_storeWord.mp hstore).1

theorem entryCell_le {b : Nat} (hb : b < pagingTotalEntriesPerTable) :
    4 * b + 4 ≤ slobosHeapBlockSize := by
  simp only [slobosHeapBlockSize, pagingTotalEntriesPerTable] at hb ⊢
  omega

theorem TableWords.same (h : TableWords kernel flags directory table count)
    (hcount : count ≤ pagingTotalEntriesPerTable)
    (hsame : ∀ other ∈ tableRow table count ++ [directory],
      blockAddress other + slobosHeapBlockSize ≤ addressSpace ∧
        SameBytes (blockAddress other) slobosHeapBlockSize kernel after) :
    TableWords after flags directory table count := by
  constructor
  · intro i hi
    obtain ⟨hbelow, hbytes⟩ := hsame directory (List.mem_append_right _ (List.mem_singleton_self _))
    rw [hbytes.word (entryCell_le (Nat.lt_of_lt_of_le hi hcount)) hbelow, h.names i hi]
  · intro i hi b hb
    obtain ⟨hbelow, hbytes⟩ :=
      hsame (table i) (List.mem_append_left _ (mem_tableRow.mpr ⟨i, hi, rfl⟩))
    rw [hbytes.word (entryCell_le hb) hbelow, h.maps i hi b hb]

theorem TableWords.succ (h : TableWords kernel flags directory table count) (hflags : flags < 256)
    (hcount : count < pagingTotalEntriesPerTable)
    (hrow : (block :: (tableRow table count ++ [directory])).Nodup)
    (hbelow : ∀ other ∈ block :: (tableRow table count ++ [directory]),
      blockAddress other + slobosHeapBlockSize ≤ addressSpace)
    (hwords : ∀ b < pagingTotalEntriesPerTable, word kernel (blockAddress block) b =
      (count * pagingTotalEntriesPerTable + b) * pagingPageSize ||| flags) :
    TableWords (putMemory (blockAddress directory + 4 * count)
      (wordBytes (blockAddress block ||| flags ||| pagingIsWriteable)) kernel) flags directory
        (Function.update table count block) (count + 1) := by
  obtain ⟨hnew, hnodup⟩ := List.nodup_cons.mp hrow
  have hdirectory := List.mem_append_right (tableRow table count) (List.mem_singleton_self directory)
  have htable : ∀ {i}, i < count → table i ∈ tableRow table count := fun hi =>
    mem_tableRow.mpr ⟨_, hi, rfl⟩
  have hplace := entryCell_le hcount
  -- The store meets no table.
  have hsame : ∀ {other}, other ∈ block :: (tableRow table count ++ [directory]) →
      other ≠ directory → ∀ b < pagingTotalEntriesPerTable,
        word (putMemory (blockAddress directory + 4 * count)
          (wordBytes (blockAddress block ||| flags ||| pagingIsWriteable)) kernel)
            (blockAddress other) b = word kernel (blockAddress other) b := by
    intro other hmem hother b hb
    exact (storeCell_sameBytes hother hplace _ kernel).word (entryCell_le hb) (hbelow other hmem)
  constructor
  · intro i hi
    have hcell : blockAddress directory + 4 * i + 4 ≤ addressSpace := by
      have hlt := hbelow directory (List.mem_cons_of_mem block hdirectory)
      omega
    rcases Nat.lt_succ_iff_lt_or_eq.mp hi with hlt | rfl
    · rw [word_storeWord_of_ne (Nat.ne_of_gt hlt) hcell, Function.update_of_ne (Nat.ne_of_lt hlt),
        h.names i hlt]
    · have hblock : blockAddress block < addressSpace :=
        Nat.lt_of_lt_of_le (Nat.lt_add_of_pos_right (by decide)) (hbelow block List.mem_cons_self)
      rw [Function.update_self]
      exact word_storeWord (Nat.or_lt_two_pow (n := 32) (Nat.or_lt_two_pow (n := 32) hblock
        (Nat.lt_trans hflags (by decide))) (by decide)) hcell
  · intro i hi b hb
    rcases Nat.lt_succ_iff_lt_or_eq.mp hi with hlt | rfl
    · have hne : table i ≠ directory := fun heq =>
        (List.nodup_append.mp hnodup).2.2 _ (htable hlt) _ (List.mem_singleton_self _) heq
      rw [Function.update_of_ne (Nat.ne_of_lt hlt), ← h.maps i hlt b hb]
      exact hsame (List.mem_cons_of_mem _ (List.mem_append_left _ (htable hlt))) hne b hb
    · have hne : block ≠ directory := fun heq => hnew (heq ▸ hdirectory)
      rw [Function.update_self, ← hwords b hb]
      exact hsame List.mem_cons_self hne b hb

theorem TablesBuilt.succ (h : TablesBuilt before kernel flags directory table count)
    (halloc : Ends (kzalloc pageTableSize) kernel entry middle) (hne : entry ≠ 0)
    (hflags : flags < 256) (hcount : count < pagingTotalEntriesPerTable) :
    ∃ block after, Ends (pagingNewTable (blockAddress directory) flags count (tableOffset count))
        kernel () after ∧
      TablesBuilt before after flags directory (Function.update table count block) (count + 1) := by
  obtain ⟨block, hptr, hrow⟩ := h.row.kzalloc (by decide) (Nat.le_refl _) halloc hne
  obtain rfl : entry = blockAddress block := hptr.trans (hrow.address List.mem_cons_self)
  have hbelow : ∀ other ∈ block :: (tableRow table count ++ [directory]),
      blockAddress other + slobosHeapBlockSize ≤ addressSpace := fun other hmem =>
    Nat.le_of_lt (hrow.holds hmem).below
  obtain ⟨filled, hfill, hfilled⟩ := @pagingFillTable_spec middle _ pagingTotalEntriesPerTable flags 0
    (tableOffset count) hne (hbelow block List.mem_cons_self) hflags (Nat.zero_add _)
  -- The other blocks of the row are not met while the table is filled.
  have hwords : TableWords filled flags directory table count := by
    refine h.toTableWords.same (Nat.le_of_lt hcount) fun other hmem =>
      ⟨hbelow other (List.mem_cons_of_mem block hmem), ?_⟩
    refine Frame.trans (kzalloc_sameBytes halloc (h.row.holds hmem)) (hfilled.same ?_)
    exact blockAddress_disjoint fun heq => (List.nodup_cons.mp hrow.takes.nodup).1 (heq ▸ hmem)
  refine ⟨block, _, ?_, hwords.succ hflags hcount hrow.takes.nodup hbelow fun b hb => ?_, ?_⟩
  · rw [pagingNewTable, ends_bind]
    refine ⟨_, middle, halloc, ends_bind.mpr ⟨(), filled, hfill, ?_⟩⟩
    exact ends_storeWord.mpr ⟨blockAddress_ne_zero directory, rfl⟩
  · rw [hfilled.words b (Nat.zero_le _) hb]
    exact tableValue_eq hcount hb
  · rw [tableRow_update]
    change TakenRow _ _ filled.heap
    rw [hfilled.writes.heap]
    exact hrow

theorem TablesBuilt.zero (h : TakenRow before.heap [directory] kernel.heap) :
    TablesBuilt before kernel flags directory table 0 where
  names _ hi := absurd hi (Nat.not_lt_zero _)
  maps _ hi := absurd hi (Nat.not_lt_zero _)
  row := h

theorem pagingNewTables_spec {result : Unit}
    (h : Ends (pagingNewTables (blockAddress directory) flags left count (tableOffset count)) kernel
      result after)
    (hbuilt : TablesBuilt before kernel flags directory table count) (hflags : flags < 256)
    (hstop : count + left = pagingTotalEntriesPerTable) :
    ∃ table, TablesBuilt before after flags directory table pagingTotalEntriesPerTable := by
  induction left generalizing kernel table count with
  | zero =>
      obtain ⟨-, rfl⟩ := ends_pure.mp h
      exact ⟨table, hstop ▸ hbuilt⟩
  | succ left ih =>
      rw [pagingNewTables, ends_bind, tableOffset_succ] at h
      obtain ⟨_, middle, hround, hrest⟩ := h
      obtain ⟨-, entry, given, halloc, hne⟩ := ends_pagingNewTable hround
      obtain ⟨block, next, hround', hnext⟩ := hbuilt.succ halloc hne hflags (by omega)
      obtain ⟨-, rfl⟩ := hround.unique hround'
      exact ih hrest hnext (by omega)

theorem pagingNewTables_ends (hbuilt : TablesBuilt before kernel flags directory table count)
    (hflags : flags < 256) (hstop : count + left = pagingTotalEntriesPerTable)
    (hfree : FreeBlocks before.heap 1026) : ∃ after, Ends (pagingNewTables (blockAddress directory)
      flags left count (tableOffset count)) kernel () after := by
  induction left generalizing kernel table count with
  | zero => exact ⟨kernel, ends_pure.mpr ⟨rfl, rfl⟩⟩
  | succ left ih =>
      have hlength : (tableRow table count ++ [directory]).length < 1026 := by
        rw [List.length_append, tableRow_length, List.length_singleton]
        simp only [pagingTotalEntriesPerTable] at hstop
        omega
      obtain ⟨entry, given, halloc, hne⟩ := hbuilt.row.kzalloc_succeeds
        (show 0 < pageTableSize by decide) (Nat.le_refl _) hfree hlength
      obtain ⟨block, next, hround, hnext⟩ := hbuilt.succ halloc hne hflags (by omega)
      obtain ⟨after, hrest⟩ := ih hnext (by omega)
      refine ⟨after, ?_⟩
      rw [pagingNewTables, ends_bind, tableOffset_succ]
      exact ⟨(), next, hround, hrest⟩

end Tables

/-! ### The chunk -/

variable {flags : UInt8} {chunk : Nat}

theorem flags_lt (flags : UInt8) : flags.toNat < 256 := flags.toNat_lt

theorem tableAddress_entry (block : Nat) (flags : UInt8) :
    tableAddress (blockAddress block ||| flags.toNat ||| pagingIsWriteable) = blockAddress block := by
  have hflags : flags.toNat ||| pagingIsWriteable < pagingPageSize :=
    Nat.or_lt_two_pow (n := 12) (Nat.lt_trans (flags_lt flags) (by decide)) (by decide)
  rw [Nat.or_assoc]
  exact tableAddress_or (blockAddress_aligned block) hflags

theorem TableWords.page {b : ChunkBlocks} (h : TableWords kernel flags.toNat b.directory b.table
      pagingTotalEntriesPerTable) {page : Nat} (hpage : page < pageCount) :
    pageWord kernel (blockAddress b.directory) page = page * pagingPageSize ||| flags.toNat := by
  have hi := directoryIndex_lt hpage
  rw [pageWord, h.names _ hi, tableAddress_entry, h.maps _ hi _ (Nat.mod_lt _ (by decide)),
    Nat.mul_comm (page / _), Nat.div_add_mod]

theorem pagingNewTables_directory {flags : Nat} {offset : Int} {result : Unit}
    (h : Ends (pagingNewTables directory flags left i offset) kernel result after)
    (hpos : 0 < left) : directory ≠ 0 := by
  obtain ⟨left, rfl⟩ := Nat.exists_eq_add_of_lt hpos
  rw [pagingNewTables, ends_bind] at h
  obtain ⟨_, middle, hround, -⟩ := h
  exact (ends_pagingNewTable hround).1

theorem pagingNew4gb_spec (hsound : HeapSound kernel.heap)
    (h : Ends (pagingNew4gb flags) kernel chunk after) :
    ∃ b : ChunkBlocks, chunk = blockAddress b.chunk ∧ Built kernel after flags b ∧
      TakenRow kernel.heap b.blocks after.heap := by
  simp only [pagingNew4gb, ends_bind, ends_storeWord, ends_pure] at h
  obtain ⟨directory, first, hdirectory, _, second, htables, chunk', third, hchunk, _, last,
    ⟨hne, rfl⟩, rfl, rfl⟩ := h
  obtain ⟨directoryBlock, hptr, hrow⟩ := (TakenRow.nil hsound).kzalloc (by decide) (Nat.le_refl _)
    hdirectory (pagingNewTables_directory htables (by decide))
  obtain rfl : directory = blockAddress directoryBlock :=
    hptr.trans (hrow.address List.mem_cons_self)
  have hzero : TablesBuilt kernel first flags.toNat directoryBlock (fun _ => 0) 0 := .zero hrow
  obtain ⟨table, hbuilt⟩ := pagingNewTables_spec htables hzero (flags_lt flags) (Nat.zero_add _)
  obtain ⟨chunkBlock, hptr', hrow'⟩ := hbuilt.row.kzalloc (by decide) (by decide) hchunk hne
  obtain rfl : chunk = blockAddress chunkBlock := hptr'.trans (hrow'.address List.mem_cons_self)
  have hbelow : ∀ block ∈ chunkBlock :: (tableRow table pagingTotalEntriesPerTable ++
      [directoryBlock]), blockAddress block + slobosHeapBlockSize ≤ addressSpace := fun block hmem =>
    Nat.le_of_lt (hrow'.holds hmem).below
  -- The chunk structure is in a block of its own.
  have hwords : TableWords (putMemory (blockAddress chunkBlock + 4 * 0)
      (wordBytes (blockAddress directoryBlock)) third) flags.toNat directoryBlock table
        pagingTotalEntriesPerTable := by
    refine hbuilt.toTableWords.same (Nat.le_refl _) fun other hmem =>
      ⟨hbelow other (List.mem_cons_of_mem _ hmem), ?_⟩
    have hother : other ≠ chunkBlock := fun heq =>
      (List.nodup_cons.mp hrow'.takes.nodup).1 (heq ▸ hmem)
    exact Frame.trans (kzalloc_sameBytes hchunk (hbuilt.row.holds hmem))
      (storeCell_sameBytes hother (by decide) _ _)
  have hdirectory := hbelow directoryBlock (List.mem_cons_of_mem _ (List.mem_append_right _
    (List.mem_singleton_self _)))
  have hchunk' := hbelow chunkBlock List.mem_cons_self
  refine ⟨⟨chunkBlock, directoryBlock, table, hrow'.takes.nodup, fun block hmem =>
    Nat.lt_trans (hrow'.holds hmem).lt hrow'.sound.sized.total_lt⟩, rfl,
    ⟨hrow'.takes, word_storeWord (blockAddress_lt hdirectory) ?_, hwords.names, fun page => hwords.page⟩, hrow'⟩
  simp only [slobosHeapBlockSize] at hchunk'
  omega

theorem pagingNew4gb_ends (hfree : FreeBlocks kernel.heap 1026) (flags : UInt8) :
    ∃ chunk after, Ends (pagingNew4gb flags) kernel chunk after := by
  have hstart := TakenRow.nil hfree.toHeapSound
  obtain ⟨directory, first, hdirectory, hne⟩ := hstart.kzalloc_succeeds
    (show 0 < pageTableSize by decide) (Nat.le_refl _) hfree (by decide)
  obtain ⟨directoryBlock, hptr, hrow⟩ := hstart.kzalloc (by decide) (Nat.le_refl _) hdirectory hne
  obtain rfl : directory = blockAddress directoryBlock :=
    hptr.trans (hrow.address List.mem_cons_self)
  have hzero : TablesBuilt kernel first flags.toNat directoryBlock (fun _ => 0) 0 := .zero hrow
  obtain ⟨second, htables⟩ :=
    pagingNewTables_ends hzero (flags_lt flags) (Nat.zero_add _) hfree
  obtain ⟨table, hbuilt⟩ := pagingNewTables_spec htables hzero (flags_lt flags) (Nat.zero_add _)
  have hlength : (tableRow table pagingTotalEntriesPerTable ++ [directoryBlock]).length < 1026 := by
    rw [List.length_append, tableRow_length, List.length_singleton]
    decide
  obtain ⟨chunk, third, hchunk, hne'⟩ := hbuilt.row.kzalloc_succeeds
    (show 0 < paging4gbChunkSize by decide) (by decide) hfree hlength
  refine ⟨chunk, putMemory (chunk + 4 * 0) (wordBytes (blockAddress directoryBlock)) third, ?_⟩
  rw [pagingNew4gb, ends_bind]
  refine ⟨_, first, hdirectory, ends_bind.mpr ⟨(), second, htables, ?_⟩⟩
  refine ends_bind.mpr ⟨chunk, third, hchunk, ends_bind.mpr ⟨(), _, ?_, ends_pure.mpr ⟨rfl, rfl⟩⟩⟩
  exact ends_storeWord.mpr ⟨hne', rfl⟩

/-- The call does what it should exactly when there is a block for each structure. -/
theorem newMeets_iff (hsound : HeapSound kernel.heap) :
    NewMeets kernel flags ↔ FreeBlocks kernel.heap 1026 := by
  constructor
  · rintro ⟨chunk, after, hnew, -⟩
    obtain ⟨b, -, -, hrow⟩ := pagingNew4gb_spec hsound hnew
    exact b.blocks_length ▸ hrow.freeBlocks
  · intro hfree
    obtain ⟨chunk, after, hnew⟩ := pagingNew4gb_ends hfree flags
    obtain ⟨b, hchunk, hbuilt, -⟩ := pagingNew4gb_spec hsound hnew
    exact ⟨chunk, after, hnew, Or.inr ⟨b, hchunk, hbuilt⟩⟩

theorem newMeets_iff_idle : NewMeets (idleKernel bootBytes unmountedVolume) 0x05 ↔
    FreeBlocks (idleKernel bootBytes unmountedVolume).heap 1026 :=
  newMeets_iff (idleKernel_sound unmountedVolume)

def fullKernel : Kernel :=
  { idleKernel bootBytes unmountedVolume with heap :=
    { saddr := slobosHeapAddress, table := { entries := fun _ => 0x41, total := 25600 } } }

theorem fullKernel_taken (block : Nat) : ¬fullKernel.heap.table.IsFree block :=
  show ¬heapGetEntryType 0x41 = heapBlockTableEntryFree by decide

theorem fullKernel_sound : HeapSound fullKernel.heap where
  saddr := rfl
  pool := by decide
  clean block _ hfree := absurd hfree (fullKernel_taken block)
  lowStop := ⟨-1, by decide, by decide, by decide⟩

/-- On a full heap the call neither returns a null pointer nor builds a chunk. -/
theorem not_newMeets : ¬∀ (kernel : Kernel) flags, HeapSound kernel.heap → NewMeets kernel flags := by
  intro hall
  obtain ⟨chunk, after, hnew, -⟩ := hall fullKernel 0x05 fullKernel_sound
  obtain ⟨b, -, hbuilt, -⟩ := pagingNew4gb_spec fullKernel_sound hnew
  exact fullKernel_taken b.chunk (hbuilt.takes.free b.chunk b.chunk_mem)

end Physical

end SlobOS
