import SlobOS.PhysicalBuilds
import SlobOS.Proof.Paging

/-!
# Mapping a range

Between a page directory in memory and the page tables that are found by address there is a
simulation: each function stores the words that make up what the other one leaves. So the whole range
that `paging_map_to` maps can be read off the page tables.
-/

namespace SlobOS

namespace Physical

open Faulting Kernel

/-- The chunk names the directory and the directory the tables, and their words are the entries of the
page tables. -/
structure Represents (kernel : Kernel) (b : ChunkBlocks) (pages : PageTables) : Prop where
  chunk : word kernel (blockAddress b.chunk) 0 = blockAddress b.directory
  names : ∀ i < pagingTotalEntriesPerTable,
    tableAddress (word kernel (blockAddress b.directory) i) = blockAddress (b.table i)
  directory : ∀ i < pagingTotalEntriesPerTable, pages.directories (blockAddress b.directory) i =
    word kernel (blockAddress b.directory) i
  table : ∀ i < pagingTotalEntriesPerTable, ∀ index < pagingTotalEntriesPerTable,
    pages.tables (blockAddress (b.table i)) index = word kernel (blockAddress (b.table i)) index

/-- Where the words represent the page tables, the program ends as the function does, and its words
represent what the function leaves. -/
def Refines (b : ChunkBlocks) (program : KernelM Int) (function : PageTables → Int × PageTables) : Prop :=
  ∀ kernel pages, Represents kernel b pages → ∃ after,
    Ends program kernel (function pages).1 after ∧ Represents after b (function pages).2

/-- A chunk that `paging_new_4gb` has built, at any later time, with its tables in the kernel heap: the
chunk structure and the entries of the directory are as they were built. -/
structure BuiltChunk (kernel : Kernel) (chunk directory : Nat) : Prop where
  built : ∃ flags start first, HeapSound start.heap ∧ Ends (pagingNew4gb flags) start chunk first ∧
    directory = word first chunk 0 ∧ word kernel chunk 0 = directory ∧
      ∀ i < pagingTotalEntriesPerTable, word kernel directory i = word first directory i
  inside : ∀ i < pagingTotalEntriesPerTable, tableAddress (word kernel directory i) + pageTableSize ≤
    slobosHeapAddress + slobosHeapSizeBytes

structure EntriesKept (kernel after : Kernel) (directory : Nat) : Prop where
  names : ∀ i < pagingTotalEntriesPerTable, word after directory i = word kernel directory i
  page : ∀ page < pageCount, pageWord after directory page = pageWord kernel directory page

/-- Every address of the range translates to its place, with exactly the flags, and the entries of other
pages have not changed. -/
structure RangeMapped (kernel after : Kernel) (directory virt phys size flags : Nat) : Prop where
  translated : ∀ k < size, Ends (pagingGetPhysicalAddress directory (toUint32 (virt + k))) after
    (toUint32 (phys + k)) after
  flags : ∀ k < size,
    pageWord after directory (toUint32 (virt + k) / pagingPageSize) % pagingPageSize = flags
  other : ∀ page < pageCount, (∀ k < size, toUint32 (virt + k) / pagingPageSize ≠ page) →
    pageWord after directory page = pageWord kernel directory page
  names : ∀ i < pagingTotalEntriesPerTable, word after directory i = word kernel directory i

def Mappable (virt phys physEnd : Nat) : Prop :=
  virt % pagingPageSize = 0 ∧ phys % pagingPageSize = 0 ∧ physEnd % pagingPageSize = 0 ∧ phys ≤ physEnd

def MapToMeets (kernel after : Kernel) (directory virt phys physEnd flags : Nat) (res : Int) : Prop :=
  (Mappable virt phys physEnd ∧ res = 0 ∧
      RangeMapped kernel after directory virt phys (physEnd - phys) flags) ∨
    (¬Mappable virt phys physEnd ∧ res < 0 ∧ EntriesKept kernel after directory)

variable {kernel after : Kernel} {b : ChunkBlocks} {pages pages' : PageTables}
  {page index virt phys physEnd flags val : Nat} {res : Int}

theorem blockAddress_injective {block other : Nat} (h : blockAddress block = blockAddress other) :
    block = other := by
  simp only [blockAddress, slobosHeapBlockSize] at h
  omega

namespace Represents

theorem selects (h : Represents kernel b pages) {i : Nat} (hi : i < pagingTotalEntriesPerTable) :
    tableAddress (pages.directories (blockAddress b.directory) i) = blockAddress (b.table i) := by
  rw [h.directory i hi, h.names i hi]

theorem distinct (h : Represents kernel b pages) : DistinctTables pages (blockAddress b.directory) := by
  intro i hi j hj heq
  rw [h.selects hi, h.selects hj] at heq
  exact b.table_injective hi hj (blockAddress_injective heq)

theorem reads (h : Represents kernel b pages) (hpage : page < pageCount) :
    pageEntry pages (blockAddress b.directory) page =
      pageWord kernel (blockAddress b.directory) page := by
  have hi := directoryIndex_lt hpage
  rw [pageEntry, pageWord, h.selects hi, h.names _ hi]
  exact h.table _ hi _ (Nat.mod_lt _ (by decide))

theorem store (h : Represents kernel b pages) (hpage : page < pageCount) (hval : val < addressSpace) :
    Represents (putMemory
      (blockAddress (b.table (page / pagingTotalEntriesPerTable)) +
        4 * (page % pagingTotalEntriesPerTable)) (wordBytes val) kernel) b
      (pages.store (blockAddress b.directory) page val) := by
  have hi := directoryIndex_lt hpage
  have hindex : page % pagingTotalEntriesPerTable < pagingTotalEntriesPerTable :=
    Nat.mod_lt _ (by decide)
  -- Other blocks than that of the table keep their words.
  have hother : ∀ {block}, block ∈ b.blocks →
      block ≠ b.table (page / pagingTotalEntriesPerTable) → ∀ j < pagingTotalEntriesPerTable,
        word (putMemory (blockAddress (b.table (page / pagingTotalEntriesPerTable)) +
          4 * (page % pagingTotalEntriesPerTable)) (wordBytes val) kernel) (blockAddress block) j =
            word kernel (blockAddress block) j := fun hmem hne j hj =>
    (storeCell_sameBytes hne (entryCell_le hindex) val kernel).word (entryCell_le hj)
      (b.blockAddress_below hmem)
  have hdirectory := hother b.directory_mem (b.directory_ne_table hi)
  constructor
  · rw [hother b.chunk_mem (b.chunk_ne_table hi) 0 (by decide)]
    exact h.chunk
  · intro i hi'
    rw [hdirectory i hi']
    exact h.names i hi'
  · intro i hi'
    rw [hdirectory i hi']
    exact h.directory i hi'
  · intro i hi' j hj
    simp only [PageTables.store, h.selects hi]
    by_cases heq : i = page / pagingTotalEntriesPerTable
    · subst heq
      have hbelow := b.blockAddress_below (b.table_mem hi)
      have hcell := entryCell_le hj
      by_cases hsame : j = page % pagingTotalEntriesPerTable
      · subst hsame
        rw [if_pos ⟨rfl, rfl⟩]
        exact (word_storeWord hval (by omega)).symm
      · rw [if_neg fun hin => hsame hin.2, word_storeWord_of_ne (Ne.symm hsame) (by omega)]
        exact h.table _ hi j hj
    · have hne : b.table i ≠ b.table (page / pagingTotalEntriesPerTable) := fun hsame =>
        heq (b.table_injective hi' hi hsame)
      rw [if_neg fun hin => hne (blockAddress_injective hin.1), hother (b.table_mem hi') hne j hj]
      exact h.table i hi' j hj

end Represents

theorem aligned_page {address : Nat} (h : address % pagingPageSize = 0) :
    ∃ page, address = page * pagingPageSize :=
  ⟨address / pagingPageSize, (Nat.div_mul_cancel (Nat.dvd_of_mod_eq_zero h)).symm⟩

theorem Refines.refuse (b : ChunkBlocks) (res : Int) :
    Refines b (pure res) (fun pages => (res, pages)) :=
  fun kernel _ h => ⟨kernel, ends_pure.mpr ⟨rfl, rfl⟩, h⟩

theorem pagingSet_refines (b : ChunkBlocks) (hvirt : virt < addressSpace) (hval : val < addressSpace) :
    Refines b (pagingSet (blockAddress b.directory) virt val)
      (fun pages => SlobOS.pagingSet pages (blockAddress b.directory) virt val) := by
  by_cases haligned : pagingIsAligned virt
  · have hpage := page_lt hvirt
    obtain ⟨page, rfl⟩ := aligned_page (beq_iff_eq.mp haligned)
    rw [Nat.mul_div_cancel _ (by decide)] at hpage
    intro kernel pages h
    have hi := directoryIndex_lt hpage
    simp only [pagingSet_page]
    refine ⟨_, ?_, h.store hpage hval⟩
    simp only [pagingSet, pagingIsAligned_page, pagingGetIndexes_page]
    refine ends_bind.mpr ⟨_, kernel, ends_loadWord.mpr ⟨blockAddress_ne_zero _, rfl, rfl⟩, ?_⟩
    rw [h.names _ hi]
    refine ends_bind.mpr ⟨(), _, ends_storeWord.mpr ⟨blockAddress_ne_zero _, rfl⟩, ?_⟩
    exact ends_pure.mpr ⟨rfl, rfl⟩
  · have hfalse : pagingIsAligned virt = false := Bool.eq_false_iff.mpr haligned
    simp only [pagingSet, SlobOS.pagingSet, hfalse]
    exact .refuse b _

theorem pagingMap_refines (b : ChunkBlocks) (hvirt : virt < addressSpace)
    (hval : phys ||| flags < addressSpace) : Refines b (pagingMap (blockAddress b.chunk) virt phys flags)
      (fun pages => SlobOS.pagingMap pages (blockAddress b.directory) virt phys flags) := by
  unfold pagingMap SlobOS.pagingMap
  split
  · exact .refuse b _
  · intro kernel pages h
    obtain ⟨after, hset, hafter⟩ := pagingSet_refines b hvirt hval kernel pages h
    refine ⟨after, ends_bind.mpr ⟨_, kernel, ?_, hset⟩, hafter⟩
    exact ends_loadWord.mpr ⟨blockAddress_ne_zero _, h.chunk.symm, rfl⟩

theorem or_lt_addressSpace (hphys : phys < addressSpace) (hflags : flags < pagingPageSize) :
    phys ||| flags < addressSpace :=
  Nat.or_lt_two_pow (n := 32) hphys (Nat.lt_trans hflags (by decide))

theorem pagingMapRange_refines (b : ChunkBlocks) (hvirt : virt < addressSpace)
    (hphys : phys < addressSpace) (hflags : flags < pagingPageSize) (count : Nat) :
    Refines b (pagingMapRange (blockAddress b.chunk) virt phys count flags)
      (fun pages => SlobOS.pagingMapRange pages (blockAddress b.directory) virt phys count flags) := by
  induction count generalizing virt phys with
  | zero => exact .refuse b 0
  | succ count ih =>
      intro kernel pages h
      obtain ⟨middle, hmap, hmiddle⟩ :=
        pagingMap_refines b hvirt (or_lt_addressSpace hphys hflags) kernel pages h
      simp only [pagingMapRange, SlobOS.pagingMapRange] at hmap hmiddle ⊢
      generalize SlobOS.pagingMap pages (blockAddress b.directory) virt phys flags = result
        at hmap hmiddle ⊢
      obtain ⟨res, pages'⟩ := result
      change Ends _ kernel res middle at hmap
      by_cases hneg : res < 0
      · refine ⟨middle, ends_bind.mpr ⟨res, middle, hmap, ?_⟩, ?_⟩
        · simp only [if_pos hneg]
          exact ends_pure.mpr ⟨rfl, rfl⟩
        · simp only [if_pos hneg]
          exact hmiddle
      · obtain ⟨after, hrest, hafter⟩ := ih (toUint32_lt _) (toUint32_lt _) middle pages' hmiddle
        refine ⟨after, ends_bind.mpr ⟨res, middle, hmap, ?_⟩, ?_⟩
        · simp only [if_neg hneg]
          exact hrest
        · simp only [if_neg hneg]
          exact hafter

theorem pagingMapTo_refines (b : ChunkBlocks) (hvirt : virt < addressSpace)
    (hphys : phys < addressSpace) (hflags : flags < pagingPageSize) (physEnd : Nat) :
    Refines b (pagingMapTo (blockAddress b.chunk) virt phys physEnd flags)
      (fun pages => SlobOS.pagingMapTo pages (blockAddress b.directory) virt phys physEnd flags) := by
  unfold pagingMapTo SlobOS.pagingMapTo
  split_ifs
  · exact .refuse b _
  · exact .refuse b _
  · exact .refuse b _
  · exact .refuse b _
  · exact pagingMapRange_refines b hvirt hphys hflags _

theorem pagingGet_ends (h : Represents kernel b pages)
    (hlow : ∀ i < pagingTotalEntriesPerTable, word kernel (blockAddress b.directory) i < 0x10000000)
    (hvirt : virt < addressSpace) :
    Ends (pagingGet (blockAddress b.directory) (pagingAlignToLowerPage virt)) kernel
      (pageWord kernel (blockAddress b.directory) (virt / pagingPageSize)) kernel := by
  have hpage := page_lt hvirt
  have hi := directoryIndex_lt hpage
  simp only [pagingGet, pagingAlignToLowerPage_eq, pagingIsAligned_page, if_true,
    pagingGetIndexes_page]
  refine ends_bind.mpr ⟨_, kernel, ends_loadWord.mpr ⟨blockAddress_ne_zero _, rfl, rfl⟩, ?_⟩
  rw [tableAddress_mask (hlow _ hi), h.names _ hi, pageWord, h.names _ hi]
  exact ends_loadWord.mpr ⟨blockAddress_ne_zero _, rfl, rfl⟩

theorem pagingGetPhysicalAddress_ends (h : Represents kernel b pages)
    (hlow : ∀ i < pagingTotalEntriesPerTable, word kernel (blockAddress b.directory) i < 0x10000000)
    (hvirt : virt < addressSpace) :
    Ends (pagingGetPhysicalAddress (blockAddress b.directory) virt) kernel
      (toUint32 (tableAddress (pageWord kernel (blockAddress b.directory) (virt / pagingPageSize)) +
        virt % pagingPageSize)) kernel := by
  have hoffset : virt - pagingAlignToLowerPage virt = virt % pagingPageSize := by
    have hle := Nat.mod_le virt pagingPageSize
    rw [pagingAlignToLowerPage]
    omega
  rw [pagingGetPhysicalAddress, hoffset]
  exact ends_bind.mpr ⟨_, kernel, pagingGet_ends h hlow hvirt, ends_pure.mpr ⟨rfl, rfl⟩⟩

theorem toUint32_page (page k : Nat) : toUint32 (page * pagingPageSize + k) / pagingPageSize =
    (page + k / pagingPageSize) % pageCount := by
  have hspace : addressSpace = pagingPageSize * pageCount := rfl
  rw [toUint32, hspace, Nat.mod_mul_right_div_self, Nat.mul_comm page,
    Nat.mul_add_div (by decide)]

theorem pageOffset_add {page count : Nat} (hpage : page < pageCount) (hcount : count < pageCount) :
    pageOffset page ((page + count) % pageCount) = count := by
  simp only [pageOffset, pageCount] at *
  omega

theorem add_pageOffset {page at' : Nat} (hpage : page < pageCount) (hat : at' < pageCount) :
    (page + pageOffset page at') % pageCount = at' := by
  simp only [pageOffset, pageCount] at *
  omega

theorem Represents.kept (h : Represents kernel b pages) (h' : Represents after b pages) :
    EntriesKept kernel after (blockAddress b.directory) where
  names i hi := (h'.directory i hi).symm.trans (h.directory i hi)
  page _ hpage := (h'.reads hpage).symm.trans (h.reads hpage)

theorem Represents.mapped {frame count : Nat} (h : Represents kernel b pages)
    (h' : Represents after b pages') (hpage : page < pageCount) (hflags : flags < pagingPageSize)
    (hstop : frame + count < pageCount)
    (hlow : ∀ i < pagingTotalEntriesPerTable, word after (blockAddress b.directory) i < 0x10000000)
    (hmaps : Maps pages pages' (blockAddress b.directory) page frame count flags) :
    RangeMapped kernel after (blockAddress b.directory) (page * pagingPageSize)
      (frame * pagingPageSize) (count * pagingPageSize) flags := by
  have hplace : ∀ k, toUint32 (page * pagingPageSize + k) / pagingPageSize < pageCount := fun k =>
    page_lt (toUint32_lt _)
  -- The entry of the page that an address of the range lies in.
  have hentry : ∀ k < count * pagingPageSize, pageWord after (blockAddress b.directory)
      (toUint32 (page * pagingPageSize + k) / pagingPageSize) =
        (frame + k / pagingPageSize) * pagingPageSize + flags := by
    intro k hk
    have hcount : k / pagingPageSize < count := Nat.div_lt_of_lt_mul (Nat.mul_comm _ _ ▸ hk)
    rw [← h'.reads (hplace k), hmaps.entry h.distinct _ (hplace k), toUint32_page,
      pageOffset_add hpage (by omega), if_pos hcount, Nat.mod_eq_of_lt (by omega),
      page_or_flags hflags]
  constructor
  · intro k hk
    have htranslated := pagingGetPhysicalAddress_ends h' hlow (toUint32_lt (page * pagingPageSize + k))
    rw [hentry k hk] at htranslated
    have hframe : tableAddress ((frame + k / pagingPageSize) * pagingPageSize + flags) =
        (frame + k / pagingPageSize) * pagingPageSize := by
      rw [← page_or_flags hflags]
      exact tableAddress_or (Nat.mul_mod_left _ _) hflags
    have hoffset : toUint32 (page * pagingPageSize + k) % pagingPageSize = k % pagingPageSize := by
      rw [toUint32, Nat.mod_mod_of_dvd _ (by decide), Nat.mul_add_mod_self_right]
    rwa [hframe, hoffset, Nat.add_mul, Nat.add_assoc, Nat.mul_comm (k / _), Nat.div_add_mod]
      at htranslated
  · intro k hk
    rw [hentry k hk, Nat.mul_add_mod_self_right, Nat.mod_eq_of_lt hflags]
  · intro at' hat hout
    rw [← h'.reads hat, ← h.reads hat, hmaps.entry h.distinct at' hat, if_neg]
    intro hin
    apply hout (pageOffset page at' * pagingPageSize) (Nat.mul_lt_mul_of_pos_right hin (by decide))
    rw [toUint32_page, Nat.mul_div_cancel _ (by decide), add_pageOffset hpage hat]
  · intro i hi
    rw [← h'.directory i hi, hmaps.directories, h.directory i hi]

/-! ### `paging_map_to` -/

def tablesOf (kernel : Kernel) : PageTables where
  directories := word kernel
  tables := word kernel
  stores := []

theorem pagingMapTo_unmappable (h : ¬Mappable virt phys physEnd) (pages : PageTables)
    (directory flags : Nat) :
    SlobOS.pagingMapTo pages directory virt phys physEnd flags = (-einvarg, pages) := by
  unfold SlobOS.pagingMapTo
  split_ifs with hvirt hphys hend hle
  · rfl
  · rfl
  · rfl
  · rfl
  · exact absurd ⟨not_not.mp hvirt, not_not.mp hphys, not_not.mp hend, Nat.le_of_not_lt hle⟩ h

theorem Represents.mapTo (h : Represents kernel b pages)
    (hlow : ∀ i < pagingTotalEntriesPerTable, word kernel (blockAddress b.directory) i < 0x10000000)
    (hvirt : virt < addressSpace) (hphys : phys < addressSpace) (hend : physEnd < addressSpace)
    (hflags : flags < pagingPageSize) : ∃ res after,
      Ends (pagingMapTo (blockAddress b.chunk) virt phys physEnd flags) kernel res after ∧
        MapToMeets kernel after (blockAddress b.directory) virt phys physEnd flags res := by
  obtain ⟨after, hends, hafter⟩ := pagingMapTo_refines b hvirt hphys hflags physEnd kernel pages h
  refine ⟨_, after, hends, ?_⟩
  by_cases hmappable : Mappable virt phys physEnd
  · refine Or.inl ⟨hmappable, ?_⟩
    obtain ⟨hvirt', hphys', hend', hle⟩ := hmappable
    obtain ⟨page, rfl⟩ := aligned_page hvirt'
    obtain ⟨frame, rfl⟩ := aligned_page hphys'
    obtain ⟨stop, rfl⟩ := aligned_page hend'
    have hlt : ∀ {first}, first * pagingPageSize < addressSpace → first < pageCount := fun hfirst =>
      Nat.lt_of_mul_lt_mul_right (a := pagingPageSize) hfirst
    have hframes := Nat.le_of_mul_le_mul_right hle (by decide)
    obtain ⟨pages', hmap, hmaps⟩ := @pagingMapTo_maps pages (blockAddress b.directory) page frame stop
      flags (hlt hvirt) (hlt hphys) (hlt hend) hframes
    simp only [hmap] at hafter ⊢
    refine ⟨trivial, ?_⟩
    rw [← Nat.sub_mul]
    have hstop := hlt hend
    refine h.mapped hafter (hlt hvirt) hflags (by omega) (fun i hi => ?_) hmaps
    rw [← hafter.directory i hi, hmaps.directories, h.directory i hi]
    exact hlow i hi
  · simp only [pagingMapTo_unmappable hmappable] at hafter ⊢
    exact Or.inr ⟨hmappable, by decide, h.kept hafter⟩

theorem pagingMapTo_meets {chunk directory : Nat} (h : BuiltChunk kernel chunk directory)
    (hvirt : virt < addressSpace) (hphys : phys < addressSpace) (hend : physEnd < addressSpace)
    (hflags : flags < pagingPageSize) : ∃ res after,
      Ends (pagingMapTo chunk virt phys physEnd flags) kernel res after ∧
        MapToMeets kernel after directory virt phys physEnd flags res := by
  obtain ⟨built, start, first, hsound, hnew, rfl, hchunk, hnames⟩ := h.built
  obtain ⟨b, rfl, hbuilt, -⟩ := pagingNew4gb_spec hsound hnew
  have hinside := h.inside
  rw [hbuilt.chunk] at hchunk hnames hinside ⊢
  have htable : ∀ i < pagingTotalEntriesPerTable,
      tableAddress (word kernel (blockAddress b.directory) i) = blockAddress (b.table i) := by
    intro i hi
    rw [hnames i hi, hbuilt.entry i hi, tableAddress_entry]
  have hrepresents : Represents kernel b (tablesOf kernel) :=
    ⟨hchunk, htable, fun _ _ => rfl, fun _ _ _ _ => rfl⟩
  refine hrepresents.mapTo (fun i hi => ?_) hvirt hphys hend hflags
  have hplace := hinside i hi
  simp only [tableAddress, pagingPageSize, pageTableSize, slobosHeapAddress,
    slobosHeapSizeBytes] at hplace
  omega

theorem builtChunk_new {built : UInt8} {chunk : Nat} {start : Kernel} (hsound : HeapSound start.heap)
    (htotal : start.heap.table.total ≤ slobosHeapSizeBytes / slobosHeapBlockSize)
    (hnew : Ends (pagingNew4gb built) start chunk kernel) :
    BuiltChunk kernel chunk (word kernel chunk 0) := by
  refine ⟨⟨built, start, kernel, hsound, hnew, rfl, rfl, fun _ _ => rfl⟩, fun i hi => ?_⟩
  obtain ⟨b, rfl, hbuilt, -⟩ := pagingNew4gb_spec hsound hnew
  rw [hbuilt.chunk, hbuilt.entry i hi, tableAddress_entry]
  have hlt := hbuilt.takes.lt _ (b.table_mem hi)
  simp only [blockAddress, pageTableSize, slobosHeapAddress, slobosHeapBlockSize,
    slobosHeapSizeBytes] at htotal ⊢
  omega

theorem pagingMapTo_meets_around : ∃ kernel chunk directory res after, BuiltChunk kernel chunk directory ∧
    Ends (pagingMapTo chunk 0xFFFFF000 0x400000 0x402000 7) kernel res after ∧
      MapToMeets kernel after directory 0xFFFFF000 0x400000 0x402000 7 res := by
  obtain ⟨chunk, kernel, hnew⟩ :=
    pagingNew4gb_ends (idleKernel_freeBlocks unmountedVolume (by decide)) 0x05
  have hbuilt := builtChunk_new (idleKernel_sound unmountedVolume) (by decide) hnew
  obtain ⟨res, after, hmap, hmeets⟩ := @pagingMapTo_meets kernel 0xFFFFF000 0x400000 0x402000 7 chunk
    _ hbuilt (by decide) (by decide) (by decide) (by decide)
  exact ⟨kernel, chunk, _, res, after, hbuilt, hmap, hmeets⟩

end Physical

end SlobOS
