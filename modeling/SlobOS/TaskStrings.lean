import SlobOS.PhysicalRuns

/-!
# Strings of a task

The call for a string of a task maps its buffer in the directory of the task for the time of the first
copy. When it comes back, the directory, the page tables and the table of the heap are as they were. The
string is the one that the task sees, unless the call has changed a byte of it before the copy: one of
the buffer, of its entry in the page tables, or of the table of the heap.
-/

namespace SlobOS

namespace Physical

open Faulting Kernel CStrings Runs

/-- The blocks of a chunk that `paging_new_4gb` has built are still in use, and the chunk structure and
the entries of the directory are as they were built. -/
structure ChunkInUse (kernel : Kernel) (chunk directory : Nat) : Prop
    extends BuiltChunk kernel chunk directory where
  sound : HeapSound kernel.heap
  used : ∀ block, (blockAddress block = chunk ∨ blockAddress block = directory ∨
      ∃ i < pagingTotalEntriesPerTable, tableAddress (word kernel directory i) = blockAddress block) →
    block < kernel.heap.table.total ∧ ¬kernel.heap.table.IsFree block

/-- A buffer of the kernel: no byte of it is in the directory, in a page table, in a block that the heap
can hand out, or in the table of the heap. -/
structure KernelBuffer (kernel : Kernel) (directory phys size : Nat) : Prop where
  fits : phys + size ≤ addressSpace
  apart : Disjoint phys size directory pageTableSize
  tables : ∀ i < pagingTotalEntriesPerTable,
    Disjoint phys size (tableAddress (word kernel directory i)) pageTableSize
  free : ∀ block < kernel.heap.table.total, kernel.heap.table.IsFree block →
    Disjoint phys size (blockAddress block) slobosHeapBlockSize
  table : ∀ i < size, OutsideTable (phys + i)

def stringBuffer (kernel : Kernel) (max : Int) : Nat :=
  (heapMalloc kernel.heap (max % addressSpace).toNat).1

/-- The task sees the string, at addresses that are readable with what they translate to. -/
structure SeesString (kernel : Kernel) (directory virtual : Nat) (readable : Nat → Nat → Prop)
    (str : List UInt8) : Prop where
  nonzero : 0 ∉ str
  sees : ∀ j ≤ str.length, ∃ physical,
    walk directory (toUint32 (virtual + j)) kernel = some physical ∧
      readable (toUint32 (virtual + j)) physical ∧ bytes kernel physical = str.getD j 0

def OutsideBuffer (kernel : Kernel) (max : Int) (virt physical : Nat) : Prop :=
  virt / pagingPageSize ≠ stringBuffer kernel max / pagingPageSize ∧
    physical / pagingPageSize ≠ stringBuffer kernel max / pagingPageSize

def pagePlace (kernel : Kernel) (directory page : Nat) : Nat :=
  tableAddress (word kernel directory (page / pagingTotalEntriesPerTable)) +
    4 * (page % pagingTotalEntriesPerTable)

/-- And what it translates to is neither in the entry of that page nor in the table of the heap. -/
def Undisturbed (kernel : Kernel) (directory : Nat) (max : Int) (virt physical : Nat) : Prop :=
  OutsideBuffer kernel max virt physical ∧ OutsideTable physical ∧
    Disjoint (pagePlace kernel directory (stringBuffer kernel max / pagingPageSize)) 4 physical 1

structure CopyMeets (kernel : Kernel) (chunk directory virtual phys : Nat) (max : Int)
    (readable : Nat → Nat → Prop) : Prop where
  refused : max ≥ pagingPageSize →
    Ends (copyStringFromTask chunk virtual phys max) kernel (-einvarg) kernel
  kept : ∀ res after, Ends (copyStringFromTask chunk virtual phys max) kernel res after →
    EntriesKept kernel after directory ∧ after.heap.table.entries = kernel.heap.table.entries
  copied : max < pagingPageSize → ∀ str, SeesString kernel directory virtual readable str →
    ∃ res after, Ends (copyStringFromTask chunk virtual phys max) kernel res after ∧
      ((stringBuffer kernel max = 0 ∧ res = -enomem) ∨
        (res = 0 ∧ StringAt (bytes after) phys (str.take (max - 1).toNat)))

variable {kernel first after copied : Kernel} {b : ChunkBlocks} {chunk directory virtual phys block : Nat}
  {max res : Int} {str : List UInt8} {readable : Nat → Nat → Prop}

/-- The blocks of the chunk, and what is known about the entries of the directory. -/
structure ChunkHeld (kernel : Kernel) (b : ChunkBlocks) : Prop where
  owned : Owned kernel b
  low : ∀ i < pagingTotalEntriesPerTable, word kernel (blockAddress b.directory) i < 0x10000000
  present : ∀ i < pagingTotalEntriesPerTable, ∀ j < pagingTotalEntriesPerTable,
    word kernel (blockAddress b.directory) i % 2 = 1 → word kernel (blockAddress b.directory) j % 2 = 1

theorem ChunkHeld.leaves (h : ChunkHeld kernel b) (hleaves : Leaves b kernel after) :
    ChunkHeld after b := by
  refine ⟨h.owned.leaves hleaves, fun i hi => ?_, fun i hi j hj => ?_⟩
  · rw [hleaves.entry hi]
    exact h.low i hi
  · rw [hleaves.entry hi, hleaves.entry hj]
    exact h.present i hi j hj

theorem ChunkInUse.held (h : ChunkInUse kernel chunk directory) : ∃ b : ChunkBlocks,
    chunk = blockAddress b.chunk ∧ directory = blockAddress b.directory ∧ ChunkHeld kernel b := by
  obtain ⟨flags, start, first, hsound, hnew, hdirectory, hchunk, hnames⟩ := h.built
  obtain ⟨b, rfl, hbuilt, -⟩ := pagingNew4gb_spec hsound hnew
  obtain rfl := hdirectory.trans hbuilt.chunk
  have htable : ∀ i < pagingTotalEntriesPerTable,
      tableAddress (word kernel (blockAddress b.directory) i) = blockAddress (b.table i) := by
    intro i hi
    rw [hnames i hi, hbuilt.entry i hi, tableAddress_entry]
  refine ⟨b, rfl, rfl, ⟨fun block hmem => ?_, hchunk, htable⟩, fun i hi => ?_, fun i hi j hj => ?_⟩
  · have hused := h.used block
    rcases b.mem_blocks.mp hmem with rfl | rfl | ⟨i, hi, rfl⟩
    · exact ⟨h.sound, (hused (Or.inl rfl)).1, (hused (Or.inl rfl)).2⟩
    · exact ⟨h.sound, (hused (Or.inr (Or.inl rfl))).1, (hused (Or.inr (Or.inl rfl))).2⟩
    · have hin := hused (Or.inr (Or.inr ⟨i, hi, htable i hi⟩))
      exact ⟨h.sound, hin.1, hin.2⟩
  · have hinside := h.inside i hi
    simp only [tableAddress, pagingPageSize, pageTableSize, slobosHeapAddress, slobosHeapSizeBytes]
      at hinside
    omega
  · -- All entries have been built with the same flags.
    rw [hnames i hi, hnames j hj, hbuilt.entry_odd_iff hi, hbuilt.entry_odd_iff hj]
    exact id

/-- The call has got a block of the heap, which is none of the chunk. -/
structure TakesBuffer (kernel first : Kernel) (b : ChunkBlocks) (max : Int) (block : Nat) : Prop where
  alloc : Ends (kzalloc (max % addressSpace).toNat) kernel (blockAddress block) first
  takes : TakesBlock kernel.heap first.heap block
  sound : HeapSound first.heap
  other : block ∉ b.blocks
  below : blockAddress block + slobosHeapBlockSize ≤ addressSpace

theorem max_size (hpos : 1 ≤ max) (hmax : ¬max ≥ pagingPageSize) :
    (max % addressSpace).toNat = max.toNat ∧ 0 < max.toNat ∧ max.toNat ≤ slobosHeapBlockSize := by
  simp only [pagingPageSize, addressSpace, slobosHeapBlockSize] at *
  omega

theorem takesBuffer_of_free (howned : Owned kernel b) (hfree : FreeBlocks kernel.heap 1) (hpos : 1 ≤ max)
    (hmax : ¬max ≥ pagingPageSize) : ∃ block first, TakesBuffer kernel first b max block := by
  obtain ⟨hsize, hlt, hle⟩ := max_size hpos hmax
  rw [← hsize] at hlt hle
  obtain ⟨ptr, first, halloc, hne, -⟩ := @kzalloc_block _ 0 _ _ _ hfree hlt hle
  rcases kzalloc_oneBlock hfree.toHeapSound hlt hle halloc with
    ⟨-, hnull, -⟩ | ⟨block, -, hptr, htakes, hfirst⟩
  · exact absurd hnull hne
  · obtain ⟨start, hstart, hother, hbelow⟩ := kzalloc_other howned halloc hne
    obtain rfl : start = block :=
      blockAddress_injective (hstart.symm.trans (hptr.trans (hfree.toHeapSound.address htakes.lt)))
    exact ⟨start, first, hstart ▸ halloc, htakes, hfirst, hother, hbelow⟩

theorem takesBuffer (hsound : HeapSound kernel.heap) (howned : Owned kernel b) (hpos : 1 ≤ max)
    (hmax : ¬max ≥ pagingPageSize) :
    (stringBuffer kernel max = 0 ∧ Ends (kzalloc (max % addressSpace).toNat) kernel 0 kernel) ∨
      ∃ block first, TakesBuffer kernel first b max block := by
  by_cases hfree : FreeBlocks kernel.heap 1
  case pos => exact Or.inr (takesBuffer_of_free howned hfree hpos hmax)
  case neg =>
    obtain ⟨hsize, hlt, hle⟩ := max_size hpos hmax
    rw [← hsize] at hlt hle
    exact Or.inl (kzalloc_none hsound hlt hle hfree)

theorem TakesBuffer.stringBuffer_eq (h : TakesBuffer kernel first b max block) :
    stringBuffer kernel max = blockAddress block :=
  (ends_kzalloc h.alloc).1.symm

theorem copyString_noMemory (hmax : ¬max ≥ pagingPageSize)
    (halloc : Ends (kzalloc (max % addressSpace).toNat) kernel 0 kernel) :
    Ends (copyStringFromTask chunk virtual phys max) kernel (-enomem) kernel := by
  rw [copyStringFromTask, if_neg hmax, halloc.bind_iff, if_pos rfl]
  exact ends_pure.mpr ⟨rfl, rfl⟩

theorem KernelBuffer.copy_lt (h : KernelBuffer kernel directory phys max.toNat) (hpos : 1 ≤ max) :
    phys + (max - 1).toNat < addressSpace := by
  have hfits := h.fits
  omega

theorem copyString_kept (hheld : ChunkHeld kernel b) (hsound : HeapSound kernel.heap) (hpos : 1 ≤ max)
    (hmax : ¬max ≥ pagingPageSize)
    (hbuffer : KernelBuffer kernel (blockAddress b.directory) phys max.toNat)
    (h : Ends (copyStringFromTask (blockAddress b.chunk) virtual phys max) kernel res after) :
    EntriesKept kernel after (blockAddress b.directory) ∧
      after.heap.table.entries = kernel.heap.table.entries := by
  have howned := hheld.owned
  rcases takesBuffer hsound howned hpos hmax with ⟨-, hnull⟩ | ⟨block, first, htaken⟩
  · obtain ⟨-, rfl⟩ := h.unique (copyString_noMemory hmax hnull)
    exact ⟨⟨fun _ _ => rfl, fun _ _ => rfl⟩, rfl⟩
  obtain ⟨-, copied, stored, hcopy, hstore, rfl⟩ :=
    (ends_copyString howned hheld.low hmax htaken.alloc htaken.other htaken.below).mp h
  have howned' := howned.leaves (kzalloc_leaves howned htaken.alloc)
  obtain ⟨-, hsame, hheap⟩ := strncpy_buffer htaken.other htaken.below hmax
    (setEntry_mapped howned' htaken.below) hcopy
  obtain ⟨hheap', hbytes⟩ := strncpy_destination (hbuffer.copy_lt hpos) hstore
  constructor
  · have hfirst := kzalloc_sameOutside htaken.alloc
      ((max_size hpos hmax).1 ▸ (max_size hpos hmax).2.2)
    have hrestored := Frame.trans hfirst (restored_sameOutside howned' htaken.below hsame)
    have hblocks : ∀ {other}, other ∈ b.blocks →
        Disjoint phys max.toNat (blockAddress other) slobosHeapBlockSize →
        SameBytes (blockAddress other) slobosHeapBlockSize kernel
          { stored with heap := heapFree stored.heap (blockAddress block) } := by
      intro other hmem hdisjoint j hj
      refine (hbytes _ ?_).trans (hrestored.chunkBytes htaken.other hmem j hj)
      unfold Disjoint at hdisjoint
      omega
    refine entriesKept_of_same howned (hblocks b.directory_mem hbuffer.apart) fun i hi => ?_
    exact hblocks (b.table_mem hi) (howned.names i hi ▸ hbuffer.tables i hi)
  · funext i
    have hstored : stored.heap = first.heap := hheap'.trans hheap
    have hreleased := takesBlock_release htaken.takes hsound htaken.sound i
    rw [htaken.sound.address (htaken.takes.total ▸ htaken.takes.lt)] at hreleased
    change (heapFree stored.heap (blockAddress block)).table.entries i = _
    rw [hstored]
    exact hreleased

theorem prefix_take (hzero : 0 ∉ str) (count : Nat) : Prefix count (str.take count) where
  length := List.length_take_le _ _
  nonzero hmem := hzero (List.mem_of_mem_take hmem)

theorem getD_take {count j : Nat} (hj : j < count) : (str.take count).getD j 0 = str.getD j 0 := by
  rw [List.getD_eq_getElem?_getD, List.getD_eq_getElem?_getD, List.getElem?_take_of_lt hj]

theorem getD_append_zero (text : List UInt8) (j : Nat) : (text ++ [0]).getD j 0 = text.getD j 0 := by
  rcases Nat.lt_trichotomy j text.length with hlt | rfl | hgt
  · exact List.getD_append _ _ _ _ hlt
  · simp
  · rw [List.getD_eq_default, List.getD_eq_default]
    · omega
    · rw [List.length_append, List.length_singleton]
      omega

theorem outside_block {address : Nat}
    (hne : address / pagingPageSize ≠ blockAddress block / pagingPageSize) :
    ¬(blockAddress block ≤ address ∧ address < blockAddress block + slobosHeapBlockSize) := by
  rintro ⟨hge, hlt⟩
  obtain ⟨j, rfl⟩ := Nat.exists_eq_add_of_le hge
  exact hne (blockAddress_add (Nat.lt_of_add_lt_add_left hlt)).1

theorem pagePlace_eq (howned : Owned kernel b)
    (hbelow : blockAddress block + slobosHeapBlockSize ≤ addressSpace) :
    pagePlace kernel (blockAddress b.directory) (blockAddress block / pagingPageSize) =
      entryPlace b block := by
  rw [pagePlace, howned.names _ (directoryIndex_lt (page_lt (blockAddress_lt hbelow))), entryPlace]

def withBuffer (b : ChunkBlocks) (block : Nat) (first : Kernel) : Kernel :=
  setEntry b block (blockAddress block ||| 7) first

theorem copyString_served {text : List UInt8} (hheld : ChunkHeld kernel b)
    (htaken : TakesBuffer kernel first b max block) (hpos : 1 ≤ max) (hmax : ¬max ≥ pagingPageSize)
    (hbuffer : KernelBuffer kernel (blockAddress b.directory) phys max.toNat)
    (hpresent : ∀ i < pagingTotalEntriesPerTable, word kernel (blockAddress b.directory) i % 2 = 1)
    (htext : Prefix (max - 1).toNat text)
    (hreads : ∀ j < (max - 1).toNat, j ≤ text.length → ∃ physical,
      walk (blockAddress b.directory) (toUint32 (virtual + j)) (withBuffer b block first) =
          some physical ∧ physical / pagingPageSize ≠ blockAddress block / pagingPageSize ∧
        bytes (withBuffer b block first) physical = text.getD j 0) :
    ∃ after, Ends (copyStringFromTask (blockAddress b.chunk) virtual phys max) kernel 0 after ∧
      StringAt (bytes after) phys text := by
  have hbelow := htaken.below
  have hcount := count_lt hmax
  have hfirst := kzalloc_leaves hheld.owned htaken.alloc
  have howned := hheld.owned.leaves hfirst
  have hmapped := setEntry_leaves howned hbelow (blockAddress block ||| 7)
  have hcopy := strncpy_reads (howned.leaves hmapped) (setEntry_mapped howned hbelow) htaken.other hbelow
    hmax (fun i hi => by rw [hmapped.entry hi, hfirst.entry hi]; exact hpresent i hi) htext
    fun j hj hle => by
      obtain ⟨physical, hwalk, hout, hbyte⟩ := hreads j hj hle
      exact ⟨physical, hwalk, outside_block hout, hbyte⟩
  -- The entry of the page is not in the buffer.
  have hi := directoryIndex_lt (page_lt (blockAddress_lt hbelow))
  have hdisjoint := @blockAddress_disjoint
    (b.table (blockAddress block / pagingPageSize / pagingTotalEntriesPerTable)) block
    fun heq => htaken.other (heq ▸ b.table_mem hi)
  have hcell := entryCell_le
    (Nat.mod_lt (blockAddress block / pagingPageSize) (show 0 < pagingTotalEntriesPerTable by decide))
  have hstore := @strncpy_writes (setEntry b block (pageWord first (blockAddress b.directory)
    (blockAddress block / pagingPageSize)) (putMemory (blockAddress block) (text ++ [0])
      (withBuffer b block first))) (blockAddress block) text phys max (hbuffer.copy_lt hpos) (by omega)
    htext ?apart ?bytes
  case apart =>
    intro i hi j hj
    have hfree := hbuffer.free block htaken.takes.lt htaken.takes.free
    unfold Disjoint at hfree
    omega
  case bytes =>
    intro j hj
    have hlength := htext.length
    unfold Disjoint at hdisjoint
    rw [setEntry_bytes (by simp only [entryPlace]; omega), bytes_putMemory,
      putBytes_of_lt (by rw [List.length_append, List.length_singleton]; omega), getD_append_zero]
  refine ⟨_, (ends_copyString hheld.owned hheld.low hmax htaken.alloc htaken.other hbelow).mpr
    ⟨rfl, _, _, hcopy, hstore, rfl⟩, ?_⟩
  exact stringAt_putBytes htext.nonzero

theorem SeesString.present (hheld : ChunkHeld kernel b)
    (h : SeesString kernel (blockAddress b.directory) virtual readable str) :
    ∀ i < pagingTotalEntriesPerTable, word kernel (blockAddress b.directory) i % 2 = 1 := by
  intro i hi
  obtain ⟨physical, hwalk, -⟩ := h.sees 0 (Nat.zero_le _)
  have hodd := (walk_iff.mp hwalk).1.1
  exact hheld.present _ (directoryIndex_lt (page_lt (toUint32_lt _))) i hi hodd

theorem TakesBuffer.walk (htaken : TakesBuffer kernel first b max block) (hheld : ChunkHeld kernel b)
    (hpos : 1 ≤ max) (hmax : ¬max ≥ pagingPageSize) {virt : Nat} (hvirt : virt < addressSpace)
    (hne : virt / pagingPageSize ≠ blockAddress block / pagingPageSize) :
    Physical.walk (blockAddress b.directory) virt (withBuffer b block first) =
      Physical.walk (blockAddress b.directory) virt kernel := by
  have howned := hheld.owned.leaves (kzalloc_leaves hheld.owned htaken.alloc)
  have hval := or_lt_addressSpace (blockAddress_lt htaken.below) (show 7 < pagingPageSize by decide)
  have hfirst := kzalloc_sameOutside htaken.alloc
    ((max_size hpos hmax).1 ▸ (max_size hpos hmax).2.2)
  rw [withBuffer, setEntry_walk howned htaken.below hval hvirt hne]
  exact (hfirst.kept hheld.owned htaken.other).walk hvirt

theorem SeesString.reads (hheld : ChunkHeld kernel b) (htaken : TakesBuffer kernel first b max block)
    (hpos : 1 ≤ max) (hmax : ¬max ≥ pagingPageSize) {j : Nat} (hj : j ≤ str.length)
    (h : SeesString kernel (blockAddress b.directory) virtual
      (Undisturbed kernel (blockAddress b.directory) max) str) : ∃ physical,
      walk (blockAddress b.directory) (toUint32 (virtual + j)) (withBuffer b block first) =
          some physical ∧ physical / pagingPageSize ≠ blockAddress block / pagingPageSize ∧
        bytes (withBuffer b block first) physical = str.getD j 0 := by
  obtain ⟨physical, hwalk, ⟨⟨hvirt, hout⟩, -, hentry⟩, hbyte⟩ := h.sees j hj
  rw [htaken.stringBuffer_eq] at hvirt hout hentry
  rw [pagePlace_eq hheld.owned htaken.below] at hentry
  have hfirst := kzalloc_sameOutside htaken.alloc
    ((max_size hpos hmax).1 ▸ (max_size hpos hmax).2.2)
  refine ⟨physical, (htaken.walk hheld hpos hmax (toUint32_lt _) hvirt).trans hwalk, hout, ?_⟩
  calc bytes (withBuffer b block first) physical
    _ = bytes first physical := setEntry_bytes (by unfold Disjoint at hentry; omega)
    _ = bytes kernel physical := hfirst physical (outside_block hout)
    _ = str.getD j 0 := hbyte

/-! ### Runs -/

/-- Over any run in which no string is stored in the directory, in the chunk structure or in the table of
the heap, the chunk stays in use. -/
theorem chunkInUse_run {flags : UInt8} {start : Kernel} {live : List Nat} {actions : List PagingAction}
    {state : PagingState} (hsound : HeapSound start.heap)
    (htotal : start.heap.table.total ≤ slobosHeapSizeBytes / slobosHeapBlockSize)
    (hnew : Ends (pagingNew4gb flags) start chunk first)
    (hlive : ∀ ptr ∈ live, LiveAddress start.heap ptr)
    (hrun : Run (Guarded (fun _ => StoresOutside chunk (word first chunk 0)) (PagingStep chunk))
      { kernel := first, live := live } actions state) :
    ChunkInUse state.kernel chunk (word first chunk 0) := by
  obtain ⟨b, rfl, hbuilt, hkept⟩ := kept_new hsound hnew hlive
  have hnew' := builtChunk_new hsound htotal hnew
  rw [hbuilt.chunk] at hrun hnew' ⊢
  have hstep : ∀ before action next, Kept b before ∧ Leaves b first before.kernel →
      Guarded (fun _ => StoresOutside (blockAddress b.chunk) (blockAddress b.directory))
        (PagingStep (blockAddress b.chunk)) before action next →
      Kept b next ∧ Leaves b first next.kernel := by
    rintro before action next ⟨hbefore, hleaves⟩ ⟨houtside, hstep⟩
    exact ⟨hbefore.step houtside hstep, Frame.trans hleaves (hbefore.step_leaves houtside hstep)⟩
  obtain ⟨hstate, hleaves⟩ := hrun.invariant
    (fun state => Kept b state ∧ Leaves b first state.kernel) hstep ⟨hkept, Frame.refl first⟩
  have hholds := hstate.owned.holds
  constructor
  case toBuiltChunk =>
    refine ⟨⟨flags, start, first, hsound, hnew, hbuilt.chunk.symm, hstate.owned.chunk,
      fun i hi => hleaves.entry hi⟩, fun i hi => ?_⟩
    rw [hleaves.entry hi]
    exact hnew'.inside i hi
  case sound => exact (hholds _ b.chunk_mem).toHeapSound
  case used =>
    intro block hblock
    have hmem : block ∈ b.blocks := by
      apply b.mem_blocks.mpr
      refine hblock.imp blockAddress_injective (Or.imp blockAddress_injective ?_)
      rintro ⟨i, hi, heq⟩
      rw [hstate.owned.names i hi] at heq
      exact ⟨i, hi, blockAddress_injective heq⟩
    exact ⟨(hholds block hmem).lt, (hholds block hmem).taken⟩

theorem bytes_setEntry {val j : Nat} (hj : j < 4) :
    bytes (setEntry b block val kernel) (entryPlace b block + j) = (wordBytes val).getD j 0 := by
  rw [setEntry, bytes_putMemory]
  exact putBytes_of_lt (by rwa [wordBytes_length])

theorem entryPlace_offset (hbelow : blockAddress block + slobosHeapBlockSize ≤ addressSpace) {j : Nat}
    (hj : j < 4) : toUint32 (entryPlace b block + j) = entryPlace b block + j := by
  have hplace := @entryPlace_below b block hbelow
  exact Nat.mod_eq_of_lt (by omega)

theorem entryPlace_page (hblock : block ∉ b.blocks)
    (hbelow : blockAddress block + slobosHeapBlockSize ≤ addressSpace) {j : Nat} (hj : j < 4) :
    (entryPlace b block + j) / pagingPageSize ≠ blockAddress block / pagingPageSize := by
  have hi := directoryIndex_lt (page_lt (blockAddress_lt hbelow))
  have hcell := entryCell_le
    (Nat.mod_lt (blockAddress block / pagingPageSize) (show 0 < pagingTotalEntriesPerTable by decide))
  intro heq
  rw [entryPlace, Nat.add_assoc, (blockAddress_add (by omega)).1] at heq
  have hsame := congrArg (· * pagingPageSize) heq
  simp only [blockAddress_page] at hsame
  exact hblock (blockAddress_injective hsame ▸ b.table_mem hi)

theorem withBuffer_flags : bytes (withBuffer b block first) (entryPlace b block) = 7 := by
  have hbyte := @bytes_setEntry first b block (blockAddress block ||| 7) 0 (by decide)
  have hor := @page_or_flags (blockAddress block / pagingPageSize) 7 (by decide)
  rw [blockAddress_page] at hor
  refine hbyte.trans ?_
  change UInt8.ofNat ((blockAddress block ||| 7) >>> 0) = 7
  rw [hor, Nat.shiftRight_zero]
  have haligned := blockAddress_aligned block
  apply UInt8.toNat_inj.mp
  rw [UInt8.toNat_ofNat']
  simp only [pagingPageSize] at haligned
  change _ = 7
  omega

/-! ### The call -/

theorem kernelBuffer_low {size : Nat} (howned : Owned kernel b)
    (hge : slobosHeapTableAddress + slobosHeapSizeBytes / slobosHeapBlockSize ≤ phys)
    (hle : phys + size ≤ slobosHeapAddress) :
    KernelBuffer kernel (blockAddress b.directory) phys size := by
  have hblock : ∀ block, Disjoint phys size (blockAddress block) slobosHeapBlockSize := fun block =>
    Or.inl (Nat.le_trans hle (Nat.le_add_right _ _))
  refine ⟨Nat.le_trans hle (by decide), hblock _, fun i hi => ?_, fun block _ _ => hblock block,
    fun i _ hin => ?_⟩
  · rw [howned.names i hi]
    exact hblock _
  · omega

theorem Built.walk {flags : UInt8} {start : Kernel} (hbuilt : Built start kernel flags b)
    (hpresent : flags.toNat % 2 = 1) {virt : Nat} (hvirt : virt < addressSpace) :
    Physical.walk (blockAddress b.directory) virt kernel = some virt := by
  have hpage := page_lt hvirt
  have hflags : flags.toNat < pagingPageSize := Nat.lt_trans (flags_lt flags) (by decide)
  rw [walk_iff, hbuilt.page _ hpage]
  refine ⟨⟨hbuilt.entry_odd hpresent (directoryIndex_lt hpage),
    Nat.or_mod_two_eq_one.mpr (Or.inr hpresent)⟩, ?_⟩
  rw [tableAddress_or (Nat.mul_mod_left _ _) hflags]
  exact Nat.div_add_mod' virt pagingPageSize

theorem exists_remapped : ∃ new first b block,
    Built (idleKernel bootBytes unmountedVolume) new 0x05 b ∧ ChunkHeld new b ∧
      TakesBuffer (setEntry b block 5 new) first b 2 block ∧
      ChunkInUse (setEntry b block 5 new) (blockAddress b.chunk) (blockAddress b.directory) := by
  have hsound := idleKernel_sound unmountedVolume
  have hfree := idleKernel_freeBlocks unmountedVolume (show 1027 ≤ 25600 by decide)
  obtain ⟨chunk, new, hnew⟩ := pagingNew4gb_ends (hfree.mono (by decide)) 0x05
  obtain ⟨b, rfl, hbuilt, hrow⟩ := pagingNew4gb_spec hsound hnew
  have howned := hbuilt.owned hrow
  have hfree' : FreeBlocks new.heap 1 := (hrow.left 1).mp (b.blocks_length ▸ hfree)
  have hpos : (1 : Int) ≤ 2 := by decide
  have hmax : ¬(2 : Int) ≥ pagingPageSize := by decide
  obtain ⟨block, _, htaken⟩ := takesBuffer_of_free howned hfree' hpos hmax
  have hleaves := setEntry_leaves howned htaken.below 5
  obtain ⟨other, first, htaken'⟩ := takesBuffer_of_free (howned.leaves hleaves) hfree' hpos hmax
  obtain rfl : other = block :=
    blockAddress_injective (htaken'.stringBuffer_eq.symm.trans htaken.stringBuffer_eq)
  have hvirt : (UInt32.ofNat (blockAddress other)).toNat = blockAddress other :=
    UInt32.toNat_ofNat_of_lt (blockAddress_lt htaken.below)
  have hset : Ends (pagingSet (blockAddress b.directory) (UInt32.ofNat (blockAddress other)).toNat
      (5 : UInt32).toNat) new 0 (setEntry b other 5 new) := by
    rw [hvirt]
    exact (ends_pagingSet_block howned htaken.below).mpr ⟨rfl, rfl⟩
  have hstep : PagingStep (blockAddress b.chunk) { kernel := new, live := [] }
      (.set (UInt32.ofNat (blockAddress other)) 5)
      { kernel := setEntry b other 5 new, live := [] } := .set (howned.load.mpr ⟨rfl, rfl⟩) hset
  have hrun : Run (Guarded (fun _ => StoresOutside (blockAddress b.chunk)
      (word new (blockAddress b.chunk) 0)) (PagingStep (blockAddress b.chunk)))
      { kernel := new, live := [] } [.set (UInt32.ofNat (blockAddress other)) 5]
      { kernel := setEntry b other 5 new, live := [] } := .single ⟨trivial, hstep⟩
  have hinUse := chunkInUse_run hsound (by decide) hnew (by simp) hrun
  rw [hbuilt.chunk] at hinUse
  have hheld : ChunkHeld new b := ⟨howned, fun i hi => hbuilt.entry_lt (by decide) hi,
    fun i _ j hj _ => hbuilt.entry_odd (by decide) hj⟩
  exact ⟨new, first, b, other, hbuilt, hheld, htaken', hinUse⟩

/-- For a string that the task sees the call comes back, and if the heap has memory for the buffer, it
has copied the string as far as the destination takes it. -/
theorem copyString_copied (hchunk : ChunkInUse kernel chunk directory) (hpos : 1 ≤ max)
    (hlt : max < pagingPageSize) (hbuffer : KernelBuffer kernel directory phys max.toNat)
    (hsees : SeesString kernel directory virtual (Undisturbed kernel directory max) str) :
    ∃ res after, Ends (copyStringFromTask chunk virtual phys max) kernel res after ∧
      ((stringBuffer kernel max = 0 ∧ res = -enomem) ∨
        (stringBuffer kernel max ≠ 0 ∧ res = 0 ∧
          StringAt (bytes after) phys (str.take (max - 1).toNat))) := by
  obtain ⟨b, rfl, rfl, hheld⟩ := hchunk.held
  have hmax := Int.not_le.mpr hlt
  rcases takesBuffer hchunk.sound hheld.owned hpos hmax with ⟨hnone, hnull⟩ | ⟨block, first, htaken⟩
  · exact ⟨_, kernel, copyString_noMemory hmax hnull, Or.inl ⟨hnone, rfl⟩⟩
  · obtain ⟨after, hends, hstring⟩ := copyString_served hheld htaken hpos hmax hbuffer
      (hsees.present hheld) (prefix_take hsees.nonzero _) fun j hj hle => by
        rw [getD_take hj]
        exact hsees.reads hheld htaken hpos hmax (Nat.le_trans hle (List.length_take_le' _ _))
    exact ⟨0, after, hends,
      Or.inr ⟨htaken.stringBuffer_eq ▸ blockAddress_ne_zero block, rfl, hstring⟩⟩

/-- The call fails from the size of a page on; whatever it returns, the entries of the directory and of
the tables and the table of the heap are as before; and it stores what the task sees of the string. -/
theorem copyStringFromTask_meets (hchunk : ChunkInUse kernel chunk directory) (hpos : 1 ≤ max)
    (hbuffer : max < pagingPageSize → KernelBuffer kernel directory phys max.toNat) :
    CopyMeets kernel chunk directory virtual phys max (Undisturbed kernel directory max) := by
  have hrefused : max ≥ pagingPageSize →
      Ends (copyStringFromTask chunk virtual phys max) kernel (-einvarg) kernel := by
    intro hmax
    rw [copyStringFromTask, if_pos hmax]
    exact ends_pure.mpr ⟨rfl, rfl⟩
  constructor
  case refused => exact hrefused
  case kept =>
    intro res after hends
    by_cases hmax : max ≥ pagingPageSize
    · obtain ⟨-, rfl⟩ := hends.unique (hrefused hmax)
      exact ⟨⟨fun _ _ => rfl, fun _ _ => rfl⟩, rfl⟩
    · obtain ⟨b, rfl, rfl, hheld⟩ := hchunk.held
      exact copyString_kept hheld hchunk.sound hpos hmax (hbuffer (Int.not_le.mp hmax)) hends
  case copied =>
    intro hlt str hsees
    obtain ⟨res, after, hends, hnone | ⟨-, hserved⟩⟩ :=
      copyString_copied hchunk hpos hlt (hbuffer hlt) hsees
    · exact ⟨res, after, hends, Or.inl hnone⟩
    · exact ⟨res, after, hends, Or.inr hserved⟩

theorem copyStringFromTask_meets_remapped : ∃ kernel chunk directory,
    ChunkInUse kernel chunk directory ∧
      CopyMeets kernel chunk directory 0x400000 0x100000 2 (Undisturbed kernel directory 2) := by
  obtain ⟨new, first, b, block, -, hheld, htaken, hinUse⟩ := exists_remapped
  have howned := hheld.owned.leaves (setEntry_leaves hheld.owned htaken.below 5)
  exact ⟨_, _, _, hinUse, copyStringFromTask_meets hinUse (by decide) fun _ =>
    kernelBuffer_low howned (by decide) (by decide)⟩

/-- The task that reads the entry of the page of the buffer sees a five there, and a seven is copied. -/
theorem not_copyMeets : ¬∀ kernel chunk directory virtual phys (max : Int),
    ChunkInUse kernel chunk directory → 1 ≤ max →
      (max < pagingPageSize → KernelBuffer kernel directory phys max.toNat) →
      CopyMeets kernel chunk directory virtual phys max (OutsideBuffer kernel max) := by
  intro hall
  obtain ⟨new, first, b, block, hbuilt, hheld, htaken, hinUse⟩ := exists_remapped
  have hbelow := htaken.below
  have hpos : (1 : Int) ≤ 2 := by decide
  have hmax : ¬(2 : Int) ≥ pagingPageSize := by decide
  have hheld' := hheld.leaves (setEntry_leaves hheld.owned hbelow 5)
  have hbuffer : KernelBuffer (setEntry b block 5 new) (blockAddress b.directory) 0x100000
      (2 : Int).toNat := kernelBuffer_low hheld'.owned (by decide) (by decide)
  have hmeets := hall _ _ _ (entryPlace b block) 0x100000 2 hinUse hpos fun _ => hbuffer
  -- The entry is in another page, and its page is mapped to itself.
  have hpage : ∀ {j}, j < 4 → toUint32 (entryPlace b block + j) / pagingPageSize ≠
      blockAddress block / pagingPageSize := by
    intro j hj
    rw [entryPlace_offset hbelow hj]
    exact entryPlace_page htaken.other hbelow hj
  have hwalk : ∀ {j}, j < 4 → walk (blockAddress b.directory) (toUint32 (entryPlace b block + j))
      (setEntry b block 5 new) = some (entryPlace b block + j) := by
    intro j hj
    rw [setEntry_walk hheld.owned hbelow (by decide) (toUint32_lt _) (hpage hj),
      hbuilt.walk (by decide) (toUint32_lt _), entryPlace_offset hbelow hj]
  have hsees : SeesString (setEntry b block 5 new) (blockAddress b.directory) (entryPlace b block)
      (OutsideBuffer (setEntry b block 5 new) 2) [5] := by
    refine ⟨by decide, fun j hj => ?_⟩
    have hlt : j < 4 := Nat.lt_of_le_of_lt hj (by decide)
    refine ⟨_, hwalk hlt, ?_, ?_⟩
    · rw [OutsideBuffer, htaken.stringBuffer_eq]
      exact ⟨hpage hlt, entryPlace_page htaken.other hbelow hlt⟩
    · rw [bytes_setEntry hlt]
      obtain rfl | rfl := Nat.le_one_iff_eq_zero_or_eq_one.mp hj
      · rfl
      · rfl
  obtain ⟨after, hends, hseven⟩ := @copyString_served _ _ b _ 0x100000 block 2 [7] hheld' htaken hpos hmax
    hbuffer (hsees.present hheld') ⟨by decide, by decide⟩ fun j hj _ => by
      obtain rfl : j = 0 := Nat.lt_one_iff.mp hj
      refine ⟨_, ?_, entryPlace_page htaken.other hbelow (show 0 < 4 by decide), withBuffer_flags⟩
      rw [htaken.walk hheld' hpos hmax (toUint32_lt _) (hpage (by decide))]
      exact hwalk (by decide)
  obtain ⟨res, after', hends', ⟨hnone, -⟩ | ⟨-, hfive⟩⟩ := hmeets.copied (by decide) [5] hsees
  · exact blockAddress_ne_zero block (htaken.stringBuffer_eq.symm.trans hnone)
  · obtain ⟨-, rfl⟩ := hends.unique hends'
    have hsame : (7 : UInt8) = 5 := hseven.2.1.symm.trans hfive.2.1
    exact absurd hsame (by decide)

end Physical

end SlobOS
