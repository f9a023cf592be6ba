import SlobOS.Proof.PhysicalStrings
import SlobOS.Proof.SlotRequests

/-!
# Strings that are copied byte by byte

A copy stores the characters one behind the other and a zero behind them. It reads what was there at
first, as long as the string does not lie where it is stored to. The copy of a string through a page
directory is two such copies, with a word of a page table stored before the first one and again behind
it.
-/

namespace SlobOS

namespace Physical

open Faulting Kernel CStrings

variable {kernel first after copied : Kernel} {b : ChunkBlocks} {place : Nat → Kernel → Option Nat}
  {dest src base count left i block val virt address : Nat} {cond : Kernel → Prop} {text : List UInt8}
  {byte : UInt8}

theorem putMemory_cons (ptr : Nat) (byte : UInt8) (stored : List UInt8) (kernel : Kernel) :
    putMemory (ptr + 1) stored (putMemory ptr [byte] kernel) = putMemory ptr (byte :: stored) kernel := by
  have hmemory : (fun pages => putBytes (putBytes (kernel.memory pages) ptr [byte]) (ptr + 1) stored) =
      fun pages => putBytes (kernel.memory pages) ptr (byte :: stored) := by
    funext pages
    exact (putBytes_cons _ _ _ _).symm
  exact congrArg (fun memory => { kernel with memory := memory }) hmemory

/-- Under a condition that the stores keep, the processor finds the destination at the base. -/
structure StoresAt (place : Nat → Kernel → Option Nat) (dest base count : Nat) (cond : Kernel → Prop) :
    Prop where
  found : ∀ kernel, cond kernel → ∀ j ≤ count, ∀ physical,
    place (toUint32 (dest + j)) kernel = some physical → physical = base + j
  keep : ∀ kernel, cond kernel → ∀ j ≤ count, ∀ byte, cond (putMemory (base + j) [byte] kernel)

theorem StoresAt.store {j : Nat} (h : StoresAt place dest base count cond) (hcond : cond kernel)
    (hle : j ≤ count) (hends : Ends (storeByte place (dest + j) byte) kernel () after) :
    place (toUint32 (dest + j)) kernel = some (base + j) ∧ cond after ∧
      after = putMemory (base + j) [byte] kernel := by
  obtain ⟨physical, hplace, rfl⟩ := ends_storeByte.mp hends
  obtain rfl := h.found kernel hcond j hle physical hplace
  exact ⟨hplace, h.keep kernel hcond j hle byte, rfl⟩

theorem strncpyLoop_stores (h : StoresAt place dest base count cond) (hcond : cond kernel)
    (hle : i + left ≤ count) (hends : Ends (strncpyLoop place dest src left i) kernel () after) :
    place (toUint32 (dest + i)) kernel = some (base + i) ∧ cond after ∧
      ∃ stored : List UInt8, stored.length ≤ left + 1 ∧ after = putMemory (base + i) stored kernel := by
  induction left generalizing kernel i with
  | zero =>
      obtain ⟨hplace, hafter, heq⟩ := h.store hcond hle hends
      exact ⟨hplace, hafter, [0], Nat.le_refl 1, heq⟩
  | succ left ih =>
      obtain ⟨byte, _, hload, hrest⟩ := ends_bind.mp hends
      obtain ⟨-, -, -, rfl⟩ := ends_loadByte.mp hload
      rcases ends_ite.mp hrest with ⟨-, hlast⟩ | ⟨-, hrest⟩
      · obtain ⟨hplace, hafter, heq⟩ := h.store hcond (by omega) hlast
        exact ⟨hplace, hafter, [0], Nat.le_add_left 1 _, heq⟩
      · obtain ⟨_, middle, hfirst, hlater⟩ := ends_bind.mp hrest
        obtain ⟨hplace, hmiddle, rfl⟩ := h.store hcond (by omega) hfirst
        obtain ⟨-, hafter, stored, hlength, rfl⟩ := ih hmiddle (by omega) hlater
        refine ⟨hplace, hafter, byte :: stored, Nat.succ_le_succ hlength, ?_⟩
        rw [← Nat.add_assoc, putMemory_cons]

structure Prefix (count : Nat) (text : List UInt8) : Prop where
  length : text.length ≤ count
  nonzero : 0 ∉ text

theorem strncpyLoop_copies (cond : Kernel → Prop) (htext : Prefix count text)
    (hkeep : ∀ kernel, cond kernel → ∀ j ≤ count, ∀ byte, cond (putMemory (base + j) [byte] kernel))
    (hplace : ∀ kernel, cond kernel → ∀ j ≤ count,
      place (toUint32 (dest + j)) kernel = some (base + j))
    (hload : ∀ kernel, cond kernel → ∀ j < count, j ≤ text.length → ∃ physical,
      place (toUint32 (src + j)) kernel = some physical ∧ bytes kernel physical = text.getD j 0)
    (hcond : cond kernel) (hsum : i + left = count) (hi : i ≤ text.length) :
    Ends (strncpyLoop place dest src left i) kernel ()
      (putMemory (base + i) (text.drop i ++ [0]) kernel) := by
  induction left generalizing kernel i with
  | zero =>
      have hlength := htext.length
      rw [List.drop_of_length_le (by omega)]
      exact ends_storeByte.mpr ⟨_, hplace kernel hcond i (by omega), rfl⟩
  | succ left ih =>
      obtain ⟨physical, hfound, hbyte⟩ := hload kernel hcond i (by omega) hi
      refine ends_bind.mpr ⟨text.getD i 0, kernel, ends_loadByte.mpr ⟨physical, hfound, hbyte.symm, rfl⟩, ?_⟩
      have hstore := hplace kernel hcond i (by omega)
      rcases Nat.lt_or_ge i text.length with hlt | hge
      · have hchar : text.getD i 0 = text[i] := List.getD_eq_getElem text 0 hlt
        have hne : text[i] ≠ 0 := fun heq => htext.nonzero (heq ▸ List.getElem_mem hlt)
        rw [hchar, if_neg hne]
        refine ends_bind.mpr ⟨(), _, ends_storeByte.mpr ⟨_, hstore, rfl⟩, ?_⟩
        have hrest := ih (hkeep kernel hcond i (by omega) text[i]) (by omega)
          (show i + 1 ≤ text.length from hlt)
        rwa [← Nat.add_assoc, putMemory_cons, ← List.cons_append, List.getElem_cons_drop] at hrest
      · rw [List.getD_eq_default text 0 hge, if_pos rfl, List.drop_of_length_le hge]
        exact ends_storeByte.mpr ⟨_, hstore, rfl⟩

def SameOutside (block : Nat) (kernel after : Kernel) : Prop :=
  ∀ address, ¬(blockAddress block ≤ address ∧ address < blockAddress block + slobosHeapBlockSize) →
    bytes after address = bytes kernel address

instance : Frame (SameOutside block) where
  refl _ _ _ := rfl
  trans h h' address hout := (h' address hout).trans (h address hout)

def entryPlace (b : ChunkBlocks) (block : Nat) : Nat :=
  blockAddress (b.table (blockAddress block / pagingPageSize / pagingTotalEntriesPerTable)) +
    4 * (blockAddress block / pagingPageSize % pagingTotalEntriesPerTable)

def setEntry (b : ChunkBlocks) (block val : Nat) (kernel : Kernel) : Kernel :=
  putMemory (entryPlace b block) (wordBytes val) kernel

theorem SameOutside.sameBytes (h : SameOutside block kernel after) {other : Nat} (hne : other ≠ block) :
    SameBytes (blockAddress other) slobosHeapBlockSize kernel after := by
  intro j hj
  apply h
  have hdisjoint := blockAddress_disjoint hne
  unfold Disjoint at hdisjoint
  omega

theorem putMemory_sameOutside {stored : List UInt8} {j : Nat}
    (hle : j + stored.length ≤ slobosHeapBlockSize) (kernel : Kernel) :
    SameOutside block kernel (putMemory (blockAddress block + j) stored kernel) := by
  intro address hout
  rw [bytes_putMemory]
  apply putBytes_of_not_mem
  omega

theorem SameOutside.owned (h : SameOutside block first after) (howned : Owned first b)
    (hblock : block ∉ b.blocks) (hheap : after.heap = first.heap) : Owned after b := by
  have hne : ∀ {other}, other ∈ b.blocks → other ≠ block := fun hmem heq => hblock (heq ▸ hmem)
  have hword : ∀ {other}, other ∈ b.blocks → ∀ j < pagingTotalEntriesPerTable,
      word after (blockAddress other) j = word first (blockAddress other) j := fun hmem j hj =>
    (h.sameBytes (hne hmem)).word (entryCell_le hj) (b.blockAddress_below hmem)
  refine ⟨fun other hmem => hheap ▸ howned.holds other hmem, ?_, fun j hj => ?_⟩
  · rw [hword b.chunk_mem 0 (by decide), howned.chunk]
  · rw [hword b.directory_mem j hj, howned.names j hj]

theorem ends_pagingSet_block (howned : Owned kernel b)
    (hbelow : blockAddress block + slobosHeapBlockSize ≤ addressSpace) {res : Int} :
    Ends (pagingSet (blockAddress b.directory) (blockAddress block) val) kernel res after ↔
      res = 0 ∧ after = setEntry b block val kernel := by
  have hi := directoryIndex_lt (page_lt (blockAddress_lt hbelow))
  have hset : Ends (pagingSet (blockAddress b.directory) (blockAddress block) val) kernel 0
      (setEntry b block val kernel) := by
    have haligned : pagingIsAligned (blockAddress block) = true := beq_iff_eq.mpr (blockAddress_aligned _)
    have hindexes := pagingGetIndexes_page (blockAddress block / pagingPageSize)
    rw [blockAddress_page] at hindexes
    simp only [pagingSet, haligned, hindexes]
    refine ends_bind.mpr ⟨_, kernel, ends_loadWord.mpr ⟨blockAddress_ne_zero _, rfl, rfl⟩, ?_⟩
    rw [howned.names _ hi]
    exact ends_bind.mpr ⟨(), _, ends_storeWord.mpr ⟨blockAddress_ne_zero _, rfl⟩,
      ends_pure.mpr ⟨rfl, rfl⟩⟩
  constructor
  · intro h
    obtain ⟨rfl, rfl⟩ := h.unique hset
    exact ⟨rfl, rfl⟩
  · rintro ⟨rfl, rfl⟩
    exact hset

theorem ends_pagingMap_block (howned : Owned kernel b)
    (hbelow : blockAddress block + slobosHeapBlockSize ≤ addressSpace) :
    Ends (pagingMap (blockAddress b.chunk) (blockAddress block) (blockAddress block) 7) kernel 0
      (setEntry b block (blockAddress block ||| 7) kernel) := by
  rw [pagingMap, if_neg (by rw [blockAddress_aligned]; decide)]
  refine ends_bind.mpr ⟨_, kernel, howned.load.mpr ⟨rfl, rfl⟩, ?_⟩
  exact (ends_pagingSet_block howned hbelow).mpr ⟨rfl, rfl⟩

theorem putBytes_readWord {memory memory' : Nat → UInt8} (hlt : address + 3 < addressSpace) {j : Nat}
    (hj : j < 4) : putBytes memory' address (wordBytes (readWord memory address)) (address + j) =
      memory (address + j) := by
  rw [putBytes_of_lt (by rw [wordBytes_length]; exact hj), wordBytes, List.getD_eq_getElem?_getD,
    List.getElem?_map, List.getElem?_range hj]
  change UInt8.ofNat _ = _
  have hbytes := fun i => (memory (address + i)).toNat_lt
  have hfirst := hbytes 0
  have hsecond := hbytes 1
  have hthird := hbytes 2
  have hfourth := hbytes 3
  rw [readWord_eq hlt]
  rw [Nat.add_zero] at hfirst
  apply UInt8.toNat_inj.mp
  rw [UInt8.toNat_ofNat', Nat.shiftRight_eq_div_pow]
  obtain rfl | rfl | rfl | rfl : j = 0 ∨ j = 1 ∨ j = 2 ∨ j = 3 := by omega
  · simp only [Nat.mul_zero, Nat.pow_zero, Nat.div_one, Nat.add_zero]
    omega
  · omega
  · omega
  · omega

/-! ### The two copies -/

section Copies

variable {stored : Kernel} {virtual phys : Nat} {max res : Int}

theorem setEntry_leaves (howned : Owned kernel b)
    (hbelow : blockAddress block + slobosHeapBlockSize ≤ addressSpace) (val : Nat) :
    Leaves b kernel (setEntry b block val kernel) :=
  pagingSet_leaves howned (blockAddress_lt hbelow) ((ends_pagingSet_block howned hbelow).mpr ⟨rfl, rfl⟩)

theorem setEntry_mapped (howned : Owned kernel b)
    (hbelow : blockAddress block + slobosHeapBlockSize ≤ addressSpace) :
    BlockMapped (setEntry b block (blockAddress block ||| 7) kernel) b block := by
  obtain ⟨after, hmap, hmapped⟩ := pagingMap_block howned hbelow
  obtain ⟨-, rfl⟩ := hmap.unique (ends_pagingMap_block howned hbelow)
  exact hmapped

theorem storesAt_walk (hblock : block ∉ b.blocks)
    (hbelow : blockAddress block + slobosHeapBlockSize ≤ addressSpace)
    (hcount : count < slobosHeapBlockSize) : StoresAt (walk (blockAddress b.directory))
      (blockAddress block) (blockAddress block) count fun kernel => BlockMapped kernel b block where
  found _ hmapped _ hj _ hwalk := hmapped.walk hbelow (Nat.lt_of_le_of_lt hj hcount) hwalk
  keep _ hmapped _ hj byte := hmapped.store hblock hbelow (Nat.lt_of_le_of_lt hj hcount) byte

theorem storesAt_kernel (hphys : phys + count < addressSpace) :
    StoresAt kernelPlace phys phys count fun _ => True where
  found _ _ j hj _ hplace := by
    rw [← Option.some.inj hplace]
    exact Nat.mod_eq_of_lt (by omega)
  keep _ _ _ _ _ := trivial

theorem count_lt (hmax : ¬max ≥ pagingPageSize) : (max - 1).toNat < slobosHeapBlockSize := by
  simp only [pagingPageSize, slobosHeapBlockSize] at hmax ⊢
  omega

theorem strncpy_buffer (hblock : block ∉ b.blocks)
    (hbelow : blockAddress block + slobosHeapBlockSize ≤ addressSpace) (hmax : ¬max ≥ pagingPageSize)
    (hmapped : BlockMapped kernel b block)
    (h : Ends (strncpy (walk (blockAddress b.directory)) (blockAddress block) virtual max) kernel ()
      copied) : walk (blockAddress b.directory) (toUint32 (blockAddress block)) kernel =
        some (blockAddress block) ∧ SameOutside block kernel copied ∧ copied.heap = kernel.heap := by
  have hcount := count_lt hmax
  obtain ⟨hplace, -, text, hlength, rfl⟩ := strncpyLoop_stores (storesAt_walk hblock hbelow hcount)
    hmapped (Nat.le_of_eq (Nat.zero_add _)) h
  exact ⟨hplace, putMemory_sameOutside (by omega) kernel, rfl⟩

theorem ends_copyString (howned : Owned kernel b)
    (hlow : ∀ i < pagingTotalEntriesPerTable, word kernel (blockAddress b.directory) i < 0x10000000)
    (hmax : ¬max ≥ pagingPageSize)
    (halloc : Ends (kzalloc (max % addressSpace).toNat) kernel (blockAddress block) first)
    (hblock : block ∉ b.blocks) (hbelow : blockAddress block + slobosHeapBlockSize ≤ addressSpace) :
    Ends (copyStringFromTask (blockAddress b.chunk) virtual phys max) kernel res after ↔
      res = 0 ∧ ∃ copied stored,
        Ends (strncpy (walk (blockAddress b.directory)) (blockAddress block) virtual max)
          (setEntry b block (blockAddress block ||| 7) first) () copied ∧
        Ends (strncpy kernelPlace phys (blockAddress block) max)
          (setEntry b block (pageWord first (blockAddress b.directory)
            (blockAddress block / pagingPageSize)) copied) () stored ∧
        after = { stored with heap := heapFree stored.heap (blockAddress block) } := by
  have hfirst := kzalloc_leaves howned halloc
  have howned' := howned.leaves hfirst
  have hget := pagingGet_ends howned'.represents (fun i hi => hfirst.entry hi ▸ hlow i hi)
    (blockAddress_lt hbelow)
  rw [pagingAlignToLowerPage_eq, blockAddress_page] at hget
  have hmap := ends_pagingMap_block howned' hbelow
  have howned'' := howned'.leaves (setEntry_leaves howned' hbelow (blockAddress block ||| 7))
  have hflags : pagingIsWriteable ||| pagingIsPresent ||| pagingAccessFromAll = 7 := rfl
  rw [copyStringFromTask, if_neg hmax, halloc.bind_iff, if_neg (blockAddress_ne_zero block),
    (howned'.load.mpr ⟨rfl, rfl⟩).bind_iff, hget.bind_iff, hflags,
    hmap.bind_iff, (howned''.load.mpr ⟨rfl, rfl⟩).bind_iff, ends_bind]
  constructor
  · rintro ⟨_, copied, hcopy, hrest⟩
    obtain ⟨-, hsame, hheap⟩ := strncpy_buffer hblock hbelow hmax (setEntry_mapped howned' hbelow) hcopy
    have hcopied := hsame.owned howned'' hblock hheap
    rw [((ends_pagingSet_block hcopied hbelow).mpr ⟨rfl, rfl⟩).bind_iff, if_neg (Int.lt_irrefl 0),
      ends_bind] at hrest
    obtain ⟨_, stored, hstore, hrest⟩ := hrest
    obtain ⟨_, released, hfree, hlast⟩ := ends_bind.mp hrest
    obtain ⟨rfl, rfl⟩ := ends_pure.mp hlast
    obtain rfl := ends_kfree.mp hfree
    exact ⟨rfl, copied, stored, hcopy, hstore, rfl⟩
  · rintro ⟨rfl, copied, stored, hcopy, hstore, rfl⟩
    obtain ⟨-, hsame, hheap⟩ := strncpy_buffer hblock hbelow hmax (setEntry_mapped howned' hbelow) hcopy
    have hcopied := hsame.owned howned'' hblock hheap
    refine ⟨(), copied, hcopy, ?_⟩
    rw [((ends_pagingSet_block hcopied hbelow).mpr ⟨rfl, rfl⟩).bind_iff, if_neg (Int.lt_irrefl 0),
      ends_bind]
    exact ⟨(), stored, hstore, ends_bind.mpr ⟨(), _, ends_kfree.mpr rfl, ends_pure.mpr ⟨rfl, rfl⟩⟩⟩

theorem copyStringFromTask_one (howned : Owned kernel b)
    (hlow : ∀ i < pagingTotalEntriesPerTable, word kernel (blockAddress b.directory) i < 0x10000000)
    (hpresent : ∀ i < pagingTotalEntriesPerTable, word kernel (blockAddress b.directory) i % 2 = 1)
    (hfree : FreeBlocks kernel.heap 1) (hphys : phys < addressSpace) (virtual : Nat) :
    ∃ stored after, Ends (copyStringFromTask (blockAddress b.chunk) virtual phys 1) kernel 0 after ∧
      Leaves b kernel stored ∧ bytes after = bytes (putMemory phys [0] stored) := by
  obtain ⟨tmp, first, halloc, hne, -⟩ := kzalloc_block hfree (show 0 < 1 by decide) (by decide)
  obtain ⟨block, rfl, hblock, hbelow⟩ := kzalloc_other howned halloc hne
  have hfirst := kzalloc_leaves howned halloc
  have howned' := howned.leaves hfirst
  have hmapped := setEntry_leaves howned' hbelow (blockAddress block ||| 7)
  have hwalk := (setEntry_mapped howned' hbelow).present hbelow (show 0 < slobosHeapBlockSize by decide)
    fun i hi => by
      rw [hmapped.entry hi, hfirst.entry hi]
      exact hpresent i hi
  have hcopied := storeByte_leaves (outsideChunk_block hblock (show 0 < slobosHeapBlockSize by decide)) 0
    (setEntry b block (blockAddress block ||| 7) first)
  have hrestored := setEntry_leaves ((howned'.leaves hmapped).leaves hcopied) hbelow
    (pageWord first (blockAddress b.directory) (blockAddress block / pagingPageSize))
  generalize hcopy : putMemory (blockAddress block + 0) [0]
    (setEntry b block (blockAddress block ||| 7) first) = copied at hcopied hrestored
  generalize hset : setEntry b block (pageWord first (blockAddress b.directory)
    (blockAddress block / pagingPageSize)) copied = restored at hrestored
  have hone : ((1 : Int) % addressSpace).toNat = 1 := by decide
  have hends := (@ends_copyString kernel first { putMemory phys [0] restored with
    heap := heapFree restored.heap (blockAddress block) } b block virtual phys 1 0 howned hlow
      (by decide) (hone ▸ halloc) hblock hbelow).mpr
  refine ⟨restored, _, hends ⟨rfl, copied, putMemory phys [0] restored, ?_, ?_, rfl⟩,
    Frame.trans hfirst (Frame.trans hmapped (Frame.trans hcopied hrestored)), rfl⟩
  · exact ends_strncpy_one.mpr ⟨_, hwalk, hcopy.symm⟩
  · exact hset ▸ ends_strncpy_one.mpr ⟨phys, congrArg some (Nat.mod_eq_of_lt hphys), rfl⟩

theorem entryPlace_below (hbelow : blockAddress block + slobosHeapBlockSize ≤ addressSpace) :
    entryPlace b block + 4 ≤ addressSpace := by
  have hi := directoryIndex_lt (page_lt (blockAddress_lt hbelow))
  have htable := b.blockAddress_below (b.table_mem hi)
  have hcell := entryCell_le
    (Nat.mod_lt (blockAddress block / pagingPageSize) (show 0 < pagingTotalEntriesPerTable by decide))
  simp only [entryPlace]
  omega

theorem pageWord_entryPlace (howned : Owned kernel b)
    (hbelow : blockAddress block + slobosHeapBlockSize ≤ addressSpace) :
    pageWord kernel (blockAddress b.directory) (blockAddress block / pagingPageSize) =
      readWord (bytes kernel) (entryPlace b block) := by
  rw [pageWord, howned.names _ (directoryIndex_lt (page_lt (blockAddress_lt hbelow)))]
  rfl

theorem setEntry_bytes (hout : ¬(entryPlace b block ≤ address ∧ address < entryPlace b block + 4)) :
    bytes (setEntry b block val kernel) address = bytes kernel address := by
  rw [setEntry, bytes_putMemory]
  exact putBytes_of_not_mem (by rwa [wordBytes_length])

theorem restored_sameOutside (howned : Owned first b)
    (hbelow : blockAddress block + slobosHeapBlockSize ≤ addressSpace)
    (hsame : SameOutside block (setEntry b block val first) copied) :
    SameOutside block first (setEntry b block
      (pageWord first (blockAddress b.directory) (blockAddress block / pagingPageSize)) copied) := by
  intro address hout
  have hplace := @entryPlace_below b block hbelow
  by_cases hentry : entryPlace b block ≤ address ∧ address < entryPlace b block + 4
  · obtain ⟨j, rfl⟩ := Nat.exists_eq_add_of_le hentry.1
    rw [pageWord_entryPlace howned hbelow, setEntry, bytes_putMemory]
    exact putBytes_readWord (by omega) (by omega)
  · rw [setEntry_bytes hentry, hsame address hout, setEntry_bytes hentry]

theorem kzalloc_sameOutside (halloc : Ends (kzalloc (max % addressSpace).toNat) kernel
    (blockAddress block) first) (hsize : (max % addressSpace).toNat ≤ slobosHeapBlockSize) :
    SameOutside block kernel first := by
  intro address hout
  rw [bytes, bytes, (ends_kzalloc halloc).2.2.1.pages]
  apply kzalloc_memory halloc (blockAddress_ne_zero block)
  omega

theorem strncpy_destination (hphys : phys + (max - 1).toNat < addressSpace)
    (h : Ends (strncpy kernelPlace phys src max) kernel () stored) : stored.heap = kernel.heap ∧
      ∀ address, ¬(phys ≤ address ∧ address ≤ phys + (max - 1).toNat) →
        bytes stored address = bytes kernel address := by
  obtain ⟨-, -, text, hlength, rfl⟩ := strncpyLoop_stores (storesAt_kernel hphys) trivial
    (Nat.le_of_eq (Nat.zero_add _)) h
  refine ⟨rfl, fun address hout => ?_⟩
  rw [bytes_putMemory]
  apply putBytes_of_not_mem
  omega

/-! ### What the task sees -/

theorem walk_congr (hentry : word after (blockAddress b.directory)
      (virt / pagingPageSize / pagingTotalEntriesPerTable) =
        word kernel (blockAddress b.directory) (virt / pagingPageSize / pagingTotalEntriesPerTable))
    (hpage : pageWord after (blockAddress b.directory) (virt / pagingPageSize) =
      pageWord kernel (blockAddress b.directory) (virt / pagingPageSize)) :
    walk (blockAddress b.directory) virt after = walk (blockAddress b.directory) virt kernel := by
  apply Option.ext
  intro physical
  rw [walk_iff, walk_iff, hentry, hpage]

theorem entriesKept_of_same (howned : Owned kernel b)
    (hdirectory : SameBytes (blockAddress b.directory) slobosHeapBlockSize kernel after)
    (htables : ∀ i < pagingTotalEntriesPerTable,
      SameBytes (blockAddress (b.table i)) slobosHeapBlockSize kernel after) :
    EntriesKept kernel after (blockAddress b.directory) := by
  have hnames : ∀ i < pagingTotalEntriesPerTable, word after (blockAddress b.directory) i =
      word kernel (blockAddress b.directory) i := fun i hi =>
    hdirectory.word (entryCell_le hi) (b.blockAddress_below b.directory_mem)
  refine ⟨hnames, fun page hpage => ?_⟩
  have hi := directoryIndex_lt hpage
  rw [pageWord, pageWord, hnames _ hi, howned.names _ hi]
  exact (htables _ hi).word (entryCell_le (Nat.mod_lt _ (by decide)))
    (b.blockAddress_below (b.table_mem hi))

theorem SameOutside.chunkBytes (h : SameOutside block first after) (hblock : block ∉ b.blocks) {other : Nat}
    (hmem : other ∈ b.blocks) : SameBytes (blockAddress other) slobosHeapBlockSize first after :=
  h.sameBytes fun heq => hblock (heq ▸ hmem)

theorem SameOutside.kept (h : SameOutside block first after) (howned : Owned first b)
    (hblock : block ∉ b.blocks) : EntriesKept first after (blockAddress b.directory) :=
  entriesKept_of_same howned (h.chunkBytes hblock b.directory_mem) fun _ hi => h.chunkBytes hblock (b.table_mem hi)

theorem EntriesKept.walk (h : EntriesKept kernel after (blockAddress b.directory))
    (hvirt : virt < addressSpace) :
    walk (blockAddress b.directory) virt after = walk (blockAddress b.directory) virt kernel := by
  have hpage := page_lt hvirt
  exact walk_congr (h.names _ (directoryIndex_lt hpage)) (h.page _ hpage)

theorem setEntry_walk (howned : Owned kernel b)
    (hbelow : blockAddress block + slobosHeapBlockSize ≤ addressSpace) (hval : val < addressSpace)
    (hvirt : virt < addressSpace) (hne : virt / pagingPageSize ≠ blockAddress block / pagingPageSize) :
    walk (blockAddress b.directory) virt (setEntry b block val kernel) =
      walk (blockAddress b.directory) virt kernel := by
  have hpage := page_lt hvirt
  have hbuffer := page_lt (blockAddress_lt hbelow)
  have hrepresents := howned.represents
  have hafter := hrepresents.store hbuffer hval
  apply walk_congr
  · exact (setEntry_leaves howned hbelow val).entry (directoryIndex_lt hpage)
  · calc pageWord (setEntry b block val kernel) (blockAddress b.directory) (virt / pagingPageSize)
      _ = pageEntry ((tablesOf kernel).store (blockAddress b.directory)
            (blockAddress block / pagingPageSize) val) (blockAddress b.directory)
            (virt / pagingPageSize) := (hafter.reads hpage).symm
      _ = pageEntry (tablesOf kernel) (blockAddress b.directory) (virt / pagingPageSize) := by
          rw [pageEntry_store hrepresents.distinct hbuffer hpage, if_neg hne]
      _ = pageWord kernel (blockAddress b.directory) (virt / pagingPageSize) :=
          hrepresents.reads hpage

theorem strncpy_reads (howned : Owned kernel b) (hmapped : BlockMapped kernel b block)
    (hblock : block ∉ b.blocks) (hbelow : blockAddress block + slobosHeapBlockSize ≤ addressSpace)
    (hmax : ¬max ≥ pagingPageSize)
    (hpresent : ∀ i < pagingTotalEntriesPerTable, word kernel (blockAddress b.directory) i % 2 = 1)
    (htext : Prefix (max - 1).toNat text)
    (hreads : ∀ j < (max - 1).toNat, j ≤ text.length → ∃ physical,
      walk (blockAddress b.directory) (toUint32 (virtual + j)) kernel = some physical ∧
        ¬(blockAddress block ≤ physical ∧ physical < blockAddress block + slobosHeapBlockSize) ∧
        bytes kernel physical = text.getD j 0) :
    Ends (strncpy (walk (blockAddress b.directory)) (blockAddress block) virtual max) kernel ()
      (putMemory (blockAddress block) (text ++ [0]) kernel) := by
  have hcount := count_lt hmax
  have hwalk : ∀ {after}, SameOutside block kernel after → ∀ address,
      walk (blockAddress b.directory) (toUint32 address) after =
        walk (blockAddress b.directory) (toUint32 address) kernel := fun hsame address =>
    (hsame.kept howned hblock).walk (toUint32_lt address)
  refine strncpyLoop_copies (SameOutside block kernel) htext ?_ ?_ ?_ (Frame.refl kernel)
    (Nat.zero_add _) (Nat.zero_le _)
  · intro after hsame j hj byte
    refine Frame.trans hsame (putMemory_sameOutside ?_ after)
    rw [List.length_singleton]
    omega
  · intro after hsame j hj
    rw [hwalk hsame]
    exact hmapped.present hbelow (by omega) hpresent
  · intro after hsame j hj hle
    obtain ⟨physical, hfound, hout, hbyte⟩ := hreads j hj hle
    exact ⟨physical, (hwalk hsame _).trans hfound, (hsame physical hout).trans hbyte⟩

theorem strncpy_writes (hphys : phys + (max - 1).toNat < addressSpace)
    (hsrc : src + (max - 1).toNat < addressSpace) (htext : Prefix (max - 1).toNat text)
    (hapart : ∀ i ≤ (max - 1).toNat, ∀ j ≤ (max - 1).toNat, phys + i ≠ src + j)
    (hbytes : ∀ j ≤ text.length, bytes kernel (src + j) = text.getD j 0) :
    Ends (strncpy kernelPlace phys src max) kernel () (putMemory phys (text ++ [0]) kernel) := by
  have hplace : ∀ {base : Nat} (kernel : Kernel), base + (max - 1).toNat < addressSpace →
      ∀ j ≤ (max - 1).toNat, kernelPlace (toUint32 (base + j)) kernel = some (base + j) :=
    fun kernel hbase j hj => congrArg some (Nat.mod_eq_of_lt (by omega))
  refine strncpyLoop_copies (fun kernel => ∀ j ≤ text.length, bytes kernel (src + j) = text.getD j 0)
    htext ?_ ?_ ?_ hbytes (Nat.zero_add _) (Nat.zero_le _)
  · intro kernel hsame i hi byte j hj
    have hne := hapart i hi j (Nat.le_trans hj htext.length)
    rw [bytes_putMemory, CStrings.putBytes_of_not_mem, hsame j hj]
    rw [List.length_singleton]
    omega
  · exact fun kernel _ => hplace kernel hphys
  · exact fun kernel hsame j hj hle => ⟨_, hplace kernel hsrc j (Nat.le_of_lt hj), hsame j hle⟩

theorem takesBlock_release {heap taken : Heap} (h : TakesBlock heap taken block) (hsound : HeapSound heap)
    (hsound' : HeapSound taken) (i : Int) :
    (heapFree taken (heapBlockToAddress taken block)).table.entries i = heap.table.entries i := by
  rw [heapFree_single hsound' h.chained, h.entries]
  split
  case isTrue heq => rw [heq, hsound.clean block h.lt h.free]
  case isFalse => rfl

end Copies

end Physical

end SlobOS
