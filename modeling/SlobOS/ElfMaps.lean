import SlobOS.Proof.ProcessMap
import SlobOS.HeapRuns

/-!
# What the mapping of an ELF file opens to the program

The segments of a file are mapped where their headers place them. Nothing compares `p_offset` and
`p_memsz` with the size of the file, so a mapping stays inside the memory of the file exactly when
the headers do.
-/

namespace SlobOS

/-- The frame is one of the blocks that the heap reserves for a request of that size, which is none
where the search gives an error code in place of a block. -/
def ReservedFrame (heap : Heap) (size frame : Nat) : Prop :=
  let blocks := heapAlignValueToUpper size / slobosHeapBlockSize
  0 ≤ heapGetStartBlock heap blocks ∧ ∃ block : Nat, block < heap.table.total ∧
    heapGetStartBlock heap blocks ≤ block ∧ (block : Int) < heapGetStartBlock heap blocks + blocks ∧
    frame * pagingPageSize = heapBlockToAddress heap block

def PageTables.storedSince (pages before : PageTables) : List (Nat × Nat) :=
  pages.stores.take (pages.stores.length - before.stores.length)

theorem PageTables.storedSince_eq {pages before : PageTables} {stored : List (Nat × Nat)}
    (h : pages.stores = stored ++ before.stores) : pages.storedSince before = stored := by
  simp [storedSince, h]

/-- The frames that `process_map_elf` enters into the directory are reserved for the file. -/
def MapsOnlyReserved (heap : Heap) (filesize : Nat) (memory : Memory) (pages : PageTables)
    (directory : Nat) (file : ElfFile) : Prop :=
  ∀ store ∈ (processMapElf memory pages directory file).2.storedSince pages,
    ReservedFrame heap filesize (store.2 / pagingPageSize)

/-- The segments that the loop reaches lie in frames that are reserved for the file. -/
def SegmentsReserved (heap : Heap) (filesize : Nat) (memory : Memory) (pages : PageTables)
    (directory : Nat) (file : ElfFile) : Prop :=
  ∀ phdr ∈ phdrsReached memory pages directory file,
    ∀ frame, phdr.frame (heapMalloc heap filesize).1 ≤ frame →
      frame < phdr.stop (heapMalloc heap filesize).1 → ReservedFrame heap filesize frame

theorem mapsOnlyReserved_iff {heap : Heap} {filesize : Nat} {memory : Memory} {pages : PageTables}
    {directory : Nat} {file : ElfFile} (hfile : file.elfMemory = (heapMalloc heap filesize).1) :
    MapsOnlyReserved heap filesize memory pages directory file ↔
      SegmentsReserved heap filesize memory pages directory file := by
  obtain ⟨res, pages', hmap, hmaps⟩ := processMapElf_maps memory pages directory file
  obtain ⟨stored, hstored, hframes⟩ := hmaps.stores
  unfold MapsOnlyReserved SegmentsReserved
  rw [hmap, PageTables.storedSince_eq hstored, ← hfile]
  constructor
  · intro hall phdr hphdr frame hge hlt
    obtain ⟨store, hstore, rfl⟩ := (hframes frame).mpr ⟨phdr, hphdr, hge, hlt⟩
    exact hall store hstore
  · intro hall store hstore
    obtain ⟨phdr, hphdr, hge, hlt⟩ := (hframes _).mp ⟨store, hstore, rfl⟩
    exact hall phdr hphdr _ hge hlt

/-- The program gets no frame but those of its file exactly when no header that is reached asks for
another one. -/
theorem processMapElf_reserved_iff {heap : Heap} {filesize : Nat} {memory : Memory}
    {before : PageTables} {file : ElfFile} (haccept :
      elfProcessLoaded (memory before) (elfFileAt (heapMalloc heap filesize).1) =
        (slobosAllOk, file)) (pages : PageTables) (directory : Nat) :
    MapsOnlyReserved heap filesize memory pages directory file ↔
      SegmentsReserved heap filesize memory pages directory file := by
  apply mapsOnlyReserved_iff
  have hmemory := elfProcessLoaded_elfMemory (memory before)
    (elfFileAt (heapMalloc heap filesize).1)
  rw [haccept] at hmemory
  exact hmemory

/-- An ELF file of 84 bytes at the start of the kernel heap, with one segment of two pages. -/
def longSegmentElf (address : Nat) : UInt8 :=
  match address - slobosHeapAddress with
  | 0 => 0x7f
  | 1 => 0x45
  | 2 => 0x4c
  | 3 => 0x46
  | 28 => 52
  | 44 => 1
  | 52 => 1
  | 62 => 0x40
  | 73 => 0x20
  | _ => 0

def longSegmentFile : ElfFile :=
  (elfProcessLoaded longSegmentElf (elfFileAt slobosHeapAddress)).2

def longSegmentPhdr : Elf32Phdr := readPhdr longSegmentElf (slobosHeapAddress + 52)

theorem longSegmentElf_accepted :
    elfProcessLoaded longSegmentElf (elfFileAt (heapMalloc freshKernelHeap.heap 84).1) =
      (slobosAllOk, longSegmentFile) := by
  rw [freshKernelHeap_malloc]
  have hcode : (elfProcessLoaded longSegmentElf (elfFileAt slobosHeapAddress)).1 = slobosAllOk := by
    decide
  exact Prod.ext hcode rfl

theorem processMapElf_reserved_iff_long :
    MapsOnlyReserved freshKernelHeap.heap 84 (fun _ => longSegmentElf) blankPageTables 0
        longSegmentFile ↔
      SegmentsReserved freshKernelHeap.heap 84 (fun _ => longSegmentElf) blankPageTables 0
        longSegmentFile :=
  @processMapElf_reserved_iff _ _ (fun _ => longSegmentElf) blankPageTables _
    longSegmentElf_accepted blankPageTables 0

theorem longSegmentPhdr_reached (pages : PageTables) (directory : Nat) :
    longSegmentPhdr ∈ phdrsReached (fun _ => longSegmentElf) pages directory longSegmentFile := by
  have hmore : 0 < ePhnum longSegmentElf longSegmentFile.elfMemory := by decide
  have hphdr : readPhdr longSegmentElf (toUint32
      (elfPheader longSegmentElf longSegmentFile.elfMemory + 0 * elf32PhdrSize)) =
        longSegmentPhdr := by
    rfl
  rw [phdrsReached, phdrsReachedLoop, if_pos hmore]
  simp only [hphdr]
  exact List.mem_cons_self

/-- A file of one block with a segment of two pages gets the block behind its own. -/
theorem not_mapsOnlyReserved : ¬∀ heap filesize memory before file,
    elfProcessLoaded (memory before) (elfFileAt (heapMalloc heap filesize).1) =
        (slobosAllOk, file) →
      ∀ pages directory, MapsOnlyReserved heap filesize memory pages directory file := by
  intro hall
  have hmaps := hall freshKernelHeap.heap 84 (fun _ => longSegmentElf) blankPageTables
    longSegmentFile longSegmentElf_accepted blankPageTables 0
  have hfile : longSegmentFile.elfMemory = (heapMalloc freshKernelHeap.heap 84).1 := by
    rw [freshKernelHeap_malloc]
    decide
  have hreserved := (mapsOnlyReserved_iff hfile).mp hmaps longSegmentPhdr
    (longSegmentPhdr_reached _ _) 0x2001
  rw [freshKernelHeap_malloc] at hreserved
  obtain ⟨-, block, -, hge, hlt, haddress⟩ := hreserved (by decide) (by decide)
  rw [freshKernelHeap_startBlock] at hge hlt
  have hblocks : heapAlignValueToUpper 84 / slobosHeapBlockSize = 1 := by decide
  obtain rfl : block = 0 := by omega
  simp [heapBlockToAddress, freshKernelHeap, kheapInit_saddr, slobosHeapAddress, addressSpace,
    pagingPageSize] at haddress

end SlobOS
