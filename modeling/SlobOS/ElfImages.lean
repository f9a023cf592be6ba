import SlobOS.Proof.Kernel
import SlobOS.Proof.ProcessMap

/-!
# The memory image of an ELF file

Each program header is mapped, whatever its type, and the frames are those of the file itself. So a
segment may be covered by a later header of another kind, and what lies behind its part of the file
is what the file goes on with.
-/

namespace SlobOS

open Kernel

def translate (pages : PageTables) (directory address : Nat) : Option Nat :=
  if pages.directories directory (address / pagingPageSize / pagingTotalEntriesPerTable) % 2 = 1 ∧
      pageEntry pages directory (address / pagingPageSize) % 2 = 1 then
    some (pageEntry pages directory (address / pagingPageSize) / pagingPageSize * pagingPageSize +
      address % pagingPageSize)
  else none

def Elf32Phdr.address (phdr : Elf32Phdr) (k : Nat) : Nat := toUint32 (phdr.pVaddr + k)

structure SegmentSeen (bytes contents : Nat → UInt8) (pages : PageTables) (directory : Nat)
    (phdr : Elf32Phdr) : Prop where
  file : ∀ k < phdr.pFilesz, (translate pages directory (phdr.address k)).map bytes =
    some (contents (phdr.pOffset + k))
  tail : ∀ k, phdr.pFilesz ≤ k → k < phdr.pMemsz →
    (translate pages directory (phdr.address k)).map bytes = some 0
  writeable : phdr.pFlags &&& pfW ≠ 0 → ∀ k < phdr.pMemsz,
    UserWriteable pages directory (phdr.address k / pagingPageSize)

/-- All segments that are to be loaded are seen in these bytes of memory. -/
def ImageRight (bytes contents : Nat → UInt8) (pages : PageTables) (directory : Nat)
    (phdrs : List Elf32Phdr) : Prop :=
  ∀ phdr ∈ phdrs, phdr.pType = ptLoad → SegmentSeen bytes contents pages directory phdr

/-- The segments that are to be loaded fit the file and each other. -/
structure LoadsFit (phdrs : List Elf32Phdr) (filesize : Nat) : Prop where
  congruent : ∀ phdr ∈ phdrs, phdr.pType = ptLoad →
    phdr.pVaddr % pagingPageSize = phdr.pOffset % pagingPageSize
  inside : ∀ phdr ∈ phdrs, phdr.pType = ptLoad → phdr.pOffset + phdr.pFilesz ≤ filesize
  disjoint : phdrs.Pairwise fun phdr other => phdr.pType = ptLoad → other.pType = ptLoad →
    ∀ j < phdr.pMemsz, ∀ k < other.pMemsz,
      phdr.address j / pagingPageSize ≠ other.address k / pagingPageSize

/-- Where the last header that covers the page of the address leads. Without one the address stands
for itself. -/
def coveredAddress (phdrs : List Elf32Phdr) (elfMemory address : Nat) : Nat :=
  match lastCover phdrs elfMemory (address / pagingPageSize) with
  | none => address
  | some cover =>
      (cover.frame elfMemory + pageOffset cover.page (address / pagingPageSize)) % pageCount *
        pagingPageSize + address % pagingPageSize

/-- The last headers that cover the segment leave it as it is. Where another header than its own is
the last one, that leads to the same bytes; behind its part of the file there are zeros; and the
pages of a segment with write access have a last header with write access too. -/
structure SegmentKept (bytes contents : Nat → UInt8) (phdrs : List Elf32Phdr) (elfMemory : Nat)
    (phdr : Elf32Phdr) : Prop where
  file : ∀ k < phdr.pFilesz,
    lastCover phdrs elfMemory (phdr.address k / pagingPageSize) ≠ some phdr →
      bytes (coveredAddress phdrs elfMemory (phdr.address k)) = contents (phdr.pOffset + k)
  tail : ∀ k, phdr.pFilesz ≤ k → k < phdr.pMemsz →
    bytes (coveredAddress phdrs elfMemory (phdr.address k)) = 0
  writeable : phdr.pFlags &&& pfW ≠ 0 → ∀ k < phdr.pMemsz, ∃ cover,
    lastCover phdrs elfMemory (phdr.address k / pagingPageSize) = some cover ∧
      cover.pFlags &&& pfW ≠ 0

section Segment

variable {pages pages' : PageTables} {directory elfMemory address filesize k : Nat}
  {phdrs : List Elf32Phdr} {phdr : Elf32Phdr} {res : Int} {bytes contents : Nat → UInt8}

theorem entry_split {frame flags : Nat} (hflags : flags < 8) :
    (frame * pagingPageSize ||| flags) / pagingPageSize = frame ∧
      (frame * pagingPageSize ||| flags) % 8 = flags := by
  rw [page_or_flags (show flags < pagingPageSize by simp only [pagingPageSize]; omega)]
  simp only [pagingPageSize]
  omega

theorem MapsPhdrs.translate (h : MapsPhdrs directory elfMemory pages phdrs res pages')
    (hidentity : IdentityDirectory pages directory) (haddress : address < addressSpace) :
    SlobOS.translate pages' directory address = some (coveredAddress phdrs elfMemory address) ∧
      (UserWriteable pages' directory (address / pagingPageSize) ↔ ∃ cover,
        lastCover phdrs elfMemory (address / pagingPageSize) = some cover ∧
          cover.pFlags &&& pfW ≠ 0) := by
  have hpage := page_lt haddress
  have hdirectory : pages'.directories directory
      (address / pagingPageSize / pagingTotalEntriesPerTable) % 8 = 7 := by
    rw [h.directories]
    exact hidentity.flags _ (by
      simp only [pagingTotalEntriesPerTable, pageCount] at hpage ⊢
      omega)
  have hentry := h.entry hidentity.distinct hpage
  unfold SlobOS.translate UserWriteable coveredAddress
  cases hcover : lastCover phdrs elfMemory (address / pagingPageSize) with
  | none =>
      rw [hcover, Option.map_none, Option.getD_none, hidentity.entry _ hpage] at hentry
      obtain ⟨hframe, hflags⟩ := @entry_split (address / pagingPageSize) taskPageFlags (by decide)
      rw [← hentry] at hframe hflags
      have htask : taskPageFlags = 5 := by decide
      rw [hframe, if_pos (by omega), Nat.div_add_mod']
      exact ⟨rfl, iff_of_false (by omega) (by simp)⟩
  | some cover =>
      rw [hcover, Option.map_some, Option.getD_some] at hentry
      have hlt : elfPhdrFlags cover < 8 := by
        rcases elfPhdrFlags_cases cover with ⟨-, hflags⟩ | ⟨-, hflags⟩ <;> omega
      obtain ⟨hframe, hflags⟩ := @entry_split ((cover.frame elfMemory +
        pageOffset cover.page (address / pagingPageSize)) % pageCount) (elfPhdrFlags cover) hlt
      rw [← Elf32Phdr.entry, ← hentry] at hframe hflags
      rcases elfPhdrFlags_cases cover with ⟨hw, hcase⟩ | ⟨hw, hcase⟩
      · rw [hframe, if_pos (by omega)]
        refine ⟨rfl, iff_of_false (by omega) ?_⟩
        rintro ⟨other, hother, hwrite⟩
        exact hwrite (Option.some.inj hother ▸ hw)
      · rw [hframe, if_pos (by omega)]
        exact ⟨rfl, iff_of_true ⟨hdirectory, by omega⟩ ⟨cover, rfl, hw⟩⟩

theorem MapsPhdrs.seen (h : MapsPhdrs directory elfMemory pages phdrs res pages')
    (hidentity : IdentityDirectory pages directory) (phdr : Elf32Phdr) (k : Nat) :
    SlobOS.translate pages' directory (phdr.address k) =
      some (coveredAddress phdrs elfMemory (phdr.address k)) :=
  (h.translate hidentity (toUint32_lt _)).1

theorem coveredAddress_self (hstart : elfMemory % pagingPageSize = 0)
    (hend : elfMemory + filesize ≤ addressSpace) (hvaddr : phdr.pVaddr < addressSpace)
    (hcongruent : phdr.pVaddr % pagingPageSize = phdr.pOffset % pagingPageSize)
    (hinside : phdr.pOffset + phdr.pFilesz ≤ filesize) (hk : k < phdr.pFilesz)
    (hcover : lastCover phdrs elfMemory (phdr.address k / pagingPageSize) = some phdr) :
    coveredAddress phdrs elfMemory (phdr.address k) = elfMemory + (phdr.pOffset + k) := by
  rw [coveredAddress, hcover]
  simp only [Elf32Phdr.frame, Elf32Phdr.page, Elf32Phdr.address, pageOffset, pageCount,
    pagingPageSize, toUint32, addressSpace] at *
  rw [Nat.mod_eq_of_lt (show elfMemory + phdr.pOffset < 4294967296 by omega)]
  omega

theorem segmentSeen_iff (h : MapsPhdrs directory elfMemory pages phdrs res pages')
    (hidentity : IdentityDirectory pages directory) (hstart : elfMemory % pagingPageSize = 0)
    (hend : elfMemory + filesize ≤ addressSpace)
    (hcontents : ∀ i < filesize, bytes (elfMemory + i) = contents i)
    (hvaddr : phdr.pVaddr < addressSpace)
    (hcongruent : phdr.pVaddr % pagingPageSize = phdr.pOffset % pagingPageSize)
    (hinside : phdr.pOffset + phdr.pFilesz ≤ filesize) :
    SegmentSeen bytes contents pages' directory phdr ↔
      SegmentKept bytes contents phdrs elfMemory phdr := by
  have hwrite : ∀ k, UserWriteable pages' directory (phdr.address k / pagingPageSize) ↔ ∃ cover,
      lastCover phdrs elfMemory (phdr.address k / pagingPageSize) = some cover ∧
        cover.pFlags &&& pfW ≠ 0 := fun k =>
    (h.translate hidentity (toUint32_lt _)).2
  have hbyte : ∀ k value, (SlobOS.translate pages' directory (phdr.address k)).map bytes =
      some value ↔ bytes (coveredAddress phdrs elfMemory (phdr.address k)) = value := by
    intro k value
    rw [h.seen hidentity, Option.map_some, Option.some_inj]
  constructor
  · rintro ⟨hfile, htail, hwriteable⟩
    exact ⟨fun k hk _ => (hbyte k _).mp (hfile k hk), fun k hge hlt => (hbyte k _).mp (htail k hge hlt),
      fun hw k hk => (hwrite k).mp (hwriteable hw k hk)⟩
  · rintro ⟨hfile, htail, hwriteable⟩
    refine ⟨fun k hk => (hbyte k _).mpr ?_, fun k hge hlt => (hbyte k _).mpr (htail k hge hlt),
      fun hw k hk => (hwrite k).mpr (hwriteable hw k hk)⟩
    by_cases hcover : lastCover phdrs elfMemory (phdr.address k / pagingPageSize) = some phdr
    · rw [coveredAddress_self hstart hend hvaddr hcongruent hinside hk hcover]
      exact hcontents _ (by omega)
    · exact hfile k hk hcover

end Segment

section Image

variable {memory : Memory} {before pages pages' : PageTables} {directory elfMemory filesize : Nat}
  {file : ElfFile} {bytes contents : Nat → UInt8}

/-- The image is right exactly if the last headers leave each segment as it is. -/
theorem imageRight_iff
    (haccept : elfProcessLoaded (memory before) (elfFileAt elfMemory) = (slobosAllOk, file))
    (hstart : elfMemory % pagingPageSize = 0) (hend : elfMemory + filesize ≤ addressSpace)
    (hcontents : ∀ i < filesize, bytes (elfMemory + i) = contents i)
    (hidentity : IdentityDirectory pages directory)
    (hfit : LoadsFit (phdrsReached memory pages directory file) filesize)
    (hmap : processMapElf memory pages directory file = (0, pages')) :
    ImageRight bytes contents pages' directory (phdrsReached memory pages directory file) ↔
      ∀ phdr ∈ phdrsReached memory pages directory file, phdr.pType = ptLoad →
        SegmentKept bytes contents (phdrsReached memory pages directory file) elfMemory phdr := by
  have hmemory := elfProcessLoaded_elfMemory (memory before) (elfFileAt elfMemory)
  rw [haccept] at hmemory
  obtain rfl : file.elfMemory = elfMemory := hmemory
  obtain ⟨res, after, hmap', hmaps⟩ := processMapElf_maps memory pages directory file
  obtain ⟨rfl, rfl⟩ := Prod.mk.inj (hmap.symm.trans hmap')
  apply forall₃_congr
  intro phdr hphdr hload
  exact segmentSeen_iff hmaps hidentity hstart hend hcontents (phdrsReachedLoop_vaddr phdr hphdr)
    (hfit.congruent phdr hphdr hload) (hfit.inside phdr hphdr hload)

end Image

/-- An ELF file of 84 bytes at the start of the kernel heap. Its only segment is to be loaded: the
first byte of the file, and a second byte of memory. -/
def tailElf (address : Nat) : UInt8 :=
  match address - slobosHeapAddress with
  | 0 => 0x7f
  | 1 => 0x45
  | 2 => 0x4c
  | 3 => 0x46
  | 28 => 52
  | 44 => 1
  | 52 => 1
  | 62 => 0x40
  | 68 => 1
  | 72 => 2
  | _ => 0

def tailElfFile : ElfFile := (elfProcessLoaded tailElf (elfFileAt slobosHeapAddress)).2

def tailPhdr : Elf32Phdr := readPhdr tailElf (slobosHeapAddress + 52)

def identityTables : PageTables where
  directories := fun _ i => (i + 1) * pagingPageSize + 7
  tables := fun address index =>
    ((address / pagingPageSize - 1) * pagingTotalEntriesPerTable + index) * pagingPageSize |||
      taskPageFlags
  stores := []

theorem identityTables_address (i : Nat) :
    tableAddress (identityTables.directories 0 i) = (i + 1) * pagingPageSize := by
  simp only [tableAddress, identityTables, pagingPageSize]
  omega

theorem identityDirectory_identityTables : IdentityDirectory identityTables 0 where
  distinct := by
    intro i _ j _ hsame
    rw [identityTables_address, identityTables_address] at hsame
    simp only [pagingPageSize] at hsame
    omega
  flags := by
    intro i _
    simp only [identityTables, pagingPageSize]
    omega
  entry := by
    intro page _
    rw [pageEntry, identityTables_address]
    change (((page / pagingTotalEntriesPerTable + 1) * pagingPageSize / pagingPageSize - 1) *
      pagingTotalEntriesPerTable + page % pagingTotalEntriesPerTable) * pagingPageSize ||| _ = _
    rw [Nat.mul_div_cancel _ (by decide), Nat.add_sub_cancel, Nat.div_add_mod']

theorem tailElf_accepted :
    elfProcessLoaded tailElf (elfFileAt slobosHeapAddress) = (slobosAllOk, tailElfFile) := by
  have hcode : (elfProcessLoaded tailElf (elfFileAt slobosHeapAddress)).1 = slobosAllOk := by decide
  exact Prod.ext hcode rfl

theorem phdrsReached_tailElf :
    phdrsReached (fun _ => tailElf) identityTables 0 tailElfFile = [tailPhdr] := by
  have hmore : 0 < ePhnum tailElf tailElfFile.elfMemory := by decide
  have hphdr : readPhdr tailElf (toUint32
      (elfPheader tailElf tailElfFile.elfMemory + 0 * elf32PhdrSize)) = tailPhdr := by
    rfl
  rw [phdrsReached, phdrsReachedLoop, if_pos hmore]
  simp only [hphdr]
  rw [phdrsReachedLoop_done (by decide), ite_self]

theorem processMapElf_tailElf : ∃ pages',
    processMapElf (fun _ => tailElf) identityTables 0 tailElfFile = (0, pages') ∧
      MapsPhdrs 0 slobosHeapAddress identityTables [tailPhdr] 0 pages' := by
  obtain ⟨res, pages', hmap, hmaps⟩ :=
    processMapElf_maps (fun _ => tailElf) identityTables 0 tailElfFile
  rw [phdrsReached_tailElf, show tailElfFile.elfMemory = slobosHeapAddress by decide] at hmaps
  cases hmaps with
  | refused hlt => exact absurd hlt (by decide)
  | cons hle hmaps hrest =>
      cases hrest
      exact ⟨pages', hmap, .cons hle hmaps (.nil _)⟩

theorem loadsFit_tailElf :
    LoadsFit (phdrsReached (fun _ => tailElf) identityTables 0 tailElfFile) 84 := by
  rw [phdrsReached_tailElf]
  constructor
  · intro phdr hphdr _
    rw [List.mem_singleton.mp hphdr]
    decide
  · intro phdr hphdr _
    rw [List.mem_singleton.mp hphdr]
    decide
  · exact List.pairwise_singleton _ _

theorem imageRight_iff_tailElf : ∃ pages',
    processMapElf (fun _ => tailElf) identityTables 0 tailElfFile = (0, pages') ∧
    (ImageRight tailElf (fun i => tailElf (slobosHeapAddress + i)) pages' 0
        (phdrsReached (fun _ => tailElf) identityTables 0 tailElfFile) ↔
      ∀ phdr ∈ phdrsReached (fun _ => tailElf) identityTables 0 tailElfFile, phdr.pType = ptLoad →
        SegmentKept tailElf (fun i => tailElf (slobosHeapAddress + i))
          (phdrsReached (fun _ => tailElf) identityTables 0 tailElfFile) slobosHeapAddress phdr) := by
  obtain ⟨pages', hmap, -⟩ := processMapElf_tailElf
  exact ⟨pages', hmap, @imageRight_iff (fun _ => tailElf) blankPageTables _ _ _ _ 84 _ _ _
    tailElf_accepted (by decide) (by decide) (fun _ _ => rfl) identityDirectory_identityTables
    loadsFit_tailElf hmap⟩

/-- The byte behind the part of the file is the second one of the file, and not zero. -/
theorem not_imageRight : ¬∀ memory before pages directory file elfMemory filesize contents bytes pages',
    elfProcessLoaded (memory before) (elfFileAt elfMemory) = (slobosAllOk, file) →
    elfMemory % pagingPageSize = 0 → elfMemory + filesize ≤ addressSpace →
    (∀ i < filesize, bytes (elfMemory + i) = contents i) → IdentityDirectory pages directory →
    LoadsFit (phdrsReached memory pages directory file) filesize →
    processMapElf memory pages directory file = (0, pages') →
    ImageRight bytes contents pages' directory (phdrsReached memory pages directory file) := by
  intro hall
  obtain ⟨pages', hmap, hmaps⟩ := processMapElf_tailElf
  have himage := hall (fun _ => tailElf) blankPageTables identityTables 0 tailElfFile
    slobosHeapAddress 84 _ tailElf pages' tailElf_accepted (by decide) (by decide) (fun _ _ => rfl)
    identityDirectory_identityTables loadsFit_tailElf hmap
  rw [phdrsReached_tailElf] at himage
  have htail := (himage tailPhdr List.mem_cons_self (by decide)).tail 1 (by decide) (by decide)
  rw [hmaps.seen identityDirectory_identityTables] at htail
  exact absurd htail (by decide)

end SlobOS
