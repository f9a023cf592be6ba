import SlobOS.ProcessMap
import SlobOS.Proof.Paging

/-!
# What the mapping of a program stores

The loop over the program headers is a sequence of range mappings, one for each header that it
reaches, up to one that is refused. Every store belongs to one of them, and the entry that a page
ends with comes from the last header that covers it.
-/

namespace SlobOS

theorem readHalf_lt (bytes : Nat → UInt8) (address : Nat) : readHalf bytes address < 65536 := by
  have hlow := (bytes (toUint32 address)).toNat_lt
  have hhigh := (bytes (toUint32 (address + 1))).toNat_lt
  unfold readHalf
  omega

theorem readWord_lt (bytes : Nat → UInt8) (address : Nat) :
    readWord bytes address < addressSpace := by
  have hlow := readHalf_lt bytes address
  have hhigh := readHalf_lt bytes (address + 2)
  simp only [readWord, addressSpace]
  omega

theorem elfProcessPheader_elfMemory (file : ElfFile) (phdr : Elf32Phdr) :
    (elfProcessPheader file phdr).2.elfMemory = file.elfMemory := by
  unfold elfProcessPheader elfProcessPhdrPtLoad
  dsimp only
  split_ifs <;> rfl

theorem elfProcessPheader_res (file : ElfFile) (phdr : Elf32Phdr) :
    (elfProcessPheader file phdr).1 = 0 := by
  unfold elfProcessPheader elfProcessPhdrPtLoad
  split <;> rfl

theorem elfProcessPheadersLoop_elfMemory (bytes : Nat → UInt8) (left i : Nat) (file : ElfFile) :
    (elfProcessPheadersLoop bytes left i file).2.elfMemory = file.elfMemory := by
  induction left generalizing i file with
  | zero => rfl
  | succ left ih =>
      simp only [elfProcessPheadersLoop]
      split_ifs
      · exact elfProcessPheader_elfMemory _ _
      · rw [ih, elfProcessPheader_elfMemory]
      · rfl

theorem elfProcessLoaded_elfMemory (bytes : Nat → UInt8) (file : ElfFile) :
    (elfProcessLoaded bytes file).2.elfMemory = file.elfMemory := by
  unfold elfProcessLoaded
  dsimp only
  split
  · rfl
  · exact elfProcessPheadersLoop_elfMemory bytes _ _ file

namespace Elf32Phdr

def page (phdr : Elf32Phdr) : Nat := phdr.pVaddr / pagingPageSize

def frame (phdr : Elf32Phdr) (elfMemory : Nat) : Nat :=
  toUint32 (elfMemory + phdr.pOffset) / pagingPageSize

def stop (phdr : Elf32Phdr) (elfMemory : Nat) : Nat :=
  stopPage (toUint32 (toUint32 (elfMemory + phdr.pOffset) + phdr.pMemsz))

end Elf32Phdr

theorem elfPhdrFlags_cases (phdr : Elf32Phdr) :
    (phdr.pFlags &&& pfW = 0 ∧ elfPhdrFlags phdr = 5) ∨
      (phdr.pFlags &&& pfW ≠ 0 ∧ elfPhdrFlags phdr = 7) := by
  unfold elfPhdrFlags
  by_cases hw : phdr.pFlags &&& pfW = 0
  · exact Or.inl ⟨hw, by simp [hw, pagingIsPresent, pagingAccessFromAll]⟩
  · exact Or.inr ⟨hw, by simp [hw, pagingIsPresent, pagingAccessFromAll, pagingIsWriteable]⟩

theorem elfPhdrFlags_lt (phdr : Elf32Phdr) : elfPhdrFlags phdr < pagingPageSize := by
  rcases elfPhdrFlags_cases phdr with ⟨-, hflags⟩ | ⟨-, hflags⟩ <;> rw [hflags] <;> decide

section Phdr

variable {pages : PageTables} {directory : Nat} {file : ElfFile} {phdr : Elf32Phdr}

theorem processMapPhdr_eq (pages : PageTables) (directory : Nat) (file : ElfFile)
    (phdr : Elf32Phdr) :
    processMapPhdr pages directory file phdr =
      pagingMapTo pages directory (phdr.page * pagingPageSize)
        (phdr.frame file.elfMemory * pagingPageSize) (phdr.stop file.elfMemory * pagingPageSize)
        (elfPhdrFlags phdr) := by
  simp only [processMapPhdr, pagingAlignToLowerPage_eq,
    pagingAlignAddress_eq (toUint32_lt _)]
  rfl

theorem processMapPhdr_refused (h : phdr.stop file.elfMemory < phdr.frame file.elfMemory) :
    processMapPhdr pages directory file phdr = (-einvarg, pages) := by
  rw [processMapPhdr_eq, pagingMapTo_refused h]

theorem processMapPhdr_maps (hvaddr : phdr.pVaddr < addressSpace)
    (hle : phdr.frame file.elfMemory ≤ phdr.stop file.elfMemory) : ∃ pages',
      processMapPhdr pages directory file phdr = (0, pages') ∧
      Maps pages pages' directory phdr.page (phdr.frame file.elfMemory)
        (phdr.stop file.elfMemory - phdr.frame file.elfMemory) (elfPhdrFlags phdr) := by
  rw [processMapPhdr_eq]
  exact pagingMapTo_maps (page_lt hvaddr) (page_lt (toUint32_lt _)) (stopPage_lt _) hle

end Phdr

/-! ### The loop -/

/-- The program headers are mapped one after the other, up to one that is refused. -/
inductive MapsPhdrs (directory elfMemory : Nat) :
    PageTables → List Elf32Phdr → Int → PageTables → Prop
  | nil (pages : PageTables) : MapsPhdrs directory elfMemory pages [] 0 pages
  | refused {pages : PageTables} {phdr : Elf32Phdr} :
      phdr.stop elfMemory < phdr.frame elfMemory →
        MapsPhdrs directory elfMemory pages [phdr] (-einvarg) pages
  | cons {pages middle pages' : PageTables} {phdr : Elf32Phdr} {rest : List Elf32Phdr} {res : Int} :
      phdr.frame elfMemory ≤ phdr.stop elfMemory →
      Maps pages middle directory phdr.page (phdr.frame elfMemory)
        (phdr.stop elfMemory - phdr.frame elfMemory) (elfPhdrFlags phdr) →
      MapsPhdrs directory elfMemory middle rest res pages' →
        MapsPhdrs directory elfMemory pages (phdr :: rest) res pages'

section Loop

variable {pages pages' : PageTables} {directory elfMemory : Nat} {phdrs : List Elf32Phdr} {res : Int}

theorem processMapElfLoop_maps (memory : Memory) (directory : Nat) (file : ElfFile) (start : Nat)
    (left i : Nat) (pages : PageTables) :
    ∃ res pages', processMapElfLoop memory directory file start left i pages = (res, pages') ∧
      MapsPhdrs directory file.elfMemory pages
        (phdrsReachedLoop memory directory file start left i pages) res pages' := by
  induction left generalizing i pages with
  | zero => exact ⟨0, pages, rfl, .nil pages⟩
  | succ left ih =>
      simp only [processMapElfLoop, phdrsReachedLoop]
      split
      case isFalse => exact ⟨0, pages, rfl, .nil pages⟩
      case isTrue =>
        generalize hphdr : readPhdr (memory pages) (toUint32 (start + i * elf32PhdrSize)) = phdr
        have hvaddr : phdr.pVaddr < addressSpace := by
          rw [← hphdr]
          exact readWord_lt _ _
        by_cases hle : phdr.frame file.elfMemory ≤ phdr.stop file.elfMemory
        · obtain ⟨middle, hmap, hmaps⟩ :=
            @processMapPhdr_maps pages directory file phdr hvaddr hle
          obtain ⟨res, pages', hloop, hrest⟩ := ih (i + 1) middle
          rw [hmap]
          exact ⟨res, pages', hloop, .cons hle hmaps hrest⟩
        · rw [processMapPhdr_refused (by omega)]
          exact ⟨-einvarg, pages, rfl, .refused (by omega)⟩

theorem processMapElf_maps (memory : Memory) (pages : PageTables) (directory : Nat)
    (file : ElfFile) :
    ∃ res pages', processMapElf memory pages directory file = (res, pages') ∧
      MapsPhdrs directory file.elfMemory pages (phdrsReached memory pages directory file) res
        pages' :=
  processMapElfLoop_maps memory directory file _ 65536 0 pages

theorem phdrsReachedLoop_done {memory : Memory} {file : ElfFile} {start left i : Nat}
    (hdone : ePhnum (memory pages) file.elfMemory ≤ i) :
    phdrsReachedLoop memory directory file start left i pages = [] := by
  cases left with
  | zero => rfl
  | succ left => rw [phdrsReachedLoop, if_neg (Nat.not_lt.mpr hdone)]

theorem phdrsReachedLoop_vaddr {memory : Memory} {file : ElfFile} {start left i : Nat} :
    ∀ phdr ∈ phdrsReachedLoop memory directory file start left i pages,
      phdr.pVaddr < addressSpace := by
  induction left generalizing i pages with
  | zero => exact fun _ hphdr => absurd hphdr List.not_mem_nil
  | succ left ih =>
      intro phdr hphdr
      rw [phdrsReachedLoop] at hphdr
      by_cases hmore : i < ePhnum (memory pages) file.elfMemory
      · simp only [if_pos hmore, List.mem_cons] at hphdr
        rcases hphdr with rfl | hphdr
        · exact readWord_lt _ _
        · generalize processMapPhdr pages directory file _ = result at hphdr
          by_cases hres : result.1 < 0
          · rw [if_pos hres] at hphdr
            exact absurd hphdr List.not_mem_nil
          · rw [if_neg hres] at hphdr
            exact ih phdr hphdr
      · rw [if_neg hmore] at hphdr
        exact absurd hphdr List.not_mem_nil

theorem MapsPhdrs.directories (h : MapsPhdrs directory elfMemory pages phdrs res pages') :
    pages'.directories = pages.directories := by
  induction h with
  | nil => rfl
  | refused => rfl
  | cons _ hmaps _ ih => rw [ih, hmaps.directories]

def programMapped (memory : Memory) (pages : PageTables) (directory : Nat)
    (filetype : ProcessFiletype) (file : ElfFile) (ptr size : Nat) : Int × PageTables :=
  match filetype with
  | .elf => processMapElf memory pages directory file
  | .binary => processMapBinary pages directory ptr size

def stackMapped (pages : PageTables) (directory stack : Nat) : Int × PageTables :=
  pagingMapTo pages directory slobosProgramVirtualStackAddressEnd stack
    (pagingAlignAddress (toUint32 (stack + slobosUserProgramStackSize)))
    (pagingIsPresent ||| pagingAccessFromAll ||| pagingIsWriteable)

theorem processMapMemory_eq (memory : Memory) (pages : PageTables) (directory : Nat)
    (filetype : ProcessFiletype) (file : ElfFile) (ptr size stack : Nat) :
    processMapMemory memory pages directory filetype file ptr size stack =
      ((programMapped memory pages directory filetype file ptr size).1,
        if (programMapped memory pages directory filetype file ptr size).1 < 0 then
          (programMapped memory pages directory filetype file ptr size).2
        else (stackMapped (programMapped memory pages directory filetype file ptr size).2
          directory stack).2) := by
  cases filetype <;>
    · simp only [processMapMemory, programMapped, stackMapped]
      split <;> simp only [*, if_true, if_false]

theorem programMapped_directories (memory : Memory) (pages : PageTables) (directory : Nat)
    (filetype : ProcessFiletype) (file : ElfFile) (ptr size : Nat) :
    (programMapped memory pages directory filetype file ptr size).2.directories =
      pages.directories := by
  cases filetype with
  | elf =>
      obtain ⟨res, pages', hmap, hmaps⟩ := processMapElf_maps memory pages directory file
      simp only [programMapped, hmap]
      exact hmaps.directories
  | binary => exact pagingMapTo_directories _ _ _ _ _ _

theorem processMapMemory_directories (memory : Memory) (pages : PageTables) (directory : Nat)
    (filetype : ProcessFiletype) (file : ElfFile) (ptr size stack : Nat) :
    (processMapMemory memory pages directory filetype file ptr size stack).2.directories =
      pages.directories := by
  rw [processMapMemory_eq]
  dsimp only
  split
  · exact programMapped_directories _ _ _ _ _ _ _
  · rw [stackMapped, pagingMapTo_directories, programMapped_directories]

theorem MapsPhdrs.stores (h : MapsPhdrs directory elfMemory pages phdrs res pages') :
    ∃ stored, pages'.stores = stored ++ pages.stores ∧ ∀ frame,
      (∃ store ∈ stored, store.2 / pagingPageSize = frame) ↔
        ∃ phdr ∈ phdrs, phdr.frame elfMemory ≤ frame ∧ frame < phdr.stop elfMemory := by
  induction h with
  | nil => exact ⟨[], rfl, by simp⟩
  | refused hlt =>
      refine ⟨[], rfl, fun frame => ?_⟩
      simp only [List.not_mem_nil, false_and, exists_false, List.mem_singleton, exists_eq_left,
        false_iff]
      omega
  | @cons _ _ _ phdr rest _ hle hmaps _ ih =>
      obtain ⟨later, hlater, hframes⟩ := ih
      obtain ⟨stored, hstored, hmem⟩ := hmaps.stores
      refine ⟨later ++ stored, by rw [hlater, hstored, List.append_assoc], fun frame => ?_⟩
      have hstop := stopPage_lt (toUint32 (toUint32 (elfMemory + phdr.pOffset) + phdr.pMemsz))
      have hval : ∀ j, phdr.frame elfMemory + j < phdr.stop elfMemory →
          ((phdr.frame elfMemory + j) % pageCount * pagingPageSize ||| elfPhdrFlags phdr) /
            pagingPageSize = phdr.frame elfMemory + j := by
        intro j hj
        have hflags := elfPhdrFlags_lt phdr
        rw [page_or_flags hflags, Nat.mod_eq_of_lt (Nat.lt_trans hj hstop)]
        simp only [pagingPageSize] at hflags ⊢
        omega
      have hfirst : (∃ store ∈ stored, store.2 / pagingPageSize = frame) ↔
          phdr.frame elfMemory ≤ frame ∧ frame < phdr.stop elfMemory := by
        constructor
        · rintro ⟨store, hstore, rfl⟩
          obtain ⟨j, hj, rfl⟩ := (hmem store).mp hstore
          rw [hval j (by omega)]
          omega
        · rintro ⟨hge, hlt⟩
          refine ⟨_, (hmem _).mpr ⟨frame - phdr.frame elfMemory, by omega, rfl⟩, ?_⟩
          rw [hval _ (by omega)]
          omega
      simp only [List.mem_append, or_and_right, exists_or, List.mem_cons, exists_eq_left,
        hframes, hfirst]
      exact or_comm

end Loop

namespace Elf32Phdr

def Covers (phdr : Elf32Phdr) (elfMemory page : Nat) : Prop :=
  pageOffset phdr.page page < phdr.stop elfMemory - phdr.frame elfMemory

instance (phdr : Elf32Phdr) (elfMemory page : Nat) : Decidable (phdr.Covers elfMemory page) :=
  inferInstanceAs (Decidable (_ < _))

def entry (phdr : Elf32Phdr) (elfMemory page : Nat) : Nat :=
  (phdr.frame elfMemory + pageOffset phdr.page page) % pageCount * pagingPageSize |||
    elfPhdrFlags phdr

end Elf32Phdr

def lastCover (phdrs : List Elf32Phdr) (elfMemory page : Nat) : Option Elf32Phdr :=
  (phdrs.filter fun phdr => phdr.Covers elfMemory page).getLast?

section Covers

variable {pages pages' : PageTables} {directory elfMemory page : Nat} {phdrs : List Elf32Phdr}
  {phdr : Elf32Phdr} {res : Int}

theorem lastCover_cons : lastCover (phdr :: phdrs) elfMemory page =
    (lastCover phdrs elfMemory page).or
      (if phdr.Covers elfMemory page then some phdr else none) := by
  unfold lastCover
  rw [List.filter_cons]
  by_cases hcovers : phdr.Covers elfMemory page
  · rw [if_pos (decide_eq_true hcovers), if_pos hcovers, List.getLast?_cons]
    cases (phdrs.filter fun phdr => decide (phdr.Covers elfMemory page)).getLast? <;> rfl
  · rw [if_neg (by simpa using hcovers), if_neg hcovers, Option.or_none]

theorem MapsPhdrs.entry (h : MapsPhdrs directory elfMemory pages phdrs res pages')
    (hdistinct : DistinctTables pages directory) (hpage : page < pageCount) :
    pageEntry pages' directory page =
      ((lastCover phdrs elfMemory page).map fun cover => cover.entry elfMemory page).getD
        (pageEntry pages directory page) := by
  induction h with
  | nil => rfl
  | @refused pages phdr hlt =>
      have hcovers : ¬phdr.Covers elfMemory page := by
        unfold Elf32Phdr.Covers
        omega
      rw [lastCover_cons, if_neg hcovers]
      rfl
  | @cons pages middle pages' phdr rest res hle hmaps _ ih =>
      have hdistinct' : DistinctTables middle directory := by
        unfold DistinctTables
        rw [hmaps.directories]
        exact hdistinct
      rw [ih hdistinct', hmaps.entry hdistinct page hpage, lastCover_cons]
      cases lastCover rest elfMemory page with
      | some cover => rw [Option.some_or, Option.map_some, Option.getD_some, Option.getD_some]
      | none =>
          rw [Option.none_or, Option.map_none, Option.getD_none]
          by_cases hcovers : phdr.Covers elfMemory page
          · rw [if_pos hcovers, Option.map_some, Option.getD_some]
            exact if_pos hcovers
          · rw [if_neg hcovers, Option.map_none, Option.getD_none]
            exact if_neg hcovers

end Covers

end SlobOS
