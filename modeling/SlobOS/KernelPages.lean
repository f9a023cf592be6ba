import SlobOS.ElfImages
import SlobOS.Proof.ProgramPages
import SlobOS.Proof.Programs

/-!
# The kernel in the page directory of a task

An interrupt runs on the page directory of the task that it meets, from the first instruction of the
kernel to the switch. So the pages of the kernel image and of the interrupt stack have to be there as
they were built: to themselves, and closed to the task. A program is mapped over them where its size
or its addresses lead it.
-/

namespace SlobOS

/-- The kernel image starts at 1 MiB, by `linker.ld`. -/
def kernelStart : Nat := 0x100000

/-- The top of the interrupt stack, by `kernel_main`. -/
def tssEsp0 : Nat := 0x600000

/-- A page of the kernel image, or the one below the top of the interrupt stack. -/
def ProtectedPage (kernelEnd page : Nat) : Prop :=
  (kernelStart ≤ page * pagingPageSize ∧ page * pagingPageSize < kernelEnd) ∨
    page = (tssEsp0 - 1) / pagingPageSize

/-- The page translates to itself, and the task cannot write to it. -/
def PageKept (pages : PageTables) (directory page : Nat) : Prop :=
  Identity pages directory page ∧ ¬UserWriteable pages directory page

/-- Where the last header that covers the page leads to the page itself, without write access, the
page is as before. -/
def PhdrsClear (phdrs : List Elf32Phdr) (elfMemory page : Nat) : Prop :=
  ∀ cover, lastCover phdrs elfMemory page = some cover →
    (cover.frame elfMemory + pageOffset cover.page page) % pageCount = page ∧
      cover.pFlags &&& pfW = 0

namespace Kernel

def KernelPagesKept (kernelEnd : Nat) (kernel : Kernel) (process : Nat) : Prop :=
  ∀ page, ProtectedPage kernelEnd page → PageKept kernel.pages (kernel.directoryOf process) page

/-- A flat program ends below the interrupt stack, unless its mapping is refused because it ends in the
last page of the address space. The headers of an ELF file leave all pages of the kernel as they
are. -/
def ProgramClear (kernelEnd : Nat) (kernel : Kernel) (process : Nat) : Prop :=
  match (kernel.sched.procs process).filetype with
  | .binary => (kernel.processMemory process).size ≤ 0x1FF000 ∨
      0xFFFFF000 < (kernel.processMemory process).data + (kernel.processMemory process).size
  | .elf => ∀ page, ProtectedPage kernelEnd page →
      PhdrsClear
        (phdrsReached kernel.memory kernel.pages (kernel.directoryOf process)
          (kernel.elfFiles (kernel.processMemory process).data))
        (kernel.elfFiles (kernel.processMemory process).data).elfMemory page

/-- The kernel image ends below the stack of the program, and the program reaches no page of the
kernel. -/
def MapsClear (kernelEnd : Nat) (kernel : Kernel) (process : Nat) : Prop :=
  kernelEnd ≤ slobosProgramVirtualStackAddressEnd ∧ ProgramClear kernelEnd kernel process

end Kernel

section Entries

open Kernel

variable {pages pages' : PageTables} {directory page elfMemory : Nat}
  {phdrs : List Elf32Phdr} {res : Int}

theorem protectedPage_cases {kernelEnd : Nat}
    (hend : kernelEnd ≤ slobosProgramVirtualStackAddressEnd) (h : ProtectedPage kernelEnd page) :
    page < 0x3FB ∨ page = 0x5FF := by
  have hstack : slobosProgramVirtualStackAddressEnd = 0x3FB000 := rfl
  unfold ProtectedPage at h
  simp only [kernelStart, tssEsp0, pagingPageSize] at h
  omega

theorem pageKept_iff
    (hflags : pages.directories directory (page / pagingTotalEntriesPerTable) % 8 = 7) :
    PageKept pages directory page ↔ pageEntry pages directory page / pagingPageSize = page ∧
      pageEntry pages directory page % 2 = 1 ∧ pageEntry pages directory page % 8 ≠ 7 := by
  unfold PageKept Identity UserWriteable
  constructor
  · rintro ⟨⟨-, hpresent, hframe⟩, hwriteable⟩
    exact ⟨hframe, hpresent, fun hentry => hwriteable ⟨hflags, hentry⟩⟩
  · rintro ⟨hframe, hpresent, hentry⟩
    exact ⟨⟨by omega, hpresent, hframe⟩, fun hwriteable => hentry hwriteable.2⟩

theorem pageKept_congr (hdirectories : pages'.directories = pages.directories)
    (hentry : pageEntry pages' directory page = pageEntry pages directory page) :
    PageKept pages' directory page ↔ PageKept pages directory page := by
  rw [PageKept, PageKept, Identity, Identity, UserWriteable, UserWriteable, hdirectories, hentry]

theorem pageKept_of_entry (hidentity : IdentityDirectory pages directory) (hpage : page < pageCount)
    (hdirectories : pages'.directories = pages.directories)
    (hentry : pageEntry pages' directory page = pageEntry pages directory page) :
    PageKept pages' directory page := by
  obtain ⟨hframe, hflags⟩ := @entry_split page taskPageFlags (by decide)
  have htask : taskPageFlags = 5 := by decide
  rw [← hidentity.entry page hpage, ← hentry] at hframe hflags
  refine (pageKept_iff ?_).mpr ⟨hframe, by omega, by omega⟩
  rw [hdirectories]
  exact hidentity.flags _ (directoryIndex_lt hpage)

theorem not_pageKept {frame : Nat} (hentry : pageEntry pages directory page =
      frame * pagingPageSize ||| 7)
    (hflags : pages.directories directory (page / pagingTotalEntriesPerTable) % 8 = 7) :
    ¬PageKept pages directory page := by
  intro hkept
  have hseven := ((pageKept_iff hflags).mp hkept).2.2
  rw [hentry] at hseven
  exact hseven (@entry_split frame 7 (by decide)).2

theorem MapsPhdrs.pageKept_iff (h : MapsPhdrs directory elfMemory pages phdrs res pages')
    (hidentity : IdentityDirectory pages directory) (hpage : page < pageCount) :
    PageKept pages' directory page ↔ PhdrsClear phdrs elfMemory page := by
  have hentry := h.entry hidentity.distinct hpage
  unfold PhdrsClear
  cases hcover : lastCover phdrs elfMemory page with
  | none =>
      rw [hcover, Option.map_none, Option.getD_none] at hentry
      exact iff_of_true (pageKept_of_entry hidentity hpage h.directories hentry) (by simp)
  | some cover =>
      rw [hcover, Option.map_some, Option.getD_some] at hentry
      have hflags : pages'.directories directory (page / pagingTotalEntriesPerTable) % 8 = 7 := by
        rw [h.directories]
        exact hidentity.flags _ (directoryIndex_lt hpage)
      have hlt : elfPhdrFlags cover < 8 := by
        rcases elfPhdrFlags_cases cover with ⟨-, hcase⟩ | ⟨-, hcase⟩ <;> omega
      obtain ⟨hframe, hlow⟩ := @entry_split
        ((cover.frame elfMemory + pageOffset cover.page page) % pageCount) (elfPhdrFlags cover) hlt
      rw [← Elf32Phdr.entry, ← hentry] at hframe hlow
      rw [SlobOS.pageKept_iff hflags, hframe]
      constructor
      · rintro ⟨hself, -, hseven⟩ other hother
        obtain rfl := Option.some.inj hother
        rcases elfPhdrFlags_cases cover with ⟨hread, -⟩ | ⟨-, hcase⟩
        · exact ⟨hself, hread⟩
        · omega
      · intro hclear
        obtain ⟨hself, hread⟩ := hclear cover rfl
        rcases elfPhdrFlags_cases cover with ⟨-, hcase⟩ | ⟨hwrite, -⟩
        · exact ⟨hself, by omega, by omega⟩
        · exact absurd hread hwrite

end Entries

namespace Kernel

open Faulting

variable {kernel after : Kernel} {filename : List UInt8} {res : Int} {process slot kernelEnd : Nat}

theorem Mappable.programClear_iff (h : Mappable kernel process)
    (hend : kernelEnd ≤ slobosProgramVirtualStackAddressEnd) :
    (∀ page, ProtectedPage kernelEnd page →
      PageKept (kernel.programPages process) (kernel.directoryOf process) page) ↔
      ProgramClear kernelEnd kernel process := by
  have hlt : ∀ page, ProtectedPage kernelEnd page → page < pageCount := by
    intro page hpage
    have hcases := protectedPage_cases hend hpage
    simp only [pageCount]
    omega
  have hplaced := h.program
  have hdirectories := kernel.programPages_directories process
  unfold programPages programMapped at hdirectories ⊢
  unfold ProgramClear
  cases hfiletype : (kernel.sched.procs process).filetype with
  | elf =>
      obtain ⟨res, pages', hmap, hmaps⟩ := processMapElf_maps kernel.memory kernel.pages
        (kernel.directoryOf process) (kernel.elfFiles (kernel.processMemory process).data)
      simp only [hmap]
      apply forall₂_congr
      intro page hpage
      exact hmaps.pageKept_iff h.directory (hlt page hpage)
  | binary =>
      obtain ⟨haligned, hne, -, hbound⟩ := hplaced hfiletype
      simp only [hfiletype] at hdirectories ⊢
      constructor
      · intro hkept
        by_contra hclear
        rw [not_or] at hclear
        have hmaps := @processMapBinary_maps kernel.pages (kernel.directoryOf process)
          (kernel.processMemory process).data (kernel.processMemory process).size haligned (by omega)
        have hentry := hmaps.entry h.directory.distinct 0x5FF (by decide)
        rw [if_pos (by simp only [pageOffset, pageCount, pagingPageSize]; omega)] at hentry
        refine not_pageKept hentry ?_ (hkept 0x5FF (Or.inr rfl))
        rw [hdirectories]
        exact h.directory.flags _ (by decide)
      · intro hclear page hpage
        have hcases := protectedPage_cases hend hpage
        refine pageKept_of_entry h.directory (hlt page hpage) hdirectories
          (processMapBinary_entry haligned hne hbound h.directory.distinct (hlt page hpage) ?_)
        intro hinside
        simp only [pageOffset, pageCount, pagingPageSize]
        omega

/-- The pages are kept as the mapping of the program leaves them, apart from those of the stack. -/
theorem Mappable.mapsClear_iff (h : Mappable kernel process)
    (hmap : Ends (processMapMemory process) kernel res after) (hge : 0 ≤ res) :
    KernelPagesKept kernelEnd after process ↔ MapsClear kernelEnd kernel process := by
  have hprogram := kernel.programPages_directories process
  have hdistinct : DistinctTables (kernel.programPages process) (kernel.directoryOf process) := by
    unfold DistinctTables
    rw [hprogram]
    exact h.directory.distinct
  obtain rfl := ends_processMapMemory hmap hge
  have hmaps := @stackMapped_maps (kernel.programPages process) (kernel.directoryOf process) _
    h.stackAligned h.stackBound
  change (∀ page, ProtectedPage kernelEnd page → PageKept
    (stackMapped (kernel.programPages process) (kernel.directoryOf process)
      (kernel.processMemory process).stack).2 (kernel.directoryOf process) page) ↔ _
  by_cases hend : kernelEnd ≤ slobosProgramVirtualStackAddressEnd
  · rw [MapsClear, and_iff_right hend, ← h.programClear_iff hend]
    apply forall₂_congr
    intro page hpage
    have hcases := protectedPage_cases hend hpage
    refine pageKept_congr hmaps.directories (stackMapped_entry h.stackAligned h.stackBound hdistinct
      (by simp only [pageCount]; omega) ?_)
    omega
  · -- The stack of the program lies over the kernel image.
    refine iff_of_false (fun hkept => ?_) fun hclear => hend hclear.1
    have hentry := hmaps.entry hdistinct 0x3FB (by decide)
    rw [if_pos (by decide)] at hentry
    refine not_pageKept hentry ?_ (hkept 0x3FB (Or.inl ⟨by decide, ?_⟩))
    · rw [hmaps.directories, hprogram]
      exact h.directory.flags _ (by decide)
    · simp only [slobosProgramVirtualStackAddressEnd, slobosProgramVirtualStackAddressStart,
        slobosUserProgramStackSize, pagingPageSize] at hend ⊢
      omega

/-- The kernel keeps its pages in the new task exactly if the program stays clear of them. -/
theorem kernelPagesKept_iff (hsound : HeapSound kernel.heap)
    (hload : Ends (processLoadForSlot filename slot) kernel (res, process) after)
    (hne : process ≠ 0) : ∃ acquired,
      Ends (processAcquire filename slot) kernel (.ok process) acquired ∧
      (KernelPagesKept kernelEnd after process ↔ MapsClear kernelEnd acquired process) := by
  obtain ⟨result, acquired, hacquire, h⟩ := ends_bind.mp hload
  have houtcome := processAcquire_cases hacquire
  cases houtcome with
  | noProcess => exact absurd (Prod.mk.inj (ends_pure.mp h).1).2 hne
  | noData => exact absurd (Prod.mk.inj (ends_pure.mp h).1).2 hne
  | noStack => exact absurd (Prod.mk.inj (ends_pure.mp h).1).2 hne
  | @acquired own _ hacquires =>
      obtain ⟨code, mapped, hmap, h⟩ := ends_bind.mp h
      rw [ends_ite] at h
      rcases h with ⟨-, h⟩ | ⟨hge, h⟩
      · obtain ⟨_, _, -, h⟩ := ends_bind.mp h
        obtain ⟨_, _, -, h⟩ := ends_bind.mp h
        exact absurd (Prod.mk.inj (ends_pure.mp h).1).2 hne
      rw [ends_modify_bind] at h
      obtain ⟨heq, rfl⟩ := ends_pure.mp h
      obtain ⟨-, rfl⟩ := Prod.mk.inj heq
      have hcode : 0 ≤ code := by omega
      have hiff := @Mappable.mapsClear_iff acquired mapped code process kernelEnd
        (hacquires.mappable hsound) hmap hcode
      exact ⟨acquired, hacquire, hiff⟩

theorem kernelPagesKept_iff_byte : ∃ process loaded acquired,
    Ends (processLoadForSlot rootFilePath 0) (idleKernel bootBytes (programVolume 1)) (0, process)
      loaded ∧
    Ends (processAcquire rootFilePath 0) (idleKernel bootBytes (programVolume 1)) (.ok process)
      acquired ∧
    (KernelPagesKept 0x200000 loaded process ↔ MapsClear 0x200000 acquired process) := by
  obtain ⟨process, acquired, mapped, -, -, hload, -, -, -, hne⟩ :=
    @processLoadForSlot_program 1 (by decide) (by decide)
  obtain ⟨acquired, hacquire, hiff⟩ := kernelPagesKept_iff (idleKernel_sound _) hload hne
  exact ⟨process, _, acquired, hload, hacquire, hiff⟩

/-- A flat program of 2093057 bytes is mapped over the page below the interrupt stack top. -/
theorem not_kernelPagesKept : ¬∀ filename slot kernel res process after, HeapSound kernel.heap →
    Ends (processLoadForSlot filename slot) kernel (res, process) after → process ≠ 0 →
      KernelPagesKept 0x200000 after process := by
  intro hall
  have hsound := idleKernel_sound (programVolume 0x1FF001)
  obtain ⟨process, acquired, mapped, hacquires, hmap, hload, -, hfiletype, hsize, hne⟩ :=
    @processLoadForSlot_program 0x1FF001 (by decide) (by decide)
  have hmappable := hacquires.mappable hsound
  have hinside := (hmappable.program hfiletype).inside
  have hiff := @Mappable.mapsClear_iff acquired mapped 0 process 0x200000 hmappable hmap
    (Int.le_refl 0)
  have hkept := hall _ _ _ _ _ _ hsound hload hne
  have hclear := (hiff.mp hkept).2
  rw [ProgramClear, hfiletype, hsize] at hclear
  simp only [slobosHeapAddress] at hinside
  omega

end Kernel

end SlobOS
