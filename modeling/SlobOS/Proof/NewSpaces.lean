import SlobOS.Proof.NewChains
import SlobOS.Proof.ProgramPages

/-!
# The space of a new process

What the mapping opens to a new program are the pages of its own program and stack: a flat program and
the stack fill their chains, and an ELF file is checked by nobody, so its writeable segments have to
lie inside the file.
-/

namespace SlobOS

open Tilings

section Pages

variable {pages pages' : PageTables} {heap : Heap} {allocation : ProcessAllocation} {phdrs : List Elf32Phdr}
  {directory elfMemory page frame count at' k : Nat} {res : Int}

theorem pageFrame_of_entry {flags : Nat} (hflags : flags < pagingPageSize)
    (h : pageEntry pages directory page = frame % pageCount * pagingPageSize ||| flags) :
    pageFrame pages directory page = frame % pageCount := by
  rw [pageFrame, h, page_or_flags hflags]
  simp only [pagingPageSize, pageCount] at *
  omega

theorem Maps.pageFrame_eq (h : Maps pages pages' directory page frame count 7)
    (hdistinct : DistinctTables pages directory) (hat : at' < pageCount)
    (hin : pageOffset page at' < count) :
    pageFrame pages' directory at' = (frame + pageOffset page at') % pageCount :=
  @pageFrame_of_entry _ _ _ _ 7 (by decide) (by rw [h.entry hdistinct at' hat, if_pos hin])

theorem HeldAllocation.pageBlock (h : HeldAllocation heap allocation) (hsound : HeapSound heap)
    (hk : k < blockCount allocation.size) : ∃ block, Within heap allocation.ptr block ∧
      (allocation.ptr / pagingPageSize + k) % pageCount = blockPage heap block := by
  have hcover : (allocation.span heap).Covers ((allocation.span heap).start + k) := by
    simp only [Span.Covers, Span.stop, ProcessAllocation.span] at *
    omega
  have hlt := h.chained.lt hcover
  refine ⟨_, (h.within_iff hsound).mpr hcover, ?_⟩
  have hpage := hsound.blockPage_lt hlt
  rw [hsound.blockPage hlt] at hpage ⊢
  rw [(h.pages hsound).1, Nat.mul_div_cancel _ (by decide), Nat.add_assoc, Nat.mod_eq_of_lt hpage]

theorem HeldAllocation.opened (h : HeldAllocation heap allocation) (hsound : HeapSound heap)
    (hmaps : Maps pages pages' directory page (allocation.ptr / pagingPageSize)
      (blockCount allocation.size) 7)
    (hdistinct : DistinctTables pages directory) (hat : at' < pageCount)
    (hopen : UserWriteable pages' directory at') :
    (∃ block, Within heap allocation.ptr block ∧
      pageFrame pages' directory at' = blockPage heap block) ∨
      (UserWriteable pages directory at' ∧
        pageFrame pages' directory at' = pageFrame pages directory at') := by
  rcases hmaps.userWriteable hdistinct (by decide) hat hopen with ⟨hin, -⟩ | ⟨hout, hbefore⟩
  · obtain ⟨block, hwithin, hframe⟩ := h.pageBlock hsound hin
    exact Or.inl ⟨block, hwithin, (hmaps.pageFrame_eq hdistinct hat hin).trans hframe⟩
  · exact Or.inr ⟨hbefore, by rw [pageFrame, pageFrame, hmaps.entry hdistinct at' hat, if_neg hout]⟩

theorem HeldAllocation.end_le (h : HeldAllocation heap allocation) (hsound : HeapSound heap) :
    allocation.ptr + allocation.size ≤ 0xFFFFF000 := by
  obtain ⟨hptr, -, hlt⟩ := h.pages hsound
  have hcovers : allocation.size ≤ blockCount allocation.size * slobosHeapBlockSize := by
    refine Kernel.blockCount_covers (Nat.lt_of_le_of_lt (Nat.add_le_add_right ?_ _) h.bound)
    rw [hptr]
    simp only [slobosHeapAddress, pagingPageSize] at *
    omega
  simp only [ProcessAllocation.span, pageCount, pagingPageSize, slobosHeapBlockSize] at *
  omega

theorem MapsPhdrs.userWriteable (h : MapsPhdrs directory elfMemory pages phdrs res pages')
    (hdistinct : DistinctTables pages directory) (hat : at' < pageCount)
    (hopen : UserWriteable pages' directory at') :
    (∃ phdr ∈ phdrs, phdr.pFlags &&& pfW ≠ 0 ∧ phdr.frame elfMemory ≤ pageFrame pages' directory at' ∧
      pageFrame pages' directory at' < phdr.stop elfMemory) ∨ UserWriteable pages directory at' := by
  obtain ⟨hdirectory, hentry⟩ := hopen
  have hlast := h.entry hdistinct hat
  cases hcover : lastCover phdrs elfMemory at' with
  | none =>
      rw [hcover, Option.map_none, Option.getD_none] at hlast
      rw [h.directories] at hdirectory
      exact Or.inr ⟨hdirectory, hlast ▸ hentry⟩
  | some phdr =>
      rw [hcover, Option.map_some, Option.getD_some] at hlast
      have hmem := List.mem_of_getLast? hcover
      simp only [List.mem_filter, decide_eq_true_eq] at hmem
      obtain ⟨hmem, hcovers⟩ := hmem
      have hframe := pageFrame_of_entry (elfPhdrFlags_lt phdr) hlast
      have hstop : phdr.stop elfMemory < pageCount := stopPage_lt _
      simp only [Elf32Phdr.Covers] at hcovers
      rw [Nat.mod_eq_of_lt (by omega)] at hframe
      rcases elfPhdrFlags_cases phdr with ⟨-, hflags⟩ | ⟨hflag, -⟩
      · -- A segment that is not writeable is not open to the program.
        rw [hlast, Elf32Phdr.entry, hflags, page_or_flags (by decide)] at hentry
        simp only [pagingPageSize] at hentry
        omega
      · exact Or.inl ⟨phdr, hmem, hflag, by omega, by omega⟩

end Pages

namespace Kernel

open Faulting

variable {kernel acquired mapped after : Kernel} {filename : List UInt8} {process slot page : Nat}
  {res : Int}

theorem IdentityDirectory.not_userWriteable {pages : PageTables} {directory : Nat}
    (h : IdentityDirectory pages directory)
    (hpage : page < pageCount) : ¬UserWriteable pages directory page := by
  rintro ⟨-, hentry⟩
  rw [h.entry page hpage, page_or_flags (by decide), show taskPageFlags = 5 from rfl] at hentry
  simp only [pagingPageSize] at hentry
  omega

/-- The program headers of an ELF file let the program write to the blocks of the file at most. -/
def ImageInside (kernel : Kernel) (process : Nat) : Prop :=
  (kernel.sched.procs process).filetype = .elf →
    ∀ phdr ∈ phdrsReached kernel.memory kernel.pages (kernel.directoryOf process)
      (kernel.elfFiles (kernel.processMemory process).data), phdr.pFlags &&& pfW ≠ 0 →
    ∀ frame, phdr.frame (kernel.addressOf process .image) ≤ frame →
      frame < phdr.stop (kernel.addressOf process .image) →
      ∃ block, kernel.Occupies process .image block ∧ frame = blockPage kernel.heap block

section SetPages

variable {pages : PageTables} (hdirectories : pages.directories = kernel.pages.directories)

include hdirectories

theorem setPages_addressOf (resource : Resource) :
    (Kernel.setPages pages kernel).addressOf process resource = kernel.addressOf process resource := by
  cases resource with
  | table i =>
      have hentry := congrFun (congrFun hdirectories (kernel.directoryOf process)) i
      exact congrArg tableAddress hentry
  | _ => rfl

theorem setPages_occupies (resource : Resource) (block : Nat) :
    (Kernel.setPages pages kernel).Occupies process resource block ↔
      kernel.Occupies process resource block := by
  rw [Occupies, Occupies, setPages_addressOf hdirectories]
  cases resource <;> rfl

end SetPages

theorem programPages_opened (hmappable : Mappable kernel process) (hown : OwnsProcess kernel process)
    (himage : ImageInside kernel process) (hpage : page < pageCount)
    (hopen : UserWriteable (kernel.programPages process) (kernel.directoryOf process) page) :
    ∃ resource block, (∀ i, resource ≠ .allocation i) ∧ kernel.GivenToProgram process resource ∧
      kernel.Occupies process resource block ∧
      pageFrame (kernel.programPages process) (kernel.directoryOf process) page =
        blockPage kernel.heap block := by
  have hclosed := hmappable.directory.not_userWriteable hpage
  cases hfiletype : (kernel.sched.procs process).filetype with
  | elf =>
      rw [programPages, hfiletype, programMapped] at hopen ⊢
      obtain ⟨res, pages', hmap, hmaps⟩ := processMapElf_maps kernel.memory kernel.pages
        (kernel.directoryOf process) (kernel.elfFiles (kernel.processMemory process).data)
      rw [hmap] at hopen ⊢
      rcases hmaps.userWriteable hmappable.directory.distinct hpage hopen with
        ⟨phdr, hphdr, hflag, hge, hlt⟩ | hbefore
      · obtain ⟨block, hblock, hframe⟩ := himage hfiletype phdr hphdr hflag _ hge hlt
        exact ⟨.image, block, fun _ => Resource.noConfusion, trivial, hblock, hframe⟩
      · exact absurd hbefore hclosed
  | binary =>
      have hplaced := hmappable.program hfiletype
      have hheld := hown.flat hfiletype
      have hsound := hown.chains.toHeapSound
      rw [programPages, hfiletype, programMapped] at hopen ⊢
      have hmaps := @processMapBinary_maps kernel.pages (kernel.directoryOf process)
        (kernel.processMemory process).data (kernel.processMemory process).size hplaced.aligned
        (hheld.end_le hsound)
      have hcount : blockCount (kernel.processMemory process).size =
          ((kernel.processMemory process).size + (pagingPageSize - 1)) / pagingPageSize :=
        blockCount_eq (Nat.le_trans (Nat.le_add_left _ _) (hheld.end_le hsound))
      rw [← hcount] at hmaps
      rcases hheld.opened hsound hmaps hmappable.directory.distinct hpage hopen with
        ⟨block, hwithin, hframe⟩ | ⟨hbefore, -⟩
      · exact ⟨.program, block, fun _ => Resource.noConfusion, hfiletype, ⟨trivial, hwithin⟩, hframe⟩
      · exact absurd hbefore hclosed

theorem processMapMemory_opened (hmappable : Mappable kernel process) (hown : OwnsProcess kernel process)
    (himage : ImageInside kernel process) (hmap : Ends (processMapMemory process) kernel res mapped)
    (hge : 0 ≤ res) (hpage : page < pageCount)
    (hopen : UserWriteable mapped.pages (mapped.directoryOf process) page) :
    mapped.OpenedFor process page := by
  have hdistinct : DistinctTables (kernel.programPages process) (kernel.directoryOf process) := by
    rw [DistinctTables, programPages_directories]
    exact hmappable.directory.distinct
  have hmaps := @stackMapped_maps (kernel.programPages process) (kernel.directoryOf process)
    (kernel.processMemory process).stack hmappable.stackAligned hmappable.stackBound
  rw [show 4 = blockCount slobosUserProgramStackSize by decide] at hmaps
  have hdirectories := hmaps.directories.trans (programPages_directories kernel process)
  obtain rfl := ends_processMapMemory hmap hge
  rcases hown.stack.opened hown.chains.toHeapSound hmaps hdistinct hpage hopen with
    ⟨block, hwithin, hframe⟩ | ⟨hbefore, hframe⟩
  · exact @OpenedFor.loaded _ process page .stack block (fun _ => Resource.noConfusion) trivial
      ⟨trivial, hwithin⟩ hframe
  · obtain ⟨resource, block, hnew, hgiven, hblock, hframe'⟩ :=
      programPages_opened hmappable hown himage hpage hbefore
    refine .loaded hnew ?_ ((setPages_occupies hdirectories resource block).mpr hblock)
      (hframe.trans hframe')
    cases resource <;> exact hgiven

theorem Acquires.mapped_space (h : Acquires filename slot kernel process acquired)
    (hsound : HeapSound kernel.heap) (hfills : ¬Fills kernel.heap acquired.heap)
    (himage : ImageInside acquired process)
    (hmap : Ends (processMapMemory process) acquired res mapped) (hge : 0 ≤ res) :
    mapped.Space process := by
  have hown := h.owns hsound hfills
  obtain ⟨pages, rfl, hdirectories⟩ := processMapMemory_pages hmap
  have hnew : ∀ resource, acquired.Has process resource → ∀ i, resource ≠ .allocation i := by
    rintro _ hhas i rfl
    exact hhas (h.empty i)
  have hmem : ∀ resource, acquired.Has process resource →
      resource ∈ acquired.newResources process :=
    fun resource hhas => mem_newResources hhas (hnew resource hhas)
  have hhas : ∀ resource, (Kernel.setPages pages acquired).Has process resource →
      acquired.Has process resource := fun resource hhas => by cases resource <;> exact hhas
  refine ⟨fun resource hmapped => ?_, fun resource resource' hmapped hmapped' heq => ?_,
    fun i hmapped => ?_, fun page hpage hopen => ?_⟩
  · rw [setPages_addressOf hdirectories]
    exact hown.chains.owns _ (List.mem_map_of_mem (hmem resource (hhas resource hmapped)))
  · rw [setPages_addressOf hdirectories, setPages_addressOf hdirectories] at heq
    exact List.inj_on_of_nodup_map hown.chains.nodup (hmem resource (hhas resource hmapped))
      (hmem resource' (hhas resource' hmapped')) heq
  · exact absurd (h.empty i) (hhas (.allocation i) hmapped)
  · exact processMapMemory_opened (h.mappable hsound) hown himage hmap hge hpage hopen

theorem ProcessGuarded.guards {block : Nat} (h : ProcessGuarded kernel block process)
    (hself : Guards kernel.heap block process) {resource : Resource}
    (hhas : kernel.Has process resource) :
    Guards kernel.heap block (kernel.addressOf process resource) := by
  have hdata := h.data
  cases resource with
  | self => exact hself
  | allocation i => exact h.allocations i
  | program =>
      unfold DataGuarded at hdata
      split at hdata
      · exact hdata.1
      · exact hdata
  | image =>
      unfold DataGuarded at hdata
      rw [hhas] at hdata
      exact hdata.2
  | stack => exact h.stack
  | task => exact h.task.self
  | chunk => exact h.task.chunk.self
  | directory => exact h.task.chunk.directory
  | table i => exact h.task.chunk.tables i hhas

theorem Acquires.address_ne {ptr : Nat} {resource : Resource}
    (h : Acquires filename slot kernel process acquired) (hsound : HeapSound kernel.heap)
    (howns : Owns kernel.heap ptr) (hhas : acquired.Has process resource) :
    acquired.addressOf process resource ≠ ptr := by
  obtain ⟨block, hwithin⟩ := howns
  obtain ⟨first, hlt, haddress, hfirst⟩ := hwithin.head
  have hheld := hfirst.holds hsound
  obtain ⟨hspares, hguarded, hself⟩ := h.guarded hheld
  rw [haddress, hsound.address hlt]
  exact (hguarded.guards hself hhas).ne hspares.holds

/-! ### The load -/

theorem loadsData_keepsOrder {first : Kernel} (hprocess : Ends (kzalloc processSize) kernel process first)
    (hdata : Ends (processLoadData filename process) (processInit process first) res after) :
    KeepsOrder kernel after := by
  have hfirst : KeepsOrder kernel first := (HeapFrame.kzalloc _).of_ends hprocess
  have hinit : KeepsOrder first (processInit process first) := ⟨id, rfl⟩
  exact Frame.trans (Frame.trans hfirst hinit) ((processLoadData_keepsOrder _ _).of_ends hdata)

theorem Acquires.keepsOrder (h : Acquires filename slot kernel process acquired) :
    KeepsOrder kernel acquired := by
  cases h with
  | @intro first second third fourth res stack task hprocess _ hdata _ hstack _ htask =>
      have hthird : KeepsOrder second third := (HeapFrame.kzalloc _).of_ends hstack
      have hset : KeepsOrder third (setStack process slot stack third) := ⟨id, rfl⟩
      have hlast : KeepsOrder fourth (setTask process task fourth) := ⟨id, rfl⟩
      exact Frame.trans (loadsData_keepsOrder hprocess hdata) <| Frame.trans hthird <|
        Frame.trans hset <| Frame.trans (taskNew_keepsOrder htask) hlast

theorem AcquireOutcome.keepsOrder {result : Except Int Nat}
    (h : AcquireOutcome filename slot kernel result after) : KeepsOrder kernel after := by
  cases h with
  | noProcess hprocess => exact (HeapFrame.kzalloc _).of_ends hprocess
  | noData hprocess _ hdata _ => exact loadsData_keepsOrder hprocess hdata
  | noStack hprocess _ hdata _ hstack =>
      exact Frame.trans (loadsData_keepsOrder hprocess hdata) ((HeapFrame.kzalloc _).of_ends hstack)
  | acquired hacquires => exact hacquires.keepsOrder

theorem processMapMemory_keepsOrder (h : Ends (processMapMemory process) kernel res mapped) :
    KeepsOrder kernel mapped := by
  obtain ⟨pages, rfl, -⟩ := processMapMemory_pages h
  exact ⟨id, rfl⟩

/-- A load that stays within its bounds: the driver stores what it is asked for at most, the last block
of the heap is not used up, and the file opens nothing to its program but itself. -/
structure LoadInside (filename : List UInt8) (slot : Nat) (kernel : Kernel) : Prop where
  reads : ReadsWithin kernel.volume
  room : ∀ process acquired, Acquires filename slot kernel process acquired →
    ¬Fills kernel.heap acquired.heap
  image : ∀ process acquired, Acquires filename slot kernel process acquired →
    ImageInside acquired process

theorem Acquires.id_eq (h : Acquires filename slot kernel process acquired) :
    process ≠ 0 ∧ (acquired.sched.procs process).id = slot := by
  cases h with
  | intro _ hne _ _ _ _ htask =>
      refine ⟨hne, ?_⟩
      simp only [setTask, setProcess, if_true, (taskNew_frame htask).2.2, setStack]

theorem Acquires.not_registered (h : Acquires filename slot kernel process acquired)
    (hpartitioned : Partitioned kernel) : ¬kernel.Registered process := by
  intro hprocess
  have hself := (hpartitioned.space process hprocess).owns .self trivial
  exact @Acquires.address_ne _ _ _ _ _ _ .self h hpartitioned.sound hself trivial rfl

theorem LoadEnds.not_registered (h : LoadEnds filename slot kernel res process after)
    (hpartitioned : Partitioned kernel) : ¬kernel.Registered process := by
  cases h with
  | refused => exact fun h => h.1 rfl
  | unmapped => exact fun h => h.1 rfl
  | loaded hacquires => exact hacquires.not_registered hpartitioned

theorem LoadEnds.actsFor (h : LoadEnds filename slot kernel res process after)
    (hinside : LoadInside filename slot kernel) (hpartitioned : Partitioned kernel)
    (hempty : kernel.sched.processes slot = 0) :
    ActsFor process kernel after := by
  have hsound := hpartitioned.sound
  have hleaves : ∀ other, kernel.Registered other → other ≠ process → Leaves other kernel after :=
    fun other _ _ resource block hblock => h.leavesBlock (hblock.holds hsound) hinside.reads
  cases h with
  | refused houtcome =>
      have horder := houtcome.keepsOrder
      exact ⟨horder.sound hsound, fun slot' _ => Or.inl (congrFun horder.slots slot'), hleaves,
        fun h => absurd rfl h.1, fun h => absurd rfl h.1, fun h => absurd rfl h.1⟩
  | unmapped hacquires hmap _ hfree =>
      have horder : KeepsOrder kernel after := Frame.trans hacquires.keepsOrder <|
        Frame.trans (processMapMemory_keepsOrder hmap) ((taskFree_keeps _ fun _ => ⟨id, rfl⟩).of_ends hfree)
      exact ⟨horder.sound hsound, fun slot' _ => Or.inl (congrFun horder.slots slot'), hleaves,
        fun h => absurd rfl h.1, fun h => absurd rfl h.1, fun h => absurd rfl h.1⟩
  | @loaded _ acquired mapped _ hacquires hmap hge =>
      have horder : KeepsOrder kernel mapped := Frame.trans hacquires.keepsOrder
        (processMapMemory_keepsOrder hmap)
      have hspace := hacquires.mapped_space hsound (hinside.room _ _ hacquires)
        (hinside.image _ _ hacquires) hmap hge
      obtain ⟨pages, rfl, hdirectories⟩ := processMapMemory_pages hmap
      have hslots : ∀ slot', (enterSlot slot process (Kernel.setPages pages acquired)).sched.processes
          slot' = if slot' = slot then process else kernel.sched.processes slot' := fun slot' => by
        rw [← horder.slots]
        rfl
      refine ⟨horder.sound hsound, fun slot' _ => ?_, hleaves, fun _ slot' hslot' heq => ?_, fun _ => ?_,
        fun _ other hother _ resource resource' hhas hhas' heq => ?_⟩
      · rw [hslots]
        by_cases heq : slot' = slot
        · rw [if_pos heq]
          exact Or.inr ⟨Or.inl (heq ▸ hempty), Or.inr rfl⟩
        · exact Or.inl (if_neg heq)
      · rw [hslots] at heq
        by_cases hsame : slot' = slot
        · rw [hsame]
          exact hacquires.id_eq.2
        · rw [if_neg hsame] at heq
          exact absurd ⟨hacquires.id_eq.1, slot', hslot', heq⟩ (hacquires.not_registered hpartitioned)
      · refine hspace.left (fun resource block hblock => ?_) (horder.sound hsound)
        exact SameAt.leavesBlock ⟨rfl, rfl, rfl, rfl, rfl, rfl, rfl⟩
          (hblock.holds (horder.sound hsound)) rfl rfl
      · have hhas : acquired.Has process resource := by cases resource <;> exact hhas
        have haddress := @setPages_addressOf acquired process pages hdirectories resource
        refine hacquires.address_ne hsound ((hpartitioned.space other hother).owns _ hhas') hhas
          (haddress.symm.trans (Eq.trans ?_ heq))
        cases resource <;> rfl

end Kernel

end SlobOS
