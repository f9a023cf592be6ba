import SlobOS.Proof.OpenFiles
import SlobOS.Proof.SpaceLoads

/-!
# The chains of a new process

A load takes its chains one after the other, and gives nothing back but the blocks of the file that it
reads. So each of them is a chain of its own in the end, unless one has run over the end of the heap.
-/

namespace SlobOS

open Tilings

namespace Kernel

open Faulting

variable {kernel opened alloc last after : Kernel} {block ptr size process task : Nat} {fd : Int}
  {filename modeStr : List UInt8} {ptrs : List Nat}

structure KeepsOrder (kernel after : Kernel) : Prop where
  sound : HeapSound kernel.heap → HeapSound after.heap
  slots : after.sched.processes = kernel.sched.processes

instance : HeapFrame KeepsOrder where
  refl _ := ⟨id, rfl⟩
  trans h h' := ⟨h'.sound ∘ h.sound, h'.slots.trans h.slots⟩
  kzalloc size := ⟨fun h => ⟨(HeapFrame.kzalloc size : Keeps StaysSound _).of_ends h,
    congrArg Sched.processes (kzalloc_takesMemory h).takesPages.sched⟩⟩
  kfree ptr := .modify fun _ => ⟨fun hsound => hsound.free ptr, rfl⟩
  writeBytes _ _ _ _ := ⟨id, rfl⟩
  noteStore _ _ := ⟨id, rfl⟩

theorem fileNewDescriptor_keepsOrder : Keeps KeepsOrder fileNewDescriptor := by
  refine .bind .get fun kernel => ?_
  cases kernel.fileFreeSlot with
  | none => exact .pure
  | some i =>
      exact .bind (HeapFrame.kzalloc _) fun _ => .bind (storeTo_keeps _) fun _ =>
        .bind (.modify fun _ => ⟨id, rfl⟩) fun _ => .pure

theorem fopen_keepsOrder (filename modeStr : List UInt8) :
    Keeps KeepsOrder (fopen filename modeStr) := by
  refine .bind (pathparserParse_keeps filename) fun rootPath => ?_
  cases rootPath with
  | none => exact .pure
  | some rootPath =>
      refine .ite .pure <| .ite .pure <| .bind .get fun _ => .ite .pure <| .ite .pure <|
        .bind (fat16Open_keeps _ _) fun opened => ?_
      cases opened with
      | none => exact .pure
      | some opened =>
          refine .bind fileNewDescriptor_keepsOrder fun created => ?_
          cases created with
          | none => exact .pure
          | some created => exact .bind (.modify fun _ => ⟨id, rfl⟩) fun _ => .pure

theorem fclose_keepsOrder (fd : Int) : Keeps KeepsOrder (fclose fd) :=
  ⟨fun h => ⟨(ends_fclose h).2.1, by rw [(fclose_keeps fd).of_ends h]⟩⟩

theorem fread_keepsOrder (ptr size nmemb : Nat) (fd : Int) :
    Keeps KeepsOrder (fread ptr size nmemb fd) :=
  (fread_writes ptr size nmemb fd).mono fun h => ⟨fun hsound => h.heap ▸ hsound, by rw [h]⟩

theorem fstat_keepsOrder (fd : Int) : Keeps KeepsOrder (fstat fd) :=
  ⟨fun h => by rw [(ends_fstat h).1]; exact Frame.refl _⟩

theorem processLoadElf_keepsOrder (filename : List UInt8) (process : Nat) :
    Keeps KeepsOrder (processLoadElf filename process) := by
  refine .bind (.bind (HeapFrame.kzalloc _) fun elfFile => .bind (fopen_keepsOrder _ _) fun fd =>
    .ite (.bind (fclose_keepsOrder _) fun _ => .pure) <| .bind (fstat_keepsOrder _) fun stat =>
      .ite (.bind (fclose_keepsOrder _) fun _ => .pure) ?_) fun _ => .ite .pure <|
    .bind (.modify fun _ => ⟨id, rfl⟩) fun _ => .pure
  refine .bind (HeapFrame.kzalloc _) fun _ => .bind (deref_keeps _) fun _ =>
    .bind (.modify fun _ => ⟨id, rfl⟩) fun _ => .bind (fread_keepsOrder _ _ _ _) fun _ =>
      .ite (.bind (fclose_keepsOrder _) fun _ => .pure) <| .bind (deref_keeps _) fun _ =>
        .bind .get fun _ => .bind (.modify fun _ => ⟨id, rfl⟩) fun _ =>
          .bind (fclose_keepsOrder _) fun _ => .pure

theorem processLoadData_keepsOrder (filename : List UInt8) (process : Nat) :
    Keeps KeepsOrder (processLoadData filename process) := by
  refine .bind (processLoadElf_keepsOrder _ _) fun _ => .ite ?_ .pure
  refine .bind (fopen_keepsOrder _ _) fun fd => .ite (.bind (fclose_keepsOrder _) fun _ => .pure) <|
    .bind (fstat_keepsOrder _) fun stat => .ite (.bind (fclose_keepsOrder _) fun _ => .pure) ?_
  exact .bind (HeapFrame.kzalloc _) fun _ => .ite (.bind (fclose_keepsOrder _) fun _ => .pure) <|
    .bind (fread_keepsOrder _ _ _ _) fun _ => .ite (.bind (fclose_keepsOrder _) fun _ => .pure) <|
      .bind (.modify fun _ => ⟨id, rfl⟩) fun _ => .bind (fclose_keepsOrder _) fun _ => .pure

theorem pagingNewTables_keepsOrder (directory flags left i : Nat) :
    Keeps KeepsOrder (pagingNewTables directory flags left i) := by
  induction left generalizing i with
  | zero => exact .pure
  | succ left ih =>
      exact .bind (HeapFrame.kzalloc _) fun _ => .bind (deref_keeps _) fun _ =>
        .bind (.modify fun _ => ⟨id, rfl⟩) fun _ => .bind (deref_keeps _) fun _ =>
          .bind (.modify fun _ => ⟨id, rfl⟩) fun _ => ih _

theorem taskNew_keepsOrder (h : Ends (taskNew process) kernel task after) :
    KeepsOrder kernel after := by
  obtain ⟨-, first, chunk, second, htask, hchunk, rfl⟩ := ends_taskNew h
  have hdirectory : Keeps KeepsOrder (pagingNew4gb taskPageFlags) :=
    .bind (HeapFrame.kzalloc _) fun _ => .bind (pagingNewTables_keepsOrder _ _ _ _) fun _ =>
      .bind (HeapFrame.kzalloc _) fun _ => .bind (deref_keeps _) fun _ =>
        .bind (.modify fun _ => ⟨id, rfl⟩) fun _ => .pure
  have hsecond := Frame.trans ((HeapFrame.kzalloc _ : Keeps KeepsOrder _).of_ends htask)
    (hdirectory.of_ends hchunk)
  exact Frame.trans hsecond ⟨id, rfl⟩

theorem taskFree_keeps {rel : Kernel → Kernel → Prop} [HeapFrame rel] (task : Nat)
    (hunlink : ∀ kernel, rel kernel (unlinkTask task kernel)) : Keeps rel (taskFree task) := by
  have htables : ∀ directory left i, Keeps rel (pagingFreeTables directory left i) := by
    intro directory left
    induction left with
    | zero => exact fun _ => .pure
    | succ left ih => exact fun _ => .bind .get fun _ => .bind (HeapFrame.kfree _) fun _ => ih _
  exact .bind (deref_keeps _) fun _ => .bind .get fun _ =>
    .bind (.bind (deref_keeps _) fun _ => .bind .get fun _ => .bind (htables _ _ _) fun _ =>
      .bind (HeapFrame.kfree _) fun _ => HeapFrame.kfree _) fun _ =>
    .bind (.modify hunlink) fun _ => HeapFrame.kfree _

theorem processLoadElf_sameMachine (filename : List UInt8) (process : Nat) :
    Keeps SameMachine (processLoadElf filename process) :=
  .bind (elfLoad_sameMachine _) fun _ => .ite .pure <|
    .bind (.modify fun _ => ⟨rfl, rfl⟩) fun _ => .pure

def CloseSingle (kernel : Kernel) (fd : Int) : Prop :=
  kernel.fileGetDescriptor fd ≠ 0 → ∀ ptr ∈ filePointers (kernel.fileGetDescriptor fd)
    (kernel.files (kernel.fileGetDescriptor fd)), NullOrSingle kernel.heap ptr

theorem fopenParsed_closeSingle {rootPath : PathRoot}
    (h : Ends (fopenParsed rootPath modeStr) kernel fd after) (hsound : HeapSound kernel.heap) :
    CloseSingle after fd := by
  cases fopenParsed_cases h with
  | refused => exact fun hne => absurd rfl hne
  | notFound => exact fun hne => absurd rfl hne
  | noSlot => exact fun hne => absurd rfl hne
  | @opened fatDescriptor slot desc item middle last _ hopen hnew =>
      intro hne
      obtain ⟨-, alloc, halloc, rfl⟩ := ends_fileNewDescriptor hnew
      have hmiddle : HeapSound middle.heap :=
        ((fat16Open_keeps _ _).of_ends hopen : StaysSound kernel middle) hsound
      have hget : ∀ file : FileDescriptor, (setFile desc file
          (setFileDescriptor slot desc (noteStore desc alloc))).fileGetDescriptor
            ((slot : Int) + 1) = desc := by
        intro file
        simp only [fileGetDescriptor, setFile] at hne ⊢
        split at hne
        · exact absurd rfl hne
        · rename_i hvalid
          rw [if_neg hvalid, show ((slot : Int) + 1 - 1).toNat = slot by omega]
          exact if_pos rfl
      rw [hget]
      intro ptr hptr
      simp only [setFile, if_true] at hptr
      rcases List.mem_cons.mp hptr with rfl | hptr
      · have hsingle : NullOrSingle alloc.heap ptr :=
          kzalloc_single hmiddle halloc (by decide) (by decide)
        exact hsingle
      · exact (fat16Open_owned hopen hsound ptr hptr).spares fun block hblock =>
          (kzalloc_spares halloc hblock.toHolds).1

theorem fopen_closeSingle (h : Ends (fopen filename modeStr) kernel fd after)
    (hsound : HeapSound kernel.heap) : CloseSingle after fd := by
  obtain ⟨rootPath, parsed, hparse, h⟩ := ends_bind.mp h
  cases rootPath with
  | none =>
      obtain ⟨rfl, rfl⟩ := ends_pure.mp h
      exact fun hne => absurd rfl hne
  | some rootPath =>
      exact fopenParsed_closeSingle h
        (((pathparserParse_keeps _).of_ends hparse : StaysSound kernel parsed) hsound)

theorem CloseSingle.closeGuarded (h : CloseSingle opened fd) (hfree : opened.heap.table.IsFree block)
    (hspares : ∀ block, Holds opened.heap block → Spares block opened.heap after.heap)
    (hsound : HeapSound after.heap) (hdescriptors : after.fileDescriptors = opened.fileDescriptors)
    (hfiles : after.files = opened.files) : CloseGuarded after block fd := by
  have hget : after.fileGetDescriptor fd = opened.fileGetDescriptor fd := by
    simp only [fileGetDescriptor, hdescriptors]
  intro hne
  rw [hget] at hne
  have hguards : ∀ ptr ∈ filePointers (after.fileGetDescriptor fd)
      (after.files (after.fileGetDescriptor fd)), Guards after.heap block ptr := by
    intro ptr hptr
    rw [hget, hfiles] at hptr
    by_cases hnull : ptr = 0
    · rw [hnull]
      exact hsound.guards_null
    · obtain ⟨other, hother⟩ := h hne ptr hptr hnull
      refine (hother.spares (hspares other hother.toHolds)).guards ?_
      rintro rfl
      exact hother.taken hfree
  unfold filePointers privatePointers at hguards
  refine ⟨hguards _ (by simp), hguards _ (by simp), hguards _ (by simp), ?_⟩
  generalize (after.files (after.fileGetDescriptor fd)).item.data = data at hguards
  cases data with
  | directory directory directoryItem =>
      exact ⟨hguards _ (by simp), hguards _ (by simp)⟩
  | file item => exact hguards _ (by simp)

theorem fopen_owns (hopen : Ends (fopen filename modeStr) kernel fd opened)
    (halloc : Ends (kzalloc size) opened ptr alloc) (hne : ptr ≠ 0) (hsize : size ≠ 0)
    (hheap : last.heap = alloc.heap) (hdescriptors : last.fileDescriptors = opened.fileDescriptors)
    (hfiles : last.files = opened.files) (hclose : Ends (fclose fd) last () after)
    (h : OwnsEach kernel.heap ptrs) :
    (OwnsEach after.heap (ptr :: ptrs) ∧ HeldAllocation after.heap ⟨ptr, size⟩) ∨
      Fills kernel.heap after.heap := by
  have hsound : HeapSound opened.heap := ((fopen_keepsOrder _ _).of_ends hopen).sound h.toHeapSound
  have hopened : ∀ block, Holds kernel.heap block → Spares block kernel.heap opened.heap :=
    fun _ hblock => (fopen_spares hopen hblock).1
  have htaken : ∀ block, Holds opened.heap block → Spares block opened.heap last.heap :=
    fun _ hblock => hheap ▸ (kzalloc_spares halloc hblock).1
  obtain ⟨rfl, hmalloc, -, hbound⟩ := ends_kzalloc halloc
  rw [hmalloc] at hheap
  have hlast : HeapSound last.heap := hheap ▸ hsound.malloc size
  have hafter : HeapSound after.heap := (ends_fclose hclose).2.1 hlast
  -- The file gives back neither what was in use before it was opened nor what was free then.
  have hfree : ∀ block, opened.heap.table.IsFree block → Holds last.heap block →
      Spares block last.heap after.heap := fun block hfree hblock =>
    fclose_spares hclose hblock <| (fopen_closeSingle hopen h.toHeapSound).closeGuarded hfree
      htaken hlast hdescriptors hfiles
  have hused : ∀ block, Holds kernel.heap block → Spares block last.heap after.heap := by
    intro block hblock
    obtain ⟨hspares, hguarded⟩ := fopen_spares hopen hblock
    have hspares' := htaken block hspares.holds
    exact fclose_spares hclose hspares'.holds (hguarded.spares hspares' hdescriptors hfiles)
  have howns := h.spared hsound fun _ _ block hwithin => hopened block (hwithin.holds h.toHeapSound)
  rcases heapMalloc_grant_or_fills hsound hsize hne (hbound hne) with hgrant | hfills
  · rw [← hheap] at hgrant
    have hspared : ∀ block, Within last.heap (heapMalloc opened.heap size).1 block →
        Spares block last.heap after.heap := fun block hwithin =>
      hfree block (hgrant.within_free hwithin) (hwithin.holds hlast)
    refine Or.inl ⟨(howns.cons hgrant htaken).spared hafter ?_, hgrant.held.spared hlast hspared⟩
    intro owned howned block hwithin
    rcases List.mem_cons.mp howned with rfl | howned
    · exact hspared block hwithin
    · rw [(howns.owns owned howned).spared hsound fun block hin => htaken block (hin.holds hsound),
        (h.owns owned howned).spared h.toHeapSound
          fun block hin => hopened block (hin.holds h.toHeapSound)] at hwithin
      exact hused block (hwithin.holds h.toHeapSound)
  · rw [← hheap] at hfills
    have htotal : opened.heap.table.total = kernel.heap.table.total :=
      ((fopen_sameMachine _ _).of_ends hopen).total
    exact Or.inr ((hfills.later hfree).earlier h.toHeapSound htotal hopened)

/-! ### The program -/

theorem kzalloc_owns_one (halloc : Ends (kzalloc size) kernel ptr after) (hne : ptr ≠ 0)
    (hpos : 0 < size) (hsize : size ≤ slobosHeapBlockSize) (h : OwnsEach kernel.heap ptrs) :
    OwnsEach after.heap (ptr :: ptrs) := by
  have hspares : ∀ block, Holds kernel.heap block → Spares block kernel.heap after.heap :=
    fun _ hblock => (kzalloc_spares halloc hblock).1
  obtain ⟨rfl, hheap, -, hbound⟩ := ends_kzalloc halloc
  have hgrant := heapMalloc_grant_one h.toHeapSound hpos hsize hne (hbound hne)
  rw [← hheap] at hgrant
  exact h.cons hgrant hspares

theorem kzalloc_owns (halloc : Ends (kzalloc size) kernel ptr after) (hne : ptr ≠ 0)
    (hsize : size ≠ 0) (h : OwnsEach kernel.heap ptrs) :
    (OwnsEach after.heap (ptr :: ptrs) ∧ HeldAllocation after.heap ⟨ptr, size⟩) ∨
      Fills kernel.heap after.heap := by
  have hspares : ∀ block, Holds kernel.heap block → Spares block kernel.heap after.heap :=
    fun _ hblock => (kzalloc_spares halloc hblock).1
  obtain ⟨rfl, hheap, -, hbound⟩ := ends_kzalloc halloc
  have hgrant := heapMalloc_grant_or_fills h.toHeapSound hsize hne (hbound hne)
  rw [← hheap] at hgrant
  exact hgrant.imp_left fun hgrant => ⟨h.cons hgrant hspares, hgrant.held⟩

theorem fread_size_ne_zero {res : Int} (h : Ends (fread ptr size 1 fd) kernel res after)
    (hge : 0 ≤ res) : size ≠ 0 := by
  rintro rfl
  rw [fread, if_pos (Or.inl rfl)] at h
  obtain ⟨rfl, -⟩ := ends_pure.mp h
  simp [einvarg] at hge

theorem elfLoad_owns {result : Int × Nat} (h : Ends (elfLoad filename) kernel result after)
    (hge : 0 ≤ result.1) (howns : OwnsEach kernel.heap ptrs) :
    OwnsEach after.heap ((after.elfFiles result.2).elfMemory :: result.2 :: ptrs) ∨
      Fills kernel.heap after.heap := by
  simp only [elfLoad, ends_bind] at h
  obtain ⟨elfFile, first, halloc, fd, opened, hopen, h⟩ := h
  rw [ends_ite] at h
  rcases h with ⟨-, h⟩ | ⟨-, h⟩
  · obtain ⟨_, _, -, h⟩ := ends_bind.mp h
    obtain ⟨rfl, -⟩ := ends_pure.mp h
    simp [eio] at hge
  simp only [ends_bind] at h
  obtain ⟨⟨code, filesize⟩, stated, hstat, h⟩ := h
  obtain rfl := (ends_fstat hstat).1
  rw [ends_ite] at h
  rcases h with ⟨hneg, h⟩ | ⟨-, h⟩
  · obtain ⟨_, _, -, h⟩ := ends_bind.mp h
    obtain ⟨rfl, -⟩ := ends_pure.mp h
    exact absurd hneg (Int.not_lt.mpr hge)
  simp only [ends_bind, ends_deref, ends_modify, and_assoc, exists_eq_left, exists_and_left,
    exists_const] at h
  obtain ⟨elfMemory, alloc, hmemory, hne, code', read, hread, h⟩ := h
  rw [ends_ite] at h
  rcases h with ⟨hneg, h⟩ | ⟨hread', h⟩
  · obtain ⟨_, _, -, h⟩ := ends_bind.mp h
    obtain ⟨rfl, -⟩ := ends_pure.mp h
    exact absurd hneg (Int.not_lt.mpr hge)
  simp only [ends_bind, ends_deref, ends_get, ends_modify, ends_pure, and_assoc, exists_eq_left,
    exists_and_left, exists_const] at h
  obtain ⟨hne', _, last, hclose, rfl, rfl⟩ := h
  have hnot : ¬(elfProcessLoaded (read.memory read.pages) (elfFileAt elfMemory)).1 < 0 :=
    Int.not_lt.mpr hge
  have hwrites := (fread_writes _ _ _ _).of_ends hread
  have htakes := kzalloc_takesMemory hmemory
  have hfirst := kzalloc_owns_one halloc hne (by decide) (by decide) howns
  have hchain := fopen_owns hopen hmemory hne' (fread_size_ne_zero hread (Int.not_lt.mp hread'))
    (show (setElfFile elfFile _ read).heap = alloc.heap from hwrites.heap)
    (hwrites.takesMemory.fileDescriptors.trans htakes.fileDescriptors)
    (hwrites.takesMemory.files.trans htakes.files) hclose hfirst
  have helfFiles := congrArg Kernel.elfFiles ((fclose_keeps fd).of_ends hclose)
  rw [if_neg hnot, helfFiles]
  simp only [setElfFile, if_true, elfProcessLoaded_elfMemory]
  refine hchain.imp And.left fun hfills => hfills.earlier howns.toHeapSound ?_ ?_
  · exact (kzalloc_sameMachine halloc).total
  · exact fun _ hblock => (kzalloc_spares halloc hblock).1

def programResources (kernel : Kernel) (process : Nat) : List Resource :=
  match (kernel.sched.procs process).filetype with
  | .elf => [.image, .program]
  | .binary => [.program]

/-- The program of a process that has been loaded is in chains of its own, and a flat one fills its
chain. -/
structure OwnsProgram (kernel : Kernel) (process : Nat) (ptrs : List Nat) : Prop where
  chains : OwnsEach kernel.heap
    ((kernel.programResources process).map (kernel.addressOf process) ++ ptrs)
  flat : (kernel.sched.procs process).filetype = .binary → HeldAllocation kernel.heap
    ⟨(kernel.processMemory process).data, (kernel.processMemory process).size⟩

theorem processLoadElf_owns {res : Int} (h : Ends (processLoadElf filename process) kernel res after)
    (hge : 0 ≤ res) (howns : OwnsEach kernel.heap ptrs) :
    OwnsProgram after process ptrs ∨ Fills kernel.heap after.heap := by
  obtain ⟨⟨code, elfFile⟩, loaded, hload, h⟩ := ends_bind.mp h
  rw [ends_ite] at h
  rcases h with ⟨hneg, h⟩ | ⟨-, h⟩
  · obtain ⟨rfl, -⟩ := ends_pure.mp h
    exact absurd hneg (Int.not_lt.mpr hge)
  rw [ends_modify_bind] at h
  obtain ⟨rfl, rfl⟩ := ends_pure.mp h
  refine (elfLoad_owns hload hge howns).imp_left fun hchains => ?_
  have hfiletype : ((setProgramData process .elf elfFile (loaded.processMemory process).size
      loaded).sched.procs process).filetype = .elf := by
    simp only [setProgramData, setProcess, if_true]
  refine ⟨?_, fun hflat => ?_⟩
  · rw [programResources, hfiletype]
    simp only [List.map_cons, List.map_nil, addressOf, setProgramData, setProcess, setProcessMemory,
      if_true]
    exact hchains
  · rw [hfiletype] at hflat
    cases hflat

theorem processLoadBinary_owns {res : Int}
    (h : Ends (processLoadBinary filename process) kernel res after) (hge : 0 ≤ res)
    (howns : OwnsEach kernel.heap ptrs) :
    OwnsProgram after process ptrs ∨ Fills kernel.heap after.heap := by
  simp only [processLoadBinary, ends_bind] at h
  obtain ⟨fd, opened, hopen, h⟩ := h
  rw [ends_ite] at h
  rcases h with ⟨-, h⟩ | ⟨-, h⟩
  · obtain ⟨_, _, -, h⟩ := ends_bind.mp h
    obtain ⟨rfl, -⟩ := ends_pure.mp h
    simp [eio] at hge
  simp only [ends_bind] at h
  obtain ⟨⟨code, filesize⟩, stated, hstat, h⟩ := h
  obtain ⟨rfl, hle⟩ := ends_fstat hstat
  rw [ends_ite] at h
  rcases h with ⟨hbad, h⟩ | ⟨-, h⟩
  · obtain ⟨_, _, -, h⟩ := ends_bind.mp h
    obtain ⟨rfl, -⟩ := ends_pure.mp h
    exact absurd (Int.le_antisymm hle hge) hbad
  simp only [ends_bind] at h
  obtain ⟨ptr, alloc, halloc, h⟩ := h
  rw [ends_ite] at h
  rcases h with ⟨-, h⟩ | ⟨hne, h⟩
  · obtain ⟨_, _, -, h⟩ := ends_bind.mp h
    obtain ⟨rfl, -⟩ := ends_pure.mp h
    simp [enomem] at hge
  simp only [ends_bind] at h
  obtain ⟨count, read, hread, h⟩ := h
  rw [ends_ite] at h
  rcases h with ⟨-, h⟩ | ⟨hcount, h⟩
  · obtain ⟨_, _, -, h⟩ := ends_bind.mp h
    obtain ⟨rfl, -⟩ := ends_pure.mp h
    simp [eio] at hge
  rw [ends_modify_bind] at h
  obtain ⟨_, closed, hclose, h⟩ := ends_bind.mp h
  obtain ⟨rfl, rfl⟩ := ends_pure.mp h
  have hwrites := (fread_writes _ _ _ _).of_ends hread
  have htakes := kzalloc_takesMemory halloc
  have hread' : 0 ≤ count := by
    rw [not_not.mp hcount]
    decide
  refine (fopen_owns hopen halloc hne (fread_size_ne_zero hread hread')
    (show (setProgramData process .binary ptr filesize read).heap = alloc.heap from hwrites.heap)
    (hwrites.takesMemory.fileDescriptors.trans htakes.fileDescriptors)
    (hwrites.takesMemory.files.trans htakes.files) hclose howns).imp_left fun hboth => ?_
  obtain ⟨hchains, hheld⟩ := hboth
  have hframe := (fclose_keeps fd).of_ends hclose
  have hprocs := congrArg Kernel.sched hframe
  have hmemory := congrArg Kernel.processMemory hframe
  have hfiletype : (after.sched.procs process).filetype = .binary := by
    rw [hprocs]
    simp only [setProgramData, setProcess, if_true]
  have hdata : after.processMemory process =
      { read.processMemory process with data := ptr, size := filesize } := by
    rw [hmemory]
    simp only [setProgramData, setProcess, setProcessMemory, if_true]
  refine ⟨?_, fun _ => ?_⟩
  · simp only [programResources, hfiletype, List.map_cons, List.map_nil, addressOf, hdata]
    exact hchains
  · rw [hdata]
    exact hheld

theorem processLoadData_owns {res : Int}
    (h : Ends (processLoadData filename process) kernel res after) (hge : 0 ≤ res)
    (howns : OwnsEach kernel.heap ptrs) :
    OwnsProgram after process ptrs ∨ Fills kernel.heap after.heap := by
  obtain ⟨code, middle, helf, h⟩ := ends_bind.mp h
  rw [ends_ite] at h
  rcases h with ⟨rfl, h⟩ | ⟨-, h⟩
  · have hspares : ∀ block, Holds kernel.heap block → Spares block kernel.heap middle.heap :=
      fun _ hblock => (processLoadElf_spares helf hblock).1
    have hsound := ((processLoadElf_keepsOrder _ _).of_ends helf).sound howns.toHeapSound
    have hmiddle := howns.spared hsound fun _ _ block hwithin =>
      hspares block (hwithin.holds howns.toHeapSound)
    exact (processLoadBinary_owns h hge hmiddle).imp_right fun hfills =>
      hfills.earlier howns.toHeapSound ((processLoadElf_sameMachine _ _).of_ends helf).total hspares
  · obtain ⟨rfl, rfl⟩ := ends_pure.mp h
    exact processLoadElf_owns helf hge howns

/-! ### The task -/

section Tasks

variable {directory chunk left i : Nat} {result : Unit}

theorem pagingNewTables_earlier {flags j : Nat}
    (h : Ends (pagingNewTables directory flags left i) kernel result after) (hj : j < i) :
    after.pages.directories directory j = kernel.pages.directories directory j := by
  induction left generalizing kernel i with
  | zero =>
      obtain ⟨-, rfl⟩ := ends_pure.mp h
      rfl
  | succ left ih =>
      simp only [pagingNewTables, ends_bind, ends_deref, ends_modify, and_assoc, exists_eq_left,
        exists_and_left, exists_const] at h
      obtain ⟨entry, middle, halloc, -, -, h⟩ := h
      rw [ih h (by omega), ← (ends_kzalloc halloc).2.2.1.pages]
      exact if_neg (by omega)

theorem pagingNewTables_owns (h : Ends (pagingNewTables directory taskPageFlags left i) kernel result after)
    (howns : OwnsEach kernel.heap ptrs) :
    OwnsEach after.heap ((List.range' i left).map
      (fun j => tableAddress (after.pages.directories directory j)) ++ ptrs) := by
  induction left generalizing kernel i ptrs with
  | zero =>
      obtain ⟨-, rfl⟩ := ends_pure.mp h
      exact howns
  | succ left ih =>
      simp only [pagingNewTables, ends_bind, ends_deref, ends_modify, and_assoc, exists_eq_left,
        exists_and_left, exists_const] at h
      obtain ⟨entry, middle, halloc, hne, -, h⟩ := h
      have htable : tableAddress (after.pages.directories directory i) = entry := by
        rw [pagingNewTables_earlier h (Nat.lt_succ_self i)]
        simp only [setDirectoryEntry, and_self, if_true]
        rw [Nat.or_assoc]
        exact tableAddress_or (kzalloc_aligned howns.toHeapSound halloc) (by decide)
      have hentry := kzalloc_owns_one halloc hne (by decide) (by decide) howns
      have hrest := ih h hentry
      rw [List.range'_succ, List.map_cons, List.cons_append, htable]
      exact hrest.perm List.perm_middle

def chunkPointers (kernel : Kernel) (chunk : Nat) : List Nat :=
  chunk :: ((List.range pagingTotalEntriesPerTable).map
    (fun i => tableAddress (kernel.pages.directories (kernel.chunks chunk) i)) ++
      [kernel.chunks chunk])

theorem pagingNew4gb_owns (h : Ends (pagingNew4gb taskPageFlags) kernel chunk after)
    (howns : OwnsEach kernel.heap ptrs) :
    OwnsEach after.heap (chunkPointers after chunk ++ ptrs) := by
  simp only [pagingNew4gb, ends_bind, ends_deref, ends_modify, ends_pure, and_assoc, exists_eq_left,
    exists_and_left, exists_const] at h
  obtain ⟨directory, first, hdirectory, _, second, htables, _, third, hchunk, hne, rfl, rfl⟩ := h
  have hdirectoryNe : directory ≠ 0 := by
    rw [show pagingTotalEntriesPerTable = 1023 + 1 from rfl, pagingNewTables] at htables
    simp only [ends_bind, ends_deref] at htables
    obtain ⟨_, _, -, _, _, -, _, _, -, _, _, ⟨hne', -⟩, -⟩ := htables
    exact hne'
  have hfirst := kzalloc_owns_one hdirectory hdirectoryNe (by decide) (by decide) howns
  have hsecond := pagingNewTables_owns htables hfirst
  have hthird := kzalloc_owns_one hchunk hne (by decide) (by decide) hsecond
  rw [chunkPointers, setChunk_chunks, List.cons_append, List.append_assoc, List.range_eq_range']
  rw [← (ends_kzalloc hchunk).2.2.1.pages] at hthird
  exact hthird

theorem taskNew_owns (h : Ends (taskNew process) kernel task after)
    (howns : OwnsEach kernel.heap ptrs) :
    OwnsEach after.heap
      (chunkPointers after (after.sched.list.tasks task).pageDirectory ++ task :: ptrs) := by
  obtain ⟨hne, first, chunk, second, htask, hchunk, rfl⟩ := ends_taskNew h
  have hchains :=
    pagingNew4gb_owns hchunk (kzalloc_owns_one htask hne (by decide) (by decide) howns)
  rw [linkTask_pageDirectory]
  exact hchains

end Tasks

section Acquire

variable {acquired : Kernel} {slot : Nat}

def newResources (kernel : Kernel) (process : Nat) : List Resource :=
  .chunk :: ((List.range pagingTotalEntriesPerTable).map .table ++ [.directory]) ++
    .task :: .stack :: (kernel.programResources process ++ [.self])

theorem mem_newResources {resource : Resource} (hhas : kernel.Has process resource)
    (hnew : ∀ i, resource ≠ .allocation i) : resource ∈ kernel.newResources process := by
  cases resource with
  | allocation i => exact absurd rfl (hnew i)
  | image =>
      simp only [Has] at hhas
      simp [newResources, programResources, hhas]
  | table i =>
      simp only [Has] at hhas
      simp [newResources, hhas]
  | program =>
      simp only [newResources, programResources]
      split <;> simp
  | _ => simp [newResources]

theorem map_newResources : (kernel.newResources process).map (kernel.addressOf process) =
    chunkPointers kernel (kernel.sched.list.tasks (kernel.sched.procs process).task).pageDirectory ++
      (kernel.sched.procs process).task :: (kernel.processMemory process).stack ::
        ((kernel.programResources process).map (kernel.addressOf process) ++ [process]) := by
  simp only [newResources, chunkPointers, List.map_append, List.map_cons, List.map_map, List.map_nil,
    addressOf, directoryOf]
  rfl

theorem ProgramKept.programs (h : ProgramKept process kernel after) :
    (after.programResources process).map (after.addressOf process) =
      (kernel.programResources process).map (kernel.addressOf process) := by
  rw [programResources, programResources, h.filetype]
  split <;> simp only [List.map_cons, List.map_nil, addressOf, h.data, h.elfFiles]

structure OwnsProcess (kernel : Kernel) (process : Nat) : Prop where
  chains : OwnsEach kernel.heap ((kernel.newResources process).map (kernel.addressOf process))
  flat : (kernel.sched.procs process).filetype = .binary → HeldAllocation kernel.heap
    ⟨(kernel.processMemory process).data, (kernel.processMemory process).size⟩
  stack : HeldAllocation kernel.heap
    ⟨(kernel.processMemory process).stack, slobosUserProgramStackSize⟩

theorem Acquires.owns (h : Acquires filename slot kernel process acquired)
    (hsound : HeapSound kernel.heap) (hfills : ¬Fills kernel.heap acquired.heap) :
    OwnsProcess acquired process := by
  cases h with
  | @intro first second third fourth res stack task hprocess hne hdata hres hstack hstackNe htask =>
      have hfirst : ∀ block, Holds kernel.heap block → Spares block kernel.heap first.heap :=
        fun _ hblock => (kzalloc_spares hprocess hblock).1
      have hsecond : ∀ block, Holds first.heap block → Spares block first.heap second.heap :=
        fun _ hblock => (processLoadData_spares hdata hblock).1
      have hthird : ∀ block, Holds second.heap block → Spares block second.heap third.heap :=
        fun _ hblock => (kzalloc_spares hstack hblock).1
      have hfourth : ∀ block, Holds third.heap block → Spares block third.heap fourth.heap :=
        fun _ hblock => (taskNew_spares htask hblock).1
      have hlast : ∀ block, Holds second.heap block → Spares block second.heap fourth.heap :=
        fun block hblock => (hthird block hblock).trans (hfourth block (hthird block hblock).holds)
      have htotal : first.heap.table.total = kernel.heap.table.total :=
        (kzalloc_sameMachine hprocess).total
      have htotal' : second.heap.table.total = kernel.heap.table.total :=
        (((processLoadData_sameMachine _ _).of_ends hdata).total).trans htotal
      have hown : OwnsEach kernel.heap [] := ⟨hsound, List.nodup_nil, fun _ hmem => by cases hmem⟩
      -- None of the three chains can have run over the end of the heap.
      have hself := (kzalloc_owns hprocess hne (by decide) hown).resolve_right fun h =>
        hfills <| h.later fun block _ hblock => (hsecond block hblock).trans
          (hlast block (hsecond block hblock).holds)
      have hprogram := (processLoadData_owns hdata hres hself.1).resolve_right fun h =>
        hfills <| Fills.earlier (h.later fun block _ hblock => hlast block hblock) hsound htotal hfirst
      have hstackOwned := (kzalloc_owns hstack hstackNe (by decide) hprogram.chains).resolve_right
        fun h => hfills <| Fills.earlier (h.later fun block _ hblock => hfourth block hblock) hsound
          htotal' fun block hblock => (hfirst block hblock).trans (hsecond block (hfirst block hblock).holds)
      have htaskOwned := taskNew_owns htask hstackOwned.1
      have hkept := acquired_program hstack htask
      have hstackPtr : ((setTask process task fourth).processMemory process).stack = stack := by
        simp only [setTask, setProcess, (taskNew_frame htask).1, setStack, setProcessMemory, if_true]
      have htaskPtr : ((setTask process task fourth).sched.procs process).task = task := by
        simp only [setTask, setProcess, if_true]
      refine ⟨?_, fun hflat => ?_, ?_⟩
      · rw [map_newResources, hkept.programs, hstackPtr, htaskPtr]
        exact htaskOwned
      · rw [hkept.filetype] at hflat
        rw [hkept.data, hkept.size]
        exact (hprogram.flat hflat).spared hprogram.chains.toHeapSound fun block hwithin =>
          hlast block (hwithin.holds hprogram.chains.toHeapSound)
      · rw [hstackPtr]
        exact hstackOwned.2.spared hstackOwned.1.toHeapSound fun block hwithin =>
          hfourth block (hwithin.holds hstackOwned.1.toHeapSound)

end Acquire

end Kernel

end SlobOS
