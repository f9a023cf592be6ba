import SlobOS.ProcessSpaces
import SlobOS.Proof.RootFiles

/-!
# What loading and ending a program does to the others

Every structure that is built for a new program lies in blocks that were free, so the structures at the
addresses of the blocks in use stay as they are. The release of a task changes the list of the tasks
and the heap only.
-/

namespace SlobOS

open Faulting

theorem Guards.ne {heap : Heap} {block ptr : Nat} (h : Guards heap block ptr) (hblock : Holds heap block) :
    ptr ≠ slobosHeapAddress + block * slobosHeapBlockSize := by
  rintro rfl
  rw [← hblock.address hblock.lt] at h
  apply h.not_reaches
  rw [heapAddressToBlock_blockToAddress hblock.sized hblock.lt]
  exact ⟨Int.le_refl _, by have := hblock.lt; omega, fun j hj hj' => by omega⟩

theorem taskFree_pageDirectory (list : TaskList) (task address : Nat) :
    ((taskFree list task).tasks address).pageDirectory = (list.tasks address).pageDirectory := by
  simp only [taskFree, taskListRemove_eq]
  by_cases heq : address = (list.tasks task).prev
  · by_cases hprev : (list.tasks task).prev = 0
    · simp [unlinkPrev, hprev]
    · rw [heq, unlinkPrev_tasks_prev hprev]
  · rw [unlinkPrev_tasks_of_ne heq]

namespace Kernel

variable {kernel middle after : Kernel} {address block ptr size process task directory chunk slot : Nat}
  {filename : List UInt8} {res : Int}

theorem TakesMemory.sameAt (h : TakesMemory kernel after) : SameAt address kernel after := by
  unfold TakesMemory at h
  rw [h]
  exact ⟨rfl, rfl, rfl, rfl, rfl, rfl, rfl⟩

theorem TakesElf.sameAt (h : TakesElf kernel after)
    (helf : after.elfFiles address = kernel.elfFiles address) : SameAt address kernel after := by
  unfold TakesElf at h
  rw [h]
  exact ⟨rfl, rfl, helf, rfl, rfl, rfl, rfl⟩

theorem TakesFiles.sameAt (h : TakesFiles kernel after) : SameAt address kernel after := by
  refine h.takesElf.sameAt ?_
  unfold TakesFiles at h
  rw [h]

theorem sameAt_setProcess (hne : process ≠ address) (value : Process) (kernel : Kernel) :
    SameAt address kernel (setProcess process value kernel) :=
  ⟨if_neg hne.symm, rfl, rfl, rfl, rfl, rfl, rfl⟩

theorem sameAt_setProcessMemory (hne : process ≠ address) (value : ProcessMemory) (kernel : Kernel) :
    SameAt address kernel (setProcessMemory process value kernel) :=
  ⟨rfl, if_neg hne.symm, rfl, rfl, rfl, rfl, rfl⟩

theorem sameAt_setPages {pages : PageTables} (hdirectories : pages.directories = kernel.pages.directories)
    (htable : pages.tables address = kernel.pages.tables address) :
    SameAt address kernel (Kernel.setPages pages kernel) :=
  ⟨rfl, rfl, rfl, rfl, rfl, congrFun hdirectories address, htable⟩

theorem kzalloc_ne (h : Ends (kzalloc size) kernel ptr after) (hblock : Holds kernel.heap block) :
    ptr ≠ slobosHeapAddress + block * slobosHeapBlockSize := by
  obtain ⟨hspares, hguards⟩ := kzalloc_spares h hblock
  exact hguards.ne hspares.holds

theorem kzalloc_leavesBlock (h : Ends (kzalloc size) kernel ptr after)
    (hblock : Holds kernel.heap block) : LeavesBlock block kernel after :=
  ⟨(kzalloc_spares h hblock).1, kzalloc_untouched h hblock, (kzalloc_takesMemory h).sameAt⟩

theorem kfree_leavesBlock (hblock : Holds kernel.heap block) (hguards : Guards kernel.heap block ptr) :
    LeavesBlock block kernel { kernel with heap := heapFree kernel.heap ptr } :=
  ⟨hblock.free hguards, fun _ _ _ => rfl, ⟨rfl, rfl, rfl, rfl, rfl, rfl, rfl⟩⟩

theorem SameAt.leavesBlock (h : SameAt (slobosHeapAddress + block * slobosHeapBlockSize) kernel after)
    (hblock : Holds kernel.heap block) (hheap : after.heap = kernel.heap)
    (hmemory : after.memory = kernel.memory) : LeavesBlock block kernel after :=
  ⟨by rw [hheap]; exact .refl hblock, fun _ _ _ => by rw [hmemory], h⟩

theorem elfLoad_elfFiles {result : Int × Nat} (h : Ends (elfLoad filename) kernel result after)
    (hblock : Holds kernel.heap block) :
    after.elfFiles (slobosHeapAddress + block * slobosHeapBlockSize) =
      kernel.elfFiles (slobosHeapAddress + block * slobosHeapBlockSize) := by
  have hfiles : ∀ {kernel after : Kernel}, TakesFiles kernel after →
      after.elfFiles = kernel.elfFiles := fun h => by unfold TakesFiles at h; rw [h]
  have hclose : ∀ {kernel after : Kernel} {fd : Int} {code result : Int × Nat},
      Ends (do fclose fd; pure code) kernel result after → after.elfFiles = kernel.elfFiles := by
    intro kernel after fd code result h
    obtain ⟨_, middle, hclosed, h⟩ := ends_bind.mp h
    obtain ⟨-, rfl⟩ := ends_pure.mp h
    exact hfiles ((fclose_keeps fd).of_ends hclosed)
  simp only [elfLoad, ends_bind] at h
  obtain ⟨elfFile, first, halloc, fd, second, hopen, h⟩ := h
  have hne := kzalloc_ne halloc hblock
  have hsecond : second.elfFiles = kernel.elfFiles :=
    (hfiles ((fopen_keeps _ _).of_ends hopen)).trans
      (hfiles (kzalloc_takesMemory halloc).takesFiles)
  rw [ends_ite] at h
  rcases h with ⟨-, h⟩ | ⟨-, h⟩
  · rw [hclose h, hsecond]
  simp only [ends_bind] at h
  obtain ⟨⟨res, filesize⟩, third, hstat, h⟩ := h
  obtain rfl := (ends_fstat hstat).1
  rw [ends_ite] at h
  rcases h with ⟨-, h⟩ | ⟨-, h⟩
  · rw [hclose h, hsecond]
  simp only [ends_bind, ends_deref, ends_modify, and_assoc, exists_eq_left, exists_and_left,
    exists_const] at h
  obtain ⟨elfMemory, fourth, hmemory, -, res', fifth, hread, h⟩ := h
  have hfourth : fourth.elfFiles = kernel.elfFiles :=
    (hfiles (kzalloc_takesMemory hmemory).takesFiles).trans hsecond
  have hfifth : fifth.elfFiles (slobosHeapAddress + block * slobosHeapBlockSize) =
      kernel.elfFiles (slobosHeapAddress + block * slobosHeapBlockSize) := by
    rw [hfiles ((fread_writes _ _ _ _).of_ends hread).takesMemory.takesFiles, ← hfourth]
    exact if_neg hne.symm
  rw [ends_ite] at h
  rcases h with ⟨-, h⟩ | ⟨-, h⟩
  · rw [hclose h, hfifth]
  simp only [ends_bind, ends_deref, ends_get, ends_modify, ends_pure, and_assoc, exists_eq_left,
    exists_and_left, exists_const] at h
  obtain ⟨-, _, last, hend, -, rfl⟩ := h
  rw [hfiles ((fclose_keeps fd).of_ends hend), ← hfifth]
  exact if_neg hne.symm

theorem sameAt_setProgramData (hne : process ≠ address) (filetype : ProcessFiletype) (data : Nat)
    (kernel : Kernel) : SameAt address kernel (setProgramData process filetype data size kernel) :=
  Frame.trans (sameAt_setProcessMemory hne _ _) (sameAt_setProcess hne _ _)

theorem processLoadElf_sameAt (h : Ends (processLoadElf filename process) kernel res after)
    (hblock : Holds kernel.heap block)
    (hne : process ≠ slobosHeapAddress + block * slobosHeapBlockSize) :
    SameAt (slobosHeapAddress + block * slobosHeapBlockSize) kernel after := by
  obtain ⟨⟨code, elfFile⟩, loaded, hload, h⟩ := ends_bind.mp h
  have hloaded := ((elfLoad_keeps filename).of_ends hload).sameAt (elfLoad_elfFiles hload hblock)
  rw [ends_ite] at h
  rcases h with ⟨-, h⟩ | ⟨-, h⟩
  · obtain ⟨-, rfl⟩ := ends_pure.mp h
    exact hloaded
  · rw [ends_modify_bind] at h
    obtain ⟨-, rfl⟩ := ends_pure.mp h
    exact Frame.trans hloaded (sameAt_setProgramData hne _ _ _)

theorem processLoadBinary_sameAt (hne : process ≠ address) :
    Keeps (SameAt address) (processLoadBinary filename process) := by
  have hmemory : ∀ {α : Type} {program : KernelM α}, Keeps TakesMemory program →
      Keeps (SameAt address) program := fun h => h.mono fun h => h.sameAt
  have hfile : ∀ {α : Type} {program : KernelM α}, Keeps TakesFiles program →
      Keeps (SameAt address) program := fun h => h.mono fun h => h.sameAt
  have hclose : ∀ fd, Keeps (SameAt address) (fclose fd) := fun fd => hfile (fclose_keeps fd)
  refine .bind (hfile (fopen_keeps _ _)) fun fd => .ite (.bind (hclose _) fun _ => .pure) <|
    .bind (hmemory (fstat_keeps _)) fun stat => .ite (.bind (hclose _) fun _ => .pure) <| ?_
  exact .bind (hmemory (HeapFrame.kzalloc _)) fun _ => .ite (.bind (hclose _) fun _ => .pure) <|
    .bind (hmemory (fread_keeps _ _ _ _)) fun _ => .ite (.bind (hclose _) fun _ => .pure) <|
      .bind (.modify fun kernel => sameAt_setProgramData hne _ _ kernel) fun _ =>
        .bind (hclose _) fun _ => .pure

theorem processLoadData_leavesBlock (h : Ends (processLoadData filename process) kernel res after)
    (hblock : Holds kernel.heap block) (hwithin : ReadsWithin kernel.volume)
    (hne : process ≠ slobosHeapAddress + block * slobosHeapBlockSize) :
    LeavesBlock block kernel after := by
  refine ⟨(processLoadData_spares h hblock).1, processLoadData_untouched h hblock hwithin, ?_⟩
  obtain ⟨code, middle, helf, h⟩ := ends_bind.mp h
  have hmiddle := processLoadElf_sameAt helf hblock hne
  rw [ends_ite] at h
  rcases h with ⟨-, h⟩ | ⟨-, h⟩
  · exact Frame.trans hmiddle ((processLoadBinary_sameAt hne).of_ends h)
  · obtain ⟨-, rfl⟩ := ends_pure.mp h
    exact hmiddle

theorem sameAt_setPageTable (hne : ptr ≠ address) (i flags : Nat) (kernel : Kernel) :
    SameAt address kernel (setPageTable ptr i flags kernel) :=
  ⟨rfl, rfl, rfl, rfl, rfl, rfl, funext fun _ => if_neg fun heq => hne heq.1.symm⟩

theorem sameAt_setDirectoryEntry (hne : directory ≠ address) (i val : Nat) (kernel : Kernel) :
    SameAt address kernel (setDirectoryEntry directory i val kernel) :=
  ⟨rfl, rfl, rfl, rfl, rfl, funext fun _ => if_neg fun heq => hne heq.1.symm, rfl⟩

theorem sameAt_setChunk (hne : chunk ≠ address) (kernel : Kernel) :
    SameAt address kernel (setChunk chunk directory kernel) :=
  ⟨rfl, rfl, rfl, rfl, if_neg hne.symm, rfl, rfl⟩

theorem sameAt_linkTask (hne : task ≠ address) (kernel : Kernel) :
    SameAt address kernel (linkTask task chunk process kernel) := by
  refine ⟨rfl, rfl, rfl, ?_, rfl, rfl, rfl⟩
  simp only [linkTask, taskNew_pageDirectory, if_neg hne.symm]

theorem pagingNewTables_sameAt {left i : Nat} {result : Unit}
    (h : Ends (pagingNewTables directory taskPageFlags left i) kernel result after)
    (hblock : Holds kernel.heap block)
    (hne : directory ≠ slobosHeapAddress + block * slobosHeapBlockSize) :
    SameAt (slobosHeapAddress + block * slobosHeapBlockSize) kernel after := by
  induction left generalizing kernel i with
  | zero =>
      obtain ⟨-, rfl⟩ := ends_pure.mp h
      exact Frame.refl _
  | succ left ih =>
      simp only [pagingNewTables, ends_bind, ends_deref, ends_modify, and_assoc, exists_eq_left,
        exists_and_left, exists_const] at h
      obtain ⟨entry, middle, halloc, -, -, h⟩ := h
      refine Frame.trans (kzalloc_takesMemory halloc).sameAt ?_
      refine Frame.trans (sameAt_setPageTable (kzalloc_ne halloc hblock) i taskPageFlags middle) ?_
      refine Frame.trans (sameAt_setDirectoryEntry hne i _ _) (ih h ?_)
      exact (kzalloc_spares halloc hblock).1.holds

theorem taskNew_leavesBlock (h : Ends (taskNew process) kernel task after)
    (hblock : Holds kernel.heap block) : LeavesBlock block kernel after := by
  refine ⟨(taskNew_spares h hblock).1, taskNew_untouched h hblock, ?_⟩
  obtain ⟨-, first, chunk, second, htask, hchunk, rfl⟩ := ends_taskNew h
  have hheld := (kzalloc_spares htask hblock).1.holds
  simp only [pagingNew4gb, ends_bind, ends_deref, ends_modify, ends_pure, and_assoc, exists_eq_left,
    exists_and_left, exists_const] at hchunk
  obtain ⟨directory, third, hdirectory, _, fourth, htables, _, fifth, hlast, -, rfl, rfl⟩ := hchunk
  have hheld' := (kzalloc_spares hdirectory hheld).1.holds
  have hheld'' := (pagingNewTables_untouched htables hheld').2
  refine Frame.trans (kzalloc_takesMemory htask).sameAt ?_
  refine Frame.trans (kzalloc_takesMemory hdirectory).sameAt ?_
  refine Frame.trans (pagingNewTables_sameAt htables hheld' (kzalloc_ne hdirectory hheld)) ?_
  refine Frame.trans (kzalloc_takesMemory hlast).sameAt ?_
  exact Frame.trans (sameAt_setChunk (kzalloc_ne hlast hheld'') _)
    (sameAt_linkTask (kzalloc_ne htask hblock) _)

theorem taskFree_leavesBlock {result : Unit} (h : Ends (taskFree task) kernel result after)
    (hblock : Holds kernel.heap block) (hguarded : TaskGuarded kernel block task) :
    LeavesBlock block kernel after := by
  have hspares := taskFree_spares h hblock hguarded
  simp only [taskFree, ends_bind, ends_deref, ends_get, ends_modify, ends_kfree, and_assoc,
    exists_eq_left, exists_and_left, exists_const] at h
  obtain ⟨-, _, middle, hchunk, rfl⟩ := h
  obtain ⟨-, hmiddle⟩ := pagingFree4gb_spares hchunk hblock hguarded.chunk
  rw [hmiddle] at hspares ⊢
  refine ⟨hspares, fun _ _ _ => rfl, rfl, rfl, rfl, ?_, rfl, rfl, rfl⟩
  exact taskFree_pageDirectory _ _ _

section Mapping

variable {pages : PageTables} {virt phys physEnd flags count : Nat}

theorem pagingMap_table (hvirt : virt < addressSpace)
    (hne : ∀ i < pagingTotalEntriesPerTable, tableAddress (pages.directories directory i) ≠ address) :
    (pagingMap pages directory virt phys flags).2.tables address = pages.tables address := by
  unfold pagingMap
  split
  · rfl
  unfold pagingSet
  split
  · rfl
  funext index
  refine if_neg fun heq => hne (virt / (pagingTotalEntriesPerTable * pagingPageSize)) ?_ heq.1.symm
  simp only [pagingTotalEntriesPerTable, pagingPageSize, addressSpace] at *
  omega

theorem pagingMapRange_table (hvirt : virt < addressSpace)
    (hne : ∀ i < pagingTotalEntriesPerTable, tableAddress (pages.directories directory i) ≠ address) :
    (pagingMapRange pages directory virt phys count flags).2.tables address = pages.tables address := by
  induction count generalizing pages virt phys with
  | zero => rfl
  | succ count ih =>
      have hstep := @pagingMap_table _ _ _ _ phys flags hvirt hne
      have hdirectories := pagingMap_directories pages directory virt phys flags
      rw [pagingMapRange]
      generalize pagingMap pages directory virt phys flags = result at hstep hdirectories
      obtain ⟨res, pages'⟩ := result
      dsimp only at hstep hdirectories ⊢
      split
      · exact hstep
      · rw [ih (toUint32_lt _) (by rwa [hdirectories]), hstep]

theorem pagingMapTo_table (hvirt : virt < addressSpace)
    (hne : ∀ i < pagingTotalEntriesPerTable, tableAddress (pages.directories directory i) ≠ address) :
    (pagingMapTo pages directory virt phys physEnd flags).2.tables address = pages.tables address := by
  unfold pagingMapTo
  split
  · rfl
  split
  · rfl
  split
  · rfl
  split
  · rfl
  exact pagingMapRange_table hvirt hne

theorem processMapElfLoop_table {memory : Memory} {file : ElfFile} {phdrs left i : Nat}
    (hne : ∀ i < pagingTotalEntriesPerTable, tableAddress (pages.directories directory i) ≠ address) :
    (processMapElfLoop memory directory file phdrs left i pages).2.tables address =
      pages.tables address := by
  induction left generalizing i pages with
  | zero => rfl
  | succ left ih =>
      rw [processMapElfLoop]
      split
      case isFalse => rfl
      generalize hphdr : readPhdr (memory pages) (toUint32 (phdrs + i * elf32PhdrSize)) = phdr
      have hvaddr : phdr.pVaddr < addressSpace := hphdr ▸ readWord_lt _ _
      have hstep : (processMapPhdr pages directory file phdr).2.tables address =
          pages.tables address :=
        pagingMapTo_table (Nat.lt_of_le_of_lt (Nat.sub_le _ _) hvaddr) hne
      have hdirectories : (processMapPhdr pages directory file phdr).2.directories =
          pages.directories := pagingMapTo_directories _ _ _ _ _ _
      dsimp only
      split
      · exact hstep
      · rw [ih (by rwa [hdirectories]), hstep]

theorem programMapped_table {memory : Memory} {filetype : ProcessFiletype} {file : ElfFile}
    (hne : ∀ i < pagingTotalEntriesPerTable, tableAddress (pages.directories directory i) ≠ address) :
    (programMapped memory pages directory filetype file ptr size).2.tables address =
      pages.tables address := by
  cases filetype with
  | elf => exact processMapElfLoop_table hne
  | binary => exact pagingMapTo_table (by decide) hne

theorem processMapMemory_sameAt (h : Ends (processMapMemory process) kernel res after)
    (hne : ∀ i < pagingTotalEntriesPerTable,
      tableAddress (kernel.pages.directories (kernel.directoryOf process) i) ≠ address) :
    SameAt address kernel after := by
  obtain ⟨pages, rfl, hdirectories⟩ := processMapMemory_pages h
  refine sameAt_setPages hdirectories ?_
  rw [processMapMemory] at h
  simp only [ends_get_bind, ends_modify_bind, ends_pure] at h
  obtain ⟨-, hpages⟩ := h
  have hsame := congrArg (fun kernel : Kernel => kernel.pages.tables address) hpages
  simp only [Kernel.setPages, processMapMemory_eq] at hsame
  rw [hsame]
  split
  · exact programMapped_table hne
  · rw [stackMapped, pagingMapTo_table (by decide), programMapped_table hne]
    rw [programMapped_directories]
    exact hne

end Mapping

end Kernel

end SlobOS
