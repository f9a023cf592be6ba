import SlobOS.ProcessLoad
import SlobOS.Proof.Files
import SlobOS.Proof.ProcessMap

/-!
# What a load takes

A load that gets as far as the memory for the process takes a block that was free, and keeps it to its
end, whether it succeeds or fails. Whatever a process that has been loaded can release, the block of
its own structure is not reached by it.
-/

namespace SlobOS

namespace Kernel

open Faulting

variable {kernel after : Kernel} {block process : Nat} {filename : List UInt8}

def TakesElf (kernel after : Kernel) : Prop :=
  after = { kernel with
    heap := after.heap, memory := after.memory, nullStores := after.nullStores
    fileDescriptors := after.fileDescriptors, files := after.files, elfFiles := after.elfFiles }

instance : Frame TakesElf where
  refl _ := rfl
  trans h h' := by
    unfold TakesElf at h h' ⊢
    rw [h', h]

theorem TakesFiles.takesElf (h : TakesFiles kernel after) : TakesElf kernel after := by
  unfold TakesFiles at h
  unfold TakesElf
  rw [h]

theorem fstat_keeps (fd : Int) : Keeps TakesMemory (fstat fd) :=
  ⟨fun h => by rw [(ends_fstat h).1]; rfl⟩

theorem fread_keeps (ptr size nmemb : Nat) (fd : Int) :
    Keeps TakesMemory (fread ptr size nmemb fd) :=
  (fread_writes ptr size nmemb fd).mono WritesMemory.takesMemory

theorem elfLoad_keeps (filename : List UInt8) : Keeps TakesElf (elfLoad filename) := by
  have hmemory : ∀ {α} {program : KernelM α}, Keeps TakesMemory program →
      Keeps TakesElf program := fun h => h.mono fun hrel => hrel.takesFiles.takesElf
  have hclose : ∀ fd, Keeps TakesElf (fclose fd) := fun fd =>
    (fclose_keeps fd).mono TakesFiles.takesElf
  refine .bind (hmemory (HeapFrame.kzalloc _)) fun elfFile =>
    .bind ((fopen_keeps _ _).mono TakesFiles.takesElf) fun fd =>
      .ite (.bind (hclose _) fun _ => .pure) <|
        .bind (hmemory (fstat_keeps _)) fun stat => .ite (.bind (hclose _) fun _ => .pure) <| ?_
  refine .bind (hmemory (HeapFrame.kzalloc _)) fun _ => .bind (hmemory (deref_keeps _)) fun _ =>
    .bind (.modify fun _ => rfl) fun _ => .bind (hmemory (fread_keeps _ _ _ _)) fun _ =>
      .ite (.bind (hclose _) fun _ => .pure) <| .bind (hmemory (deref_keeps _)) fun _ =>
        .bind .get fun _ => .bind (.modify fun _ => rfl) fun _ => .bind (hclose _) fun _ => .pure

/-- The tasks, what is current and the allocations of the process are as they were. -/
structure LoadsData (process : Nat) (kernel after : Kernel) : Prop where
  list : after.sched.list = kernel.sched.list
  currentProcess : after.sched.currentProcess = kernel.sched.currentProcess
  task : (after.sched.procs process).task = (kernel.sched.procs process).task
  allocations : (after.processMemory process).allocations =
    (kernel.processMemory process).allocations

instance : Frame (LoadsData process) where
  refl _ := ⟨rfl, rfl, rfl, rfl⟩
  trans h h' := ⟨h'.list.trans h.list, h'.currentProcess.trans h.currentProcess,
    h'.task.trans h.task, h'.allocations.trans h.allocations⟩

theorem TakesElf.loadsData (h : TakesElf kernel after) : LoadsData process kernel after := by
  unfold TakesElf at h
  rw [h]
  exact ⟨rfl, rfl, rfl, rfl⟩

theorem loadsData_setProgramData (filetype : ProcessFiletype) (data size : Nat) (kernel : Kernel) :
    LoadsData process kernel (setProgramData process filetype data size kernel) where
  list := rfl
  currentProcess := rfl
  task := by simp [setProgramData, setProcess, setProcessMemory]
  allocations := by simp [setProgramData, setProcess, setProcessMemory]

theorem processLoadData_keeps (filename : List UInt8) (process : Nat) :
    Keeps (LoadsData process) (processLoadData filename process) := by
  have hfile : ∀ {α} {program : KernelM α}, Keeps TakesFiles program →
      Keeps (LoadsData process) program := fun h => h.mono fun hrel => hrel.takesElf.loadsData
  have hmemory : ∀ {α} {program : KernelM α}, Keeps TakesMemory program →
      Keeps (LoadsData process) program := fun h => hfile (h.mono TakesMemory.takesFiles)
  have hclose : ∀ fd, Keeps (LoadsData process) (fclose fd) := fun fd => hfile (fclose_keeps fd)
  refine .bind ?_ fun _ => .ite ?_ .pure
  · exact .bind ((elfLoad_keeps _).mono TakesElf.loadsData) fun _ => .ite .pure <|
      .bind (.modify fun _ => loadsData_setProgramData _ _ _ _) fun _ => .pure
  · refine .bind (hfile (fopen_keeps _ _)) fun fd => .ite (.bind (hclose _) fun _ => .pure) <|
      .bind (hmemory (fstat_keeps _)) fun stat => .ite (.bind (hclose _) fun _ => .pure) <| ?_
    exact .bind (hmemory (HeapFrame.kzalloc _)) fun _ => .ite (.bind (hclose _) fun _ => .pure) <|
      .bind (hmemory (fread_keeps _ _ _ _)) fun _ => .ite (.bind (hclose _) fun _ => .pure) <|
        .bind (.modify fun _ => loadsData_setProgramData _ _ _ _) fun _ =>
          .bind (hclose _) fun _ => .pure

def ElfGuarded (kernel : Kernel) (block elfFile : Nat) : Prop :=
  Guards kernel.heap block elfFile ∧ Guards kernel.heap block (kernel.elfFiles elfFile).elfMemory

theorem elfLoad_spares {result : Int × Nat} (h : Ends (elfLoad filename) kernel result after)
    (hblock : Holds kernel.heap block) :
    Spares block kernel.heap after.heap ∧ (0 ≤ result.1 → ElfGuarded after block result.2) := by
  simp only [elfLoad, ends_bind] at h
  obtain ⟨elfFile, first, halloc, fd, second, hopen, h⟩ := h
  obtain ⟨hspares, hguards⟩ := kzalloc_spares halloc hblock
  obtain ⟨hspares', hclose⟩ := fopen_spares hopen hspares.holds
  have hboth := hspares.trans hspares'
  rw [ends_ite] at h
  rcases h with ⟨-, h⟩ | ⟨-, h⟩
  · obtain ⟨rfl, hclosed⟩ := fclose_pure_spares hboth closeGuarded_zero h
    exact ⟨hclosed, fun hge => by simp [eio] at hge⟩
  simp only [ends_bind] at h
  obtain ⟨⟨res, filesize⟩, third, hstat, h⟩ := h
  obtain rfl := (ends_fstat hstat).1
  rw [ends_ite] at h
  rcases h with ⟨hneg, h⟩ | ⟨-, h⟩
  · obtain ⟨rfl, hclosed⟩ := fclose_pure_spares hboth hclose h
    exact ⟨hclosed, fun hge => absurd hneg (by simpa using hge)⟩
  simp only [ends_bind, ends_deref, ends_modify, and_assoc, exists_eq_left, exists_and_left,
    exists_const] at h
  obtain ⟨elfMemory, fourth, hmemory, -, res', fifth, hread, h⟩ := h
  obtain ⟨hspares'', hguards''⟩ := kzalloc_spares hmemory hboth.holds
  have hall := hboth.trans hspares''
  have hclose' : CloseGuarded fifth block fd := by
    have hset : CloseGuarded (setElfFile elfFile (elfFileAt elfMemory) fourth) block fd :=
      (hclose.takes hspares'' (ends_kzalloc hmemory).2.2.1).spares (.refl hall.holds) rfl rfl
    have hwrites := (fread_writes _ _ _ _).of_ends hread
    exact hset.takes (by rw [hwrites.heap]; exact .refl hall.holds) hwrites.takesMemory
  have hheap : fifth.heap = fourth.heap := ((fread_writes _ _ _ _).of_ends hread).heap
  rw [ends_ite] at h
  rcases h with ⟨hneg, h⟩ | ⟨-, h⟩
  · rw [← hheap] at hall
    obtain ⟨rfl, hclosed⟩ := fclose_pure_spares hall hclose' h
    exact ⟨hclosed, fun hge => absurd hneg (by simpa using hge)⟩
  simp only [ends_bind, ends_deref, ends_get, ends_modify, ends_pure, and_assoc, exists_eq_left,
    exists_and_left, exists_const] at h
  obtain ⟨-, _, last, hend, rfl, rfl⟩ := h
  rw [← hheap] at hall hspares'' hguards''
  have hclosed := fclose_spares hend hall.holds
    (hclose'.spares (.refl hall.holds) rfl rfl)
  refine ⟨hall.trans hclosed, fun hge => ?_⟩
  have helfFiles := congrArg Kernel.elfFiles ((fclose_keeps fd).of_ends hend)
  have hnot : ¬(elfProcessLoaded (fifth.memory fifth.pages) (elfFileAt elfMemory)).1 < 0 := by
    simpa using hge
  refine ⟨?_, ?_⟩
  · simp only [if_neg hnot]
    exact hclosed.guards _ (hspares''.guards _ (hspares'.guards _ hguards))
  · simp only [if_neg hnot]
    rw [helfFiles]
    simp only [setElfFile, if_true, elfProcessLoaded_elfMemory]
    exact hclosed.guards _ hguards''

def DataGuarded (kernel : Kernel) (block process : Nat) : Prop :=
  match (kernel.sched.procs process).filetype with
  | .elf => ElfGuarded kernel block (kernel.processMemory process).data
  | .binary => Guards kernel.heap block (kernel.processMemory process).data

theorem DataGuarded.spares (h : DataGuarded kernel block process)
    (hspares : Spares block kernel.heap after.heap)
    (hfiletype : (after.sched.procs process).filetype = (kernel.sched.procs process).filetype)
    (hdata : (after.processMemory process).data = (kernel.processMemory process).data)
    (helf : after.elfFiles = kernel.elfFiles) : DataGuarded after block process := by
  unfold DataGuarded ElfGuarded at h ⊢
  rw [hfiletype, hdata, helf]
  split at h
  · exact ⟨hspares.guards _ h.1, hspares.guards _ h.2⟩
  · exact hspares.guards _ h

theorem processLoadElf_spares {res : Int} (h : Ends (processLoadElf filename process) kernel res after)
    (hblock : Holds kernel.heap block) :
    Spares block kernel.heap after.heap ∧ (0 ≤ res → DataGuarded after block process) := by
  simp only [processLoadElf, ends_bind] at h
  obtain ⟨⟨res', elfFile⟩, middle, hload, h⟩ := h
  obtain ⟨hspares, hguards⟩ := elfLoad_spares hload hblock
  rw [ends_ite] at h
  simp only [ends_bind, ends_modify, ends_pure, exists_eq_left, exists_const] at h
  rcases h with ⟨hneg, rfl, rfl⟩ | ⟨-, rfl, rfl⟩
  · exact ⟨hspares, fun hge => absurd hneg (by simpa using hge)⟩
  · refine ⟨hspares, fun hge => ?_⟩
    simp only [DataGuarded, setProgramData, setProcess, setProcessMemory, if_true]
    exact hguards hge

theorem processLoadBinary_spares {res : Int}
    (h : Ends (processLoadBinary filename process) kernel res after)
    (hblock : Holds kernel.heap block) :
    Spares block kernel.heap after.heap ∧ (0 ≤ res → DataGuarded after block process) := by
  simp only [processLoadBinary, ends_bind] at h
  obtain ⟨fd, first, hopen, h⟩ := h
  obtain ⟨hspares, hclose⟩ := fopen_spares hopen hblock
  rw [ends_ite] at h
  rcases h with ⟨-, h⟩ | ⟨-, h⟩
  · obtain ⟨rfl, hclosed⟩ := fclose_pure_spares hspares hclose h
    exact ⟨hclosed, fun hge => by simp [eio] at hge⟩
  simp only [ends_bind] at h
  obtain ⟨⟨res', filesize⟩, second, hstat, h⟩ := h
  obtain ⟨rfl, hle⟩ := ends_fstat hstat
  rw [ends_ite] at h
  rcases h with ⟨hne, h⟩ | ⟨-, h⟩
  · obtain ⟨rfl, hclosed⟩ := fclose_pure_spares hspares hclose h
    exact ⟨hclosed, fun hge => absurd (Int.le_antisymm hle hge) hne⟩
  simp only [ends_bind] at h
  obtain ⟨ptr, third, halloc, h⟩ := h
  obtain ⟨hspares', hguards⟩ := kzalloc_spares halloc hspares.holds
  have hboth := hspares.trans hspares'
  have hclose' := hclose.takes hspares' (ends_kzalloc halloc).2.2.1
  rw [ends_ite] at h
  rcases h with ⟨-, h⟩ | ⟨-, h⟩
  · obtain ⟨rfl, hclosed⟩ := fclose_pure_spares hboth hclose' h
    exact ⟨hclosed, fun hge => by simp [enomem] at hge⟩
  simp only [ends_bind] at h
  obtain ⟨count, fourth, hread, h⟩ := h
  have hwrites := (fread_writes _ _ _ _).of_ends hread
  have hheap := hwrites.heap
  rw [← hheap] at hboth hguards
  have hclose'' :=
    hclose'.takes (by rw [hheap]; exact .refl (hheap ▸ hboth.holds)) hwrites.takesMemory
  rw [ends_ite] at h
  simp only [ends_bind, ends_modify, ends_pure, exists_eq_left, exists_const] at h
  rcases h with ⟨-, _, _, hend, rfl, rfl⟩ | ⟨-, _, last, hend, rfl, rfl⟩
  · exact ⟨hboth.trans (fclose_spares hend hboth.holds hclose''), fun hge => by
      simp [eio] at hge⟩
  · have hclosed := fclose_spares hend hboth.holds (hclose''.spares (.refl hboth.holds) rfl rfl)
    refine ⟨hboth.trans hclosed, fun _ => ?_⟩
    have hframe := (fclose_keeps fd).of_ends hend
    have hprocs := congrArg Kernel.sched hframe
    have hmemory := congrArg Kernel.processMemory hframe
    simp only [DataGuarded, hprocs, hmemory]
    simp only [setProgramData, setProcess, setProcessMemory, if_true]
    exact hclosed.guards _ hguards

theorem processLoadData_spares {res : Int}
    (h : Ends (processLoadData filename process) kernel res after)
    (hblock : Holds kernel.heap block) :
    Spares block kernel.heap after.heap ∧ (0 ≤ res → DataGuarded after block process) := by
  simp only [processLoadData, ends_bind] at h
  obtain ⟨res', middle, helf, h⟩ := h
  obtain ⟨hspares, hguards⟩ := processLoadElf_spares helf hblock
  rw [ends_ite] at h
  rcases h with ⟨-, h⟩ | ⟨-, h⟩
  · obtain ⟨hspares', hguards'⟩ := processLoadBinary_spares h hspares.holds
    exact ⟨hspares.trans hspares', hguards'⟩
  · obtain ⟨rfl, rfl⟩ := ends_pure.mp h
    exact ⟨hspares, hguards⟩

/-! ### The process with its task -/

section Acquire

variable {slot : Nat}

/-- Every step of `process_load_for_slot` up to the mapping succeeds. -/
inductive Acquires (filename : List UInt8) (slot : Nat) (kernel : Kernel) (process : Nat) :
    Kernel → Prop
  | intro {first second third fourth : Kernel} {res : Int} {stack task : Nat} :
      Ends (kzalloc processSize) kernel process first → process ≠ 0 →
      Ends (processLoadData filename process) (processInit process first) res second → 0 ≤ res →
      Ends (kzalloc slobosUserProgramStackSize) second stack third → stack ≠ 0 →
      Ends (taskNew process) (setStack process slot stack third) task fourth →
      Acquires filename slot kernel process (setTask process task fourth)

inductive AcquireOutcome (filename : List UInt8) (slot : Nat) (kernel : Kernel) :
    Except Int Nat → Kernel → Prop
  | noProcess {after : Kernel} : Ends (kzalloc processSize) kernel 0 after →
      AcquireOutcome filename slot kernel (.error (-enomem)) after
  | noData {process : Nat} {first after : Kernel} {res : Int} :
      Ends (kzalloc processSize) kernel process first → process ≠ 0 →
      Ends (processLoadData filename process) (processInit process first) res after → res < 0 →
      AcquireOutcome filename slot kernel (.error res) after
  | noStack {process : Nat} {first second after : Kernel} {res : Int} :
      Ends (kzalloc processSize) kernel process first → process ≠ 0 →
      Ends (processLoadData filename process) (processInit process first) res second → 0 ≤ res →
      Ends (kzalloc slobosUserProgramStackSize) second 0 after →
      AcquireOutcome filename slot kernel (.error (-enomem)) after
  | acquired {process : Nat} {after : Kernel} : Acquires filename slot kernel process after →
      AcquireOutcome filename slot kernel (.ok process) after

theorem processAcquire_cases {result : Except Int Nat}
    (h : Ends (processAcquire filename slot) kernel result after) :
    AcquireOutcome filename slot kernel result after := by
  simp only [processAcquire, ends_bind, ends_get, and_assoc, exists_eq_left, exists_and_left] at h
  rw [ends_ite] at h
  simp only [ends_throw, and_false, false_or, ends_bind] at h
  obtain ⟨-, process, first, hprocess, h⟩ := h
  rw [ends_ite] at h
  rcases h with ⟨rfl, h⟩ | ⟨hne, h⟩
  · obtain ⟨rfl, rfl⟩ := ends_pure.mp h
    exact .noProcess hprocess
  simp only [ends_bind, ends_modify, exists_eq_left, exists_const] at h
  obtain ⟨res, second, hdata, h⟩ := h
  rw [ends_ite] at h
  rcases h with ⟨hneg, h⟩ | ⟨hres, h⟩
  · obtain ⟨rfl, rfl⟩ := ends_pure.mp h
    exact .noData hprocess hne hdata hneg
  simp only [ends_bind] at h
  obtain ⟨stack, third, hstack, h⟩ := h
  rw [ends_ite] at h
  rcases h with ⟨rfl, h⟩ | ⟨hstackNe, h⟩
  · obtain ⟨rfl, rfl⟩ := ends_pure.mp h
    exact .noStack hprocess hne hdata (by omega) hstack
  simp only [ends_bind, ends_modify, exists_eq_left, exists_const] at h
  obtain ⟨task, fourth, htask, h⟩ := h
  rw [ends_ite] at h
  rcases h with ⟨rfl, h⟩ | ⟨-, h⟩
  · exact absurd rfl (ends_taskNew htask).1
  simp only [ends_bind, ends_modify, ends_pure, exists_eq_left, exists_const] at h
  obtain ⟨rfl, rfl⟩ := h
  exact .acquired (.intro hprocess hne hdata (by omega) hstack hstackNe htask)

structure ProgramKept (process : Nat) (kernel after : Kernel) : Prop where
  filetype : (after.sched.procs process).filetype = (kernel.sched.procs process).filetype
  data : (after.processMemory process).data = (kernel.processMemory process).data
  size : (after.processMemory process).size = (kernel.processMemory process).size
  elfFiles : after.elfFiles = kernel.elfFiles

theorem acquired_program {second third fourth : Kernel} {stack task : Nat}
    (hstack : Ends (kzalloc slobosUserProgramStackSize) second stack third)
    (htask : Ends (taskNew process) (setStack process slot stack third) task fourth) :
    ProgramKept process second (setTask process task fourth) := by
  obtain ⟨hmemory, helf, hprocs⟩ := taskNew_frame htask
  have hthird := (ends_kzalloc hstack).2.2.1
  have hthirdMemory := congrArg Kernel.processMemory hthird
  have hthirdProcs := congrArg (fun kernel => kernel.sched.procs) hthird
  have hthirdElf := congrArg Kernel.elfFiles hthird
  constructor
  · simp only [setTask, setProcess, if_true, hprocs, setStack, setProcessMemory, hthirdProcs]
  · simp only [setTask, setProcess, hmemory, setStack, setProcessMemory, if_true, hthirdMemory]
  · simp only [setTask, setProcess, hmemory, setStack, setProcessMemory, if_true, hthirdMemory]
  · exact helf.trans hthirdElf

/-- What the process can release reaches none of the blocks in use. -/
structure ProcessGuarded (kernel : Kernel) (block process : Nat) : Prop where
  allocations : ∀ i, Guards kernel.heap block ((kernel.processMemory process).allocations i).ptr
  data : DataGuarded kernel block process
  stack : Guards kernel.heap block (kernel.processMemory process).stack
  task : TaskGuarded kernel block (kernel.sched.procs process).task

theorem Acquires.empty (h : Acquires filename slot kernel process after) (i : Nat) :
    ((after.processMemory process).allocations i).ptr = 0 := by
  cases h with
  | intro _ _ hdata _ hstack _ htask =>
      have hloaded := (processLoadData_keeps filename process).of_ends hdata
      have hthird := congrArg Kernel.processMemory (ends_kzalloc hstack).2.2.1
      simp only [setTask, setProcess, (taskNew_frame htask).1, setStack, setProcessMemory, if_true,
        hthird, hloaded.allocations, processInit, blankProcessMemory]

/-- A block of the process's own structure: it was free, it is taken, and nothing that the process can
release reaches it. -/
theorem Acquires.holds (h : Acquires filename slot kernel process after)
    (hsound : HeapSound kernel.heap) : ∃ block : Nat, kernel.heap.table.IsFree block ∧
      Holds after.heap block ∧ ProcessGuarded after block process := by
  have hempty := h.empty
  cases h with
  | @intro first second third fourth res stack task hprocess hne hdata hres hstack hstackNe htask =>
      obtain ⟨hptr, hheap, -, -⟩ := ends_kzalloc hprocess
      obtain ⟨block, -, hfree, hblock⟩ := hsound.malloc_holds
        (show 0 < blockCount processSize by decide) (hptr ▸ hne)
      rw [← hheap] at hblock
      obtain ⟨hspares, hguards⟩ := processLoadData_spares hdata hblock
      obtain ⟨hspares', hguards'⟩ := kzalloc_spares hstack hspares.holds
      obtain ⟨hspares'', hguards''⟩ := taskNew_spares htask hspares'.holds
      have hmemory := (taskNew_frame htask).1
      refine ⟨block, hfree, hspares''.holds, fun i => ?_, ?_, ?_, ?_⟩
      · rw [hempty i]
        exact hspares''.holds.guards_null
      · have hkept := acquired_program hstack htask
        exact (hguards hres).spares (hspares'.trans hspares'') hkept.filetype hkept.data
          hkept.elfFiles
      · have hstackPtr : ((setTask process task fourth).processMemory process).stack = stack := by
          simp only [setTask, setProcess, hmemory, setStack, setProcessMemory, if_true]
        rw [hstackPtr]
        exact hspares''.guards _ hguards'
      · have htaskPtr : ((setTask process task fourth).sched.procs process).task = task := by
          simp only [setTask, setProcess, if_true]
        rw [htaskPtr]
        exact ⟨hguards''.self, hguards''.chunk.self, hguards''.chunk.directory,
          hguards''.chunk.tables⟩

theorem ProcessGuarded.setPages (h : ProcessGuarded kernel block process) {pages : PageTables}
    (hpages : pages.directories = kernel.pages.directories) :
    ProcessGuarded (setPages pages kernel) block process where
  allocations := h.allocations
  data := h.data
  stack := h.stack
  task := by
    refine ⟨h.task.self, h.task.chunk.self, h.task.chunk.directory, fun i hi => ?_⟩
    have htable := h.task.chunk.tables i hi
    rw [← hpages] at htable
    exact htable

theorem processMapMemory_pages {res : Int} (h : Ends (processMapMemory process) kernel res after) :
    ∃ pages, after = Kernel.setPages pages kernel ∧
      pages.directories = kernel.pages.directories := by
  rw [processMapMemory, ends_get_bind, ends_modify_bind] at h
  obtain ⟨-, rfl⟩ := ends_pure.mp h
  exact ⟨_, rfl, processMapMemory_directories _ _ _ _ _ _ _ _⟩

theorem processGet_of_free (hslot : processGetFreeSlot kernel.sched = some slot) :
    kernel.processGet slot = 0 := by
  have hfound := List.find?_some hslot
  have hmem := List.mem_of_find?_eq_some hslot
  have hlt : ¬slot ≥ slobosMaxProcesses := by
    have hrange := List.mem_range.mp hmem
    omega
  rw [processGet, if_neg hlt]
  exact of_decide_eq_true hfound

theorem ends_processLoad {res : Int} (hslot : processGetFreeSlot kernel.sched = some slot) :
    Ends (processLoad filename) kernel (res, process) after ↔
      Ends (processLoadForSlot filename slot) kernel (res, process) after := by
  rw [processLoad, ends_get_bind, hslot]

theorem Acquires.ends (h : Acquires filename slot kernel process after)
    (hslot : kernel.processGet slot = 0) :
    Ends (processAcquire filename slot) kernel (.ok process) after := by
  cases h with
  | @intro first second third fourth res stack task hprocess hne hdata hres hstack hstackNe htask =>
      rw [processAcquire, ends_get_bind, if_neg (not_not.mpr hslot)]
      refine ends_bind.mpr ⟨process, first, hprocess, ?_⟩
      rw [if_neg hne, ends_modify_bind]
      refine ends_bind.mpr ⟨res, second, hdata, ?_⟩
      rw [if_neg (by omega)]
      refine ends_bind.mpr ⟨stack, third, hstack, ?_⟩
      rw [if_neg hstackNe, ends_modify_bind]
      refine ends_bind.mpr ⟨task, fourth, htask, ?_⟩
      rw [if_neg (ends_taskNew htask).1, ends_modify_bind]
      exact ends_pure.mpr ⟨rfl, rfl⟩

/-- How a load into a free slot ends once its steps have been taken. -/
inductive LoadEnds (filename : List UInt8) (slot : Nat) (kernel : Kernel) :
    Int → Nat → Kernel → Prop
  | refused {res : Int} {after : Kernel} :
      AcquireOutcome filename slot kernel (.error res) after →
      LoadEnds filename slot kernel res 0 after
  | unmapped {process : Nat} {acquired mapped after : Kernel} {res : Int} :
      Acquires filename slot kernel process acquired →
      Ends (processMapMemory process) acquired res mapped → res < 0 →
      Ends (taskFree (mapped.sched.procs process).task) mapped () after →
      LoadEnds filename slot kernel res 0 after
  | loaded {process : Nat} {acquired mapped : Kernel} {res : Int} :
      Acquires filename slot kernel process acquired →
      Ends (processMapMemory process) acquired res mapped → 0 ≤ res →
      LoadEnds filename slot kernel res process (enterSlot slot process mapped)

theorem processLoadForSlot_cases {res : Int}
    (h : Ends (processLoadForSlot filename slot) kernel (res, process) after) :
    LoadEnds filename slot kernel res process after := by
  simp only [processLoadForSlot, ends_bind] at h
  obtain ⟨result, acquired, hacquire, h⟩ := h
  have houtcome := processAcquire_cases hacquire
  cases result with
  | error code =>
      obtain ⟨heq, rfl⟩ := ends_pure.mp h
      obtain ⟨rfl, rfl⟩ := Prod.mk.inj heq
      exact .refused houtcome
  | ok own =>
      cases houtcome with
      | acquired hacquires =>
          simp only [ends_bind] at h
          obtain ⟨res', mapped, hmap, h⟩ := h
          rw [ends_ite] at h
          rcases h with ⟨hneg, h⟩ | ⟨hnonneg, h⟩
          · rw [ends_get_bind, ends_bind] at h
            obtain ⟨_, _, hfree, h⟩ := h
            obtain ⟨heq, rfl⟩ := ends_pure.mp h
            obtain ⟨rfl, rfl⟩ := Prod.mk.inj heq
            exact .unmapped hacquires hmap hneg hfree
          · rw [ends_modify_bind] at h
            obtain ⟨heq, rfl⟩ := ends_pure.mp h
            obtain ⟨rfl, rfl⟩ := Prod.mk.inj heq
            exact .loaded hacquires hmap (by omega)

end Acquire

end Kernel

end SlobOS
