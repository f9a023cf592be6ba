import SlobOS.Proof.Room
import SlobOS.Proof.RootFiles

/-!
# A program that is loaded

The only file of the disk is a flat program, and there is room for it. Its first byte is none of an ELF
signature, so it is read twice: once by the ELF loader, which refuses it, and then as it is.
-/

namespace SlobOS

namespace Kernel

open Faulting

/-- The only file of the disk can be read, and is no ELF file by its first byte. -/
structure FlatFile (volume : Volume) (filename : List UInt8) (item : FatDirectoryItem)
    (contents : List UInt8) : Prop extends RootFile volume filename item where
  pos : 0 < item.filesize
  lt : item.filesize < 0x80000000
  read : volume.readInternal item.firstCluster 0 item.filesize = some (0, contents)
  size : contents.length = item.filesize
  head : contents.getD 0 0 ≠ 0x7f

variable {kernel after : Kernel} {volume : Volume} {filename contents : List UInt8}
  {filesize count rest ptr process : Nat} {item : FatDirectoryItem}

def programItem (filesize : Nat) : FatDirectoryItem := { rootFileItem with filesize := filesize }

def programVolume (filesize : Nat) : Volume :=
  { rootFileVolume with rootDirectory := [programItem filesize] }

theorem rootFile_programVolume (filesize : Nat) :
    RootFile (programVolume filesize) rootFilePath (programItem filesize) :=
  ⟨rfl, rfl, rootFile_rootFileVolume.plain, by decide, by decide, rfl,
    rootFile_rootFileVolume.name⟩

theorem Opened.congr {slot : Nat} (h : Opened kernel slot item)
    (hdescriptors : after.fileDescriptors = kernel.fileDescriptors)
    (hfiles : after.files = kernel.files) : Opened after slot item := by
  have hget : after.fileGetDescriptor (slot + 1) = kernel.fileGetDescriptor (slot + 1) := by
    simp only [fileGetDescriptor, hdescriptors]
  refine ⟨⟨?_, ?_, ?_⟩, ?_⟩ <;> rw [hget]
  · exact h.desc
  · rw [hfiles]
    exact h.data
  · rw [hfiles]
    exact h.pos
  · rw [hfiles]
    exact h.index

theorem fread_program {fd : Int} (h : FlatFile volume filename item contents)
    (hopen : OpenFile kernel fd item 0) (hvolume : kernel.volume = volume) (hptr : ptr ≠ 0) :
    Ends (fread ptr item.filesize 1 fd) kernel 1
      (writeBytes ptr item.filesize (fun i => contents.getD i 0) kernel) := by
  obtain ⟨clone, hclone, hdata⟩ := hopen.data
  have hpos := h.pos
  have hlt := h.lt
  have hfd : ¬(item.filesize = 0 ∨ 1 = 0 ∨ fd < 1) := by
    have hone := hopen.one_le
    omega
  have htotal : toInt32 item.filesize = item.filesize := by
    simp only [toInt32, addressSpace, Int.bmod]
    omega
  have hread : Ends (fat16ReadInternal item.firstCluster (toInt32 0) (toInt32 item.filesize) ptr)
      kernel 0 (writeBytes ptr item.filesize (fun i => contents.getD i 0) kernel) := by
    rw [htotal, ← h.size]
    exact ends_fat16ReadInternal (by rw [hvolume, h.size]; exact h.read) hptr
  rw [fread, if_neg hfd, ends_get_bind, if_neg hopen.desc, hdata]
  change Ends (deref clone >>= _) _ _ _
  rw [ends_deref_bind hclone, fat16Read, hopen.pos]
  refine ends_bind.mpr ⟨0, writeBytes ptr item.filesize (fun i => contents.getD i 0) kernel, ?_, ?_⟩
  · refine ends_bind.mpr ⟨0, _, hread, ?_⟩
    rw [if_neg (by decide)]
    exact ends_pure.mpr ⟨rfl, rfl⟩
  · rw [if_neg (by decide)]
    exact ends_pure.mpr ⟨rfl, rfl⟩

/-- The program is on the disk, the first file slot is empty, and there is room. -/
structure Ready (kernel : Kernel) (volume : Volume) (count : Nat) : Prop where
  volume : kernel.volume = volume
  slot : kernel.fileDescriptors 0 = 0
  room : Room kernel.heap count

theorem Ready.freeSlot (h : Ready kernel volume count) : kernel.fileFreeSlot = some 0 :=
  List.find?_range_eq_some.mpr ⟨decide_eq_true h.slot, List.mem_range.mpr (by decide),
    fun _ hlt => absurd hlt (Nat.not_lt_zero _)⟩

theorem Ready.opens (h : Ready kernel volume (rest + 8)) (hfile : RootFile volume filename item) :
    ∃ opened, Ends (fopen filename modeRead) kernel ((0 : Nat) + 1) opened ∧
      Opened opened 0 item ∧ opened.volume = volume ∧ Room opened.heap rest := by
  obtain ⟨opened, hopen, hopened, hroom, -⟩ := @fopen_opened kernel filename item rest Room _
    (h.volume ▸ hfile) h.room 0 h.freeSlot (by decide)
  have hvolume := congrArg Kernel.volume ((fopen_keeps _ _).of_ends hopen)
  exact ⟨opened, hopen, hopened, Eq.trans hvolume h.volume, hroom⟩

theorem Ready.closes (hopened : Opened kernel 0 item) (hvolume : kernel.volume = volume)
    (hroom : Room kernel.heap rest) :
    ∃ closed, Ends (fclose ((0 : Nat) + 1)) kernel () closed ∧ Ready closed volume rest := by
  obtain ⟨closed, hclose, hroom', hslot⟩ := fclose_opened hopened hroom
  have hsame := congrArg Kernel.volume ((fclose_keeps _).of_ends hclose)
  exact ⟨closed, hclose, Eq.trans hsame hvolume, by rw [hslot]; rfl, hroom'⟩

theorem Ready.alloc {size : Nat} (h : Ready kernel volume (blockCount size + rest))
    (hcount : 0 < blockCount size) (hsize : size < addressSpace) :
    ∃ ptr alloc, Ends (kzalloc size) kernel ptr alloc ∧ ptr ≠ 0 ∧ Ready alloc volume rest := by
  obtain ⟨ptr, alloc, halloc, hne, hroom⟩ :=
    kzalloc_succeeds h.room rfl hcount hsize rest (Nat.le_refl _)
  have htakes := kzalloc_takesMemory halloc
  have hvolume := congrArg Kernel.volume htakes
  exact ⟨ptr, alloc, halloc, hne, Eq.trans hvolume h.volume, htakes.fileDescriptors ▸ h.slot, hroom⟩

theorem Ready.taskNew (h : Ready kernel volume (1027 + rest)) :
    ∃ task after, Ends (Kernel.taskNew process) kernel task after ∧ Ready after volume rest := by
  obtain ⟨task, after, htask, hroom⟩ := @taskNew_succeeds rest kernel process h.room
  obtain ⟨-, first, chunk, second, halloc, hchunk, rfl⟩ := ends_taskNew htask
  have htakes : TakesPages kernel second :=
    Frame.trans (ends_kzalloc halloc).2.2.1.takesPages ((pagingNew4gb_keeps _).of_ends hchunk)
  have hvolume := congrArg Kernel.volume htakes
  have hdescriptors := congrArg Kernel.fileDescriptors htakes
  exact ⟨task, _, htask, Eq.trans hvolume h.volume,
    Eq.trans (congrFun hdescriptors 0) h.slot, hroom⟩

theorem elfProcessLoaded_flat {bytes : Nat → UInt8} {elfMemory : Nat}
    (hhead : bytes (toUint32 elfMemory) ≠ 0x7f) :
    elfProcessLoaded bytes (elfFileAt elfMemory) = (-einformat, elfFileAt elfMemory) := by
  have hsignature : elfValidSignature bytes elfMemory = false := by
    rw [elfValidSignature]
    refine beq_eq_false_iff_ne.mpr fun heq => hhead ?_
    have hfirst := congrArg List.head? heq
    rw [List.head?_map] at hfirst
    exact Option.some.inj hfirst
  have hvalid : elfValidateLoaded bytes (elfFileAt elfMemory).elfMemory = -einformat := by
    rw [elfValidateLoaded, show (elfFileAt elfMemory).elfMemory = elfMemory from rfl, hsignature]
    rfl
  rw [elfProcessLoaded]
  simp only [hvalid]
  rfl

section Data

variable (hfile : FlatFile volume filename item contents)

include hfile

theorem FlatFile.blockCount_pos : 0 < blockCount item.filesize := by
  have hpos := hfile.pos
  have hlt := hfile.lt
  rw [blockCount_eq (by omega)]
  simp only [slobosHeapBlockSize]
  omega

theorem FlatFile.allocates (hopened : Opened kernel 0 item) (hvolume : kernel.volume = volume)
    (hroom : Room kernel.heap (blockCount item.filesize + rest)) :
    ∃ ptr alloc, Ends (kzalloc item.filesize) kernel ptr alloc ∧ ptr ≠ 0 ∧
      Opened alloc 0 item ∧ alloc.volume = volume ∧ Room alloc.heap rest := by
  have hlt := hfile.lt
  obtain ⟨ptr, alloc, halloc, hne, hroom'⟩ := kzalloc_succeeds hroom rfl hfile.blockCount_pos
    (by simp only [addressSpace]; omega) rest (Nat.le_refl _)
  have htakes := kzalloc_takesMemory halloc
  have hsame := congrArg Kernel.volume htakes
  exact ⟨ptr, alloc, halloc, hne, hopened.congr htakes.fileDescriptors htakes.files,
    Eq.trans hsame hvolume, hroom'⟩

theorem FlatFile.elfLoad_refuses (h : Ready kernel volume (1 + (blockCount item.filesize + rest + 8))) :
    ∃ after, Ends (elfLoad filename) kernel (-einformat, 0) after ∧
      Ready after volume rest := by
  obtain ⟨elfFile, first, hstruct, helfFile, hready⟩ := Ready.alloc
    (show Ready kernel volume (blockCount elfFileSize + _) from h) (by decide) (by decide)
  obtain ⟨second, hopen, hopened, hvolume', hroom'⟩ := hready.opens hfile.toRootFile
  obtain ⟨elfMemory, third, halloc, hne, hopened', hvolume'', hroom''⟩ :=
    hfile.allocates hopened hvolume' hroom'
  have hread := @fread_program (setElfFile elfFile (elfFileAt elfMemory) third) volume filename
    contents elfMemory item _ hfile ⟨hopened'.desc, hopened'.data, hopened'.pos⟩ hvolume'' hne
  generalize hread' : writeBytes elfMemory item.filesize (fun i => contents.getD i 0)
    (setElfFile elfFile (elfFileAt elfMemory) third) = fourth at hread
  have hbelow : elfMemory < addressSpace := by
    have hbound := (ends_kzalloc halloc).2.2.2 hne
    omega
  have hloaded := @elfProcessLoaded_flat (fourth.memory fourth.pages) elfMemory (by
    have hpos := hfile.pos
    rw [← hread', toUint32, Nat.mod_eq_of_lt hbelow]
    change (if elfMemory ≤ elfMemory ∧ elfMemory < elfMemory + item.filesize then
      contents.getD (elfMemory - elfMemory) 0 else _) ≠ _
    rw [if_pos ⟨Nat.le_refl _, by omega⟩, Nat.sub_self]
    exact hfile.head)
  obtain ⟨after, hclose, hclosed⟩ := @Ready.closes
    (setElfFile elfFile (elfFileAt elfMemory) fourth) volume rest item
    (hread' ▸ ⟨⟨hopened'.desc, hopened'.data, hopened'.pos⟩, hopened'.index⟩) (hread' ▸ hvolume'')
    (hread' ▸ hroom'')
  refine ⟨after, ?_, hclosed⟩
  refine ends_bind.mpr ⟨elfFile, first, hstruct, ends_bind.mpr ⟨_, second, hopen, ?_⟩⟩
  rw [if_neg (by decide)]
  refine ends_bind.mpr ⟨_, second, fstat_opened hopened.toOpenFile, ?_⟩
  change Ends (if (0 : Int) < 0 then _ else _) _ _ _
  rw [if_neg (by decide)]
  refine ends_bind.mpr ⟨elfMemory, third, halloc, ?_⟩
  rw [ends_deref_bind helfFile, ends_modify_bind]
  refine ends_bind.mpr ⟨1, fourth, hread, ?_⟩
  rw [if_neg (by decide), ends_deref_bind hne, ends_get_bind, hloaded]
  change Ends (modify _ >>= _) _ _ _
  rw [ends_modify_bind]
  exact ends_bind.mpr ⟨(), after, hclose, ends_pure.mpr ⟨rfl, rfl⟩⟩

theorem FlatFile.loadsBinary (h : Ready kernel volume (blockCount item.filesize + rest + 8)) :
    ∃ after, Ends (processLoadBinary filename process) kernel 0 after ∧
      Ready after volume rest ∧ (after.sched.procs process).filetype = .binary ∧
      (after.processMemory process).size = item.filesize := by
  obtain ⟨first, hopen, hopened, hvolume, hroom⟩ := h.opens hfile.toRootFile
  obtain ⟨ptr, second, halloc, hne, hopened', hvolume', hroom'⟩ :=
    hfile.allocates hopened hvolume hroom
  have hread := @fread_program second volume filename contents ptr item _ hfile
    hopened'.toOpenFile hvolume' hne
  generalize hread' : writeBytes ptr item.filesize (fun i => contents.getD i 0) second = third
    at hread
  generalize hset : setProgramData process .binary ptr item.filesize third = fourth
  obtain ⟨after, hclose, hclosed⟩ := @Ready.closes fourth volume rest item
    (hset ▸ hread' ▸ ⟨⟨hopened'.desc, hopened'.data, hopened'.pos⟩, hopened'.index⟩)
    (hset ▸ hread' ▸ hvolume') (hset ▸ hread' ▸ hroom')
  have hframe := (fclose_keeps _).of_ends hclose
  have hprocs := congrArg (fun kernel => kernel.sched.procs) hframe
  have hmemory := congrArg Kernel.processMemory hframe
  refine ⟨after, ?_, hclosed, ?_, ?_⟩
  · refine ends_bind.mpr ⟨_, first, hopen, ?_⟩
    rw [if_neg (by decide)]
    refine ends_bind.mpr ⟨_, first, fstat_opened hopened.toOpenFile, ?_⟩
    change Ends (if (0 : Int) ≠ 0 then _ else _) _ _ _
    rw [if_neg (by decide)]
    refine ends_bind.mpr ⟨ptr, second, halloc, ?_⟩
    rw [if_neg hne]
    refine ends_bind.mpr ⟨1, third, hread, ?_⟩
    rw [if_neg (by decide), ends_modify_bind]
    refine ends_bind.mpr ⟨(), after, ?_, ends_pure.mpr ⟨rfl, rfl⟩⟩
    rw [hset]
    exact hclose
  · simp only [hprocs, ← hset, setProgramData, setProcess, setProcessMemory, if_true]
  · simp only [hmemory, ← hset, setProgramData, setProcess, setProcessMemory, if_true]

theorem FlatFile.loadsData (h : Ready kernel volume
      (1 + (blockCount item.filesize + (blockCount item.filesize + rest + 8) + 8))) :
    ∃ after, Ends (processLoadData filename process) kernel 0 after ∧
      Ready after volume rest ∧ (after.sched.procs process).filetype = .binary ∧
      (after.processMemory process).size = item.filesize := by
  obtain ⟨refused, helf, hready⟩ := hfile.elfLoad_refuses h
  obtain ⟨after, hbinary, hloaded⟩ :=
    @FlatFile.loadsBinary refused volume filename contents rest process item hfile hready
  refine ⟨after, ends_bind.mpr ⟨-einformat, refused, ?_, ?_⟩, hloaded⟩
  · refine ends_bind.mpr ⟨_, refused, helf, ?_⟩
    change Ends (if (-einformat : Int) < 0 then _ else _) _ _ _
    rw [if_pos (by decide)]
    exact ends_pure.mpr ⟨rfl, rfl⟩
  · rw [if_pos rfl]
    exact hbinary

theorem FlatFile.acquires {slot : Nat} (h : Ready kernel volume (3 + (1 +
      (blockCount item.filesize + (blockCount item.filesize + (1031 + rest) + 8) + 8)))) :
    ∃ process acquired, Acquires filename slot kernel process acquired ∧
      Ready acquired volume rest ∧ (acquired.sched.procs process).filetype = .binary ∧
      (acquired.processMemory process).size = item.filesize := by
  have hprocessBlocks : blockCount processSize = 3 := by decide
  have hstackBlocks : blockCount slobosUserProgramStackSize = 4 := by decide
  obtain ⟨process, first, hprocess, hne, hready⟩ := Ready.alloc
    (hprocessBlocks.symm ▸ h : Ready kernel volume (blockCount processSize + _))
    (by decide) (by decide)
  obtain ⟨second, hdata, hloaded, hfiletype, hsize⟩ :=
    @FlatFile.loadsData (processInit process first) volume filename contents
      (4 + (1027 + rest)) process item hfile
      ⟨hready.volume, hready.slot, hready.room.mono (by omega)⟩
  obtain ⟨stack, third, hstack, hstackNe, hstacked⟩ := Ready.alloc
    (hstackBlocks.symm ▸ hloaded :
      Ready second volume (blockCount slobosUserProgramStackSize + (1027 + rest)))
    (by decide) (by decide)
  obtain ⟨task, fourth, htask, htasked⟩ := @Ready.taskNew (setStack process slot stack third)
    volume rest process ⟨hstacked.volume, hstacked.slot, hstacked.room⟩
  have hkept := acquired_program hstack htask
  exact ⟨process, _, .intro hprocess hne hdata (Int.le_refl 0) hstack hstackNe htask,
    ⟨htasked.volume, htasked.slot, htasked.room⟩,
    hkept.filetype.trans hfiletype, hkept.size.trans hsize⟩

end Data

theorem processMapMemory_binary (h : (kernel.sched.procs process).filetype = .binary) :
    ∃ mapped, Ends (processMapMemory process) kernel 0 mapped := by
  rw [processMapMemory]
  simp only [ends_get_bind, h, ends_modify_bind, processMapMemory_eq, programMapped,
    processMapBinary]
  exact ⟨_, ends_pure.mpr ⟨rfl, rfl⟩⟩

theorem kheapInit_room : Room (kheapInit bootBytes) 25600 where
  toHeapSound := idleKernel_sound unmountedVolume
  le := Nat.le_of_eq (kheapInit_total bootBytes).symm
  window := by
    intro block _ hlt
    rw [Nat.sub_add_cancel (Nat.le_of_eq (kheapInit_total bootBytes).symm)] at hlt
    exact (kheapInit_inv bootBytes).isFree_of_nil hlt

theorem idleKernel_room (volume : Volume) : Room (idleKernel bootBytes volume).heap 25600 :=
  kheapInit_room

theorem FlatFile.loads {slot : Nat} (hfile : FlatFile volume filename item contents)
    (h : Ready kernel volume (3 + (1 +
      (blockCount item.filesize + (blockCount item.filesize + (1031 + rest) + 8) + 8))))
    (hslot : kernel.processGet slot = 0) :
    ∃ process acquired mapped, Acquires filename slot kernel process acquired ∧
      Ends (processMapMemory process) acquired 0 mapped ∧
      Ends (processLoadForSlot filename slot) kernel (0, process)
        (enterSlot slot process mapped) ∧
      Ready acquired volume rest ∧ (acquired.sched.procs process).filetype = .binary ∧
      (acquired.processMemory process).size = item.filesize ∧ process ≠ 0 := by
  obtain ⟨process, acquired, hacquires, hready, hfiletype, hsize⟩ := hfile.acquires h
  obtain ⟨mapped, hmap⟩ := processMapMemory_binary hfiletype
  have hne : process ≠ 0 := by
    cases hacquires with
    | intro _ hne => exact hne
  refine ⟨process, acquired, mapped, hacquires, hmap, ?_, hready, hfiletype, hsize, hne⟩
  refine ends_bind.mpr ⟨.ok process, acquired, hacquires.ends hslot, ?_⟩
  refine ends_bind.mpr ⟨0, mapped, hmap, ?_⟩
  rw [if_neg (by decide), ends_modify_bind]
  exact ends_pure.mpr ⟨rfl, rfl⟩

/-- The load of a flat file succeeds when there is room for the file twice, and for its process. -/
theorem FlatFile.loadStepsSucceed {slot : Nat} (hfile : FlatFile volume filename item contents)
    (h : Ready kernel volume (2 * blockCount item.filesize + 1051)) :
    LoadStepsSucceed filename slot kernel := by
  obtain ⟨process, acquired, hacquires, -, hfiletype, -⟩ :=
    @FlatFile.acquires kernel volume filename contents 0 item hfile slot
      ⟨h.volume, h.slot, h.room.mono (by omega)⟩
  obtain ⟨mapped, hmap⟩ := processMapMemory_binary hfiletype
  exact ⟨process, acquired, 0, mapped, hacquires, hmap, Int.le_refl 0⟩

theorem flatFile_programVolume (hpos : 0 < filesize) (hlt : filesize < 0x80000000) :
    FlatFile (programVolume filesize) rootFilePath (programItem filesize)
      (List.replicate filesize 0) where
  toRootFile := rootFile_programVolume filesize
  pos := hpos
  lt := hlt
  read := rfl
  size := List.length_replicate
  head := by
    cases filesize with
    | zero => exact absurd hpos (Nat.lt_irrefl 0)
    | succ filesize =>
        change (0 : UInt8) ≠ 0x7f
        decide

/-- Up to two megabytes and a bit more the program can be loaded first, and much of the heap is left. -/
theorem processLoadForSlot_program (hpos : 0 < filesize) (hle : filesize ≤ 0x200000) :
    ∃ process acquired mapped,
      Acquires rootFilePath 0 (idleKernel bootBytes (programVolume filesize)) process acquired ∧
      Ends (processMapMemory process) acquired 0 mapped ∧
      Ends (processLoadForSlot rootFilePath 0) (idleKernel bootBytes (programVolume filesize))
        (0, process) (enterSlot 0 process mapped) ∧
      Ready acquired (programVolume filesize) 20000 ∧
      (acquired.sched.procs process).filetype = .binary ∧
      (acquired.processMemory process).size = filesize ∧ process ≠ 0 := by
  have hcount : blockCount filesize ≤ 512 := by
    rw [blockCount_eq (by omega)]
    simp only [slobosHeapBlockSize]
    omega
  exact (flatFile_programVolume hpos (by omega)).loads
    ⟨rfl, rfl, (idleKernel_room _).mono (by
      change _ + (_ + (blockCount filesize + (blockCount filesize + _ + _) + _)) ≤ _
      omega)⟩ rfl

end Kernel

end SlobOS
