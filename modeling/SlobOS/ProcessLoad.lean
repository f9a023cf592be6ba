import SlobOS.Files

/-!
# Programs from load to end

`elf_load` of `loader/formats/elfloader.c`, and the functions of `task/process.c` that load a program,
serve its memory requests and end it.
-/

namespace SlobOS

namespace Kernel

open Faulting

/-! ### `elfloader.c` -/

def elfFileSize : Nat := 132

def setElfFile (elfFile : Nat) (file : ElfFile) (kernel : Kernel) : Kernel :=
  { kernel with elfFiles := fun address =>
      if address = elfFile then file else kernel.elfFiles address }

def elfLoad (filename : List UInt8) : KernelM (Int × Nat) := do
  let elfFile ← kzalloc elfFileSize
  let fd ← fopen filename modeRead
  if fd ≤ 0 then do
    fclose 0
    pure (-eio, 0)
  else do
    let (res, filesize) ← fstat fd
    if res < 0 then do
      fclose fd
      pure (res, 0)
    else do
      let elfMemory ← kzalloc filesize
      deref elfFile
      modify (setElfFile elfFile (elfFileAt elfMemory))
      let res ← fread elfMemory filesize 1 fd
      if res < 0 then do
        fclose fd
        pure (res, 0)
      else do
        deref elfMemory
        let kernel ← get
        let (res, file) := elfProcessLoaded (kernel.memory kernel.pages) (elfFileAt elfMemory)
        modify (setElfFile elfFile file)
        fclose fd
        pure (res, if res < 0 then 0 else elfFile)

def elfClose (file : Nat) : KernelM Unit := do
  if file = 0 then pure ()
  else do
    let kernel ← get
    kfree (kernel.elfFiles file).elfMemory
    kfree file

/-! ### `process_load` -/

def processSize : Nat := 9364

def setProcess (process : Nat) (value : Process) (kernel : Kernel) : Kernel :=
  { kernel with sched := { kernel.sched with procs := fun address =>
      if address = process then value else kernel.sched.procs address } }

def setProcessMemory (process : Nat) (value : ProcessMemory) (kernel : Kernel) : Kernel :=
  { kernel with processMemory := fun address =>
      if address = process then value else kernel.processMemory address }

/-- The contents of a process and of its memory after a `memset` to zero. -/
def blankProcess : Process := { id := 0, task := 0, filetype := .elf, keyboard := emptyKeyboard }
def blankProcessMemory : ProcessMemory :=
  { allocations := fun _ => { ptr := 0, size := 0 }, data := 0, stack := 0, size := 0 }

def processInit (process : Nat) (kernel : Kernel) : Kernel :=
  setProcess process blankProcess (setProcessMemory process blankProcessMemory kernel)

def setProgramData (process : Nat) (filetype : ProcessFiletype) (data size : Nat)
    (kernel : Kernel) : Kernel :=
  setProcess process { kernel.sched.procs process with filetype := filetype }
    (setProcessMemory process { kernel.processMemory process with data := data, size := size }
      kernel)

def setStack (process slot stack : Nat) (kernel : Kernel) : Kernel :=
  setProcess process { kernel.sched.procs process with id := slot }
    (setProcessMemory process { kernel.processMemory process with stack := stack } kernel)

def setTask (process task : Nat) (kernel : Kernel) : Kernel :=
  setProcess process { kernel.sched.procs process with task := task } kernel

def enterSlot (slot process : Nat) (kernel : Kernel) : Kernel :=
  { kernel with sched := { kernel.sched with
      processes := fun i => if i = slot then process else kernel.sched.processes i } }

def processLoadBinary (filename : List UInt8) (process : Nat) : KernelM Int := do
  let fd ← fopen filename modeRead
  if fd = 0 then do
    fclose fd
    pure (-eio)
  else do
    let (res, filesize) ← fstat fd
    if res ≠ slobosAllOk then do
      fclose fd
      pure res
    else do
      let programDataPtr ← kzalloc filesize
      if programDataPtr = 0 then do
        fclose fd
        pure (-enomem)
      else do
        let count ← fread programDataPtr filesize 1 fd
        if count ≠ 1 then do
          fclose fd
          pure (-eio)
        else do
          modify (setProgramData process .binary programDataPtr filesize)
          fclose fd
          pure res

def processLoadElf (filename : List UInt8) (process : Nat) : KernelM Int := do
  let (res, elfFile) ← elfLoad filename
  if res < 0 then pure res
  else do
    modify fun kernel =>
      setProgramData process .elf elfFile (kernel.processMemory process).size kernel
    pure res

def processLoadData (filename : List UInt8) (process : Nat) : KernelM Int := do
  let res ← processLoadElf filename process
  if res = -einformat then processLoadBinary filename process else pure res

def directoryOf (kernel : Kernel) (process : Nat) : Nat :=
  kernel.chunks (kernel.sched.list.tasks (kernel.sched.procs process).task).pageDirectory

def setPages (pages : PageTables) (kernel : Kernel) : Kernel := { kernel with pages := pages }

def processMapMemory (process : Nat) : KernelM Int := do
  let kernel ← get
  let own := kernel.processMemory process
  let (res, pages) := SlobOS.processMapMemory kernel.memory kernel.pages
    (kernel.directoryOf process) (kernel.sched.procs process).filetype
    (kernel.elfFiles own.data) own.data own.size own.stack
  modify (setPages pages)
  pure res

def processGet (kernel : Kernel) (processId : Nat) : Nat :=
  if processId ≥ slobosMaxProcesses then 0 else kernel.sched.processes processId

/-- `process_load_for_slot` up to the mapping: the process with its task, or the code to return. A
slot that is taken leaves the pointer to the process without a value, and it is read then. -/
def processAcquire (filename : List UInt8) (slot : Nat) : KernelM (Except Int Nat) := do
  let kernel ← get
  if kernel.processGet slot ≠ 0 then throw .wildPointer
  else do
    let process ← kzalloc processSize
    if process = 0 then pure (.error (-enomem))
    else do
      modify (processInit process)
      let res ← processLoadData filename process
      if res < 0 then pure (.error res)
      else do
        let programStackPtr ← kzalloc slobosUserProgramStackSize
        if programStackPtr = 0 then pure (.error (-enomem))
        else do
          modify (setStack process slot programStackPtr)
          let task ← taskNew process
          if task = 0 then pure (.error 0)
          else do
            modify (setTask process task)
            pure (.ok process)

/-- The code, and the process if it has been entered into the slot. -/
def processLoadForSlot (filename : List UInt8) (slot : Nat) : KernelM (Int × Nat) := do
  let acquired ← processAcquire filename slot
  match acquired with
  | .error res => pure (res, 0)
  | .ok process => do
      let res ← processMapMemory process
      if res < 0 then do
        let kernel ← get
        taskFree (kernel.sched.procs process).task
        pure (res, 0)
      else do
        modify (enterSlot slot process)
        pure (res, process)

def processLoad (filename : List UInt8) : KernelM (Int × Nat) := do
  let kernel ← get
  match processGetFreeSlot kernel.sched with
  | none => pure (-eistkn, 0)
  | some slot => processLoadForSlot filename slot

/-! ### The memory of a process -/

def setAllocations (process : Nat) (allocations : Nat → ProcessAllocation) (kernel : Kernel) :
    Kernel :=
  setProcessMemory process { kernel.processMemory process with allocations := allocations } kernel

def processFindFreeAllocationIndex (own : ProcessMemory) : Option Nat :=
  (List.range slobosMaxProgramAllocations).find? fun i => (own.allocations i).ptr = 0

def processMalloc (process size : Nat) : KernelM Nat := do
  let ptr ← kzalloc size
  if ptr = 0 then pure 0
  else do
    let kernel ← get
    match processFindFreeAllocationIndex (kernel.processMemory process) with
    | none => do
        kfree ptr
        pure 0
    | some index => do
        let (res, pages) := pagingMapTo kernel.pages (kernel.directoryOf process) ptr ptr
          (pagingAlignAddress (toUint32 (ptr + size)))
          (pagingIsWriteable ||| pagingIsPresent ||| pagingAccessFromAll)
        modify (setPages pages)
        if res < 0 then do
          kfree ptr
          pure 0
        else do
          modify fun kernel => setAllocations process (fun i =>
            if i = index then { ptr := ptr, size := size }
            else (kernel.processMemory process).allocations i) kernel
          pure ptr

def processIsProcessPointer (own : ProcessMemory) (ptr : Nat) : Bool :=
  (List.range slobosMaxProgramAllocations).any fun i => (own.allocations i).ptr = ptr

def processGetAllocationByAddr (own : ProcessMemory) (addr : Nat) : Option ProcessAllocation :=
  ((List.range slobosMaxProgramAllocations).find? fun i => (own.allocations i).ptr = addr).map
    own.allocations

def processUnjoinAllocationArray (process ptr : Nat) (kernel : Kernel) : Kernel :=
  setAllocations process (fun i =>
    if i < slobosMaxProgramAllocations ∧ ((kernel.processMemory process).allocations i).ptr = ptr
    then { ptr := 0, size := 0 } else (kernel.processMemory process).allocations i) kernel

def processFree (process ptr : Nat) : KernelM Unit := do
  let kernel ← get
  if !processIsProcessPointer (kernel.processMemory process) ptr then pure ()
  else
    match processGetAllocationByAddr (kernel.processMemory process) ptr with
    | none => pure ()
    | some allocation => do
        let (res, pages) := pagingMapTo kernel.pages (kernel.directoryOf process) allocation.ptr
          allocation.ptr (pagingAlignAddress (toUint32 (allocation.ptr + allocation.size))) 0x00
        modify (setPages pages)
        if res < 0 then pure ()
        else do
          modify (processUnjoinAllocationArray process ptr)
          kfree ptr

/-! ### The end of a process -/

def processTerminateAllocations (process : Nat) : Nat → Nat → KernelM Unit
  | 0, _ => pure ()
  | left + 1, i => do
      let kernel ← get
      processFree process ((kernel.processMemory process).allocations i).ptr
      processTerminateAllocations process left (i + 1)

/-- `process_free_elf_data` has no return statement, so the result of an ELF program is any value. -/
def processFreeProgramData (process : Nat) (elfResult : Int) : KernelM Int := do
  let kernel ← get
  match (kernel.sched.procs process).filetype with
  | .elf => do
      elfClose (kernel.processMemory process).data
      pure elfResult
  | .binary => do
      kfree (kernel.processMemory process).data
      pure 0

def processUnlink (process : Nat) : KernelM Unit := do
  let kernel ← get
  match SlobOS.processUnlink kernel.sched process with
  | none => throw .panic
  | some sched => modify fun kernel => { kernel with sched := sched }

def processTerminate (process : Nat) (elfResult : Int) : KernelM Int := do
  processTerminateAllocations process slobosMaxProgramAllocations 0
  let res ← processFreeProgramData process elfResult
  if res < 0 then pure res
  else do
    let kernel ← get
    kfree (kernel.processMemory process).stack
    taskFree (kernel.sched.procs process).task
    processUnlink process
    pure res

def blankFileDescriptor : FileDescriptor :=
  { index := 0, fatDescriptor := 0, item := { address := 0, data := .directory 0 0 [] }, pos := 0 }

def idleKernel (entries : Int → UInt8) (volume : Volume) : Kernel where
  heap := kheapInit entries
  memory := fun _ _ => 0
  pages := blankPageTables
  chunks := fun _ => 0
  sched :=
    { list := emptyTaskList fun _ => taskInit 0 0 0
      procs := fun _ => blankProcess
      processes := fun _ => 0
      currentProcess := 0 }
  processMemory := fun _ => blankProcessMemory
  elfFiles := fun _ => elfFileAt 0
  fileDescriptors := fun _ => 0
  files := fun _ => blankFileDescriptor
  volume := volume

end Kernel

end SlobOS
