import SlobOS.ProcessMap
import SlobOS.Heap
import SlobOS.Lib.Faulting

/-!
# The kernel and its memory

The state that loading, running and ending a program works on, and the parts of `memory/` and
`task/task.c` that take memory from the kernel heap. Structures are found by address, each kind in a
memory of its own. An access to a value that is no address of a structure is a fault. The first page is
mapped, so the path parser, `file_new_descriptor` and `diskstreamer_new` go on behind a store through a
null pointer; what the page tables and tasks would become behind one is not followed, and it is a fault
there.
-/

namespace SlobOS

open Faulting

inductive Fault where
  | nullPointer
  | wildPointer
  | runaway
  | divideError
  | panic

structure ProcessAllocation where
  ptr : Nat
  size : Nat

/-- The fields of `struct process` that say which memory it has: `data` is the union of `ptr` and
`elf_file`. -/
structure ProcessMemory where
  allocations : Nat → ProcessAllocation
  data : Nat
  stack : Nat
  size : Nat

/-- `struct fat_directory_item`: its name as `fat16_get_full_relative_filename` writes it, and the
other fields that are read. -/
structure FatDirectoryItem where
  fullRelativeFilename : List UInt8
  attributes : UInt8
  firstCluster : Nat
  filesize : Nat

/-- `struct fat_item`: the union with what it points to. -/
inductive FatItemData where
  | directory (address : Nat) (item : Nat) (items : List FatDirectoryItem)
  | file (item : Nat) (contents : FatDirectoryItem)

structure FatItem where
  address : Nat
  data : FatItemData

/-- `struct file_descriptor`, with the `struct fat_file_descriptor` that `private` points to. -/
structure FileDescriptor where
  index : Nat
  fatDescriptor : Nat
  item : FatItem
  pos : Nat

/-- What the driver finds on the disk: the items of the root directory and of subdirectories, the
number of items it counts, and what it reads for a first cluster, an offset and a length: the result
with the bytes it stores, if it does not divide by zero. -/
structure Volume where
  mounted : Bool
  rootDirectory : List FatDirectoryItem
  subdirectory : Nat → List FatDirectoryItem
  totalItems : Nat → Int
  readInternal : Int → Int → Int → Option (Int × List UInt8)

structure Kernel where
  heap : Heap
  memory : Memory
  pages : PageTables
  chunks : Nat → Nat
  sched : Sched
  processMemory : Nat → ProcessMemory
  elfFiles : Nat → ElfFile
  fileDescriptors : Nat → Nat
  files : Nat → FileDescriptor
  volume : Volume
  /-- Ghost: how many structures have been stored through a null pointer. -/
  nullStores : Nat := 0

abbrev KernelM := Program Fault Kernel

namespace Kernel

/-- An access to a structure; the run of the code is not followed behind one through a null pointer. -/
def deref (ptr : Nat) : KernelM Unit := if ptr = 0 then throw .nullPointer else pure ()

def noteStore (ptr : Nat) (kernel : Kernel) : Kernel :=
  { kernel with nullStores := kernel.nullStores + if ptr = 0 then 1 else 0 }

/-- A structure is stored. Page 0 is mapped, so a null pointer does not stop the code here. -/
def storeTo (ptr : Nat) : KernelM Unit := modify (noteStore ptr)

def writeBytes (ptr size : Nat) (bytes : Nat → UInt8) (kernel : Kernel) : Kernel :=
  { kernel with memory := fun pages address =>
      if ptr ≤ address ∧ address < ptr + size then bytes (address - ptr)
      else kernel.memory pages address }

/-! ### `kheap.c` -/

def kmalloc (size : Nat) : KernelM Nat := fun kernel =>
  let (ptr, heap) := heapMalloc kernel.heap size
  pure (ptr, { kernel with heap := heap })

def kfree (ptr : Nat) : KernelM Unit :=
  modify fun kernel => { kernel with heap := heapFree kernel.heap ptr }

/-- A `memset` that runs to the end of the address space does not come back. -/
def kzalloc (size : Nat) : KernelM Nat := do
  let ptr ← kmalloc size
  if ptr = 0 then pure 0
  else if addressSpace ≤ ptr + size then throw .runaway
  else do
    modify (writeBytes ptr size fun _ => 0)
    pure ptr

/-! ### `paging.c` -/

def pageTableSize : Nat := 4096
def paging4gbChunkSize : Nat := 4

def setPageTable (entry i flags : Nat) (kernel : Kernel) : Kernel :=
  { kernel with pages := { kernel.pages with
      tables := fun address index =>
        if address = entry ∧ index < pagingTotalEntriesPerTable then
          (i * (pagingTotalEntriesPerTable * pagingPageSize) + index * pagingPageSize) ||| flags
        else kernel.pages.tables address index } }

def setDirectoryEntry (directory i val : Nat) (kernel : Kernel) : Kernel :=
  { kernel with pages := { kernel.pages with
      directories := fun address index =>
        if address = directory ∧ index = i then val
        else kernel.pages.directories address index } }

def setChunk (chunk directory : Nat) (kernel : Kernel) : Kernel :=
  { kernel with chunks := fun address =>
      if address = chunk then directory else kernel.chunks address }

def pagingNewTables (directory flags : Nat) : Nat → Nat → KernelM Unit
  | 0, _ => pure ()
  | left + 1, i => do
      let entry ← kzalloc pageTableSize
      deref entry
      modify (setPageTable entry i flags)
      deref directory
      modify (setDirectoryEntry directory i (entry ||| flags ||| pagingIsWriteable))
      pagingNewTables directory flags left (i + 1)

def pagingNew4gb (flags : Nat) : KernelM Nat := do
  let directory ← kzalloc pageTableSize
  pagingNewTables directory flags pagingTotalEntriesPerTable 0
  let chunk ← kzalloc paging4gbChunkSize
  deref chunk
  modify (setChunk chunk directory)
  pure chunk

def pagingFreeTables (directory : Nat) : Nat → Nat → KernelM Unit
  | 0, _ => pure ()
  | left + 1, i => do
      let kernel ← get
      kfree (tableAddress (kernel.pages.directories directory i))
      pagingFreeTables directory left (i + 1)

def pagingFree4gb (chunk : Nat) : KernelM Unit := do
  deref chunk
  let kernel ← get
  pagingFreeTables (kernel.chunks chunk) 1024 0
  kfree (kernel.chunks chunk)
  kfree chunk

/-! ### `task.c` -/

def taskSize : Nat := 64

def errorPointer (value : Int) : Nat := (value % addressSpace).toNat

def unlinkTask (task : Nat) (kernel : Kernel) : Kernel :=
  { kernel with sched := { kernel.sched with
      list := SlobOS.taskFree kernel.sched.list task } }

def taskFree (task : Nat) : KernelM Unit := do
  deref task
  let kernel ← get
  pagingFree4gb (kernel.sched.list.tasks task).pageDirectory
  modify (unlinkTask task)
  kfree task

def entryPoint (kernel : Kernel) (process : Nat) : Nat :=
  match (kernel.sched.procs process).filetype with
  | .elf =>
      eEntry (kernel.memory kernel.pages)
        (kernel.elfFiles (kernel.processMemory process).data).elfMemory
  | .binary => slobosProgramVirtualAddress

def linkTask (task pageDirectory process : Nat) (kernel : Kernel) : Kernel :=
  { kernel with sched := { kernel.sched with
      list := SlobOS.taskNew kernel.sched.list task
        (taskInit pageDirectory (BitVec.ofNat 32 (entryPoint kernel process)) process) } }

/-- `task_init` and the linking of the task; a failure of `paging_new_4gb` is a fault there. -/
def taskNew (process : Nat) : KernelM Nat := do
  let task ← kzalloc taskSize
  if task = 0 then do
    taskFree task
    pure (errorPointer (-enomem))
  else do
    let pageDirectory ← pagingNew4gb (pagingIsPresent ||| pagingAccessFromAll)
    if pageDirectory = 0 then do
      taskFree task
      pure (errorPointer (-eio))
    else do
      modify (linkTask task pageDirectory process)
      pure task

end Kernel

end SlobOS
