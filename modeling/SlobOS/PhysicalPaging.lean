import SlobOS.SystemCommands

/-!
# Page tables as words of memory

`memory/paging/paging.c` and `copy_string_from_task` of `task/task.c`, with the directory, the page
tables and the chunk structure as words of the memory that all stores go to, as little-endian words. An
access through a null pointer is a fault. The table of the heap is kept apart from memory, and so are
the code and the stack of the kernel, which stay mapped while it runs on the directory of a task.
-/

namespace SlobOS

namespace Physical

open Faulting Kernel

def bytes (kernel : Kernel) : Nat → UInt8 := kernel.memory kernel.pages

def word (kernel : Kernel) (base index : Nat) : Nat := readWord (bytes kernel) (base + 4 * index)

def loadWord (base index : Nat) : KernelM Nat := do
  deref base
  let kernel ← get
  pure (word kernel base index)

def storeWord (base index val : Nat) : KernelM Unit := do
  deref base
  modify (putMemory (base + 4 * index) (wordBytes val))

/-! ### `paging.c` -/

def pagingFillTable (entry flags : Nat) (offset : Int) : Nat → Nat → KernelM Unit
  | 0, _ => pure ()
  | left + 1, b => do
      storeWord entry b (((offset + b * pagingPageSize) % addressSpace).toNat ||| flags)
      pagingFillTable entry flags offset left (b + 1)

def pagingNewTable (directory flags i : Nat) (offset : Int) : KernelM Unit := do
  let entry ← kzalloc pageTableSize
  pagingFillTable entry flags offset pagingTotalEntriesPerTable 0
  storeWord directory i (entry ||| flags ||| pagingIsWriteable)

def pagingNewTables (directory flags : Nat) : Nat → Nat → Int → KernelM Unit
  | 0, _, _ => pure ()
  | left + 1, i, offset => do
      pagingNewTable directory flags i offset
      pagingNewTables directory flags left (i + 1)
        (toInt32 (offset + pagingTotalEntriesPerTable * pagingPageSize))

def pagingNew4gb (flags : UInt8) : KernelM Nat := do
  let directory ← kzalloc pageTableSize
  pagingNewTables directory flags.toNat pagingTotalEntriesPerTable 0 0
  let chunk4gb ← kzalloc paging4gbChunkSize
  storeWord chunk4gb 0 directory
  pure chunk4gb

def paging4gbChunkGetDirectory (chunk : Nat) : KernelM Nat := loadWord chunk 0

def pagingSet (directory virt val : Nat) : KernelM Int :=
  if !pagingIsAligned virt then pure (-einvarg)
  else do
    let (directoryIndex, tableIndex) := pagingGetIndexes virt
    let entry ← loadWord directory directoryIndex
    storeWord (tableAddress entry) tableIndex val
    pure 0

def pagingMap (chunk virt phys flags : Nat) : KernelM Int :=
  if virt % pagingPageSize ≠ 0 ∨ phys % pagingPageSize ≠ 0 then pure (-einvarg)
  else do
    let directory ← loadWord chunk 0
    pagingSet directory virt (phys ||| flags)

def pagingMapRange (chunk virt phys : Nat) : Nat → Nat → KernelM Int
  | 0, _ => pure 0
  | count + 1, flags => do
      let res ← pagingMap chunk virt phys flags
      if res < 0 then pure res
      else
        pagingMapRange chunk (toUint32 (virt + pagingPageSize)) (toUint32 (phys + pagingPageSize))
          count flags

def pagingMapTo (chunk virt phys physEnd flags : Nat) : KernelM Int :=
  if virt % pagingPageSize ≠ 0 then pure (-einvarg)
  else if phys % pagingPageSize ≠ 0 then pure (-einvarg)
  else if physEnd % pagingPageSize ≠ 0 then pure (-einvarg)
  else if physEnd < phys then pure (-einvarg)
  else pagingMapRange chunk virt phys ((physEnd - phys) / pagingPageSize) flags

/-- The indices stay `0` for an address that is not aligned. -/
def pagingGet (directory virt : Nat) : KernelM Nat := do
  let (directoryIndex, tableIndex) :=
    if pagingIsAligned virt then pagingGetIndexes virt else (0, 0)
  let entry ← loadWord directory directoryIndex
  loadWord (entry &&& 0xffff000) tableIndex

def pagingGetPhysicalAddress (directory virt : Nat) : KernelM Nat := do
  let virtAddrNew := pagingAlignToLowerPage virt
  let entry ← pagingGet directory virtAddrNew
  pure (toUint32 (tableAddress entry + (virt - virtAddrNew)))

def pagingFreeTables (chunk : Nat) : Nat → Nat → KernelM Unit
  | 0, _ => pure ()
  | left + 1, i => do
      let directory ← loadWord chunk 0
      let entry ← loadWord directory i
      kfree (tableAddress entry)
      pagingFreeTables chunk left (i + 1)

def pagingFree4gb (chunk : Nat) : KernelM Unit := do
  pagingFreeTables chunk 1024 0
  let directory ← loadWord chunk 0
  kfree directory
  kfree chunk

/-! ### `string.c`, on a page directory -/

def walk (directory virt : Nat) (kernel : Kernel) : Option Nat :=
  let entry := word kernel (tableAddress directory)
    (virt / (pagingTotalEntriesPerTable * pagingPageSize))
  let page := word kernel (tableAddress entry)
    (virt / pagingPageSize % pagingTotalEntriesPerTable)
  if entry % 2 = 1 ∧ page % 2 = 1 then some (tableAddress page + virt % pagingPageSize) else none

def kernelPlace (virt : Nat) (_ : Kernel) : Option Nat := some virt

variable (place : Nat → Kernel → Option Nat)

def loadByte (address : Nat) : KernelM UInt8 := do
  let kernel ← get
  match place (toUint32 address) kernel with
  | none => throw .wildPointer
  | some physical => pure (bytes kernel physical)

def storeByte (address : Nat) (byte : UInt8) : KernelM Unit := do
  let kernel ← get
  match place (toUint32 address) kernel with
  | none => throw .wildPointer
  | some physical => modify (putMemory physical [byte])

def strncpyLoop (dest src : Nat) : Nat → Nat → KernelM Unit
  | 0, i => storeByte place (dest + i) 0
  | left + 1, i => do
      let byte ← loadByte place (src + i)
      if byte = 0 then storeByte place (dest + i) 0
      else do
        storeByte place (dest + i) byte
        strncpyLoop dest src left (i + 1)

def strncpy (dest src : Nat) (count : Int) : KernelM Unit :=
  strncpyLoop place dest src (count - 1).toNat 0

/-! ### `task.c` -/

/-- `chunk` is the page directory of the task. -/
def copyStringFromTask (chunk virtual phys : Nat) (max : Int) : KernelM Int :=
  if max ≥ pagingPageSize then pure (-einvarg)
  else do
    let tmp ← kzalloc (max % addressSpace).toNat
    if tmp = 0 then pure (-enomem)
    else do
      let taskDirectory ← loadWord chunk 0
      let oldEntry ← pagingGet taskDirectory tmp
      let _ ← pagingMap chunk tmp tmp (pagingIsWriteable ||| pagingIsPresent ||| pagingAccessFromAll)
      let directory ← loadWord chunk 0
      strncpy (walk directory) tmp virtual max
      let res ← pagingSet taskDirectory tmp oldEntry
      if res < 0 then do
        kfree tmp
        pure (-eio)
      else do
        strncpy kernelPlace phys tmp max
        kfree tmp
        pure res

end Physical

end SlobOS
