import SlobOS.Config

/-!
# The block heap

`memory/heap/heap.c` and `kheap.c`. The table holds one byte for each 4096-byte block. Its entries
are read and written through a pointer with an `int` index, so they are modelled as a function of an
integer: the indices outside `[0, total)` are the bytes of memory around the table.
-/

namespace SlobOS

def heapBlockTableEntryTaken : UInt8 := 0x01
def heapBlockTableEntryFree : UInt8 := 0x00
def heapBlockHasNext : UInt8 := 0b10000000
def heapBlockIsFirst : UInt8 := 0b01000000

structure HeapTable where
  entries : Int → UInt8
  total : Nat
  /-- Ghost: the indices written since `heap_create`, latest first. -/
  written : List Int := []

structure Heap where
  table : HeapTable
  saddr : Nat

def Heap.setEntry (heap : Heap) (index : Int) (entry : UInt8) : Heap :=
  { heap with table := { heap.table with
      entries := fun i => if i = index then entry else heap.table.entries i
      written := index :: heap.table.written } }

/-- The pointer difference `end - ptr` is an unsigned 32-bit number here. -/
def heapValidateTable (ptr stop : Nat) (table : HeapTable) : Int :=
  let tableSize := toUint32 (stop + addressSpace - ptr)
  let totalBlocks := tableSize / slobosHeapBlockSize
  if table.total ≠ totalBlocks then -einvarg else 0

def heapValidateAlignment (ptr : Nat) : Bool := ptr % slobosHeapBlockSize == 0

def heapCreate (heap : Heap) (ptr stop : Nat) (table : HeapTable) : Int × Heap :=
  if !heapValidateAlignment ptr || !heapValidateAlignment stop then (-einvarg, heap)
  else
    let heap := { saddr := ptr, table := table }
    let res := heapValidateTable ptr stop table
    if res < 0 then (res, heap)
    else
      (res, { heap with table := { table with
        entries := fun i =>
          if 0 ≤ i ∧ i < table.total then heapBlockTableEntryFree else table.entries i
        written := [] } })

def heapAlignValueToUpper (val : Nat) : Nat :=
  if val % slobosHeapBlockSize = 0 then toUint32 val
  else toUint32 (val - val % slobosHeapBlockSize + slobosHeapBlockSize)

def heapGetEntryType (entry : UInt8) : UInt8 := entry &&& 0x0f

/-- The scan of `heap_get_start_block` with `left` entries to go: `bc` is the length of the run of
free blocks that ends before `i`, and `bs` its start, or `-1`. -/
def heapGetStartBlockLoop (table : HeapTable) (totalBlocks : Nat) :
    Nat → Nat → Nat → Int → Int
  | 0, _, _, bs => bs
  | left + 1, i, bc, bs =>
      if heapGetEntryType (table.entries i) ≠ heapBlockTableEntryFree then
        heapGetStartBlockLoop table totalBlocks left (i + 1) 0 (-1)
      else
        let bs := if bs = -1 then (i : Int) else bs
        let bc := bc + 1
        if bc = totalBlocks then bs
        else heapGetStartBlockLoop table totalBlocks left (i + 1) bc bs

/-- A run that is still too short when the table ends is returned like a run that is long enough. -/
def heapGetStartBlock (heap : Heap) (totalBlocks : Nat) : Int :=
  let bs := heapGetStartBlockLoop heap.table totalBlocks heap.table.total 0 0 (-1)
  if bs = -1 then -enomem else bs

def heapBlockToAddress (heap : Heap) (block : Int) : Nat :=
  ((heap.saddr + block * slobosHeapBlockSize) % addressSpace).toNat

def heapMarkBlocksTakenLoop (endBlock : Int) : Nat → Int → UInt8 → Heap → Heap
  | 0, _, _, heap => heap
  | left + 1, i, entry, heap =>
      let next :=
        if i ≠ endBlock - 1 then heapBlockTableEntryTaken ||| heapBlockHasNext
        else heapBlockTableEntryTaken
      heapMarkBlocksTakenLoop endBlock left (i + 1) next (heap.setEntry i entry)

def heapMarkBlocksTaken (heap : Heap) (startBlock totalBlocks : Int) : Heap :=
  let endBlock := toInt32 (startBlock + totalBlocks - 1)
  let entry := heapBlockTableEntryTaken ||| heapBlockIsFirst
  let entry := if totalBlocks > 1 then entry ||| heapBlockHasNext else entry
  heapMarkBlocksTakenLoop endBlock (endBlock + 1 - startBlock).toNat startBlock entry heap

/-- The address handed out, or `0`. The block count is unsigned in the search and an `int` in the
marking. -/
def heapMallocBlocks (heap : Heap) (totalBlocks : Nat) : Nat × Heap :=
  let startBlock := heapGetStartBlock heap totalBlocks
  if startBlock < 0 then (0, heap)
  else
    (heapBlockToAddress heap startBlock,
      heapMarkBlocksTaken heap startBlock (toInt32 totalBlocks))

def heapMarkBlocksFreeLoop : Nat → Int → Heap → Heap
  | 0, _, heap => heap
  | left + 1, i, heap =>
      let entry := heap.table.entries i
      let heap := heap.setEntry i heapBlockTableEntryFree
      if entry &&& heapBlockHasNext = 0 then heap
      else heapMarkBlocksFreeLoop left (i + 1) heap

def heapMarkBlocksFree (heap : Heap) (startingBlock : Int) : Heap :=
  heapMarkBlocksFreeLoop (heap.table.total - startingBlock).toNat startingBlock heap

/-- The pointer difference is a signed 32-bit number, and the division truncates. -/
def heapAddressToBlock (heap : Heap) (address : Nat) : Int :=
  (toInt32 ((address : Int) - heap.saddr)).tdiv slobosHeapBlockSize

def heapMalloc (heap : Heap) (size : Nat) : Nat × Heap :=
  let alignedSize := heapAlignValueToUpper size
  heapMallocBlocks heap (alignedSize / slobosHeapBlockSize)

def heapFree (heap : Heap) (ptr : Nat) : Heap :=
  heapMarkBlocksFree heap (heapAddressToBlock heap ptr)

def kernelHeapTable (entries : Int → UInt8) : HeapTable :=
  { entries := entries, total := slobosHeapSizeBytes / slobosHeapBlockSize }

def kheapInit (entries : Int → UInt8) : Heap :=
  (heapCreate { saddr := 0, table := kernelHeapTable entries } slobosHeapAddress
    (slobosHeapAddress + slobosHeapSizeBytes) (kernelHeapTable entries)).2

end SlobOS
