import SlobOS.Config

/-!
# Page tables

`memory/paging/paging.c`. Page directories and page tables are found by address; an entry is the
address of a page or of a table with the flags in its low twelve bits. A ghost field lists the
entries that `paging_set` has stored, the latest first.
-/

namespace SlobOS

def pagingPageSize : Nat := 4096
def pagingTotalEntriesPerTable : Nat := 1024
def pagingAccessFromAll : Nat := 0b00000100
def pagingIsWriteable : Nat := 0b00000010
def pagingIsPresent : Nat := 0b00000001

structure PageTables where
  directories : Nat → Nat → Nat
  tables : Nat → Nat → Nat
  stores : List (Nat × Nat)

def blankPageTables : PageTables where
  directories := fun _ _ => 0
  tables := fun _ _ => 0
  stores := []

def tableAddress (entry : Nat) : Nat := entry / pagingPageSize * pagingPageSize

def pagingAlignAddress (ptr : Nat) : Nat :=
  if ptr % pagingPageSize ≠ 0 then toUint32 (ptr + pagingPageSize - ptr % pagingPageSize) else ptr

def pagingAlignToLowerPage (addr : Nat) : Nat := addr - addr % pagingPageSize

def pagingIsAligned (addr : Nat) : Bool := addr % pagingPageSize == 0

def pagingGetIndexes (virtualAddress : Nat) : Nat × Nat :=
  (virtualAddress / (pagingTotalEntriesPerTable * pagingPageSize),
    virtualAddress % (pagingTotalEntriesPerTable * pagingPageSize) / pagingPageSize)

def pagingSet (pages : PageTables) (directory virt val : Nat) : Int × PageTables :=
  if !pagingIsAligned virt then (-einvarg, pages)
  else
    let (directoryIndex, tableIndex) := pagingGetIndexes virt
    let table := tableAddress (pages.directories directory directoryIndex)
    (0, { pages with
      tables := fun address index =>
        if address = table ∧ index = tableIndex then val else pages.tables address index
      stores := (virt, val) :: pages.stores })

def pagingMap (pages : PageTables) (directory virt phys flags : Nat) : Int × PageTables :=
  if virt % pagingPageSize ≠ 0 ∨ phys % pagingPageSize ≠ 0 then (-einvarg, pages)
  else pagingSet pages directory virt (phys ||| flags)

def pagingMapRange (pages : PageTables) (directory virt phys : Nat) :
    Nat → Nat → Int × PageTables
  | 0, _ => (0, pages)
  | count + 1, flags =>
      let (res, pages) := pagingMap pages directory virt phys flags
      if res < 0 then (res, pages)
      else
        pagingMapRange pages directory (toUint32 (virt + pagingPageSize))
          (toUint32 (phys + pagingPageSize)) count flags

def pagingMapTo (pages : PageTables) (directory virt phys physEnd flags : Nat) :
    Int × PageTables :=
  if virt % pagingPageSize ≠ 0 then (-einvarg, pages)
  else if phys % pagingPageSize ≠ 0 then (-einvarg, pages)
  else if physEnd % pagingPageSize ≠ 0 then (-einvarg, pages)
  else if physEnd < phys then (-einvarg, pages)
  else pagingMapRange pages directory virt phys ((physEnd - phys) / pagingPageSize) flags

/-- The mask of the table has one digit less than the other masks. -/
def pagingGet (pages : PageTables) (directory virt : Nat) : Nat :=
  let (directoryIndex, tableIndex) := pagingGetIndexes virt
  let entry := pages.directories directory directoryIndex
  pages.tables (entry &&& 0xffff000) tableIndex

def pagingGetPhysicalAddress (pages : PageTables) (directory virt : Nat) : Nat :=
  let virtAddrNew := pagingAlignToLowerPage virt
  toUint32 (tableAddress (pagingGet pages directory virtAddrNew) + (virt - virtAddrNew))

def pageEntry (pages : PageTables) (directory page : Nat) : Nat :=
  pages.tables
    (tableAddress (pages.directories directory (page / pagingTotalEntriesPerTable)))
    (page % pagingTotalEntriesPerTable)

def UserWriteable (pages : PageTables) (directory page : Nat) : Prop :=
  pages.directories directory (page / pagingTotalEntriesPerTable) % 8 = 7 ∧
    pageEntry pages directory page % 8 = 7

def Identity (pages : PageTables) (directory page : Nat) : Prop :=
  pages.directories directory (page / pagingTotalEntriesPerTable) % 2 = 1 ∧
    pageEntry pages directory page % 2 = 1 ∧
    pageEntry pages directory page / pagingPageSize = page

end SlobOS
