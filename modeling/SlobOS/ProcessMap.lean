import SlobOS.Elf
import SlobOS.Process

/-!
# The mapping of a program

`process_map_memory` and what it calls: the program and its stack are entered into the page directory
of the task, over the identity mapping that is there.
-/

namespace SlobOS

/-- The result of `paging_map_to` is not looked at. -/
def processMapBinary (pages : PageTables) (directory ptr size : Nat) : Int × PageTables :=
  (0, (pagingMapTo pages directory slobosProgramVirtualAddress ptr
    (pagingAlignAddress (toUint32 (ptr + size)))
    (pagingIsPresent ||| pagingAccessFromAll ||| pagingIsWriteable)).2)

def elfPhdrFlags (phdr : Elf32Phdr) : Nat :=
  let flags := pagingIsPresent ||| pagingAccessFromAll
  if phdr.pFlags &&& pfW ≠ 0 then flags ||| pagingIsWriteable else flags

def processMapPhdr (pages : PageTables) (directory : Nat) (file : ElfFile) (phdr : Elf32Phdr) :
    Int × PageTables :=
  let phdrPhysAddress := elfPhdrPhysAddr file phdr
  pagingMapTo pages directory (pagingAlignToLowerPage phdr.pVaddr)
    (pagingAlignToLowerPage phdrPhysAddress)
    (pagingAlignAddress (toUint32 (phdrPhysAddress + phdr.pMemsz))) (elfPhdrFlags phdr)

/-- The header is read anew before every round, and each program header in its round. -/
def processMapElfLoop (memory : Memory) (directory : Nat) (file : ElfFile) (phdrs : Nat) :
    Nat → Nat → PageTables → Int × PageTables
  | 0, _, pages => (0, pages)
  | left + 1, i, pages =>
      if i < ePhnum (memory pages) file.elfMemory then
        let phdr := readPhdr (memory pages) (toUint32 (phdrs + i * elf32PhdrSize))
        let (res, pages) := processMapPhdr pages directory file phdr
        if res < 0 then (res, pages)
        else processMapElfLoop memory directory file phdrs left (i + 1) pages
      else (0, pages)

def processMapElf (memory : Memory) (pages : PageTables) (directory : Nat) (file : ElfFile) :
    Int × PageTables :=
  processMapElfLoop memory directory file (elfPheader (memory pages) file.elfMemory) 65536 0 pages

def phdrsReachedLoop (memory : Memory) (directory : Nat) (file : ElfFile) (phdrs : Nat) :
    Nat → Nat → PageTables → List Elf32Phdr
  | 0, _, _ => []
  | left + 1, i, pages =>
      if i < ePhnum (memory pages) file.elfMemory then
        let phdr := readPhdr (memory pages) (toUint32 (phdrs + i * elf32PhdrSize))
        let (res, pages) := processMapPhdr pages directory file phdr
        phdr ::
          if res < 0 then []
          else phdrsReachedLoop memory directory file phdrs left (i + 1) pages
      else []

def phdrsReached (memory : Memory) (pages : PageTables) (directory : Nat) (file : ElfFile) :
    List Elf32Phdr :=
  phdrsReachedLoop memory directory file (elfPheader (memory pages) file.elfMemory) 65536 0 pages

/-- Of the union of `struct process` the file type selects `ptr` or `elf_file`. The result for the
stack is not looked at. -/
def processMapMemory (memory : Memory) (pages : PageTables) (directory : Nat)
    (filetype : ProcessFiletype) (file : ElfFile) (ptr size stack : Nat) : Int × PageTables :=
  let (res, pages) :=
    match filetype with
    | .elf => processMapElf memory pages directory file
    | .binary => processMapBinary pages directory ptr size
  if res < 0 then (res, pages)
  else
    (res, (pagingMapTo pages directory slobosProgramVirtualStackAddressEnd stack
      (pagingAlignAddress (toUint32 (stack + slobosUserProgramStackSize)))
      (pagingIsPresent ||| pagingAccessFromAll ||| pagingIsWriteable)).2)

end SlobOS
