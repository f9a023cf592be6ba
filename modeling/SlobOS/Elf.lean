import SlobOS.Paging

/-!
# ELF files in memory

`loader/formats/elf.h` and `elfloader.c`. A file that has been read lies in memory at an address, and
its headers are read there, wherever their offsets lead. Some of the bytes of memory are entries of
page tables, so what is read depends on these.
-/

namespace SlobOS

abbrev Memory := PageTables → Nat → UInt8

def readHalf (bytes : Nat → UInt8) (address : Nat) : Nat :=
  (bytes (toUint32 address)).toNat + 256 * (bytes (toUint32 (address + 1))).toNat

def readWord (bytes : Nat → UInt8) (address : Nat) : Nat :=
  readHalf bytes address + 65536 * readHalf bytes (address + 2)

def pfW : Nat := 0x02
def ptLoad : Nat := 1

def eIdent (bytes : Nat → UInt8) (header i : Nat) : UInt8 := bytes (toUint32 (header + i))
def eEntry (bytes : Nat → UInt8) (header : Nat) : Nat := readWord bytes (header + 24)
def ePhoff (bytes : Nat → UInt8) (header : Nat) : Nat := readWord bytes (header + 28)
def ePhnum (bytes : Nat → UInt8) (header : Nat) : Nat := readHalf bytes (header + 44)

/-- `struct elf32_phdr`, without the two fields that are not read. -/
structure Elf32Phdr where
  pType : Nat
  pOffset : Nat
  pVaddr : Nat
  pFilesz : Nat
  pMemsz : Nat
  pFlags : Nat

def readPhdr (bytes : Nat → UInt8) (address : Nat) : Elf32Phdr where
  pType := readWord bytes address
  pOffset := readWord bytes (address + 4)
  pVaddr := readWord bytes (address + 8)
  pFilesz := readWord bytes (address + 16)
  pMemsz := readWord bytes (address + 20)
  pFlags := readWord bytes (address + 24)

def elf32PhdrSize : Nat := 32

structure ElfFile where
  elfMemory : Nat
  virtualBaseAddress : Nat
  virtualEndAddress : Nat
  physicalBaseAddress : Nat
  physicalEndAddress : Nat

def elfFileAt (elfMemory : Nat) : ElfFile where
  elfMemory := elfMemory
  virtualBaseAddress := 0
  virtualEndAddress := 0
  physicalBaseAddress := 0
  physicalEndAddress := 0

def elfSignature : List UInt8 := [0x7f, 0x45, 0x4c, 0x46]

def elfValidSignature (bytes : Nat → UInt8) (buffer : Nat) : Bool :=
  (List.range 4).map (fun i => bytes (toUint32 (buffer + i))) == elfSignature

def elfValidClass (bytes : Nat → UInt8) (header : Nat) : Bool :=
  eIdent bytes header 4 == 0 || eIdent bytes header 4 == 1

def elfValidEncoding (bytes : Nat → UInt8) (header : Nat) : Bool :=
  eIdent bytes header 5 == 0 || eIdent bytes header 5 == 1

def elfHasProgramHeader (bytes : Nat → UInt8) (header : Nat) : Bool := ePhoff bytes header != 0

def elfPheader (bytes : Nat → UInt8) (header : Nat) : Nat :=
  if ePhoff bytes header = 0 then 0 else toUint32 (header + ePhoff bytes header)

def elfProgramHeader (bytes : Nat → UInt8) (header index : Nat) : Nat :=
  toUint32 (elfPheader bytes header + index * elf32PhdrSize)

def elfPhdrPhysAddr (file : ElfFile) (phdr : Elf32Phdr) : Nat :=
  toUint32 (file.elfMemory + phdr.pOffset)

def elfValidateLoaded (bytes : Nat → UInt8) (header : Nat) : Int :=
  if elfValidSignature bytes header && elfValidClass bytes header &&
      elfValidEncoding bytes header && elfHasProgramHeader bytes header then slobosAllOk
  else -einformat

def elfProcessPhdrPtLoad (file : ElfFile) (phdr : Elf32Phdr) : Int × ElfFile :=
  let file :=
    if file.virtualBaseAddress ≥ phdr.pVaddr ∨ file.virtualBaseAddress = 0 then
      { file with
        virtualBaseAddress := phdr.pVaddr
        physicalBaseAddress := toUint32 (file.elfMemory + phdr.pOffset) }
    else file
  let endVirtualAddress := toUint32 (phdr.pVaddr + phdr.pFilesz)
  let file :=
    if file.virtualEndAddress ≤ endVirtualAddress ∨ file.virtualEndAddress = 0 then
      { file with
        virtualEndAddress := endVirtualAddress
        physicalEndAddress := toUint32 (file.elfMemory + phdr.pOffset + phdr.pFilesz) }
    else file
  (0, file)

def elfProcessPheader (file : ElfFile) (phdr : Elf32Phdr) : Int × ElfFile :=
  if phdr.pType = ptLoad then elfProcessPhdrPtLoad file phdr else (0, file)

/-- `e_phnum` has 16 bits, so the loop ends before `left` does. -/
def elfProcessPheadersLoop (bytes : Nat → UInt8) : Nat → Nat → ElfFile → Int × ElfFile
  | 0, _, file => (0, file)
  | left + 1, i, file =>
      if i < ePhnum bytes file.elfMemory then
        let (res, file) :=
          elfProcessPheader file (readPhdr bytes (elfProgramHeader bytes file.elfMemory i))
        if res < 0 then (res, file) else elfProcessPheadersLoop bytes left (i + 1) file
      else (0, file)

def elfProcessPheaders (bytes : Nat → UInt8) (file : ElfFile) : Int × ElfFile :=
  elfProcessPheadersLoop bytes 65536 0 file

def elfProcessLoaded (bytes : Nat → UInt8) (file : ElfFile) : Int × ElfFile :=
  let res := elfValidateLoaded bytes file.elfMemory
  if res < 0 then (res, file) else elfProcessPheaders bytes file

end SlobOS
