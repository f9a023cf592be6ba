import SlobOS.Fat16
import SlobOS.Elf

/-!
# A volume and its root directory

The part of `fs/fat/fat16.c` that looks at a disk once: the header, the items of a directory that are
counted, and the root directory that is loaded, with the names of its items. The count ends at a zero
byte on the disk, so it is given the number of slots that it may read, and the copy of a name ends at a
zero byte or a space in memory.
-/

namespace SlobOS

def slobosFat16Signature : UInt8 := 0x29

def fatHeaderSize : Int := 62
def directoryItemSize : Nat := 32

/-- The fields of `struct fat_h` that are read. -/
structure FatHeader where
  sectorsPerCluster : UInt8
  reservedSectors : UInt16
  fatCopies : UInt8
  rootDirEntries : UInt16
  sectorsPerFat : UInt16
  signature : UInt8

def readFatHeader (bytes : Nat → UInt8) : FatHeader where
  sectorsPerCluster := bytes 13
  reservedSectors := UInt16.ofNat (readHalf bytes 14)
  fatCopies := bytes 16
  rootDirEntries := UInt16.ofNat (readHalf bytes 17)
  sectorsPerFat := UInt16.ofNat (readHalf bytes 22)
  signature := bytes 38

/-- `struct fat_directory`, with the bytes that `item` points to. -/
structure FatDirectory where
  item : Nat → UInt8
  total : Int
  sectorPos : Int
  endingSectorPos : Int

def fat16SectorToAbsolute (sector : Int) : Int := toInt32 (sector * slobosSectorSize)

/-- The rounds of `fat16_get_total_items_for_directory`, from a position of the stream on. -/
def fat16CountItems (disk : Disk) : Nat → Int → Int → Option Int
  | 0, _, _ => none
  | left + 1, pos, i =>
      let read := diskstreamerRead disk pos directoryItemSize
      if read.res ≠ slobosAllOk then some (-eio)
      else if read.bytes.getD 0 0 = 0x00 then some i
      else if read.bytes.getD 0 0 = 0xE5 then fat16CountItems disk left read.pos i
      else fat16CountItems disk left read.pos (toInt32 (i + 1))

def fat16GetTotalItemsForDirectory (disk : Disk) (left : Nat) (directoryStartSector : Int) :
    Option Int :=
  fat16CountItems disk left (toInt32 (directoryStartSector * slobosSectorSize)) 0

namespace FatHeader

variable (header : FatHeader)

def rootDirSectorPos : Int :=
  header.fatCopies.toNat * header.sectorsPerFat.toNat + header.reservedSectors.toNat

def rootDirSize : Nat := header.rootDirEntries.toNat * directoryItemSize

/-- `dir` is the memory that `kzalloc` returns, and `held` what lies there. -/
def fat16GetRootDirectory (disk : Disk) (left dir : Nat) (held : Nat → UInt8) :
    Option (Except Int FatDirectory) :=
  match fat16GetTotalItemsForDirectory disk left header.rootDirSectorPos with
  | none => none
  | some totalItems =>
      if dir = 0 then some (.error (-enomem))
      else
        let read := diskstreamerRead disk (fat16SectorToAbsolute header.rootDirSectorPos)
          header.rootDirSize
        if read.res ≠ slobosAllOk then some (.error (-eio))
        else some (.ok
          { item := fun i => if i < header.rootDirSize then read.bytes.getD i 0 else held i
            total := totalItems
            sectorPos := header.rootDirSectorPos
            endingSectorPos := header.rootDirSectorPos + header.rootDirSize / 512 })

end FatHeader

/-- What is left of the header in `struct fat_private`, and its root directory. -/
structure FatVolume where
  header : FatHeader
  rootDirectory : FatDirectory

def fat16Resolve (disk : Disk) (left dir : Nat) (held : Nat → UInt8) :
    Option (Except Int FatVolume) :=
  let read := diskstreamerRead disk 0 fatHeaderSize
  if read.res ≠ slobosAllOk then some (.error (-eio))
  else
    let header := readFatHeader fun i => read.bytes.getD i 0
    if header.signature ≠ slobosFat16Signature then some (.error (-efsnotus))
    else
      match header.fat16GetRootDirectory disk left dir held with
      | none => none
      | some (.error _) => some (.error (-eio))
      | some (.ok rootDirectory) => some (.ok { header := header, rootDirectory := rootDirectory })

def FatVolume.fatPrivate (volume : FatVolume) : FatPrivate where
  sectorsPerCluster := volume.header.sectorsPerCluster
  reservedSectors := volume.header.reservedSectors
  endingSectorPos := volume.rootDirectory.endingSectorPos

/-- What is stored at `out` and behind it: the characters from a position on, and where `out` is left. -/
def fat16ToProperString (bytes : Nat → UInt8) : Nat → Nat → Nat → Option (List (Nat × UInt8) × Nat)
  | 0, _, _ => none
  | left + 1, out, pos =>
      if bytes pos ≠ 0x00 ∧ bytes pos ≠ 0x20 then
        match fat16ToProperString bytes left (out + 1) (pos + 1) with
        | none => none
        | some (stores, out') => some ((out, bytes pos) :: stores, out')
      else if bytes pos = 0x20 then some ([(out, 0x00)], out)
      else some ([], out)

/-- What is stored in `out`, for the bytes of an item and of the memory behind it. -/
def fat16GetFullRelativeFilename (bytes : Nat → UInt8) (left maxLen : Nat) :
    Option (List (Nat × UInt8)) :=
  let cleared := (List.range maxLen).map fun i => (i, 0x00)
  match fat16ToProperString bytes left 0 0 with
  | none => none
  | some (name, outTmp) =>
      if bytes 8 ≠ 0x00 ∧ bytes 8 ≠ 0x20 then
        match fat16ToProperString bytes left (outTmp + 1) 8 with
        | none => none
        | some (ext, _) => some (cleared ++ name ++ (outTmp, 0x2e) :: ext)
      else some (cleared ++ name)

end SlobOS
