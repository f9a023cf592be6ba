import SlobOS.Disk

/-!
# Clusters

The part of `fs/fat/fat16.c` that follows the clusters of a file and reads from them. A file is read
in chunks of the size of a cluster, each from the cluster that its first byte lies in.
-/

namespace SlobOS

def slobosFat16FatEntrySize : Int := 2
def slobosFat16BadSector : Int := 0xFF7

/-- The fields of `struct fat_private` that say where the clusters are. -/
structure FatPrivate where
  sectorsPerCluster : UInt8
  reservedSectors : UInt16
  endingSectorPos : Int

namespace FatPrivate

variable (fatPrivate : FatPrivate) (disk : Disk)

def sizeOfClusterBytes : Nat := fatPrivate.sectorsPerCluster.toNat * 512

def fat16ClusterToSector (cluster : Int) : Int :=
  toInt32 (fatPrivate.endingSectorPos + (cluster - 2) * fatPrivate.sectorsPerCluster.toNat)

def fat16GetFirstFatSector : Nat := fatPrivate.reservedSectors.toNat

/-- The position of the table is multiplied with that of the entry. -/
def fat16GetFatEntry (cluster : Int) : Int :=
  let fatTablePosition := fatPrivate.fat16GetFirstFatSector * slobosSectorSize
  let read := diskstreamerRead disk
    (toInt32 (fatTablePosition * (cluster * slobosFat16FatEntrySize))) 2
  if read.res < 0 then read.res
  else ((read.bytes.getD 0 0).toNat + 256 * (read.bytes.getD 1 0).toNat : Nat)

def fat16FollowClusters (getFatEntry : Int → Int) : Nat → Int → Int
  | 0, clusterToUse => clusterToUse
  | left + 1, clusterToUse =>
      let entry := getFatEntry clusterToUse
      if entry = 0xFF8 ∨ entry = 0xFFF then -eio
      else if entry = slobosFat16BadSector then -eio
      else if entry = 0xFF0 ∨ entry = 0xFF6 then -eio
      else if entry = 0x00 then -eio
      else fat16FollowClusters getFatEntry left entry

/-- The cluster that is found where a cluster has a size. -/
def clusterFrom (getFatEntry : Int → Int) (startingCluster offset : Int) : Int :=
  let clustersAhead := offset.tdiv fatPrivate.sizeOfClusterBytes
  fat16FollowClusters getFatEntry clustersAhead.toNat startingCluster

/-- `fat16_get_cluster_for_offset` over the function that reads an entry: the offset is divided by the
size of a cluster. -/
def fat16GetClusterFrom (getFatEntry : Int → Int) (startingCluster offset : Int) : Option Int :=
  if fatPrivate.sizeOfClusterBytes = 0 then none
  else some (fatPrivate.clusterFrom getFatEntry startingCluster offset)

def clusterForOffset (startingCluster offset : Int) : Int :=
  fatPrivate.clusterFrom (fatPrivate.fat16GetFatEntry disk) startingCluster offset

theorem fat16GetClusterFrom_disk (hpos : 0 < fatPrivate.sizeOfClusterBytes)
    (startingCluster offset : Int) :
    fatPrivate.fat16GetClusterFrom (fatPrivate.fat16GetFatEntry disk) startingCluster offset =
      some (fatPrivate.clusterForOffset disk startingCluster offset) :=
  if_neg (Nat.pos_iff_ne_zero.mp hpos)

/-- The position on the disk that is read for an offset in a file, in the cluster found for it. -/
def startingPos (clusterToUse offset : Int) : Int :=
  toInt32 (fatPrivate.fat16ClusterToSector clusterToUse * slobosSectorSize +
    offset.tmod fatPrivate.sizeOfClusterBytes)

/-- The code, and the bytes that are stored, where a cluster has a size. Each chunk shortens the total, so
`left` does not run out when it exceeds the total. -/
def fat16ReadInternalFromStream (cluster : Int) : Nat → Int → Int → Int × List UInt8
  | 0, _, _ => (0, [])
  | left + 1, offset, total =>
      let clusterToUse := fatPrivate.clusterForOffset disk cluster offset
      if clusterToUse < 0 then (clusterToUse, [])
      else
        let totalToRead :=
          if total > fatPrivate.sizeOfClusterBytes then (fatPrivate.sizeOfClusterBytes : Int)
          else total
        let read := diskstreamerRead disk (fatPrivate.startingPos clusterToUse offset) totalToRead
        if read.res ≠ slobosAllOk then (read.res, read.bytes)
        else if total - totalToRead > 0 then
          let (res, bytes) := fat16ReadInternalFromStream cluster left
            (toInt32 (offset + totalToRead)) (total - totalToRead)
          (res, read.bytes ++ bytes)
        else (read.res, read.bytes)

def fat16ReadInternal (startingCluster offset total : Int) : Option (Int × List UInt8) :=
  if fatPrivate.sizeOfClusterBytes = 0 then none
  else some (fatPrivate.fat16ReadInternalFromStream disk startingCluster (total.toNat + 1) offset
    total)

end FatPrivate

end SlobOS
