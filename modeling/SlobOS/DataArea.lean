import SlobOS.FileClusters

/-!
# The data area

The clusters lie behind the root directory. The driver rounds the size of the directory down to whole
sectors, so the area starts where it should only if the directory fills its sectors. The position of a
cluster in bytes is an `int`, which ends at 2 GiB.
-/

namespace SlobOS

namespace FatHeader

variable (header : FatHeader)

/-- The sectors of the root directory, with one that it only begins. -/
def rootDirSectors : Nat := (header.rootDirSize + 511) / 512

/-- The first sector of a cluster behind the reserved sectors, the tables and the root directory. -/
def layoutSector (cluster : Int) : Int :=
  header.reservedSectors.toNat + header.fatCopies.toNat * header.sectorsPerFat.toNat +
    header.rootDirSectors + (cluster - 2) * header.sectorsPerCluster.toNat

end FatHeader

section Layout

variable {disk : Disk} {left dir : Nat} {held : Nat → UInt8} {volume : FatVolume} {cluster : Int}

theorem fat16GetRootDirectory_endingSectorPos {header : FatHeader} {directory : FatDirectory}
    (h : header.fat16GetRootDirectory disk left dir held = some (.ok directory)) :
    directory.endingSectorPos = header.rootDirSectorPos + (header.rootDirSize / 512 : Nat) := by
  rw [FatHeader.fat16GetRootDirectory] at h
  split at h
  · cases h
  · split at h
    · cases h
    · simp only at h
      split at h
      · cases h
      · cases h
        rfl

theorem fat16Resolve_endingSectorPos (h : fat16Resolve disk left dir held = some (.ok volume)) :
    volume.fatPrivate.endingSectorPos =
      volume.header.rootDirSectorPos + (volume.header.rootDirSize / 512 : Nat) :=
  fat16GetRootDirectory_endingSectorPos (fat16Resolve_ok h).2

theorem rootDirSectors_eq_iff (header : FatHeader) :
    header.rootDirSectors = header.rootDirSize / 512 ↔ header.rootDirSize % 512 = 0 := by
  rw [FatHeader.rootDirSectors]
  omega

theorem toInt32_eq_iff {value value' : Int} (hnonneg : 0 ≤ value')
    (hnear : value ≤ value' ∧ value' ≤ value + 1) :
    toInt32 value = value' ↔ value = value' ∧ value' < 0x80000000 := by
  simp only [toInt32, addressSpace, Int.bmod]
  omega

/-- The sector of a cluster is that of the layout exactly when the root directory fills its sectors
and an `int` can hold the number. -/
theorem clusterToSector_iff (h : fat16Resolve disk left dir held = some (.ok volume))
    (hcluster : 2 ≤ cluster) :
    volume.fatPrivate.fat16ClusterToSector cluster = volume.header.layoutSector cluster ↔
      volume.header.rootDirSize % 512 = 0 ∧ volume.header.layoutSector cluster < 0x80000000 := by
  have hoffset : 0 ≤ (cluster - 2) * (volume.header.sectorsPerCluster.toNat : Int) :=
    Int.mul_nonneg (by omega) (by omega)
  rw [FatPrivate.fat16ClusterToSector, fat16Resolve_endingSectorPos h,
    ← rootDirSectors_eq_iff volume.header]
  simp only [FatHeader.layoutSector, FatHeader.rootDirSectorPos, FatVolume.fatPrivate,
    FatHeader.rootDirSectors]
  generalize (cluster - 2) * (volume.header.sectorsPerCluster.toNat : Int) = offset at hoffset ⊢
  generalize hfats : volume.header.fatCopies.toNat * volume.header.sectorsPerFat.toNat = fats
  have hfats' : (volume.header.fatCopies.toNat : Int) * volume.header.sectorsPerFat.toNat = fats := by
    rw [← hfats]
    exact (Int.natCast_mul _ _).symm
  rw [hfats', toInt32_eq_iff (by omega) (by omega)]
  omega

end Layout

def raggedDisk : Disk where
  sector lba i := if lba = 0 then if i = 17 then 1 else smallBootSector i else 0

def raggedHeader : FatHeader := { smallHeader with rootDirEntries := 1 }

def raggedVolume : FatVolume where
  header := raggedHeader
  rootDirectory := raggedHeader.loadedDirectory raggedDisk (fun _ => 0) 0

theorem raggedDisk_accepted :
    fat16Resolve raggedDisk 1 slobosHeapAddress (fun _ => 0) = some (.ok raggedVolume) := by
  have hheader : diskHeader raggedDisk = raggedHeader := rfl
  have hpos : raggedHeader.rootDirPos = (1024 : Nat) := by decide
  have hcount : fat16CountItems raggedDisk 1 (diskHeader raggedDisk).rootDirPos 0 = some 0 := by
    rw [hheader, hpos, fat16CountItems_succ rfl, slotStart_eq (by decide)]
    rfl
  rw [fat16Resolve_eq (by rw [hheader]; rfl) hcount (by decide), hheader, raggedVolume]

theorem clusterToSector_iff_ragged :
    raggedVolume.fatPrivate.fat16ClusterToSector 2 = raggedVolume.header.layoutSector 2 ↔
      raggedVolume.header.rootDirSize % 512 = 0 ∧
        raggedVolume.header.layoutSector 2 < 0x80000000 :=
  clusterToSector_iff raggedDisk_accepted (by decide)

/-- The first cluster of that volume is looked for in the sector of its root directory. -/
theorem not_clusterToSector : ¬∀ disk left dir held volume cluster,
    fat16Resolve disk left dir held = some (.ok volume) → 2 ≤ cluster →
      volume.fatPrivate.fat16ClusterToSector cluster = volume.header.layoutSector cluster := by
  intro hall
  have hsector := hall _ _ _ _ _ 2 raggedDisk_accepted (by decide)
  exact absurd hsector (by decide)

/-- The read path divides by nothing but a positive number, and the position that it hands to the
stream is that of the offset in its cluster. -/
structure ReadPositioned (fatPrivate : FatPrivate) (cluster : Int) (offset : Nat) : Prop where
  divides : ∀ disk startingCluster total,
    (fatPrivate.fat16ReadInternal disk startingCluster (toInt32 offset) total).isSome
  exact : fatPrivate.startingPos cluster (toInt32 offset) =
    fatPrivate.clusterPos cluster + (offset % fatPrivate.sizeOfClusterBytes : Nat)

/-- The position can be held in an `int`, and the offset too, unless it is a multiple of a cluster size
that is a power of two. -/
structure PositionFits (fatPrivate : FatPrivate) (cluster : Int) (offset : Nat) : Prop where
  sectors : fatPrivate.sectorsPerCluster ≠ 0
  position : fatPrivate.clusterPos cluster + (offset % fatPrivate.sizeOfClusterBytes : Nat) < 0x80000000
  offset : offset < 0x80000000 ∨
    (fatPrivate.sizeOfClusterBytes ∣ offset ∧ fatPrivate.sizeOfClusterBytes ∣ addressSpace)

section Positions

variable {fatPrivate : FatPrivate} {cluster : Int} {offset size : Nat}

theorem sizeOfClusterBytes_ne_zero_iff :
    fatPrivate.sizeOfClusterBytes ≠ 0 ↔ fatPrivate.sectorsPerCluster ≠ 0 := by
  rw [FatPrivate.sizeOfClusterBytes, ne_eq, ne_eq, ← UInt8.toNat_inj]
  change ¬_ = 0 ↔ ¬_ = 0
  omega

theorem fat16ReadInternal_isSome_iff {disk : Disk} {startingCluster offset total : Int} :
    (fatPrivate.fat16ReadInternal disk startingCluster offset total).isSome ↔
      fatPrivate.sizeOfClusterBytes ≠ 0 := by
  rw [FatPrivate.fat16ReadInternal]
  split <;> simp [*]

theorem toInt32_tmod_eq_iff (hoffset : offset < addressSpace) :
    (toInt32 offset).tmod size = (offset % size : Nat) ↔
      offset < 0x80000000 ∨ (size ∣ offset ∧ size ∣ addressSpace) := by
  by_cases hlt : offset < 0x80000000
  · refine iff_of_true ?_ (Or.inl hlt)
    rw [toInt32_of_range (by omega) (by omega), Int.tmod_eq_emod_of_nonneg (by omega)]
    exact (Int.natCast_emod _ _).symm
  rw [or_iff_right hlt]
  have hneg : toInt32 offset = -((addressSpace - offset : Nat) : Int) := by
    simp only [addressSpace] at hoffset
    simp only [toInt32, addressSpace, Int.bmod]
    omega
  have hmod : (toInt32 offset).tmod size = -(((addressSpace - offset) % size : Nat) : Int) := by
    rw [hneg, Int.neg_tmod, Int.tmod_eq_emod_of_nonneg (by omega), ← Int.natCast_emod]
  rw [hmod, Nat.dvd_iff_mod_eq_zero, Nat.dvd_iff_mod_eq_zero]
  have hsum : (addressSpace - offset) + offset = addressSpace := by omega
  constructor
  · intro h
    have hzero : offset % size = 0 := by omega
    have hrest : (addressSpace - offset) % size = 0 := by omega
    refine ⟨hzero, ?_⟩
    rw [← hsum, Nat.add_mod, hzero, hrest]
    rfl
  · rintro ⟨hzero, hspace⟩
    have hrest : (addressSpace - offset) % size = 0 :=
      Nat.mod_eq_zero_of_dvd (Nat.dvd_sub (Nat.dvd_of_mod_eq_zero hspace)
        (Nat.dvd_of_mod_eq_zero hzero))
    rw [hzero, hrest]
    rfl

theorem startingPos_eq (fatPrivate : FatPrivate) (cluster offset : Int) :
    fatPrivate.startingPos cluster offset =
      toInt32 (fatPrivate.clusterPos cluster + offset.tmod fatPrivate.sizeOfClusterBytes) := by
  rw [FatPrivate.startingPos, FatPrivate.fat16ClusterToSector, FatPrivate.clusterPos]
  simp only [toInt32]
  rw [← Int.bmod_add_bmod, Int.bmod_mul_bmod, Int.bmod_add_bmod]

theorem sizeOfClusterBytes_le (fatPrivate : FatPrivate) : fatPrivate.sizeOfClusterBytes ≤ 0x1FE00 := by
  have hlt := fatPrivate.sectorsPerCluster.toNat_lt
  rw [FatPrivate.sizeOfClusterBytes]
  omega

theorem startingPos_eq_iff (hpos : 0 < fatPrivate.sizeOfClusterBytes)
    (hcluster : 0 ≤ fatPrivate.clusterPos cluster) :
    fatPrivate.startingPos cluster (toInt32 offset) =
        fatPrivate.clusterPos cluster + (offset % fatPrivate.sizeOfClusterBytes : Nat) ↔
      fatPrivate.clusterPos cluster + (offset % fatPrivate.sizeOfClusterBytes : Nat) < 0x80000000 ∧
        (toInt32 offset).tmod fatPrivate.sizeOfClusterBytes =
          (offset % fatPrivate.sizeOfClusterBytes : Nat) := by
  have hsize := sizeOfClusterBytes_le fatPrivate
  have hmod := Nat.mod_lt offset hpos
  have hlt := Int.tmod_lt_of_pos (toInt32 offset)
    (show 0 < (fatPrivate.sizeOfClusterBytes : Int) by omega)
  have hgt := Int.lt_tmod_of_pos (toInt32 offset)
    (show 0 < (fatPrivate.sizeOfClusterBytes : Int) by omega)
  rw [startingPos_eq]
  generalize (toInt32 offset).tmod fatPrivate.sizeOfClusterBytes = inCluster at hlt hgt ⊢
  simp only [toInt32, addressSpace, Int.bmod]
  omega

end Positions

theorem clusterPos_nonneg {disk : Disk} {left dir : Nat} {held : Nat → UInt8} {volume : FatVolume}
    {cluster : Int} (h : fat16Resolve disk left dir held = some (.ok volume)) (hcluster : 2 ≤ cluster) :
    0 ≤ volume.fatPrivate.clusterPos cluster := by
  have hoffset : 0 ≤ (cluster - 2) * (volume.fatPrivate.sectorsPerCluster.toNat : Int) :=
    Int.mul_nonneg (by omega) (by omega)
  have hfats : 0 ≤ (volume.header.fatCopies.toNat : Int) * volume.header.sectorsPerFat.toNat :=
    Int.mul_nonneg (by omega) (by omega)
  rw [FatPrivate.clusterPos, fat16Resolve_endingSectorPos h, FatHeader.rootDirSectorPos,
    slobosSectorSize]
  omega

/-- For an accepted volume the reads are positioned right exactly where the positions fit. -/
theorem readPositioned_iff {disk : Disk} {left dir : Nat} {held : Nat → UInt8} {volume : FatVolume}
    {cluster : Int} {offset : Nat} (h : fat16Resolve disk left dir held = some (.ok volume))
    (hcluster : 2 ≤ cluster) (hoffset : offset < addressSpace) :
    ReadPositioned volume.fatPrivate cluster offset ↔
      PositionFits volume.fatPrivate cluster offset := by
  have hnonneg := clusterPos_nonneg h hcluster
  constructor
  · intro hread
    have hsize := fat16ReadInternal_isSome_iff.mp (hread.divides disk 0 0)
    have hpos := Nat.pos_of_ne_zero hsize
    obtain ⟨hposition, hmod⟩ := (startingPos_eq_iff hpos hnonneg).mp hread.exact
    exact ⟨sizeOfClusterBytes_ne_zero_iff.mp hsize, hposition, (toInt32_tmod_eq_iff hoffset).mp hmod⟩
  · intro hfits
    have hsize := sizeOfClusterBytes_ne_zero_iff.mpr hfits.sectors
    have hmod := (toInt32_tmod_eq_iff hoffset).mpr hfits.offset
    refine ⟨fun _ _ _ => fat16ReadInternal_isSome_iff.mpr hsize, ?_⟩
    apply (startingPos_eq_iff (Nat.pos_of_ne_zero hsize) hnonneg).mpr
    exact ⟨hfits.position, hmod⟩

theorem readPositioned_iff_ragged : ReadPositioned raggedVolume.fatPrivate 2 0 ↔
    PositionFits raggedVolume.fatPrivate 2 0 :=
  readPositioned_iff raggedDisk_accepted (by decide) (by decide)

/-- The number of sectors in the boot sector, in the short field or in the long one. -/
def numberOfSectors (disk : Disk) : Nat :=
  if readHalf disk.byte 19 ≠ 0 then readHalf disk.byte 19 else readWord disk.byte 32

def DataCluster (disk : Disk) (volume : FatVolume) (cluster : Int) : Prop :=
  2 ≤ cluster ∧ volume.rootDirectory.endingSectorPos +
    (cluster - 1) * volume.header.sectorsPerCluster.toNat ≤ numberOfSectors disk

/-- A volume of 3 GiB in clusters of 64 KiB, with an empty root directory. -/
def largeDisk : Disk where
  sector lba i :=
    if lba = 0 then
      if i = 13 then 128 else if i = 22 then 192 else if i = 34 then 0x60 else smallBootSector i
    else 0

def largeHeader : FatHeader := { smallHeader with sectorsPerCluster := 128, sectorsPerFat := 192 }

def largeVolume : FatVolume where
  header := largeHeader
  rootDirectory := largeHeader.loadedDirectory largeDisk (fun _ => 0) 0

theorem largeDisk_accepted :
    fat16Resolve largeDisk 1 slobosHeapAddress (fun _ => 0) = some (.ok largeVolume) := by
  have hheader : diskHeader largeDisk = largeHeader := rfl
  have hpos : largeHeader.rootDirPos = (98816 : Nat) := by decide
  have hcount : fat16CountItems largeDisk 1 (diskHeader largeDisk).rootDirPos 0 = some 0 := by
    rw [hheader, hpos, fat16CountItems_succ rfl, slotStart_eq (by decide)]
    rfl
  rw [fat16Resolve_eq (by rw [hheader]; rfl) hcount (by decide), hheader, largeVolume]

/-- A cluster behind 2 GiB has a negative position. -/
theorem not_readPositioned : ¬∀ disk left dir held volume cluster offset,
    fat16Resolve disk left dir held = some (.ok volume) → DataCluster disk volume cluster →
      offset < addressSpace → ReadPositioned volume.fatPrivate cluster offset := by
  intro hall
  have hread := hall _ _ _ _ _ 40000 0 largeDisk_accepted ⟨by decide, by decide⟩ (by decide)
  exact absurd hread.exact (by decide)

end SlobOS
