import Mathlib.Data.Nat.Find
import SlobOS.Proof.Streams
import SlobOS.FatVolume

/-!
# The size of the root directory

The items of the root directory are counted up to the first slot that starts with a zero byte. The
number of slots in the header is not looked at, so it bounds the count only if one of these slots ends
the directory.
-/

namespace SlobOS

def slotStart (disk : Disk) (pos : Int) (i : Nat) : UInt8 :=
  (diskstreamerRead disk (toInt32 (pos + (directoryItemSize * i : Nat)))
    directoryItemSize).bytes.getD 0 0

def liveCount (disk : Disk) (pos : Int) (count : Nat) : Nat :=
  (List.range count).countP fun i => slotStart disk pos i ≠ 0xE5

def diskHeader (disk : Disk) : FatHeader :=
  readFatHeader fun i => (diskstreamerRead disk 0 fatHeaderSize).bytes.getD i 0

def FatHeader.rootDirPos (header : FatHeader) : Int := fat16SectorToAbsolute header.rootDirSectorPos

/-- The count comes back after at most as many slots as the root directory has, and the total that is
stored for an accepted volume counts none but these. -/
structure DirectoryBounded (disk : Disk) : Prop where
  examined : (fat16GetTotalItemsForDirectory disk (diskHeader disk).rootDirEntries.toNat
    (diskHeader disk).rootDirSectorPos).isSome
  stored : ∀ left dir held volume, fat16Resolve disk left dir held = some (.ok volume) →
    0 ≤ volume.rootDirectory.total ∧
      volume.rootDirectory.total ≤ volume.header.rootDirEntries.toNat

/-- One of the slots of the root directory ends it. -/
def Terminated (disk : Disk) : Prop :=
  ∃ i < (diskHeader disk).rootDirEntries.toNat, slotStart disk (diskHeader disk).rootDirPos i = 0x00

section Count

variable {disk : Disk} {pos i : Int} {left j : Nat}

theorem slotStart_succ (disk : Disk) (pos : Int) (j : Nat) :
    slotStart disk (toInt32 (pos + directoryItemSize)) j = slotStart disk pos (j + 1) := by
  have hsum : pos + (directoryItemSize : Int) + (directoryItemSize * j : Nat) =
      pos + (directoryItemSize * (j + 1) : Nat) := by
    rw [directoryItemSize]
    omega
  rw [slotStart, slotStart, toInt32_add, hsum]

theorem slotStart_zero (hpos : toInt32 pos = pos) :
    slotStart disk pos 0 = (diskstreamerRead disk pos directoryItemSize).bytes.getD 0 0 := by
  rw [slotStart, Nat.mul_zero, Int.natCast_zero, Int.add_zero, hpos]

theorem slotStart_eq {pos : Nat} (hend : pos + directoryItemSize * (j + 1) < 0x80000000) :
    slotStart disk pos j = disk.byte (pos + directoryItemSize * j) := by
  rw [directoryItemSize] at hend
  have hpos : toInt32 ((pos : Int) + (directoryItemSize * j : Nat)) =
      (pos + directoryItemSize * j : Nat) := by
    rw [toInt32_of_range (by rw [directoryItemSize]; omega) (by rw [directoryItemSize]; omega)]
    exact (Int.natCast_add _ _).symm
  rw [slotStart, hpos, (diskstreamerRead_eq (by rw [directoryItemSize]; omega)).1,
    Disk.bytes_getD (by decide), Nat.add_zero]

theorem liveCount_succ (disk : Disk) (pos : Int) (count : Nat) :
    liveCount disk pos (count + 1) = (if slotStart disk pos 0 = 0xE5 then 0 else 1) +
      liveCount disk (toInt32 (pos + directoryItemSize)) count := by
  rw [liveCount, List.range_succ_eq_map, List.countP_cons, List.countP_map, liveCount, Nat.add_comm]
  congr 1
  · by_cases hdeleted : slotStart disk pos 0 = 0xE5 <;> simp [hdeleted]
  · apply List.countP_congr
    intro k _
    rw [slotStart_succ]
    exact Iff.rfl

theorem liveCount_le (disk : Disk) (pos : Int) (count : Nat) : liveCount disk pos count ≤ count :=
  Nat.le_trans List.countP_le_length (Nat.le_of_eq List.length_range)

theorem fat16CountItems_succ (hpos : toInt32 pos = pos) :
    fat16CountItems disk (left + 1) pos i =
      if slotStart disk pos 0 = 0x00 then some i
      else fat16CountItems disk left (toInt32 (pos + directoryItemSize))
        (if slotStart disk pos 0 = 0xE5 then i else toInt32 (i + 1)) := by
  rw [fat16CountItems, slotStart_zero hpos]
  simp only [(diskstreamerRead_length disk pos directoryItemSize).1, slobosAllOk, ne_eq,
    not_true_eq_false, if_false, diskstreamerRead_pos]
  apply if_congr Iff.rfl rfl
  split <;> rfl

theorem fat16CountItems_eq_none (hpos : toInt32 pos = pos)
    (hnone : ∀ k < left, slotStart disk pos k ≠ 0x00) : fat16CountItems disk left pos i = none := by
  induction left generalizing pos i with
  | zero => rfl
  | succ left ih =>
      rw [fat16CountItems_succ hpos, if_neg (hnone 0 (by omega))]
      apply ih (toInt32_toInt32 _)
      intro k hk
      rw [slotStart_succ]
      exact hnone (k + 1) (by omega)

theorem fat16CountItems_eq_some (hpos : toInt32 pos = pos) (hi : toInt32 i = i) (hj : j < left)
    (hend : slotStart disk pos j = 0x00) (hbefore : ∀ k < j, slotStart disk pos k ≠ 0x00) :
    fat16CountItems disk left pos i = some (toInt32 (i + liveCount disk pos j)) := by
  induction left generalizing pos i j with
  | zero => omega
  | succ left ih =>
      rw [fat16CountItems_succ hpos]
      cases j with
      | zero =>
          rw [if_pos hend, liveCount, List.range_zero, List.countP_nil, Int.natCast_zero, Int.add_zero,
            hi]
      | succ j =>
          rw [if_neg (hbefore 0 (by omega))]
          have hrest := @ih (toInt32 (pos + directoryItemSize))
            (if slotStart disk pos 0 = 0xE5 then i else toInt32 (i + 1)) j (toInt32_toInt32 _)
            (by split <;> simp [hi]) (by omega) (by rw [slotStart_succ]; exact hend)
            (fun k hk => by rw [slotStart_succ]; exact hbefore (k + 1) (by omega))
          rw [hrest, liveCount_succ]
          congr 1
          split
          · rw [Nat.zero_add]
          · rw [toInt32_add]
            congr 1
            omega

theorem exists_first_end (h : ∃ k < left, slotStart disk pos k = 0x00) :
    ∃ k < left, slotStart disk pos k = 0x00 ∧ ∀ k' < k, slotStart disk pos k' ≠ 0x00 := by
  obtain ⟨hlt, hend⟩ := Nat.find_spec h
  refine ⟨Nat.find h, hlt, hend, fun k' hk' hend' => ?_⟩
  exact Nat.find_min h hk' ⟨Nat.lt_trans hk' hlt, hend'⟩

theorem fat16CountItems_isSome_iff (hpos : toInt32 pos = pos) :
    (fat16CountItems disk left pos 0).isSome ↔ ∃ k < left, slotStart disk pos k = 0x00 := by
  constructor
  · intro hsome
    by_contra hnone
    rw [fat16CountItems_eq_none hpos fun k hk hend => hnone ⟨k, hk, hend⟩] at hsome
    cases hsome
  · intro hexists
    obtain ⟨k, hk, hend, hbefore⟩ := exists_first_end hexists
    rw [fat16CountItems_eq_some hpos rfl hk hend hbefore]
    rfl

end Count

/-! ### The root directory -/

section Root

variable {disk : Disk} {header : FatHeader} {left dir : Nat} {held : Nat → UInt8}
  {directory : FatDirectory}

theorem rootDirPos_int (header : FatHeader) : toInt32 header.rootDirPos = header.rootDirPos := by
  rw [FatHeader.rootDirPos, fat16SectorToAbsolute, toInt32_toInt32]

theorem fat16GetTotalItems_eq : fat16GetTotalItemsForDirectory disk left header.rootDirSectorPos =
    fat16CountItems disk left header.rootDirPos 0 := rfl

theorem fat16GetRootDirectory_total
    (h : header.fat16GetRootDirectory disk left dir held = some (.ok directory)) :
    fat16CountItems disk left header.rootDirPos 0 = some directory.total := by
  rw [FatHeader.fat16GetRootDirectory, fat16GetTotalItems_eq] at h
  cases hcount : fat16CountItems disk left header.rootDirPos 0 with
  | none =>
      rw [hcount] at h
      cases h
  | some total =>
      rw [hcount] at h
      simp only at h
      split at h
      · cases h
      · split at h
        · cases h
        · cases h
          rfl

/-- The root directory that is loaded when the count has come back and there is memory. -/
def FatHeader.loadedDirectory (header : FatHeader) (disk : Disk) (held : Nat → UInt8) (total : Int) :
    FatDirectory where
  item i := if i < header.rootDirSize then
    (diskstreamerRead disk header.rootDirPos header.rootDirSize).bytes.getD i 0 else held i
  total := total
  sectorPos := header.rootDirSectorPos
  endingSectorPos := header.rootDirSectorPos + header.rootDirSize / 512

theorem fat16GetRootDirectory_eq {total : Int}
    (hcount : fat16CountItems disk left header.rootDirPos 0 = some total) (hdir : dir ≠ 0) :
    header.fat16GetRootDirectory disk left dir held =
      some (.ok (header.loadedDirectory disk held total)) := by
  rw [FatHeader.fat16GetRootDirectory, fat16GetTotalItems_eq, hcount]
  simp only [if_neg hdir, (diskstreamerRead_length disk _ header.rootDirSize).1, slobosAllOk, ne_eq,
    not_true_eq_false, if_false]
  rfl

theorem fat16Resolve_ok {volume : FatVolume}
    (h : fat16Resolve disk left dir held = some (.ok volume)) : volume.header = diskHeader disk ∧
      volume.header.fat16GetRootDirectory disk left dir held = some (.ok volume.rootDirectory) := by
  simp only [fat16Resolve] at h
  split at h
  · cases h
  · split at h
    · cases h
    · split at h
      · cases h
      · cases h
      · rename_i rootDirectory hroot
        cases h
        exact ⟨rfl, hroot⟩

theorem fat16Resolve_eq {total : Int} (hsignature : (diskHeader disk).signature = slobosFat16Signature)
    (hcount : fat16CountItems disk left (diskHeader disk).rootDirPos 0 = some total)
    (hdir : dir ≠ 0) : fat16Resolve disk left dir held =
      some (.ok { header := diskHeader disk
                  rootDirectory := (diskHeader disk).loadedDirectory disk held total }) := by
  have hroot := @fat16GetRootDirectory_eq disk (diskHeader disk) left dir held total hcount hdir
  have hread := (diskstreamerRead_length disk 0 62).1
  have hres : (diskstreamerRead disk 0 fatHeaderSize).res = slobosAllOk := hread
  rw [diskHeader] at hsignature hroot ⊢
  simp only [fat16Resolve, hres, hsignature, hroot, ne_eq, not_true_eq_false, if_false]

theorem fat16CountItems_le {left j : Nat} {pos total : Int} (hpos : toInt32 pos = pos)
    (hj : j < 0x80000000) (hend : slotStart disk pos j = 0x00)
    (hbefore : ∀ k < j, slotStart disk pos k ≠ 0x00)
    (hcount : fat16CountItems disk left pos 0 = some total) : 0 ≤ total ∧ total ≤ j := by
  have hleft : j < left := by
    by_contra hle
    rw [fat16CountItems_eq_none hpos fun k hk => hbefore k (by omega)] at hcount
    cases hcount
  rw [fat16CountItems_eq_some hpos rfl hleft hend hbefore] at hcount
  have htotal := Option.some.inj hcount
  have hle := liveCount_le disk pos j
  rw [Int.zero_add, toInt32_of_range (by omega) (by omega)] at htotal
  omega

end Root

/-- Loading the root directory is bounded by its size exactly when one of its slots ends it. -/
theorem directoryBounded_iff (disk : Disk) : DirectoryBounded disk ↔ Terminated disk := by
  have hpos := rootDirPos_int (diskHeader disk)
  constructor
  · intro h
    exact (fat16CountItems_isSome_iff hpos).mp h.examined
  · intro hexists
    refine ⟨(fat16CountItems_isSome_iff hpos).mpr hexists, ?_⟩
    intro left dir held volume h
    obtain ⟨j, hlt, hend, hbefore⟩ := exists_first_end hexists
    obtain ⟨hheader, hroot⟩ := fat16Resolve_ok h
    have hentries := (diskHeader disk).rootDirEntries.toNat_lt
    rw [hheader] at hroot ⊢
    have hcount := fat16CountItems_le hpos (by omega) hend hbefore (fat16GetRootDirectory_total hroot)
    omega

/-- The boot sector of a volume with one reserved sector, one table of one sector and a root directory
of one sector. -/
def smallBootSector (i : Int) : UInt8 :=
  if i = 13 then 1 else if i = 14 then 1 else if i = 16 then 1 else if i = 17 then 16
  else if i = 22 then 1 else if i = 38 then 0x29 else 0

def smallDisk (sector : Nat → Int → UInt8) : Disk where
  sector lba i := if lba = 0 then smallBootSector i else sector lba i

def smallHeader : FatHeader where
  sectorsPerCluster := 1
  reservedSectors := 1
  fatCopies := 1
  rootDirEntries := 16
  sectorsPerFat := 1
  signature := 0x29

theorem smallDisk_header (sector : Nat → Int → UInt8) : diskHeader (smallDisk sector) = smallHeader :=
  rfl

theorem smallHeader_rootDirPos : smallHeader.rootDirPos = (1024 : Nat) := by decide

theorem smallDisk_accepted {sector : Nat → Int → UInt8} {left : Nat} {total : Int}
    (hcount : fat16CountItems (smallDisk sector) left (1024 : Nat) 0 = some total)
    (held : Nat → UInt8) :
    fat16Resolve (smallDisk sector) left slobosHeapAddress held = some (.ok
      { header := smallHeader
        rootDirectory := smallHeader.loadedDirectory (smallDisk sector) held total }) := by
  have hheader := smallDisk_header sector
  have hcount' : fat16CountItems (smallDisk sector) left (diskHeader (smallDisk sector)).rootDirPos 0 =
      some total := by
    rw [hheader, smallHeader_rootDirPos]
    exact hcount
  have haccepted := @fat16Resolve_eq (smallDisk sector) left slobosHeapAddress held total
    (by rw [hheader]; rfl) hcount' (by decide)
  rwa [hheader] at haccepted

def fullDisk : Disk := smallDisk fun lba i => if lba = 2 ∨ (lba = 3 ∧ i < 32) then 0x41 else 0

theorem fullDisk_slotStart {k : Nat} (hk : k ≤ 17) :
    slotStart fullDisk (1024 : Nat) k = if k < 17 then 0x41 else 0 := by
  rw [slotStart_eq (by rw [directoryItemSize]; omega), Disk.byte, directoryItemSize]
  have hlba : (1024 + 32 * k) / 512 ≠ 0 := by omega
  simp only [fullDisk, smallDisk, if_neg hlba]
  by_cases hfull : k < 17
  · rw [if_pos hfull, if_pos (by omega)]
  · rw [if_neg hfull, if_neg (by omega)]

theorem fullDisk_count : fat16CountItems fullDisk 18 (1024 : Nat) 0 = some 17 := by
  have hname : ∀ k < 17, slotStart fullDisk (1024 : Nat) k = 0x41 := fun k hk => by
    rw [fullDisk_slotStart (by omega), if_pos hk]
  have hlive : liveCount fullDisk (1024 : Nat) 17 = 17 := by
    have hall : (List.range 17).countP (fun k => slotStart fullDisk (1024 : Nat) k ≠ 0xE5) =
        (List.range 17).length := by
      rw [List.countP_eq_length]
      intro k hk
      rw [hname k (List.mem_range.mp hk)]
      rfl
    rw [liveCount, hall, List.length_range]
  have hcount := @fat16CountItems_eq_some fullDisk (1024 : Nat) 0 18 17 rfl rfl (by omega)
    (by rw [fullDisk_slotStart (Nat.le_refl _)]; rfl) (fun k hk => by rw [hname k hk]; decide)
  rwa [hlive] at hcount

/-- The total of that directory is one more than it has slots. -/
theorem not_directoryBounded : ¬∀ disk,
    (∃ left dir held volume, fat16Resolve disk left dir held = some (.ok volume)) →
      DirectoryBounded disk := by
  intro hall
  have haccepted := smallDisk_accepted fullDisk_count fun _ => 0
  have hbounded := hall fullDisk ⟨_, _, _, _, haccepted⟩
  exact absurd (hbounded.stored _ _ _ _ haccepted).2 (by decide)

end SlobOS
