import SlobOS.FileClusters
import SlobOS.FileReads
import SlobOS.Proof.FileCells

/-!
# Reads and the size of a file

A read does not look at the size of the file. It returns the number of members that it is asked for as
long as there are clusters, and stores what lies in them behind the end of the file.
-/

namespace SlobOS

namespace FatPrivate

variable (fatPrivate : FatPrivate) (disk : Disk) (contents : FatDirectoryItem)

def fileCell (k : Nat) : Nat × Int :=
  let pos := (fatPrivate.clusterPos
    (fatPrivate.clusterForOffset disk contents.firstCluster k)).toNat +
      k % fatPrivate.sizeOfClusterBytes
  (pos / 512, (pos % 512 : Nat))

def FileFound : Prop :=
  ∀ k < contents.filesize, 0 ≤ fatPrivate.clusterForOffset disk contents.firstCluster k

/-- The place holds a byte of the file or of its chain, or it is none of the disk. -/
inductive FilePlace (place : Nat × Int) : Prop
  | chain (hchain : fatPrivate.ChainCell disk contents.firstCluster place)
  | content (k : Nat) (hk : k < contents.filesize)
      (hfound : 0 ≤ fatPrivate.clusterForOffset disk contents.firstCluster k)
      (hplace : place = fatPrivate.fileCell disk contents k)
  | outside (hout : place.2 < 0 ∨ 512 ≤ place.2)

def SameFile (disk' : Disk) : Prop :=
  ∀ place, fatPrivate.FilePlace disk contents place → disk'.cell place = disk.cell place

end FatPrivate

namespace Kernel

open Faulting

section Definitions

variable (fatPrivate : FatPrivate) (disk : Disk) (contents : FatDirectoryItem) (pos : Nat)
  (members : Members)

def wholeMembers : Nat := min members.nmemb ((contents.filesize - pos) / members.size)

def onDisk (kernel : Kernel) : Kernel :=
  { kernel with volume := { kernel.volume with readInternal := fatPrivate.fat16ReadInternal disk } }

/-- The call returns the number of whole members, where it returns a number and where it could. What
it stores is the same on any disk with the same file. -/
structure ReadBounded (kernel : Kernel) (fd : Int) (ptr : Nat) : Prop where
  counted : ∀ res after, Ends (fread ptr members.size members.nmemb fd) kernel res after →
    0 ≤ res ∨ (0 < members.count ∧ fatPrivate.FileFound disk contents) →
      res = wholeMembers contents pos members
  confined : ∀ disk', fatPrivate.SameFile disk contents disk' →
    ∀ res after, Ends (fread ptr members.size members.nmemb fd) kernel res after →
      ∃ after', Ends (fread ptr members.size members.nmemb fd) (onDisk fatPrivate disk' kernel)
        res after' ∧ after'.memory = after.memory

/-- There is a cluster for each chunk that is looked up. Of a member that is too long for an `int` this
is the first one only. -/
def ChunksFound : Prop :=
  ∀ i < members.count, members.size < 0x80000000 ∨ i % members.size = 0 →
    0 ≤ fatPrivate.readCluster disk contents.firstCluster members.size (toInt32 pos) i

/-- If the clusters go as far as the file or as the members, then the members end within the file. -/
def MembersFit : Prop :=
  (0 < members.count ∧ fatPrivate.FileFound disk contents) ∨
      (ChunksFound fatPrivate disk contents pos members ∧ members.nmemb < 0x80000000) →
    members.nmemb < 0x80000000 ∧ members.count ≤ contents.filesize - pos

def ChunksInside : Prop :=
  ∀ i < members.count, members.size < 0x80000000 →
    (∀ j ≤ i, 0 ≤ fatPrivate.readCluster disk contents.firstCluster members.size (toInt32 pos) j) →
      fatPrivate.FilePlace disk contents
        (fatPrivate.readCell disk contents.firstCluster members.size (toInt32 pos) i)

end Definitions

variable {kernel : Kernel} {fd : Int} {contents : FatDirectoryItem} {pos ptr : Nat}
  {members : Members} {fatPrivate : FatPrivate} {disk disk' : Disk}

theorem readResult_nonneg_iff (hpos : 0 < fatPrivate.sizeOfClusterBytes) (hsize : 0 < members.size)
    (hlt : members.size < addressSpace) (hnmemb : members.nmemb < addressSpace) :
    0 ≤ readResult fatPrivate disk contents pos members ↔
      ChunksFound fatPrivate disk contents pos members ∧ members.nmemb < 0x80000000 := by
  have hcode : fatPrivate.readCode disk contents.firstCluster members.size members.nmemb
      (toInt32 pos) < 0 ↔ ¬ChunksFound fatPrivate disk contents pos members := by
    rw [FatPrivate.readCode_neg_iff hpos (toInt32_toInt32 _) hsize hlt, ChunksFound]
    simp only [Members.count, not_forall, exists_prop, Int.not_le]
  rw [readResult]
  by_cases herr : fatPrivate.readCode disk contents.firstCluster members.size members.nmemb
      (toInt32 pos) < 0
  · simp only [if_pos herr]
    exact iff_of_false (Int.not_le.mpr herr) fun h => hcode.mp herr h.1
  · simp only [if_neg herr]
    rw [and_iff_right (not_not.mp fun h => herr (hcode.mpr h))]
    rw [addressSpace] at hnmemb
    simp only [toInt32, addressSpace, Int.bmod]
    omega

theorem readResult_of_nonneg (hnmemb : members.nmemb < 0x80000000)
    (h : 0 ≤ readResult fatPrivate disk contents pos members) :
    readResult fatPrivate disk contents pos members = members.nmemb := by
  rw [readResult] at h ⊢
  split at h
  case isTrue herr => exact absurd h (Int.not_le.mpr herr)
  case isFalse herr =>
    simp only [if_neg herr]
    exact toInt32_of_range (by omega) (by omega)

theorem wholeMembers_eq_iff (hsize : 0 < members.size) :
    wholeMembers contents pos members = members.nmemb ↔
      members.count ≤ contents.filesize - pos := by
  have hle := @Nat.le_div_iff_mul_le members.size members.nmemb (contents.filesize - pos) hsize
  rw [wholeMembers, Members.count, Nat.mul_comm, ← hle]
  omega

theorem fileFound_lookup (h : fatPrivate.FileFound disk contents) {k : Nat}
    (hk : k < contents.filesize) :
    0 ≤ fatPrivate.clusterForOffset disk contents.firstCluster (toInt32 k) := by
  rcases Int.lt_or_le (toInt32 k) 0 with hneg | hge
  · have hahead : ((toInt32 k).tdiv fatPrivate.sizeOfClusterBytes).toNat = 0 := by
      have hquot := Int.tdiv_nonneg (show 0 ≤ -toInt32 k by omega)
        (Int.natCast_nonneg fatPrivate.sizeOfClusterBytes)
      rw [Int.neg_tdiv] at hquot
      exact Int.toNat_of_nonpos (by omega)
    rw [FatPrivate.clusterForOffset, FatPrivate.clusterFrom, hahead,
      FatPrivate.fat16FollowClusters]
    exact Int.natCast_nonneg _
  · obtain ⟨k', hk'⟩ := Int.eq_ofNat_of_zero_le hge
    have hle : k' ≤ k := by
      simp only [toInt32, addressSpace, Int.bmod] at hk'
      omega
    rw [hk']
    exact h k' (Nat.lt_of_le_of_lt hle hk)

theorem chunksFound_of_fileFound
    (h : fatPrivate.FileFound disk contents) (hfit : members.count ≤ contents.filesize - pos) :
    ChunksFound fatPrivate disk contents pos members := by
  intro i hi _
  rw [FatPrivate.readCluster, FatPrivate.chunkCluster, FatPrivate.chunkOffset, stepOffset,
    stepOffset, toInt32_add, Int.add_assoc, toInt32_add, ← Int.add_assoc]
  have hmember := Nat.div_add_mod' i members.size
  have hchunk := Nat.div_mul_le_self (i % members.size) fatPrivate.sizeOfClusterBytes
  have hoffset : (pos : Int) + (i / members.size * members.size : Nat) +
      (i % members.size / fatPrivate.sizeOfClusterBytes * fatPrivate.sizeOfClusterBytes : Nat) =
        (pos + i / members.size * members.size +
          i % members.size / fatPrivate.sizeOfClusterBytes * fatPrivate.sizeOfClusterBytes : Nat) := by
    push_cast
    rfl
  rw [hoffset]
  exact fileFound_lookup h (by omega)

/-! ### The bytes -/

def changedDisk (disk : Disk) (place : Nat × Int) : Disk where
  sector lba i := if (lba, i) = place then disk.cell place + 1 else disk.sector lba i

theorem changedDisk_cell (disk : Disk) (place : Nat × Int) :
    (changedDisk disk place).cell place = disk.cell place + 1 := if_pos rfl

theorem sameFile_changedDisk {place : Nat × Int} (h : ¬fatPrivate.FilePlace disk contents place) :
    fatPrivate.SameFile disk contents (changedDisk disk place) := by
  intro place' hplace'
  apply if_neg
  rintro rfl
  exact h hplace'

theorem SameFile.chain (h : fatPrivate.SameFile disk contents disk') (place : Nat × Int)
    (hplace : fatPrivate.ChainCell disk contents.firstCluster place) :
    disk'.cell place = disk.cell place :=
  h place (.chain hplace)

theorem readStored_cell (hsame : fatPrivate.SameFile disk contents disk')
    (hpos : 0 < fatPrivate.sizeOfClusterBytes) (hsize : 0 < members.size)
    (hshort : members.size < 0x80000000) {i : Nat} (hi : i < members.count) (hall : ∀ j ≤ i,
      0 ≤ fatPrivate.readCluster disk contents.firstCluster members.size (toInt32 pos) j) :
    readStored fatPrivate disk' contents pos members i = some (disk'.cell
      (fatPrivate.readCell disk contents.firstCluster members.size (toInt32 pos) i)) := by
  have hchain := SameFile.chain hsame
  have hlt : members.size < addressSpace := Nat.lt_trans hshort (by decide)
  obtain ⟨v, hv⟩ := Option.isSome_iff_exists.mp
    ((FatPrivate.stored_isSome_iff hpos (toInt32_toInt32 _) hsize hlt).mpr ⟨hi, hshort, fun j hj => by
      rw [FatPrivate.readCluster_congr hchain]
      exact hall j hj⟩)
  rw [readStored, hv, (FatPrivate.stored_sound hpos (toInt32_toInt32 _) hsize hshort hv).2,
    FatPrivate.readByte_cell hpos, FatPrivate.readCell_congr hchain]

theorem ends_fread_refused (hcount : ¬0 < members.count) :
    Ends (fread ptr members.size members.nmemb fd) kernel (-einvarg) kernel := by
  have hzero : members.size = 0 ∨ members.nmemb = 0 ∨ fd < 1 := by
    rcases Nat.mul_eq_zero.mp (Nat.eq_zero_of_not_pos hcount) with hsize | hnmemb
    · exact Or.inl hsize
    · exact Or.inr (Or.inl hnmemb)
  rw [fread, if_pos hzero]
  exact ends_pure.mpr ⟨rfl, rfl⟩

section Bounds

variable (hopen : OpenFile kernel fd contents pos)
  (hvolume : kernel.volume.readInternal = fatPrivate.fat16ReadInternal disk) (hptr : ptr ≠ 0)
  (hlt : members.size < addressSpace)

theorem readBounded_refused (hcount : ¬0 < members.count) :
    ReadBounded fatPrivate disk contents pos members kernel fd ptr := by
  have hrefused : ∀ kernel, Ends (fread ptr members.size members.nmemb fd) kernel (-einvarg) kernel :=
    fun _ => ends_fread_refused hcount
  constructor
  · intro res after hend hcounted
    obtain ⟨rfl, -⟩ := (hrefused kernel).unique hend
    rcases hcounted with hnonneg | ⟨hpos, -⟩
    · exact absurd hnonneg (by decide)
    · exact absurd hpos hcount
  · intro disk' _ res after hend
    obtain ⟨rfl, rfl⟩ := (hrefused kernel).unique hend
    exact ⟨_, hrefused _, rfl⟩

include hopen hvolume

theorem readBounded_unsized (hzero : fatPrivate.sizeOfClusterBytes = 0) (hcount : 0 < members.count) :
    ReadBounded fatPrivate disk contents pos members kernel fd ptr := by
  have hnever : ∀ res after, ¬Ends (fread ptr members.size members.nmemb fd) kernel res after :=
    fun _ _ => not_ends_fread hopen hvolume hzero (Nat.pos_of_mul_pos_right hcount)
      (Nat.pos_of_mul_pos_left hcount)
  exact ⟨fun res after hend => absurd hend (hnever res after),
    fun _ _ res after hend => absurd hend (hnever res after)⟩

include hptr hlt

theorem counted_iff (hnmemb : members.nmemb < addressSpace) (hpos : 0 < fatPrivate.sizeOfClusterBytes)
    (hcount : 0 < members.count) :
    (∀ res after, Ends (fread ptr members.size members.nmemb fd) kernel res after →
      0 ≤ res ∨ (0 < members.count ∧ fatPrivate.FileFound disk contents) →
        res = wholeMembers contents pos members) ↔
      MembersFit fatPrivate disk contents pos members := by
  have hsize := Nat.pos_of_mul_pos_right hcount
  have hend := ends_fread hopen hvolume hpos hptr hsize (Nat.pos_of_mul_pos_left hcount)
  have hnonneg := @readResult_nonneg_iff contents pos members fatPrivate disk hpos hsize hlt hnmemb
  constructor
  · intro hcounted hreach
    have hres : readResult fatPrivate disk contents pos members =
        wholeMembers contents pos members := by
      apply hcounted _ _ hend
      rcases hreach with hfound | hchunks
      · exact Or.inr hfound
      · exact Or.inl (hnonneg.mpr hchunks)
    have hle : 0 ≤ readResult fatPrivate disk contents pos members := by
      rw [hres]
      exact Int.natCast_nonneg _
    have hshort := (hnonneg.mp hle).2
    rw [readResult_of_nonneg hshort hle] at hres
    exact ⟨hshort, (wholeMembers_eq_iff hsize).mp (Int.ofNat_inj.mp hres.symm)⟩
  · intro hfit res after hend' hcounted
    obtain ⟨rfl, -⟩ := hend.unique hend'
    have hreach : ChunksFound fatPrivate disk contents pos members ∧ members.nmemb < 0x80000000 ∧
        members.count ≤ contents.filesize - pos := by
      rcases hcounted with hle | hfound
      · have hchunks := hnonneg.mp hle
        exact ⟨hchunks.1, hfit (Or.inr hchunks)⟩
      · have hinside := hfit (Or.inl hfound)
        exact ⟨chunksFound_of_fileFound hfound.2 hinside.2, hinside⟩
    rw [readResult_of_nonneg hreach.2.1 (hnonneg.mpr ⟨hreach.1, hreach.2.1⟩),
      (wholeMembers_eq_iff hsize).mpr hreach.2.2]

theorem confined_iff (hpos : 0 < fatPrivate.sizeOfClusterBytes) (hcount : 0 < members.count) :
    (∀ disk', fatPrivate.SameFile disk contents disk' →
      ∀ res after, Ends (fread ptr members.size members.nmemb fd) kernel res after →
        ∃ after', Ends (fread ptr members.size members.nmemb fd) (onDisk fatPrivate disk' kernel)
          res after' ∧ after'.memory = after.memory) ↔
      ChunksInside fatPrivate disk contents pos members := by
  have hsize := Nat.pos_of_mul_pos_right hcount
  have hend : ∀ disk', Ends (fread ptr members.size members.nmemb fd) (onDisk fatPrivate disk' kernel)
      (readResult fatPrivate disk' contents pos members)
      (overlay ptr (readStored fatPrivate disk' contents pos members)
        (onDisk fatPrivate disk' kernel)) := fun disk' =>
    ends_fread ⟨hopen.desc, hopen.data, hopen.pos⟩ rfl hpos hptr hsize
      (Nat.pos_of_mul_pos_left hcount)
  have hself := ends_fread hopen hvolume hpos hptr hsize (Nat.pos_of_mul_pos_left hcount)
  constructor
  · intro hconfined i hi hshort hall
    by_contra hplace
    have hsame := sameFile_changedDisk hplace
    obtain ⟨after', hend', hmemory⟩ := hconfined _ hsame _ _ hself
    obtain ⟨-, rfl⟩ := (hend _).unique hend'
    -- The byte at this index is stored from the place that differs.
    have hstored : ∀ disk', fatPrivate.SameFile disk contents disk' →
        readStored fatPrivate disk' contents pos members i = some (disk'.cell
          (fatPrivate.readCell disk contents.firstCluster members.size (toInt32 pos) i)) :=
      fun disk' hsame' => readStored_cell hsame' hpos hsize hshort hi hall
    have hcell := congrFun (congrFun hmemory kernel.pages) (ptr + i)
    simp only [overlay, if_neg (show ¬ptr + i < ptr by omega), Nat.add_sub_cancel_left,
      hstored _ hsame, hstored disk (fun _ _ => rfl), Option.getD_some, changedDisk_cell] at hcell
    simp at hcell
  · intro hinside disk' hsame res after hend'
    obtain ⟨rfl, rfl⟩ := hself.unique hend'
    have hchain := SameFile.chain hsame
    have hstored : readStored fatPrivate disk' contents pos members =
        readStored fatPrivate disk contents pos members := by
      funext i
      exact FatPrivate.stored_congr hchain hpos (toInt32_toInt32 _) hsize hlt
        (fun j hj hshort hall => hsame _ (hinside j hj hshort hall)) i
    have hresult : readResult fatPrivate disk' contents pos members =
        readResult fatPrivate disk contents pos members := by
      rw [readResult, readResult, FatPrivate.readCode_congr hchain]
    have hother := hend disk'
    rw [hstored, hresult] at hother
    exact ⟨_, hother, rfl⟩

/-- A read keeps to the file exactly where the members fit and their chunks lie within it. -/
theorem readBounded_iff (hnmemb : members.nmemb < addressSpace) :
    ReadBounded fatPrivate disk contents pos members kernel fd ptr ↔
      fatPrivate.sizeOfClusterBytes = 0 ∨
        (MembersFit fatPrivate disk contents pos members ∧
          ChunksInside fatPrivate disk contents pos members) := by
  by_cases hcount : 0 < members.count
  case neg =>
    refine iff_of_true (readBounded_refused hcount) (Or.inr ⟨?_, ?_⟩)
    · rintro (⟨hpos, -⟩ | ⟨-, hshort⟩)
      · exact absurd hpos hcount
      · exact ⟨hshort, by omega⟩
    · intro i hi
      exact absurd (Nat.zero_lt_of_lt hi) hcount
  rcases Nat.eq_zero_or_pos fatPrivate.sizeOfClusterBytes with hzero | hpos
  · exact iff_of_true (readBounded_unsized hopen hvolume hzero hcount) (Or.inl hzero)
  rw [or_iff_right (Nat.ne_of_gt hpos), ← counted_iff hopen hvolume hptr hlt hnmemb hpos hcount,
    ← confined_iff hopen hvolume hptr hlt hpos hcount]
  exact ⟨fun h => ⟨h.counted, h.confined⟩, fun h => ⟨h.1, h.2⟩⟩

end Bounds

theorem readBounded_counted : ∃ kernel,
    Ends (fopen rootFilePath modeRead) (idleKernel bootBytes countedVolume) 1 kernel ∧
      ReadBounded countedFat countedDisk countedItem 0 ⟨1, 1⟩ kernel 1 0x10000 := by
  obtain ⟨kernel, hend, hopen, hvolume⟩ := fopen_countedVolume
  refine ⟨kernel, hend, (readBounded_iff hopen (hvolume ▸ countedVolume_reads) (by decide)
    (by decide) (by decide)).mpr (Or.inr ⟨fun _ => ⟨by decide, by decide⟩, ?_⟩)⟩
  intro i hi _ _
  obtain rfl : i = 0 := Nat.lt_one_iff.mp hi
  refine .content 0 (by decide) (by decide) ?_
  have hstart : countedFat.startingPos (countedFat.chunkCluster countedDisk 2
      (stepOffset 1 (toInt32 0) 0) 0) (countedFat.chunkOffset (stepOffset 1 (toInt32 0) 0) 0) =
        (16896 : Nat) := by decide
  have hcell : countedFat.readCell countedDisk 2 1 (toInt32 0) 0 = (33, 0) := by
    rw [FatPrivate.readCell, FatPrivate.foundCell, hstart, streamCells_getD (by decide) (by decide)]
    decide
  exact hcell

/-- Three bytes are read from a file of two. -/
theorem not_readBounded : ¬∀ kernel fd contents pos ptr members fatPrivate disk,
    OpenFile kernel fd contents pos →
      kernel.volume.readInternal = FatPrivate.fat16ReadInternal fatPrivate disk → ptr ≠ 0 →
        members.size < addressSpace → members.nmemb < addressSpace →
          ReadBounded fatPrivate disk contents pos members kernel fd ptr := by
  intro hall
  obtain ⟨kernel, -, hopen, hvolume⟩ := fopen_countedVolume
  have hvolume' : kernel.volume.readInternal = countedFat.fat16ReadInternal countedDisk :=
    hvolume ▸ countedVolume_reads
  have hbounded := hall kernel 1 countedItem 0 0x10000 ⟨1, 3⟩ countedFat countedDisk hopen hvolume'
    (by decide) (by decide) (by decide)
  have hend := @ends_fread kernel 1 countedItem 0 0x10000 ⟨1, 3⟩ countedFat countedDisk hopen
    hvolume' (by decide) (by decide) (by decide) (by decide)
  have hcount := hbounded.counted _ _ hend (Or.inl (by decide))
  exact absurd hcount (by decide)

end Kernel

end SlobOS
