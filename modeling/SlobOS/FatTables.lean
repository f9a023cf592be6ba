import SlobOS.RootDirectories
import SlobOS.Lib.Chains

/-!
# The file allocation table

The entries of the table link the clusters of a file. The driver looks for an entry at the product of
two positions instead of at their sum, and it compares what it finds with marks of twelve bits.
-/

namespace SlobOS

open Chains

/-- The entries that lead to no further cluster: read failures, free clusters, reserved values, bad
clusters and the ends of chains. -/
def EndsChain (entry : Int) : Prop :=
  entry < 0 ∨ entry = 0 ∨ entry = 1 ∨ (0xFFF0 ≤ entry ∧ entry ≤ 0xFFF6) ∨ entry = 0xFFF7 ∨
    (0xFFF8 ≤ entry ∧ entry ≤ 0xFFFF)

instance : DecidablePred EndsChain := fun entry => by
  unfold EndsChain
  infer_instance

def Fat16Stops (entry : Int) : Prop :=
  (entry = 0xFF8 ∨ entry = 0xFFF) ∨ entry = slobosFat16BadSector ∨ (entry = 0xFF0 ∨ entry = 0xFF6) ∨
    entry = 0x00

instance : DecidablePred Fat16Stops := fun entry => by
  unfold Fat16Stops
  infer_instance

/-- The result is the cluster after that many links of the chain, and a negative code if the chain
ends before. -/
structure FindsCluster (entries : Int → Int) (clustersAhead : Nat) (start result : Int) : Prop where
  cluster : ∀ found, follow entries EndsChain clustersAhead start = some found → result = found
  error : result < 0 ↔ follow entries EndsChain clustersAhead start = none
  unmarked : 0 < clustersAhead → 0 ≤ result → ¬EndsChain result

/-- The driver does not divide by zero, and finds the cluster for every offset that the chain reaches,
and no other. -/
def ClusterRight (fatPrivate : FatPrivate) (entries : Int → Int) (start offset : Nat) : Prop :=
  ∃ result, fatPrivate.fat16GetClusterFrom entries start offset = some result ∧
    FindsCluster entries (offset / fatPrivate.sizeOfClusterBytes) start result

/-- Up to that entry, the table holds an end of the chain where the driver meets one of its marks, or
a failure last, and nowhere else. -/
def MarksAgree (entries : Int → Int) (clustersAhead : Nat) (start : Int) : Prop :=
  Stops entries EndsChain clustersAhead start ↔
    Stops entries Fat16Stops clustersAhead start ∨ entries^[clustersAhead] start < 0

section Marks

variable {entries : Int → Int} {clustersAhead : Nat} {start : Int}

theorem fat16FollowClusters_eq : FatPrivate.fat16FollowClusters entries clustersAhead start =
    (follow entries Fat16Stops clustersAhead start).getD (-eio) := by
  induction clustersAhead generalizing start with
  | zero => rfl
  | succ clustersAhead ih =>
      rw [FatPrivate.fat16FollowClusters, follow]
      by_cases hstop : Fat16Stops (entries start)
      · rw [if_pos hstop]
        rcases hstop with hend | hbad | hreserved | hfree
        · rw [if_pos hend]
          rfl
        · rw [hbad]
          rfl
        · rcases hreserved with hfirst | hlast
          · rw [hfirst]
            rfl
          · rw [hlast]
            rfl
        · rw [hfree]
          rfl
      · rw [if_neg hstop, ← ih, if_neg fun hend => hstop (Or.inl hend),
          if_neg fun hbad => hstop (Or.inr (Or.inl hbad)),
          if_neg fun hreserved => hstop (Or.inr (Or.inr (Or.inl hreserved))),
          if_neg fun hfree => hstop (Or.inr (Or.inr (Or.inr hfree)))]

theorem not_endsChain_last (h : ¬Stops entries EndsChain (clustersAhead + 1) start) :
    ¬EndsChain (entries^[clustersAhead + 1] start) := by
  intro hends
  exact h ⟨clustersAhead, by omega, hends⟩

theorem findsCluster_iff (hstart : 0 ≤ start) :
    FindsCluster entries clustersAhead start
      (FatPrivate.fat16FollowClusters entries clustersAhead start) ↔
        MarksAgree entries clustersAhead start := by
  rw [fat16FollowClusters_eq, MarksAgree]
  by_cases hends : Stops entries EndsChain clustersAhead start
  · have hnone := follow_eq_none hends
    by_cases hstops : Stops entries Fat16Stops clustersAhead start
    · rw [follow_eq_none hstops]
      refine ⟨fun _ => ⟨fun _ => Or.inl hstops, fun _ => hends⟩, fun _ => ?_⟩
      exact ⟨by simp [hnone], by simp [hnone, eio], fun _ h => absurd h (by decide)⟩
    · rw [follow_eq_some hstops, Option.getD_some]
      constructor
      · intro h
        have hnegative := h.error.mpr hnone
        exact ⟨fun _ => Or.inr hnegative, fun _ => hends⟩
      · intro h
        have hnegative := (h.mp hends).resolve_left hstops
        exact ⟨by simp [hnone], by simp [hnone, hnegative], fun _ hle => absurd hnegative (by omega)⟩
  · have hsome := follow_eq_some hends
    have hlast : 0 ≤ entries^[clustersAhead] start ∧
        (0 < clustersAhead → ¬EndsChain (entries^[clustersAhead] start)) := by
      cases clustersAhead with
      | zero => exact ⟨hstart, fun hpos => absurd hpos (Nat.lt_irrefl 0)⟩
      | succ clustersAhead =>
          have hnot := not_endsChain_last hends
          refine ⟨?_, fun _ => hnot⟩
          by_contra hneg
          exact hnot (Or.inl (by omega))
    by_cases hstops : Stops entries Fat16Stops clustersAhead start
    · rw [follow_eq_none hstops]
      constructor
      · intro h
        have hnone := h.error.mp (by decide)
        rw [hsome] at hnone
        cases hnone
      · intro h
        exact absurd (h.mpr (Or.inl hstops)) hends
    · rw [follow_eq_some hstops, Option.getD_some]
      constructor
      · intro _
        constructor
        · intro h
          exact absurd h hends
        · rintro (h | h)
          · exact absurd h hstops
          · exact absurd h (by omega)
      · intro _
        refine ⟨?_, ?_, fun hpos _ => hlast.2 hpos⟩
        · intro found hfound
          rw [hsome] at hfound
          exact Option.some.inj hfound
        · rw [hsome]
          exact ⟨fun h => absurd h (by omega), fun h => by cases h⟩

end Marks

theorem fat16GetClusterFrom_eq_some {fatPrivate : FatPrivate} {entries : Int → Int} {start offset : Nat}
    {result : Int} : fatPrivate.fat16GetClusterFrom entries start offset = some result ↔
      0 < fatPrivate.sizeOfClusterBytes ∧ FatPrivate.fat16FollowClusters entries
        (offset / fatPrivate.sizeOfClusterBytes) start = result := by
  have hahead : ((offset : Int).tdiv fatPrivate.sizeOfClusterBytes).toNat =
      offset / fatPrivate.sizeOfClusterBytes := by
    rw [Int.tdiv_eq_ediv_of_nonneg (by omega), ← Int.natCast_ediv, Int.toNat_natCast]
  rw [FatPrivate.fat16GetClusterFrom, FatPrivate.clusterFrom, hahead, Nat.pos_iff_ne_zero]
  split
  · next hzero => simp [hzero]
  · next hpos => simp [hpos]

/-- The clusters of a file are found exactly as long as clusters have a size and the marks of the driver
agree with those of the table. -/
theorem clusterRight_iff (fatPrivate : FatPrivate) (entries : Int → Int) (start offset : Nat) :
    ClusterRight fatPrivate entries start offset ↔
      0 < fatPrivate.sizeOfClusterBytes ∧
        MarksAgree entries (offset / fatPrivate.sizeOfClusterBytes) start := by
  rw [ClusterRight]
  simp only [fat16GetClusterFrom_eq_some, and_assoc, exists_and_left, exists_eq_left']
  rw [findsCluster_iff (by omega)]

def oneClusterEntries (cluster : Int) : Int := if cluster = 2 then 0xFFFF else 0

/-- The end of the chain of a file of one cluster is taken for its second cluster. -/
theorem not_clusterRight :
    ¬∀ fatPrivate entries start offset, ClusterRight fatPrivate entries start offset := by
  intro hall
  obtain ⟨result, hresult, hright⟩ := hall
    { sectorsPerCluster := 1, reservedSectors := 1, endingSectorPos := 1 } oneClusterEntries 2 512
  obtain rfl := (fat16GetClusterFrom_eq_some.mp hresult).2
  have hend := hright.unmarked (by decide) (by decide)
  exact hend (by decide)

def tableEntry (fatPrivate : FatPrivate) (disk : Disk) (cluster : Int) : Int :=
  let pos := (fatPrivate.reservedSectors.toNat * slobosSectorSize + 2 * cluster).toNat
  ((disk.byte pos).toNat + 256 * (disk.byte (pos + 1)).toNat : Nat)

def fatEntryPos (fatPrivate : FatPrivate) (cluster : Int) : Int :=
  toInt32 (fatPrivate.reservedSectors.toNat * slobosSectorSize * (cluster * slobosFat16FatEntrySize))

def fatEntrySector (fatPrivate : FatPrivate) (cluster : Int) : Nat :=
  ((fatEntryPos fatPrivate cluster).tdiv slobosSectorSize % addressSpace).toNat

def EntryCoincides (fatPrivate : FatPrivate) (disk : Disk) (cluster : Int) : Prop :=
  let pos := (fatPrivate.reservedSectors.toNat * slobosSectorSize + 2 * cluster).toNat
  disk.sector (fatEntrySector fatPrivate cluster) 0 = disk.byte pos ∧
    disk.sector (fatEntrySector fatPrivate cluster) 1 = disk.byte (pos + 1)

section Entries

variable {fatPrivate : FatPrivate} {disk : Disk} {cluster : Int}

theorem toInt32_sector (count : Int) : (toInt32 (512 * count)).tmod 512 = 0 := by
  have hdvd : (512 : Int) ∣ toInt32 (512 * count) := by
    simp only [toInt32, addressSpace, Int.bmod]
    omega
  exact Int.tmod_eq_zero_of_dvd hdvd

theorem fatEntryPos_sector : (fatEntryPos fatPrivate cluster).tmod slobosSectorSize = 0 := by
  rw [fatEntryPos, slobosSectorSize, Int.mul_comm _ 512, Int.mul_assoc]
  exact toInt32_sector _

theorem fat16GetFatEntry_eq : fatPrivate.fat16GetFatEntry disk cluster =
    ((disk.sector (fatEntrySector fatPrivate cluster) 0).toNat +
      256 * (disk.sector (fatEntrySector fatPrivate cluster) 1).toNat : Nat) := by
  have hroom : 2 < sectorRoom (fatEntryPos fatPrivate cluster) := by
    rw [sectorRoom, fatEntryPos_sector]
    decide
  have hread := @diskstreamerRead_sector disk _ 2 hroom
  have hbyte : ∀ i, i < 2 → (sectorBytes disk (fatEntryPos fatPrivate cluster) 2).getD i 0 =
      disk.sector (fatEntrySector fatPrivate cluster) i := by
    intro i hi
    rw [List.getD_eq_getElem?_getD, sectorBytes, List.getElem?_map, List.getElem?_range hi]
    change disk.sector _ (_ + _) = _
    rw [fatEntryPos_sector, Int.zero_add]
    rfl
  have hentry : fatPrivate.fat16GetFatEntry disk cluster =
      let read := diskstreamerRead disk (fatEntryPos fatPrivate cluster) (2 : Nat)
      if read.res < 0 then read.res
      else ((read.bytes.getD 0 0).toNat + 256 * (read.bytes.getD 1 0).toNat : Nat) := rfl
  rw [hentry, hread]
  simp only [Int.lt_irrefl, if_false, hbyte 0 (by decide), hbyte 1 (by decide)]
  rfl

theorem byte_pair_inj {low high low' high' : UInt8} :
    (low.toNat + 256 * high.toNat = low'.toNat + 256 * high'.toNat) ↔ low = low' ∧ high = high' := by
  have hlow := low.toNat_lt
  have hlow' := low'.toNat_lt
  rw [← UInt8.toNat_inj, ← UInt8.toNat_inj]
  omega

theorem fat16GetFatEntry_iff : fatPrivate.fat16GetFatEntry disk cluster = tableEntry fatPrivate disk cluster ↔
    EntryCoincides fatPrivate disk cluster := by
  rw [fat16GetFatEntry_eq, tableEntry, EntryCoincides]
  exact Int.natCast_inj.trans byte_pair_inj

end Entries

/-- An entry is right exactly when the bytes found for it happen to be those of the table, and the
chains that consist of such entries are those of the table. -/
theorem fatEntries_iff (fatPrivate : FatPrivate) (disk : Disk) :
    (∀ cluster, fatPrivate.fat16GetFatEntry disk cluster = tableEntry fatPrivate disk cluster ↔
      EntryCoincides fatPrivate disk cluster) ∧
    ∀ start count, (∀ i < count, EntryCoincides fatPrivate disk
        ((tableEntry fatPrivate disk)^[i] start)) →
      follow (fatPrivate.fat16GetFatEntry disk) EndsChain count start =
        follow (tableEntry fatPrivate disk) EndsChain count start := by
  refine ⟨fun cluster => fat16GetFatEntry_iff, fun start count hcoincide => ?_⟩
  apply follow_congr
  intro i hi
  exact fat16GetFatEntry_iff.mpr (hcoincide i hi)

def twoClusterDisk : Disk := smallDisk fun lba i => if lba = 1 ∧ i = 4 then 3 else 0

theorem twoClusterDisk_count : fat16CountItems twoClusterDisk 1 (1024 : Nat) 0 = some 0 := by
  rw [fat16CountItems_succ rfl, slotStart_eq (by decide)]
  rfl

/-- The entry of the cluster 2 is looked for behind the table, where there is another one. -/
theorem not_fatEntryRight : ¬∀ disk left dir held volume cluster,
    fat16Resolve disk left dir held = some (.ok volume) → 0 ≤ cluster →
      2 * cluster < volume.header.sectorsPerFat.toNat * slobosSectorSize →
        volume.fatPrivate.fat16GetFatEntry disk cluster =
          tableEntry volume.fatPrivate disk cluster := by
  intro hall
  have haccepted := smallDisk_accepted twoClusterDisk_count fun _ => 0
  have hright := hall _ _ _ _ _ 2 haccepted (by decide) (by decide)
  rw [fat16GetFatEntry_iff] at hright
  exact absurd hright.1 (by decide)

end SlobOS
