import SlobOS.FatTables
import SlobOS.Proof.FileReads
import SlobOS.Proof.Streams

/-!
# Where the bytes of a read come from

For each index in the buffer there is the place of the disk that its byte is taken from. The places
depend on the clusters that are found, and these on the entries along the chain of the file.
-/

namespace SlobOS

open Chains

theorem diskstreamerReadLoop_res (disk : Disk) (left : Nat) (pos total : Int) :
    (diskstreamerReadLoop disk left pos total).res = 0 := by
  induction left generalizing pos total with
  | zero => rfl
  | succ left ih =>
      rw [diskstreamerReadLoop]
      simp only [diskReadBlock, Int.lt_irrefl, if_false]
      split
      · exact ih _ _
      · rfl

theorem diskstreamerRead_res (disk : Disk) (pos total : Int) :
    (diskstreamerRead disk pos total).res = 0 :=
  diskstreamerReadLoop_res disk _ pos total

theorem toInt32_nonpos {value : Nat} (hge : 0x80000000 ≤ value) (hlt : value < addressSpace) :
    toInt32 value ≤ 0 := by
  rw [addressSpace] at hlt
  simp only [toInt32, addressSpace, Int.bmod]
  omega

namespace FatPrivate

section Definitions

variable (fatPrivate : FatPrivate) (disk : Disk) (cluster : Int) (size : Nat)

def foundCell (offset : Int) (i : Nat) : Nat × Int :=
  (streamCells (fatPrivate.startingPos (fatPrivate.chunkCluster disk cluster offset i)
    (fatPrivate.chunkOffset offset i)) fatPrivate.sizeOfClusterBytes).getD
      (i % fatPrivate.sizeOfClusterBytes) (0, 0)

def readCell (offset : Int) (i : Nat) : Nat × Int :=
  fatPrivate.foundCell disk cluster (stepOffset size offset i) (i % size)

def chainCluster (n : Nat) : Int := (fatPrivate.fat16GetFatEntry disk)^[n] cluster

def ChainCell (place : Nat × Int) : Prop :=
  ∃ n, place.1 = fatEntrySector fatPrivate (fatPrivate.chainCluster disk cluster n) ∧
    (place.2 = 0 ∨ place.2 = 1)

end Definitions

variable {fatPrivate : FatPrivate} {disk disk' : Disk} {cluster offset : Int} {size left i : Nat}

theorem foundByte_cell (hpos : 0 < fatPrivate.sizeOfClusterBytes) :
    fatPrivate.foundByte disk cluster offset i =
      disk.cell (fatPrivate.foundCell disk cluster offset i) := by
  have hin := Nat.mod_lt i hpos
  rw [foundByte, foundCell, diskstreamerRead_cells, List.getD_eq_getElem?_getD,
    List.getD_eq_getElem?_getD, List.getElem?_map,
    List.getElem?_eq_getElem (by rw [streamCells_length]; exact hin)]
  rfl

theorem readByte_cell (hpos : 0 < fatPrivate.sizeOfClusterBytes) :
    fatPrivate.readByte disk cluster size offset i =
      disk.cell (fatPrivate.readCell disk cluster size offset i) :=
  foundByte_cell hpos

section Reach

variable (hpos : 0 < fatPrivate.sizeOfClusterBytes) (hoffset : toInt32 offset = offset)

theorem readCluster_add (hsize : 0 < size) :
    fatPrivate.readCluster disk cluster size offset (i + size) =
      fatPrivate.readCluster disk cluster size (toInt32 (offset + size)) i := by
  rw [readCluster, readCluster, stepOffset_of_le hsize (Nat.le_add_left _ _), Nat.add_sub_cancel,
    Nat.add_mod_right]

include hoffset

theorem readCluster_of_lt (hi : i < size) : fatPrivate.readCluster disk cluster size offset i =
    fatPrivate.chunkCluster disk cluster offset i := by
  rw [readCluster, stepOffset_of_lt hoffset hi, Nat.mod_eq_of_lt hi]

include hpos

omit hpos hoffset in
theorem readMember_short (hlt : size < 0x80000000) :
    fatPrivate.readMember disk cluster size offset =
      fatPrivate.fat16ReadInternalFromStream disk cluster (size + 1) offset size := by
  rw [readMember, toInt32_of_range (by omega) (by omega), Int.toNat_natCast]

omit hpos hoffset in
theorem fat16ReadInternalFromStream_code_negative {total : Int} (htotal : total ≤ 0) :
    (fatPrivate.fat16ReadInternalFromStream disk cluster (left + 1) offset total).1 < 0 ↔
      fatPrivate.clusterForOffset disk cluster offset < 0 := by
  have hle : ¬total > (fatPrivate.sizeOfClusterBytes : Int) := by omega
  rw [fat16ReadInternalFromStream]
  simp only [hle, if_false, Int.sub_self, gt_iff_lt, Int.lt_irrefl, diskstreamerRead_res,
    slobosAllOk, ne_eq, not_true_eq_false]
  split
  case isTrue hfound => exact iff_of_true hfound hfound
  case isFalse hfound => exact iff_of_false (Int.lt_irrefl 0) hfound

theorem readMember_long (hge : 0x80000000 ≤ size) (hlt : size < addressSpace) :
    (fatPrivate.readMember disk cluster size offset).2 = [] ∧
      ((fatPrivate.readMember disk cluster size offset).1 < 0 ↔
        fatPrivate.chunkCluster disk cluster offset 0 < 0) := by
  have hneg := toInt32_nonpos hge hlt
  rw [chunkCluster_of_lt hoffset hpos]
  exact ⟨readMember_negative hneg, fat16ReadInternalFromStream_code_negative hneg⟩

theorem readMember_lt_iff (hshort : size < 0x80000000) :
    i < (fatPrivate.readMember disk cluster size offset).2.length ↔
      i < size ∧ ∀ j ≤ i, 0 ≤ fatPrivate.readCluster disk cluster size offset j := by
  rw [readMember_short hshort, fat16ReadInternalFromStream_lt_iff hpos hoffset (Nat.lt_succ_self size)]
  apply and_congr_right
  intro hi
  have hfirst : ∀ j ≤ i, fatPrivate.readCluster disk cluster size offset j =
      fatPrivate.chunkCluster disk cluster offset j := fun j hj =>
    readCluster_of_lt hoffset (Nat.lt_of_le_of_lt hj hi)
  constructor
  · intro hall j hj
    rw [hfirst j hj]
    exact hall j hj
  · intro hall j hj
    rw [← hfirst j hj]
    exact hall j hj

/-- The read of a member ends with an error if one of its chunks has no cluster. Of a member that is too
long only the first chunk is looked up. -/
theorem readMember_neg_iff (hsize : 0 < size) (hlt : size < addressSpace) :
    (fatPrivate.readMember disk cluster size offset).1 < 0 ↔
      ∃ i < size, (size < 0x80000000 ∨ i % size = 0) ∧
        fatPrivate.readCluster disk cluster size offset i < 0 := by
  by_cases hshort : size < 0x80000000
  · rw [readMember_short hshort,
      fat16ReadInternalFromStream_neg_iff hpos hoffset hsize (Nat.lt_succ_self size)]
    apply exists_congr
    intro i
    apply and_congr_right
    intro hi
    rw [readCluster_of_lt hoffset hi]
    exact ⟨fun h => ⟨Or.inl hshort, h⟩, fun h => h.2⟩
  · rw [(readMember_long hpos hoffset (Nat.not_lt.mp hshort) hlt).2, ← readCluster_of_lt hoffset hsize]
    constructor
    · intro h
      exact ⟨0, hsize, Or.inr (Nat.zero_mod size), h⟩
    · rintro ⟨i, hi, hzero, h⟩
      rw [Nat.mod_eq_of_lt hi] at hzero
      rwa [hzero.resolve_left hshort] at h

/-- The call ends with an error if a chunk has no cluster. Of a member that is too long only the first
chunk is looked up. -/
theorem readCode_neg_iff (hsize : 0 < size) (hlt : size < addressSpace) :
    fatPrivate.readCode disk cluster size left offset < 0 ↔
      ∃ i < size * left, (size < 0x80000000 ∨ i % size = 0) ∧
        fatPrivate.readCluster disk cluster size offset i < 0 := by
  induction left generalizing offset with
  | zero =>
      refine iff_of_false (Int.lt_irrefl 0) ?_
      rintro ⟨i, hi, -⟩
      exact Nat.not_lt_zero i hi
  | succ left ih =>
      have hfirst := @readMember_neg_iff fatPrivate disk cluster offset size hpos hoffset hsize hlt
      rw [readCode, Nat.mul_succ]
      by_cases herr : (fatPrivate.readMember disk cluster size offset).1 < 0
      · rw [if_pos herr]
        obtain ⟨i, hi, h⟩ := hfirst.mp herr
        exact iff_of_true herr ⟨i, by omega, h⟩
      · rw [if_neg herr, ih (toInt32_toInt32 _)]
        constructor
        · rintro ⟨i, hi, hwhole, h⟩
          refine ⟨i + size, by omega, ?_, ?_⟩
          · rwa [Nat.add_mod_right]
          · rwa [readCluster_add hsize]
        · rintro ⟨i, hi, hwhole, h⟩
          by_cases hin : i < size
          · exact absurd (hfirst.mpr ⟨i, hin, hwhole, h⟩) herr
          · obtain ⟨j, rfl⟩ := Nat.exists_eq_add_of_le' (Nat.not_lt.mp hin)
            rw [Nat.add_mod_right] at hwhole
            rw [readCluster_add hsize] at h
            exact ⟨j, by omega, hwhole, h⟩

theorem stored_long (hge : 0x80000000 ≤ size) (hlt : size < addressSpace) :
    fatPrivate.stored disk cluster size left offset i = none := by
  induction left generalizing offset i with
  | zero => rfl
  | succ left ih =>
      rw [stored, (readMember_long hpos hoffset hge hlt).1]
      split
      · rfl
      · split
        · rfl
        · exact ih (toInt32_toInt32 _)

theorem stored_isSome_iff (hsize : 0 < size) (hlt : size < addressSpace) :
    (fatPrivate.stored disk cluster size left offset i).isSome ↔
      i < size * left ∧ size < 0x80000000 ∧
        ∀ j ≤ i, 0 ≤ fatPrivate.readCluster disk cluster size offset j := by
  by_cases hshort : size < 0x80000000
  case neg =>
    rw [stored_long hpos hoffset (Nat.not_lt.mp hshort) hlt]
    exact iff_of_false Bool.false_ne_true fun h => hshort h.2.1
  rw [and_iff_right hshort]
  induction left generalizing offset i with
  | zero => exact iff_of_false Bool.false_ne_true fun h => Nat.not_lt_zero i h.1
  | succ left ih =>
      have hneg := @readMember_neg_iff fatPrivate disk cluster offset size hpos hoffset hsize hlt
      rw [stored, Nat.mul_succ]
      by_cases hin : i < size
      · rw [if_pos hin, isSome_getElem?, readMember_lt_iff hpos hoffset hshort]
        apply and_congr_left
        intro _
        exact iff_of_true hin (by omega)
      · obtain ⟨k, rfl⟩ := Nat.exists_eq_add_of_le' (Nat.not_lt.mp hin)
        rw [if_neg hin, Nat.add_sub_cancel, Nat.add_lt_add_iff_right]
        by_cases herr : (fatPrivate.readMember disk cluster size offset).1 < 0
        · rw [if_pos herr]
          refine iff_of_false Bool.false_ne_true fun h => ?_
          obtain ⟨j, hj, -, hlost⟩ := hneg.mp herr
          exact absurd (h.2 j (by omega)) (Int.not_le.mpr hlost)
        · rw [if_neg herr, ih (toInt32_toInt32 _)]
          apply and_congr_right
          intro _
          constructor
          · intro hall j hj
            by_cases hjin : j < size
            · by_contra hlost
              exact herr (hneg.mpr ⟨j, hjin, Or.inl hshort, Int.not_le.mp hlost⟩)
            · obtain ⟨m, rfl⟩ := Nat.exists_eq_add_of_le' (Nat.not_lt.mp hjin)
              rw [readCluster_add hsize]
              exact hall m (by omega)
          · intro hall j hj
            rw [← readCluster_add hsize]
            exact hall (j + size) (by omega)

end Reach

/-! ### Two disks with the same chain -/

section Congruence

variable (hchain : ∀ place, fatPrivate.ChainCell disk cluster place →
  disk'.cell place = disk.cell place)

include hchain

theorem clusterForOffset_congr (offset : Int) :
    fatPrivate.clusterForOffset disk' cluster offset =
      fatPrivate.clusterForOffset disk cluster offset := by
  simp only [clusterForOffset, clusterFrom, fat16FollowClusters_eq]
  congr 1
  apply follow_congr
  intro n _
  have hlow := hchain (fatEntrySector fatPrivate _, 0) ⟨n, rfl, Or.inl rfl⟩
  have hhigh := hchain (fatEntrySector fatPrivate _, 1) ⟨n, rfl, Or.inr rfl⟩
  rw [fat16GetFatEntry_eq, fat16GetFatEntry_eq]
  exact congrArg Int.ofNat (congrArg₂ (fun low high : UInt8 => low.toNat + 256 * high.toNat)
    hlow hhigh)

theorem chunkCluster_congr (offset : Int) (i : Nat) :
    fatPrivate.chunkCluster disk' cluster offset i =
      fatPrivate.chunkCluster disk cluster offset i :=
  clusterForOffset_congr hchain _

theorem readCluster_congr (offset : Int) (i : Nat) :
    fatPrivate.readCluster disk' cluster size offset i =
      fatPrivate.readCluster disk cluster size offset i :=
  chunkCluster_congr hchain _ _

theorem readCell_congr (offset : Int) (i : Nat) :
    fatPrivate.readCell disk' cluster size offset i =
      fatPrivate.readCell disk cluster size offset i := by
  rw [readCell, readCell, foundCell, foundCell, chunkCluster_congr hchain]

theorem fat16ReadInternalFromStream_code_congr (offset total : Int) :
    (fatPrivate.fat16ReadInternalFromStream disk' cluster left offset total).1 =
      (fatPrivate.fat16ReadInternalFromStream disk cluster left offset total).1 := by
  induction left generalizing offset total with
  | zero => rfl
  | succ left ih =>
      rw [fat16ReadInternalFromStream, fat16ReadInternalFromStream,
        clusterForOffset_congr hchain]
      simp only [diskstreamerRead_res, slobosAllOk, ne_eq, not_true_eq_false, if_false]
      generalize (if total > (fatPrivate.sizeOfClusterBytes : Int) then
        (fatPrivate.sizeOfClusterBytes : Int) else total) = totalToRead
      split
      · rfl
      · split
        · exact ih _ _
        · rfl

theorem readCode_congr (offset : Int) :
    fatPrivate.readCode disk' cluster size left offset =
      fatPrivate.readCode disk cluster size left offset := by
  induction left generalizing offset with
  | zero => rfl
  | succ left ih =>
      have hcode : (fatPrivate.readMember disk' cluster size offset).1 =
          (fatPrivate.readMember disk cluster size offset).1 :=
        fat16ReadInternalFromStream_code_congr hchain _ _
      rw [readCode, readCode, hcode, ih]

theorem stored_congr (hpos : 0 < fatPrivate.sizeOfClusterBytes) (hoffset : toInt32 offset = offset)
    (hsize : 0 < size) (hlt : size < addressSpace)
    (hcells : ∀ i < size * left, size < 0x80000000 →
      (∀ j ≤ i, 0 ≤ fatPrivate.readCluster disk cluster size offset j) →
        disk'.cell (fatPrivate.readCell disk cluster size offset i) =
          disk.cell (fatPrivate.readCell disk cluster size offset i)) (i : Nat) :
    fatPrivate.stored disk' cluster size left offset i =
      fatPrivate.stored disk cluster size left offset i := by
  have hiff : (fatPrivate.stored disk' cluster size left offset i).isSome ↔
      (fatPrivate.stored disk cluster size left offset i).isSome := by
    rw [stored_isSome_iff hpos hoffset hsize hlt, stored_isSome_iff hpos hoffset hsize hlt]
    simp only [readCluster_congr hchain]
  cases hstored : fatPrivate.stored disk cluster size left offset i with
  | none =>
      rw [hstored] at hiff
      exact Option.not_isSome_iff_eq_none.mp fun h => Bool.false_ne_true (hiff.mp h)
  | some v =>
      have hsome := hiff.mpr (by rw [hstored]; rfl)
      obtain ⟨v', hv'⟩ := Option.isSome_iff_exists.mp hsome
      obtain ⟨hi, hshort, hall⟩ := (stored_isSome_iff hpos hoffset hsize hlt).mp
        (show (fatPrivate.stored disk cluster size left offset i).isSome by rw [hstored]; rfl)
      have hv := (stored_sound hpos hoffset hsize hshort hstored).2
      have hvalue := (stored_sound hpos hoffset hsize hshort hv').2
      rw [readByte_cell hpos] at hv hvalue
      rw [hv', hv, hvalue, readCell_congr hchain, hcells i hi hshort hall]

end Congruence

end FatPrivate

end SlobOS
