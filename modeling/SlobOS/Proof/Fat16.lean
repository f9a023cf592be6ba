import SlobOS.Fat16

/-!
# What is read from a file

A shorter read delivers the first bytes of a longer one. So each byte that is read depends on nothing
but the cluster found for its chunk and its place in the chunk.
-/

namespace SlobOS

theorem toInt32_add (left right : Int) : toInt32 (toInt32 left + right) = toInt32 (left + right) :=
  Int.bmod_add_bmod

@[simp]
theorem toInt32_toInt32 (value : Int) : toInt32 (toInt32 value) = toInt32 value := Int.bmod_bmod

section Stream

variable {disk : Disk} {pos : Int} {left left' total total' : Nat}

def sectorBytes (disk : Disk) (pos : Int) (count : Nat) : List UInt8 :=
  (List.range count).map fun i : Nat =>
    disk.sector (pos.tdiv slobosSectorSize % addressSpace).toNat (pos.tmod slobosSectorSize + i)

@[simp]
theorem sectorBytes_length (disk : Disk) (pos : Int) (count : Nat) :
    (sectorBytes disk pos count).length = count := by
  rw [sectorBytes, List.length_map, List.length_range]

theorem sectorBytes_take (disk : Disk) (pos : Int) {count count' : Nat} (hle : count ≤ count') :
    (sectorBytes disk pos count').take count = sectorBytes disk pos count := by
  rw [sectorBytes, sectorBytes, ← List.map_take, List.take_range, Nat.min_eq_left hle]

def sectorRoom (pos : Int) : Nat := (slobosSectorSize - pos.tmod slobosSectorSize).toNat

theorem sectorRoom_bounds (pos : Int) :
    (sectorRoom pos : Int) = slobosSectorSize - pos.tmod slobosSectorSize ∧ 0 < sectorRoom pos ∧
      sectorRoom pos < 1024 := by
  have hlt := Int.tmod_lt_of_pos pos (show 0 < slobosSectorSize by decide)
  have hgt := Int.lt_tmod_of_pos pos (show 0 < slobosSectorSize by decide)
  simp only [sectorRoom, slobosSectorSize] at *
  omega

theorem diskstreamerReadLoop_succ :
    diskstreamerReadLoop disk (left + 1) pos total =
      if sectorRoom pos ≤ total then
        let rest := diskstreamerReadLoop disk left (toInt32 (pos + sectorRoom pos))
          (total - sectorRoom pos : Nat)
        { rest with bytes := sectorBytes disk pos (sectorRoom pos) ++ rest.bytes }
      else
        { res := 0, bytes := sectorBytes disk pos total, pos := toInt32 (pos + total) } := by
  obtain ⟨hroom, hpos, hbound⟩ := sectorRoom_bounds pos
  simp only [slobosSectorSize] at hroom
  rw [diskstreamerReadLoop]
  simp only [slobosSectorSize, diskReadBlock, Int.lt_irrefl, if_false]
  by_cases hle : sectorRoom pos ≤ total
  · have hover : pos.tmod 512 + total ≥ 512 := by omega
    have hread : (total : Int) - (pos.tmod 512 + total - 512) = sectorRoom pos := by omega
    have hrest : (total : Int) - sectorRoom pos = (total - sectorRoom pos : Nat) := by omega
    simp only [if_pos hover, if_pos hle, hread, hrest, Int.toNat_natCast, sectorBytes,
      slobosSectorSize]
  · have hover : ¬pos.tmod 512 + total ≥ 512 := by omega
    simp only [hover, if_false, if_neg hle, Int.toNat_natCast, sectorBytes, slobosSectorSize]

theorem diskstreamerReadLoop_length (hleft : total < left) :
    (diskstreamerReadLoop disk left pos total).res = 0 ∧
      (diskstreamerReadLoop disk left pos total).bytes.length = total := by
  induction left generalizing pos total with
  | zero => omega
  | succ left ih =>
      obtain ⟨-, hpos, -⟩ := sectorRoom_bounds pos
      rw [diskstreamerReadLoop_succ]
      split
      case isTrue hle =>
        obtain ⟨hres, hlength⟩ := @ih (toInt32 (pos + sectorRoom pos)) (total - sectorRoom pos)
          (by omega)
        refine ⟨hres, ?_⟩
        rw [List.length_append, sectorBytes_length, hlength]
        omega
      case isFalse => exact ⟨rfl, sectorBytes_length _ _ _⟩

theorem diskstreamerReadLoop_take (hle : total ≤ total') (hleft : total < left)
    (hleft' : total' < left') :
    (diskstreamerReadLoop disk left pos total).bytes =
      (diskstreamerReadLoop disk left' pos total').bytes.take total := by
  induction left generalizing pos total total' left' with
  | zero => omega
  | succ left ih =>
      obtain ⟨left', rfl⟩ := Nat.exists_eq_add_of_lt hleft'
      obtain ⟨-, hpos, -⟩ := sectorRoom_bounds pos
      rw [diskstreamerReadLoop_succ, diskstreamerReadLoop_succ]
      by_cases hfull : sectorRoom pos ≤ total
      · rw [if_pos hfull, if_pos (Nat.le_trans hfull hle)]
        simp only
        rw [List.take_append, sectorBytes_length,
          List.take_of_length_le (by rw [sectorBytes_length]; exact hfull)]
        exact congrArg (sectorBytes disk pos (sectorRoom pos) ++ ·)
          (ih (by omega) (by omega) (by omega))
      · rw [if_neg hfull]
        by_cases hfull' : sectorRoom pos ≤ total'
        · rw [if_pos hfull']
          simp only
          rw [List.take_append_of_le_length (by rw [sectorBytes_length]; omega),
            sectorBytes_take disk pos (by omega)]
        · rw [if_neg hfull']
          exact (sectorBytes_take disk pos hle).symm

theorem diskstreamerRead_length (disk : Disk) (pos : Int) (total : Nat) :
    (diskstreamerRead disk pos total).res = 0 ∧
      (diskstreamerRead disk pos total).bytes.length = total :=
  diskstreamerReadLoop_length (by rw [Int.toNat_natCast]; omega)

theorem diskstreamerRead_within (disk : Disk) (pos total : Int) :
    (diskstreamerRead disk pos total).bytes.length ≤ total.toNat := by
  rcases Int.lt_or_le total 0 with hneg | hge
  · have hlt := Int.tmod_lt_of_pos pos (show 0 < slobosSectorSize by decide)
    have hover : ¬pos.tmod slobosSectorSize + total ≥ slobosSectorSize := by omega
    have hzero : total.toNat = 0 := Int.toNat_of_nonpos (Int.le_of_lt hneg)
    rw [diskstreamerRead, hzero, diskstreamerReadLoop]
    simp only [diskReadBlock, Int.lt_irrefl, if_false, hover, hzero, List.range_zero, List.map_nil,
      List.length_nil, Nat.le_refl]
  · have hlength := (diskstreamerRead_length disk pos total.toNat).2
    rw [Int.toNat_of_nonneg hge] at hlength
    exact Nat.le_of_eq hlength

theorem diskstreamerRead_take (hle : total ≤ total') :
    (diskstreamerRead disk pos total).bytes =
      (diskstreamerRead disk pos total').bytes.take total :=
  diskstreamerReadLoop_take hle (by rw [Int.toNat_natCast]; omega)
    (by rw [Int.toNat_natCast]; omega)

end Stream

/-! ### Steps through a file -/

section Steps

variable {step i : Nat} {offset : Int}

def stepOffset (step : Nat) (offset : Int) (i : Nat) : Int :=
  toInt32 (offset + (i / step * step : Nat))

theorem stepOffset_of_lt (hoffset : toInt32 offset = offset) (hi : i < step) :
    stepOffset step offset i = offset := by
  rw [stepOffset, Nat.div_eq_of_lt hi, Nat.zero_mul]
  simpa using hoffset

theorem stepOffset_of_le (hpos : 0 < step) (hi : step ≤ i) :
    stepOffset step offset i = stepOffset step (toInt32 (offset + step)) (i - step) := by
  obtain ⟨j, rfl⟩ := Nat.exists_eq_add_of_le hi
  rw [stepOffset, stepOffset, toInt32_add, Nat.add_sub_cancel_left, Nat.add_div_left _ hpos,
    Nat.succ_mul]
  congr 1
  push_cast
  omega

end Steps

namespace FatPrivate

variable {fatPrivate : FatPrivate} {disk : Disk} {cluster offset : Int} {left total i : Nat}

section Definitions

variable (fatPrivate disk cluster offset i)

def chunkOffset : Int := stepOffset fatPrivate.sizeOfClusterBytes offset i

def chunkCluster : Int :=
  fatPrivate.clusterForOffset disk cluster (fatPrivate.chunkOffset offset i)

def foundByte : UInt8 :=
  (diskstreamerRead disk (fatPrivate.startingPos (fatPrivate.chunkCluster disk cluster offset i)
    (fatPrivate.chunkOffset offset i)) fatPrivate.sizeOfClusterBytes).bytes.getD
      (i % fatPrivate.sizeOfClusterBytes) 0

end Definitions

theorem chunkOffset_of_lt (hoffset : toInt32 offset = offset)
    (hi : i < fatPrivate.sizeOfClusterBytes) : fatPrivate.chunkOffset offset i = offset :=
  stepOffset_of_lt hoffset hi

theorem chunkOffset_of_le (hpos : 0 < fatPrivate.sizeOfClusterBytes)
    (hi : fatPrivate.sizeOfClusterBytes ≤ i) :
    fatPrivate.chunkOffset offset i = fatPrivate.chunkOffset
      (toInt32 (offset + fatPrivate.sizeOfClusterBytes)) (i - fatPrivate.sizeOfClusterBytes) :=
  stepOffset_of_le hpos hi

theorem chunkCluster_of_lt (hoffset : toInt32 offset = offset)
    (hi : i < fatPrivate.sizeOfClusterBytes) : fatPrivate.chunkCluster disk cluster offset i =
      fatPrivate.clusterForOffset disk cluster offset := by
  rw [chunkCluster, chunkOffset_of_lt hoffset hi]

theorem chunkCluster_add (hpos : 0 < fatPrivate.sizeOfClusterBytes) :
    fatPrivate.chunkCluster disk cluster offset (i + fatPrivate.sizeOfClusterBytes) =
      fatPrivate.chunkCluster disk cluster (toInt32 (offset + fatPrivate.sizeOfClusterBytes)) i := by
  rw [chunkCluster, chunkCluster, chunkOffset_of_le hpos (Nat.le_add_left _ i), Nat.add_sub_cancel]

theorem first_or_later (fatPrivate : FatPrivate) (i : Nat) : i < fatPrivate.sizeOfClusterBytes ∨
    ∃ k, i = k + fatPrivate.sizeOfClusterBytes := by
  by_cases hi : i < fatPrivate.sizeOfClusterBytes
  · exact Or.inl hi
  · exact Or.inr (Nat.exists_eq_add_of_le' (Nat.not_lt.mp hi))

theorem fat16ReadInternalFromStream_succ :
    fatPrivate.fat16ReadInternalFromStream disk cluster (left + 1) offset total =
      if fatPrivate.clusterForOffset disk cluster offset < 0 then
        (fatPrivate.clusterForOffset disk cluster offset, [])
      else
        let start := fatPrivate.startingPos
          (fatPrivate.clusterForOffset disk cluster offset) offset
        if fatPrivate.sizeOfClusterBytes < total then
          let rest := fatPrivate.fat16ReadInternalFromStream disk cluster left
            (toInt32 (offset + fatPrivate.sizeOfClusterBytes))
            (total - fatPrivate.sizeOfClusterBytes : Nat)
          (rest.1, (diskstreamerRead disk start fatPrivate.sizeOfClusterBytes).bytes ++ rest.2)
        else (0, (diskstreamerRead disk start total).bytes) := by
  rw [fat16ReadInternalFromStream]
  simp only [slobosAllOk]
  apply if_congr Iff.rfl rfl
  by_cases hlt : fatPrivate.sizeOfClusterBytes < total
  · have hgt : (total : Int) > fatPrivate.sizeOfClusterBytes := by omega
    have hrest : (total : Int) - fatPrivate.sizeOfClusterBytes =
        (total - fatPrivate.sizeOfClusterBytes : Nat) := by omega
    have hmore : ((total - fatPrivate.sizeOfClusterBytes : Nat) : Int) > 0 := by omega
    simp only [if_pos hgt, if_pos hlt, (diskstreamerRead_length _ _ _).1, ne_eq,
      not_true_eq_false, if_false, hrest, if_pos hmore]
  · have hgt : ¬(total : Int) > fatPrivate.sizeOfClusterBytes := by omega
    simp only [if_neg hgt, if_neg hlt, (diskstreamerRead_length _ _ _).1, ne_eq, not_true_eq_false,
      if_false, Int.sub_self, gt_iff_lt, Int.lt_irrefl]

theorem chunk_getElem (hoffset : toInt32 offset = offset) (htotal : total ≤ fatPrivate.sizeOfClusterBytes)
    (hi : i < total) : (diskstreamerRead disk (fatPrivate.startingPos
      (fatPrivate.clusterForOffset disk cluster offset) offset) total).bytes[i]? =
        some (fatPrivate.foundByte disk cluster offset i) := by
  have hsame := fatPrivate.chunkOffset_of_lt hoffset (Nat.lt_of_lt_of_le hi htotal)
  rw [foundByte, chunkCluster, hsame, Nat.mod_eq_of_lt (Nat.lt_of_lt_of_le hi htotal),
    diskstreamerRead_take htotal, List.getElem?_take_of_lt hi]
  have hlength := (diskstreamerRead_length disk (fatPrivate.startingPos
    (fatPrivate.clusterForOffset disk cluster offset) offset)
    fatPrivate.sizeOfClusterBytes).2
  rw [List.getD_eq_getElem?_getD, List.getElem?_eq_getElem (by omega)]
  rfl

/-- What a read from a stream stores: each byte is the one found for its index, in a cluster that
exists, and all bytes are stored if all clusters exist. -/
structure Stores (fatPrivate : FatPrivate) (disk : Disk) (cluster offset : Int) (total : Nat)
    (result : Int × List UInt8) : Prop where
  length : result.2.length ≤ total
  sound : ∀ i v, result.2[i]? = some v →
    0 ≤ fatPrivate.chunkCluster disk cluster offset i ∧
      v = fatPrivate.foundByte disk cluster offset i
  complete : (∀ i < total, 0 ≤ fatPrivate.chunkCluster disk cluster offset i) →
    result.1 = 0 ∧ result.2.length = total

/-- The rounds of a read: a chunk without a cluster, a whole chunk and then the rest, or one last
chunk. -/
inductive ReadRounds (fatPrivate : FatPrivate) (disk : Disk) (cluster : Int) :
    Int → Nat → Int × List UInt8 → Prop
  | lost {offset : Int} {total : Nat} :
      fatPrivate.clusterForOffset disk cluster offset < 0 →
      ReadRounds fatPrivate disk cluster offset total
        (fatPrivate.clusterForOffset disk cluster offset, [])
  | more {offset : Int} {total : Nat} {rest : Int × List UInt8} :
      0 ≤ fatPrivate.clusterForOffset disk cluster offset →
      fatPrivate.sizeOfClusterBytes < total →
      ReadRounds fatPrivate disk cluster (toInt32 (offset + fatPrivate.sizeOfClusterBytes))
        (total - fatPrivate.sizeOfClusterBytes) rest →
      ReadRounds fatPrivate disk cluster offset total
        (rest.1, (diskstreamerRead disk (fatPrivate.startingPos
          (fatPrivate.clusterForOffset disk cluster offset) offset)
          fatPrivate.sizeOfClusterBytes).bytes ++ rest.2)
  | last {offset : Int} {total : Nat} :
      0 ≤ fatPrivate.clusterForOffset disk cluster offset →
      total ≤ fatPrivate.sizeOfClusterBytes →
      ReadRounds fatPrivate disk cluster offset total
        (0, (diskstreamerRead disk (fatPrivate.startingPos
          (fatPrivate.clusterForOffset disk cluster offset) offset) total).bytes)

theorem fat16ReadInternalFromStream_rounds (hpos : 0 < fatPrivate.sizeOfClusterBytes)
    (hleft : total < left) : ReadRounds fatPrivate disk cluster offset total
      (fatPrivate.fat16ReadInternalFromStream disk cluster left offset total) := by
  induction left generalizing offset total with
  | zero => omega
  | succ left ih =>
      rw [fat16ReadInternalFromStream_succ]
      by_cases hfound : fatPrivate.clusterForOffset disk cluster offset < 0
      · rw [if_pos hfound]
        exact .lost hfound
      rw [if_neg hfound]
      by_cases hlt : fatPrivate.sizeOfClusterBytes < total
      · simp only [if_pos hlt]
        exact .more (Int.not_lt.mp hfound) hlt (ih (by omega))
      · simp only [if_neg hlt]
        exact .last (Int.not_lt.mp hfound) (Nat.not_lt.mp hlt)

namespace ReadRounds

variable {result : Int × List UInt8} (h : ReadRounds fatPrivate disk cluster offset total result)
  (hpos : 0 < fatPrivate.sizeOfClusterBytes) (hoffset : toInt32 offset = offset)

include h hpos hoffset

theorem stores (htotal : 0 < total) : Stores fatPrivate disk cluster offset total result := by
  induction h with
  | lost hlost =>
      refine ⟨Nat.zero_le _, by simp, fun hall => ?_⟩
      have hfirst := hall 0 htotal
      rw [chunkCluster_of_lt hoffset hpos] at hfirst
      omega
  | @more offset total rest hfound hlt _ ih =>
      have hlength := (diskstreamerRead_length disk (fatPrivate.startingPos
        (fatPrivate.clusterForOffset disk cluster offset) offset)
        fatPrivate.sizeOfClusterBytes).2
      obtain ⟨hrest, hsound, hcomplete⟩ := ih (toInt32_toInt32 _) (by omega)
      refine ⟨?_, fun i v hi => ?_, fun hall => ?_⟩
      · rw [List.length_append]
        omega
      · rcases fatPrivate.first_or_later i with hin | ⟨k, rfl⟩
        · rw [List.getElem?_append_left (by omega), chunk_getElem hoffset (Nat.le_refl _) hin] at hi
          rw [chunkCluster_of_lt hoffset hin]
          exact ⟨hfound, (Option.some.inj hi).symm⟩
        · rw [List.getElem?_append_right (by omega), hlength, Nat.add_sub_cancel] at hi
          obtain ⟨hle, rfl⟩ := hsound _ _ hi
          rw [foundByte, foundByte, chunkCluster_add hpos,
            chunkOffset_of_le hpos (Nat.le_add_left _ k), Nat.add_sub_cancel, Nat.add_mod_right]
          exact ⟨hle, rfl⟩
      · obtain ⟨hres, hlength'⟩ := hcomplete fun i hi => by
          rw [← chunkCluster_add hpos]
          exact hall _ (by omega)
        refine ⟨hres, ?_⟩
        rw [List.length_append]
        omega
  | @last offset total hfound hle =>
      have hlength := (diskstreamerRead_length disk (fatPrivate.startingPos
        (fatPrivate.clusterForOffset disk cluster offset) offset) total).2
      refine ⟨Nat.le_of_eq hlength, fun i v hi => ?_, fun _ => ⟨rfl, hlength⟩⟩
      have hin : i < total := by
        rw [← hlength]
        exact (List.getElem?_eq_some_iff.mp hi).1
      rw [chunk_getElem hoffset hle hin] at hi
      rw [chunkCluster_of_lt hoffset (Nat.lt_of_lt_of_le hin hle)]
      exact ⟨hfound, (Option.some.inj hi).symm⟩

theorem lt_iff (i : Nat) : i < result.2.length ↔
    i < total ∧ ∀ j ≤ i, 0 ≤ fatPrivate.chunkCluster disk cluster offset j := by
  induction h generalizing i with
  | lost hlost =>
      refine iff_of_false (Nat.not_lt_zero i) fun hall => ?_
      have hle := hall.2 0 (Nat.zero_le i)
      rw [chunkCluster_of_lt hoffset hpos] at hle
      omega
  | @more offset total rest hfound hlt _ ih =>
      have hfirst : ∀ j < fatPrivate.sizeOfClusterBytes,
          0 ≤ fatPrivate.chunkCluster disk cluster offset j := fun j hj => by
        rwa [chunkCluster_of_lt hoffset hj]
      rw [List.length_append, (diskstreamerRead_length _ _ _).2]
      rcases fatPrivate.first_or_later i with hin | ⟨k, rfl⟩
      · exact iff_of_true (by omega) ⟨by omega, fun j hj => hfirst j (by omega)⟩
      rw [Nat.add_comm k, Nat.add_lt_add_iff_left, ih (toInt32_toInt32 _)]
      constructor
      · rintro ⟨hk, hall⟩
        refine ⟨by omega, fun j hj => ?_⟩
        rcases fatPrivate.first_or_later j with hin | ⟨j', rfl⟩
        · exact hfirst j hin
        · rw [chunkCluster_add hpos]
          exact hall j' (by omega)
      · rintro ⟨hk, hall⟩
        refine ⟨by omega, fun j hj => ?_⟩
        rw [← chunkCluster_add hpos]
        exact hall _ (by omega)
  | last hfound hle =>
      rw [(diskstreamerRead_length _ _ _).2]
      refine ⟨fun hi => ⟨hi, fun j hj => ?_⟩, fun hall => hall.1⟩
      rwa [chunkCluster_of_lt hoffset (by omega)]

theorem neg_iff (htotal : 0 < total) :
    result.1 < 0 ↔ ∃ i < total, fatPrivate.chunkCluster disk cluster offset i < 0 := by
  induction h with
  | lost hlost =>
      refine iff_of_true hlost ⟨0, htotal, ?_⟩
      rwa [chunkCluster_of_lt hoffset hpos]
  | more hfound hlt _ ih =>
      rw [ih (toInt32_toInt32 _) (by omega)]
      constructor
      · rintro ⟨i, hi, hneg⟩
        exact ⟨i + fatPrivate.sizeOfClusterBytes, by omega, by rwa [chunkCluster_add hpos]⟩
      · rintro ⟨i, hi, hneg⟩
        rcases fatPrivate.first_or_later i with hin | ⟨k, rfl⟩
        · rw [chunkCluster_of_lt hoffset hin] at hneg
          omega
        · exact ⟨k, by omega, by rwa [← chunkCluster_add hpos]⟩
  | last hfound hle =>
      refine iff_of_false (Int.lt_irrefl 0) ?_
      rintro ⟨i, hi, hneg⟩
      rw [chunkCluster_of_lt hoffset (by omega)] at hneg
      omega

end ReadRounds

theorem fat16ReadInternalFromStream_stores (hpos : 0 < fatPrivate.sizeOfClusterBytes)
    (hoffset : toInt32 offset = offset) (htotal : 0 < total) (hleft : total < left) :
    Stores fatPrivate disk cluster offset total
      (fatPrivate.fat16ReadInternalFromStream disk cluster left offset total) :=
  (fat16ReadInternalFromStream_rounds hpos hleft).stores hpos hoffset htotal

theorem fat16ReadInternalFromStream_lt_iff (hpos : 0 < fatPrivate.sizeOfClusterBytes)
    (hoffset : toInt32 offset = offset) (hleft : total < left) :
    i < (fatPrivate.fat16ReadInternalFromStream disk cluster left offset total).2.length ↔
      i < total ∧ ∀ j ≤ i, 0 ≤ fatPrivate.chunkCluster disk cluster offset j :=
  (fat16ReadInternalFromStream_rounds hpos hleft).lt_iff hpos hoffset i

theorem fat16ReadInternalFromStream_neg_iff (hpos : 0 < fatPrivate.sizeOfClusterBytes)
    (hoffset : toInt32 offset = offset) (htotal : 0 < total) (hleft : total < left) :
    (fatPrivate.fat16ReadInternalFromStream disk cluster left offset total).1 < 0 ↔
      ∃ i < total, fatPrivate.chunkCluster disk cluster offset i < 0 :=
  (fat16ReadInternalFromStream_rounds hpos hleft).neg_iff hpos hoffset htotal

end FatPrivate

theorem FatPrivate.fat16ReadInternalFromStream_within (fatPrivate : FatPrivate) (disk : Disk)
    (cluster offset total : Int) (left : Nat) :
    (fatPrivate.fat16ReadInternalFromStream disk cluster left offset total).2.length ≤ total.toNat := by
  induction left generalizing offset total with
  | zero => exact Nat.zero_le _
  | succ left ih =>
      rw [fat16ReadInternalFromStream]
      generalize hread : (if total > fatPrivate.sizeOfClusterBytes then
        (fatPrivate.sizeOfClusterBytes : Int) else total) = totalToRead
      have hle : totalToRead.toNat ≤ total.toNat := by
        split at hread <;> omega
      split
      case isTrue => exact Nat.zero_le _
      case isFalse =>
        have hfirst := diskstreamerRead_within disk
          (fatPrivate.startingPos (fatPrivate.clusterForOffset disk cluster offset) offset)
          totalToRead
        simp only
        split
        case isTrue => exact Nat.le_trans hfirst hle
        case isFalse =>
          split
          case isTrue hmore =>
            have hrest := ih (toInt32 (offset + totalToRead)) (total - totalToRead)
            rw [List.length_append]
            split at hread <;> omega
          case isFalse => exact Nat.le_trans hfirst hle

end SlobOS
