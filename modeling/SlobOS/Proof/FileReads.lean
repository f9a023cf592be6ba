import SlobOS.Proof.Fat16
import SlobOS.Proof.Files

/-!
# What a call of `fread` stores

The call reads member by member. For each index in the buffer there is the byte that is stored there,
if any, and the buffer is left with these over what it held.
-/

namespace SlobOS

namespace FatPrivate

section Definitions

variable (fatPrivate : FatPrivate) (disk : Disk) (cluster : Int) (size : Nat)

def readMember (offset : Int) : Int × List UInt8 :=
  fatPrivate.fat16ReadInternalFromStream disk cluster ((toInt32 size).toNat + 1) offset
    (toInt32 size)

def stored : Nat → Int → Nat → Option UInt8
  | 0, _, _ => none
  | left + 1, offset, i =>
      if i < size then (fatPrivate.readMember disk cluster size offset).2[i]?
      else if (fatPrivate.readMember disk cluster size offset).1 < 0 then none
      else stored left (toInt32 (offset + size)) (i - size)

def readCode : Nat → Int → Int
  | 0, _ => 0
  | left + 1, offset =>
      if (fatPrivate.readMember disk cluster size offset).1 < 0 then
        (fatPrivate.readMember disk cluster size offset).1
      else readCode left (toInt32 (offset + size))

def readCluster (offset : Int) (i : Nat) : Int :=
  fatPrivate.chunkCluster disk cluster (stepOffset size offset i) (i % size)

def readByte (offset : Int) (i : Nat) : UInt8 :=
  fatPrivate.foundByte disk cluster (stepOffset size offset i) (i % size)

end Definitions

variable {fatPrivate : FatPrivate} {disk : Disk} {cluster offset : Int} {size left i : Nat}

theorem readMember_stores (hpos : 0 < fatPrivate.sizeOfClusterBytes)
    (hoffset : toInt32 offset = offset) (hsize : 0 < size) (hlt : size < 0x80000000) :
    Stores fatPrivate disk cluster offset size
      (fatPrivate.readMember disk cluster size offset) := by
  have hsame : toInt32 size = size := toInt32_of_range (by omega) (by omega)
  rw [readMember, hsame]
  exact fat16ReadInternalFromStream_stores hpos hoffset hsize (by rw [Int.toNat_natCast]; omega)

theorem diskstreamerRead_negative {pos total : Int} (htotal : total ≤ 0) :
    (diskstreamerRead disk pos total).bytes = [] := by
  have hlt := Int.tmod_lt_of_pos pos (show 0 < slobosSectorSize by decide)
  have hover : ¬pos.tmod slobosSectorSize + total ≥ slobosSectorSize := by omega
  have htoNat : total.toNat = 0 := by omega
  rw [diskstreamerRead, diskstreamerReadLoop]
  simp only [diskReadBlock, Int.lt_irrefl, if_false, hover, htoNat, List.range_zero, List.map_nil]

theorem fat16ReadInternalFromStream_negative {total : Int} (htotal : total ≤ 0) :
    (fatPrivate.fat16ReadInternalFromStream disk cluster (left + 1) offset total).2 = [] := by
  have hle : ¬total > (fatPrivate.sizeOfClusterBytes : Int) := by omega
  rw [fat16ReadInternalFromStream]
  simp only [hle, if_false, Int.sub_self, gt_iff_lt, Int.lt_irrefl, diskstreamerRead_negative htotal]
  split
  · rfl
  · split <;> rfl

theorem readMember_negative (hsize : toInt32 size ≤ 0) :
    (fatPrivate.readMember disk cluster size offset).2 = [] :=
  fat16ReadInternalFromStream_negative hsize

theorem readMember_length (hpos : 0 < fatPrivate.sizeOfClusterBytes)
    (hoffset : toInt32 offset = offset) (hsize : 0 < size) :
    (fatPrivate.readMember disk cluster size offset).2.length ≤ size ∧
      ((fatPrivate.readMember disk cluster size offset).2.length = size → size < 0x80000000) := by
  by_cases hlt : size < 0x80000000
  · exact ⟨(readMember_stores hpos hoffset hsize hlt).length, fun _ => hlt⟩
  have hbound : (toInt32 size).toNat < size := by
    simp only [toInt32, addressSpace, Int.bmod]
    omega
  have hlength : (fatPrivate.readMember disk cluster size offset).2.length ≤
      (toInt32 size).toNat := by
    by_cases hneg : toInt32 size ≤ 0
    · rw [readMember_negative hneg]
      exact Nat.zero_le _
    · have hcast : ((toInt32 size).toNat : Int) = toInt32 size := by omega
      rw [readMember, ← hcast, Int.toNat_natCast]
      exact (fat16ReadInternalFromStream_stores hpos hoffset (by omega) (by omega)).length
  omega

theorem stored_none (hi : size * left ≤ i) :
    fatPrivate.stored disk cluster size left offset i = none := by
  induction left generalizing offset i with
  | zero => rfl
  | succ left ih =>
      rw [Nat.mul_succ] at hi
      rw [stored, if_neg (by omega)]
      split
      · rfl
      · exact ih (by omega)

section Stored

variable (hpos : 0 < fatPrivate.sizeOfClusterBytes) (hoffset : toInt32 offset = offset)

include hpos hoffset

theorem stored_size (hsize : 0 < size)
    (h : (fatPrivate.stored disk cluster size (left + 1) offset (size - 1)).isSome) :
    size < 0x80000000 := by
  obtain ⟨hle, hfull⟩ := @readMember_length fatPrivate disk cluster offset size hpos hoffset hsize
  rw [stored, if_pos (by omega), Option.isSome_iff_exists] at h
  obtain ⟨v, hv⟩ := h
  have hlt := (List.getElem?_eq_some_iff.mp hv).1
  exact hfull (by omega)

theorem stored_sound (hsize : 0 < size) (hlt : size < 0x80000000) {v : UInt8}
    (h : fatPrivate.stored disk cluster size left offset i = some v) :
    0 ≤ fatPrivate.readCluster disk cluster size offset i ∧
      v = fatPrivate.readByte disk cluster size offset i := by
  induction left generalizing offset i with
  | zero => cases h
  | succ left ih =>
      rw [stored] at h
      by_cases hi : i < size
      · rw [if_pos hi] at h
        rw [readCluster, readByte, stepOffset_of_lt hoffset hi, Nat.mod_eq_of_lt hi]
        exact (readMember_stores hpos hoffset hsize hlt).sound i v h
      · rw [if_neg hi] at h
        split at h
        · cases h
        · have hrest := ih (toInt32_toInt32 _) h
          rwa [readCluster, readByte, ← stepOffset_of_le hsize (Nat.not_lt.mp hi),
            ← Nat.mod_eq_sub_mod (Nat.not_lt.mp hi)] at hrest

theorem stored_complete (hsize : 0 < size) (hlt : size < 0x80000000)
    (hall : ∀ i < size * left, 0 ≤ fatPrivate.readCluster disk cluster size offset i)
    (hi : i < size * left) : fatPrivate.stored disk cluster size left offset i =
      some (fatPrivate.readByte disk cluster size offset i) := by
  induction left generalizing offset i with
  | zero => omega
  | succ left ih =>
      rw [Nat.mul_succ] at hall hi
      have hstores := @readMember_stores fatPrivate disk cluster offset size hpos hoffset hsize hlt
      obtain ⟨hres, hlength⟩ := hstores.complete fun j hj => by
        have hcell := hall j (by omega)
        rwa [readCluster, stepOffset_of_lt hoffset hj, Nat.mod_eq_of_lt hj] at hcell
      rw [stored]
      by_cases hin : i < size
      · rw [if_pos hin, readByte, stepOffset_of_lt hoffset hin, Nat.mod_eq_of_lt hin]
        have hcell := List.getElem?_eq_getElem (hlength ▸ hin)
        rw [hcell, (hstores.sound i _ hcell).2]
      · have hge := Nat.not_lt.mp hin
        rw [if_neg hin, hres, if_neg (by omega), ih (toInt32_toInt32 _) (fun j hj => ?_) (by omega)]
        · rw [readByte, readByte, ← stepOffset_of_le hsize hge, ← Nat.mod_eq_sub_mod hge]
        · have hcell := hall (j + size) (by omega)
          rwa [readCluster, stepOffset_of_le hsize (by omega), Nat.add_sub_cancel,
            Nat.add_mod_right] at hcell

end Stored

end FatPrivate

namespace Kernel

open Faulting

def overlay (out : Nat) (bytes : Nat → Option UInt8) (kernel : Kernel) : Kernel :=
  { kernel with memory := fun pages address =>
      if address < out then kernel.memory pages address
      else (bytes (address - out)).getD (kernel.memory pages address) }

variable {kernel : Kernel} {out : Nat}

theorem overlay_none (out : Nat) (kernel : Kernel) : overlay out (fun _ => none) kernel = kernel := by
  simp only [overlay, Option.getD_none, ite_self]

theorem writeBytes_eq_overlay (out : Nat) (bytes : List UInt8) (kernel : Kernel) :
    writeBytes out bytes.length (fun i => bytes.getD i 0) kernel =
      overlay out (fun i => bytes[i]?) kernel := by
  simp only [writeBytes, overlay]
  congr 1
  funext pages address
  by_cases hlt : address < out
  · rw [if_neg (by omega), if_pos hlt]
  · rw [if_neg hlt]
    by_cases hin : address - out < bytes.length
    · rw [if_pos (by omega), List.getElem?_eq_getElem hin, List.getD_eq_getElem?_getD,
        List.getElem?_eq_getElem hin]
      rfl
    · rw [if_neg (by omega), List.getElem?_eq_none (by omega)]
      rfl

theorem overlay_overlay {size : Nat} {first rest : Nat → Option UInt8}
    (hfirst : ∀ i, size ≤ i → first i = none) :
    overlay (out + size) rest (overlay out first kernel) =
      overlay out (fun i => if i < size then first i else rest (i - size)) kernel := by
  simp only [overlay]
  congr 1
  funext pages address
  by_cases hlt : address < out
  · rw [if_pos (by omega), if_pos hlt, if_pos hlt]
  · rw [if_neg hlt, if_neg hlt]
    by_cases hin : address - out < size
    · rw [if_pos (by omega), if_pos hin]
    · rw [if_neg (by omega), if_neg hin, hfirst _ (by omega), Nat.sub_add_eq]
      rfl

section Reads

variable {fatPrivate : FatPrivate} {disk : Disk} {cluster offset : Int} {size left : Nat}
  (hvolume : kernel.volume.readInternal = fatPrivate.fat16ReadInternal disk)
  (hpos : 0 < fatPrivate.sizeOfClusterBytes)

include hvolume hpos

theorem ends_readMember (hne : out ≠ 0) :
    Ends (fat16ReadInternal cluster offset (toInt32 size) out) kernel
      (fatPrivate.readMember disk cluster size offset).1
      (overlay out (fun i => (fatPrivate.readMember disk cluster size offset).2[i]?) kernel) := by
  have hread : kernel.volume.readInternal cluster offset (toInt32 size) =
      some (fatPrivate.readMember disk cluster size offset) := by
    rw [hvolume, FatPrivate.fat16ReadInternal, if_neg (by omega), FatPrivate.readMember]
  generalize fatPrivate.readMember disk cluster size offset = read at hread ⊢
  obtain ⟨res, bytes⟩ := read
  rw [← writeBytes_eq_overlay]
  exact ends_fat16ReadInternal hread hne

theorem ends_fat16ReadMembers (hne : out ≠ 0) (hsize : 0 < size)
    (hoffset : toInt32 offset = offset) :
    Ends (fat16ReadMembers cluster size left offset out) kernel
      (fatPrivate.readCode disk cluster size left offset)
      (overlay out (fatPrivate.stored disk cluster size left offset) kernel) := by
  induction left generalizing kernel offset out with
  | zero => exact ends_pure.mpr ⟨rfl, overlay_none out kernel⟩
  | succ left ih =>
      have hread := @ends_readMember kernel out fatPrivate disk cluster offset size hvolume hpos hne
      have hnone : ∀ i, size ≤ i →
          (fatPrivate.readMember disk cluster size offset).2[i]? = none := fun i hi =>
        List.getElem?_eq_none
          (Nat.le_trans (FatPrivate.readMember_length hpos hoffset hsize).1 hi)
      simp only [fat16ReadMembers, ends_bind, ends_ite]
      by_cases hres : (fatPrivate.readMember disk cluster size offset).1 < 0
      · rw [FatPrivate.readCode, if_pos hres]
        refine ⟨_, _, hread, Or.inl ⟨hres, ends_pure.mpr ⟨rfl, ?_⟩⟩⟩
        congr 1
        funext i
        rw [FatPrivate.stored, if_pos hres]
        split
        · rfl
        · exact (hnone i (by omega)).symm
      · have hend := @ih (overlay out (fun i =>
          (fatPrivate.readMember disk cluster size offset).2[i]?) kernel) (out + size)
          (toInt32 (offset + size)) hvolume (by omega) (toInt32_toInt32 _)
        refine ⟨_, _, hread, Or.inr ⟨hres, ?_⟩⟩
        rw [overlay_overlay hnone] at hend
        simp only [FatPrivate.readCode, FatPrivate.stored, if_neg hres]
        exact hend

end Reads

end Kernel

end SlobOS
