import SlobOS.Proof.Fat16

/-!
# What a stream delivers

Below the positions that an `int` cannot hold, the stream delivers the bytes of the disk one after the
other, and it is left behind the last of them.
-/

namespace SlobOS

def Disk.byte (disk : Disk) (pos : Nat) : UInt8 := disk.sector (pos / 512) (pos % 512 : Nat)

def Disk.bytes (disk : Disk) (pos count : Nat) : List UInt8 :=
  (List.range count).map fun i => disk.byte (pos + i)

variable {disk : Disk} {left : Nat}

@[simp]
theorem Disk.bytes_length (pos count : Nat) : (disk.bytes pos count).length = count := by
  rw [Disk.bytes, List.length_map, List.length_range]

theorem Disk.bytes_getD {pos count i : Nat} (hi : i < count) :
    (disk.bytes pos count).getD i 0 = disk.byte (pos + i) := by
  rw [List.getD_eq_getElem?_getD, Disk.bytes, List.getElem?_map, List.getElem?_range hi]
  rfl

theorem Disk.bytes_add (pos count count' : Nat) :
    disk.bytes pos (count + count') = disk.bytes pos count ++ disk.bytes (pos + count) count' := by
  rw [Disk.bytes, List.range_add, List.map_append, List.map_map]
  congr 1
  apply List.map_congr_left
  intro i _
  exact congrArg disk.byte (Nat.add_assoc _ _ _).symm

theorem sectorRoom_natCast (pos : Nat) : sectorRoom pos = 512 - pos % 512 := by
  rw [sectorRoom, slobosSectorSize, Int.tmod_eq_emod_of_nonneg (by omega)]
  omega

theorem sectorBytes_natCast {pos count : Nat} (hpos : pos < 0x80000000)
    (hcount : count ≤ sectorRoom pos) : sectorBytes disk pos count = disk.bytes pos count := by
  rw [sectorRoom_natCast] at hcount
  rw [sectorBytes, Disk.bytes]
  apply List.map_congr_left
  intro i hi
  have hlt := List.mem_range.mp hi
  have hsector : ((pos : Int).tdiv slobosSectorSize % addressSpace).toNat = (pos + i) / 512 := by
    rw [slobosSectorSize, Int.tdiv_eq_ediv_of_nonneg (by omega), addressSpace]
    omega
  have hindex : (pos : Int).tmod slobosSectorSize + i = ((pos + i) % 512 : Nat) := by
    rw [slobosSectorSize, Int.tmod_eq_emod_of_nonneg (by omega)]
    omega
  rw [Disk.byte, hsector, hindex]

theorem diskstreamerRead_sector {pos : Int} {total : Nat} (htotal : total < sectorRoom pos) :
    diskstreamerRead disk pos total =
      { res := 0, bytes := sectorBytes disk pos total, pos := toInt32 (pos + total) } := by
  rw [diskstreamerRead, Int.toNat_natCast, diskstreamerReadLoop_succ,
    if_neg (Nat.not_le.mpr htotal)]

theorem diskstreamerReadLoop_eq {pos total : Nat} (hleft : total < left)
    (hend : pos + total < 0x80000000) :
    (diskstreamerReadLoop disk left pos total).bytes = disk.bytes pos total ∧
      (diskstreamerReadLoop disk left pos total).pos = (pos + total : Nat) := by
  induction left generalizing pos total with
  | zero => omega
  | succ left ih =>
      obtain ⟨-, hroom, -⟩ := sectorRoom_bounds pos
      rw [diskstreamerReadLoop_succ]
      split
      case isTrue hle =>
        have hnext : toInt32 (pos + sectorRoom pos) = (pos + sectorRoom pos : Nat) := by
          rw [toInt32_of_range (by omega) (by omega)]
          exact (Int.natCast_add _ _).symm
        obtain ⟨hbytes, hpos⟩ := @ih (pos + sectorRoom pos) (total - sectorRoom pos) (by omega)
          (by omega)
        simp only [hnext, hbytes, hpos, sectorBytes_natCast (show pos < 0x80000000 by omega)
          (Nat.le_refl _), ← Disk.bytes_add]
        have hsum : sectorRoom pos + (total - sectorRoom pos) = total := by omega
        rw [hsum]
        exact ⟨rfl, congrArg Int.ofNat (by omega)⟩
      case isFalse hle =>
        simp only [sectorBytes_natCast (show pos < 0x80000000 by omega)
          (Nat.le_of_lt (Nat.lt_of_not_le hle)), true_and]
        rw [toInt32_of_range (by omega) (by omega)]
        exact (Int.natCast_add _ _).symm

theorem diskstreamerRead_eq {pos total : Nat} (hend : pos + total < 0x80000000) :
    (diskstreamerRead disk pos total).bytes = disk.bytes pos total ∧
      (diskstreamerRead disk pos total).pos = (pos + total : Nat) :=
  diskstreamerReadLoop_eq (by rw [Int.toNat_natCast]; omega) hend

theorem diskstreamerReadLoop_pos {pos : Int} {total : Nat} (hleft : total < left) :
    (diskstreamerReadLoop disk left pos total).pos = toInt32 (pos + total) := by
  induction left generalizing pos total with
  | zero => omega
  | succ left ih =>
      obtain ⟨-, hroom, -⟩ := sectorRoom_bounds pos
      rw [diskstreamerReadLoop_succ]
      split
      case isTrue hle =>
        simp only [ih (show total - sectorRoom pos < left by omega), toInt32_add]
        congr 1
        omega
      case isFalse => rfl

theorem diskstreamerRead_pos (pos : Int) (total : Nat) :
    (diskstreamerRead disk pos total).pos = toInt32 (pos + total) :=
  diskstreamerReadLoop_pos (by rw [Int.toNat_natCast]; omega)

/-- The byte at an index of the buffer that a sector is read to. -/
def Disk.cell (disk : Disk) (place : Nat × Int) : UInt8 := disk.sector place.1 place.2

def sectorCells (pos : Int) (count : Nat) : List (Nat × Int) :=
  (List.range count).map fun i : Nat =>
    ((pos.tdiv slobosSectorSize % addressSpace).toNat, pos.tmod slobosSectorSize + i)

/-- The places that a read takes its bytes from, whatever they hold. -/
def streamCellsLoop : Nat → Int → Nat → List (Nat × Int)
  | 0, _, _ => []
  | left + 1, pos, total =>
      if sectorRoom pos ≤ total then
        sectorCells pos (sectorRoom pos) ++
          streamCellsLoop left (toInt32 (pos + sectorRoom pos)) (total - sectorRoom pos)
      else sectorCells pos total

def streamCells (pos : Int) (total : Nat) : List (Nat × Int) := streamCellsLoop (total + 1) pos total

theorem sectorBytes_cells (pos : Int) (count : Nat) :
    sectorBytes disk pos count = (sectorCells pos count).map disk.cell := by
  rw [sectorBytes, sectorCells, List.map_map]
  rfl

theorem diskstreamerReadLoop_cells {pos : Int} {total : Nat} :
    (diskstreamerReadLoop disk left pos total).bytes =
      (streamCellsLoop left pos total).map disk.cell := by
  induction left generalizing pos total with
  | zero => rfl
  | succ left ih =>
      rw [diskstreamerReadLoop_succ, streamCellsLoop]
      split
      · simp only [ih, List.map_append, sectorBytes_cells]
      · exact sectorBytes_cells pos total

theorem diskstreamerRead_cells (pos : Int) (total : Nat) :
    (diskstreamerRead disk pos total).bytes = (streamCells pos total).map disk.cell := by
  rw [diskstreamerRead, Int.toNat_natCast, diskstreamerReadLoop_cells, streamCells]

theorem streamCells_length (pos : Int) (total : Nat) : (streamCells pos total).length = total := by
  have hlength := (diskstreamerRead_length { sector := fun _ _ => 0 } pos total).2
  rwa [diskstreamerRead_cells, List.length_map] at hlength

theorem streamCells_getD {pos total i : Nat} (hend : pos + total < 0x80000000) (hi : i < total) :
    (streamCells pos total).getD i (0, 0) = ((pos + i) / 512, (((pos + i) % 512 : Nat) : Int)) := by
  -- On a disk with one byte at that place, the byte is found there.
  let marked : Disk :=
    { sector := fun lba k => if (lba, k) = ((pos + i) / 512, (((pos + i) % 512 : Nat) : Int))
        then 1 else 0 }
  have hbytes := (@diskstreamerRead_eq marked pos total hend).1
  rw [diskstreamerRead_cells] at hbytes
  have hin : i < (streamCells pos total).length := by rwa [streamCells_length]
  have hbyte : marked.cell (streamCells pos total)[i] = marked.byte (pos + i) := by
    have hget := congrArg (fun bytes => bytes.getD i 0) hbytes
    simp only [Disk.bytes_getD hi, List.getD_eq_getElem?_getD, List.getElem?_map,
      List.getElem?_eq_getElem hin] at hget
    exact hget
  have hone : marked.byte (pos + i) = 1 := if_pos rfl
  rw [hone] at hbyte
  rw [List.getD_eq_getElem?_getD, List.getElem?_eq_getElem hin, Option.getD_some]
  by_contra hne
  have hzero : marked.cell (streamCells pos total)[i] = 0 := if_neg hne
  rw [hzero] at hbyte
  exact absurd hbyte (by decide)

end SlobOS
