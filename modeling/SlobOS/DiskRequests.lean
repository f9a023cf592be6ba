import SlobOS.Lib.CStrings
import SlobOS.Proof.Streams

/-!
# The sectors that are asked for

The bytes that a stream delivers do not say which sectors were read for them. A read that ends where a
sector ends takes one more round for no bytes, and asks for the sector behind.
-/

namespace SlobOS

open CStrings

/-- `diskstreamer_read` with the sectors that it asks for. The sum of the offset and the total is an
`int` too. -/
def diskstreamerReadTraced (disk : Disk) : Nat → Int → Int → StreamRead × List Nat
  | 0, pos, _ => ({ res := 0, bytes := [], pos := pos }, [])
  | left + 1, pos, total =>
      let sector := (pos.tdiv slobosSectorSize % addressSpace).toNat
      let offset := pos.tmod slobosSectorSize
      let overflow := toInt32 (offset + total) ≥ slobosSectorSize
      let totalToRead := if overflow then total - (offset + total - slobosSectorSize) else total
      let (res, buf) := diskReadBlock disk sector
      if res < 0 then ({ res := res, bytes := [], pos := pos }, [sector])
      else
        let bytes := (List.range totalToRead.toNat).map fun i : Nat => buf (offset + i)
        let pos := toInt32 (pos + totalToRead)
        if overflow then
          let (rest, sectors) := diskstreamerReadTraced disk left pos (total - totalToRead)
          ({ rest with bytes := bytes ++ rest.bytes }, sector :: sectors)
        else ({ res := res, bytes := bytes, pos := pos }, [sector])

def diskstreamerSectors (disk : Disk) (pos total : Int) : List Nat :=
  (diskstreamerReadTraced disk (total.toNat + 1) pos total).2

/-- The sectors are those of the bytes from the position on. So a range of bytes that lies in a disk of
`count` sectors is read from these. -/
structure AsksForItsSectors (disk : Disk) (pos total : Int) : Prop where
  exact : ∀ sector : Nat, sector ∈ diskstreamerSectors disk pos total ↔
    pos / slobosSectorSize ≤ sector ∧ (sector : Int) ≤ (pos + total - 1) / slobosSectorSize
  inside : ∀ count : Nat, pos + total ≤ slobosSectorSize * count →
    ∀ sector ∈ diskstreamerSectors disk pos total, sector < count

variable {disk : Disk} {left : Nat}

theorem toInt32_bounds (value : Int) : -0x80000000 ≤ toInt32 value ∧ toInt32 value < 0x80000000 := by
  simp only [toInt32, addressSpace, Int.bmod]
  omega

theorem diskstreamerReadTraced_fst {pos total : Int} (hge : 0 ≤ total) (hlt : total < 0x7ffffe00) :
    (diskstreamerReadTraced disk left pos total).1 = diskstreamerReadLoop disk left pos total := by
  induction left generalizing pos total with
  | zero => rfl
  | succ left ih =>
      obtain ⟨hroom, hpos, -⟩ := sectorRoom_bounds pos
      have hgt := Int.lt_tmod_of_pos pos (show 0 < slobosSectorSize by decide)
      simp only [slobosSectorSize] at hroom hgt
      have hsum : toInt32 (pos.tmod slobosSectorSize + total) = pos.tmod slobosSectorSize + total := by
        apply toInt32_of_range <;> simp only [slobosSectorSize] <;> omega
      rw [diskstreamerReadTraced, diskstreamerReadLoop]
      simp only [hsum, diskReadBlock, Int.lt_irrefl, if_false]
      by_cases hover : pos.tmod slobosSectorSize + total ≥ slobosSectorSize
      · simp only [hover, if_true]
        rw [ih (by simp only [slobosSectorSize] at *; omega) (by simp only [slobosSectorSize] at *; omega)]
      · simp only [hover, if_false]

section Rounds

theorem tmod_slobosSectorSize (pos : Nat) : (pos : Int).tmod slobosSectorSize = (pos % 512 : Nat) := by
  rw [slobosSectorSize, Int.tmod_eq_emod_of_nonneg (Int.natCast_nonneg pos)]
  rfl

theorem tdiv_slobosSectorSize {pos : Nat} (hpos : pos ≤ 0x80000000) :
    ((pos : Int).tdiv slobosSectorSize % addressSpace).toNat = pos / 512 := by
  rw [slobosSectorSize, Int.tdiv_eq_ediv_of_nonneg (Int.natCast_nonneg pos), addressSpace]
  omega

theorem diskstreamerReadTraced_succ {pos total : Nat} (hpos : pos < 0x80000000)
    (hsum : pos % 512 + total < 0x80000000) :
    (diskstreamerReadTraced disk (left + 1) pos total).2 =
      if sectorRoom pos ≤ total then
        pos / 512 :: (diskstreamerReadTraced disk left (toInt32 (pos + sectorRoom pos : Nat))
          (total - sectorRoom pos : Nat)).2
      else [pos / 512] := by
  have hroom := sectorRoom_natCast pos
  have hoffset := tmod_slobosSectorSize pos
  have hsector := tdiv_slobosSectorSize (show pos ≤ 0x80000000 by omega)
  have hover : toInt32 ((pos % 512 : Nat) + (total : Int)) = (pos % 512 : Nat) + (total : Int) :=
    toInt32_of_range (by omega) (by omega)
  rw [diskstreamerReadTraced]
  simp only [hoffset, hsector, hover, diskReadBlock, Int.lt_irrefl, if_false]
  by_cases hle : sectorRoom pos ≤ total
  · have hge : ((pos % 512 : Nat) : Int) + total ≥ slobosSectorSize := by
      simp only [slobosSectorSize]
      omega
    have hread : (total : Int) - ((pos % 512 : Nat) + total - slobosSectorSize) = sectorRoom pos := by
      simp only [slobosSectorSize]
      omega
    have hrest : (total : Int) - sectorRoom pos = (total - sectorRoom pos : Nat) := by omega
    simp only [if_pos hge, if_pos hle, hread, hrest, Int.natCast_add]
  · have hge : ¬((pos % 512 : Nat) : Int) + total ≥ slobosSectorSize := by
      simp only [slobosSectorSize]
      omega
    simp only [if_neg hge, if_neg hle]

theorem diskstreamerReadTraced_overflows {pos total : Nat} (hsum : 0x80000000 ≤ pos % 512 + total)
    (hlt : pos + total ≤ 0x80000000) :
    (diskstreamerReadTraced disk (left + 1) pos total).2 = [pos / 512] := by
  have hoffset := tmod_slobosSectorSize pos
  have hsector := tdiv_slobosSectorSize (show pos ≤ 0x80000000 by omega)
  have hover : ¬toInt32 ((pos % 512 : Nat) + (total : Int)) ≥ slobosSectorSize := by
    have hwrap : ((pos % 512 : Nat) : Int) + total = 0x80000000 := by omega
    rw [hwrap]
    decide
  rw [diskstreamerReadTraced]
  simp only [hoffset, hsector, hover, diskReadBlock, Int.lt_irrefl, if_false]

/-- The sectors from that of the position to that of the end, which is asked for even if no byte of it
is wanted. -/
theorem diskstreamerReadTraced_sectors {pos total : Nat} (hleft : total < left)
    (hend : pos + total < 0x80000000) :
    (diskstreamerReadTraced disk left pos total).2 =
      List.range' (pos / 512) ((pos + total) / 512 + 1 - pos / 512) := by
  induction left generalizing pos total with
  | zero => omega
  | succ left ih =>
      have hroom := sectorRoom_natCast pos
      rw [diskstreamerReadTraced_succ (by omega) (by omega)]
      split
      case isTrue hle =>
        have hnext : toInt32 (pos + sectorRoom pos : Nat) = (pos + sectorRoom pos : Nat) :=
          toInt32_of_range (by omega) (by omega)
        rw [hnext, ih (by omega) (by omega)]
        have hfirst : (pos + sectorRoom pos) / 512 = pos / 512 + 1 := by omega
        have hsum : pos + sectorRoom pos + (total - sectorRoom pos) = pos + total := by omega
        have hcount : (pos + total) / 512 + 1 - pos / 512 =
            (pos + total) / 512 + 1 - (pos / 512 + 1) + 1 := by omega
        rw [hfirst, hsum, hcount, List.range'_succ]
      case isFalse hle =>
        have hcount : (pos + total) / 512 + 1 - pos / 512 = 1 := by omega
        rw [hcount, List.range'_one]

theorem diskstreamerReadTraced_wraps {pos total : Nat} (hleft : total < left) (hpos : pos < 0x80000000)
    (hsum : pos % 512 + total < 0x80000000) (hend : pos + total = 0x80000000) :
    0xffc00000 ∈ (diskstreamerReadTraced disk left pos total).2 := by
  induction left generalizing pos total with
  | zero => omega
  | succ left ih =>
      have hroom := sectorRoom_natCast pos
      rw [diskstreamerReadTraced_succ hpos hsum, if_pos (by omega)]
      apply List.mem_cons_of_mem
      by_cases hlast : total = sectorRoom pos
      · have hnext : pos + sectorRoom pos = 0x80000000 := by omega
        obtain ⟨left', rfl⟩ := Nat.exists_eq_succ_of_ne_zero (show left ≠ 0 by omega)
        rw [hnext, hlast, Nat.sub_self]
        exact List.mem_singleton.mpr rfl
      · have hnext : toInt32 (pos + sectorRoom pos : Nat) = (pos + sectorRoom pos : Nat) :=
          toInt32_of_range (by omega) (by omega)
        rw [hnext]
        exact ih (by omega) (by omega) (by omega) (by omega)

end Rounds

theorem not_mem_diskstreamerReadTraced {pos total : Int} (hge : -0x80000000 ≤ pos)
    (hlt : pos < 0x80000000) : 0x400000 ∉ (diskstreamerReadTraced disk left pos total).2 := by
  induction left generalizing pos total with
  | zero => exact List.not_mem_nil
  | succ left ih =>
      have hsector : 0x400000 ≠ (pos.tdiv slobosSectorSize % addressSpace).toNat := by
        rw [slobosSectorSize, addressSpace]
        rcases Int.le_total 0 pos with hnat | hneg
        · rw [Int.tdiv_eq_ediv_of_nonneg hnat]
          omega
        · have hdiv : pos.tdiv 512 = -(-pos / 512) := by
            rw [← Int.tdiv_eq_ediv_of_nonneg (show 0 ≤ -pos by omega), Int.neg_tdiv, Int.neg_neg]
          omega
      rw [diskstreamerReadTraced]
      simp only [diskReadBlock, Int.lt_irrefl, if_false]
      split
      · obtain ⟨hge', hlt'⟩ := toInt32_bounds
          (pos + (total - (pos.tmod slobosSectorSize + total - slobosSectorSize)))
        rw [List.mem_cons, not_or]
        exact ⟨hsector, ih hge' hlt'⟩
      · exact fun hmem => hsector (List.mem_singleton.mp hmem)

section Sectors

variable {pos total : Nat}

theorem mem_diskstreamerSectors (hend : pos + total < 0x80000000) {sector : Nat} :
    sector ∈ diskstreamerSectors disk pos total ↔
      pos / 512 ≤ sector ∧ sector ≤ (pos + total) / 512 := by
  rw [diskstreamerSectors, Int.toNat_natCast,
    diskstreamerReadTraced_sectors (Nat.lt_succ_self _) hend, List.mem_range'_1]
  omega

theorem asksForItsSectors (hend : pos + total < 0x80000000) (hlast : (pos + total) % 512 ≠ 0) :
    AsksForItsSectors disk pos total := by
  have hexact : ∀ sector : Nat, sector ∈ diskstreamerSectors disk pos total ↔
      (pos : Int) / slobosSectorSize ≤ sector ∧
        (sector : Int) ≤ ((pos : Int) + total - 1) / slobosSectorSize := by
    intro sector
    rw [mem_diskstreamerSectors hend, slobosSectorSize]
    omega
  refine ⟨hexact, fun count hcount sector hsector => ?_⟩
  have hle := ((hexact sector).mp hsector).2
  rw [slobosSectorSize] at hcount hle
  omega

theorem AsksForItsSectors.end_ne (h : AsksForItsSectors disk pos total)
    (hend : pos + total < 0x80000000) : (pos + total) % 512 ≠ 0 := by
  intro hlast
  have hmem := (@mem_diskstreamerSectors disk pos total hend _).mpr
    ⟨Nat.div_le_div_right (Nat.le_add_right pos total), Nat.le_refl _⟩
  have hle := ((h.exact _).mp hmem).2
  rw [slobosSectorSize] at hle
  omega

theorem AsksForItsSectors.end_lt (h : AsksForItsSectors disk pos total) (hpos : pos < 0x80000000) :
    pos + total < 0x80000000 := by
  have hexact := h.exact
  rw [diskstreamerSectors, Int.toNat_natCast] at hexact
  by_contra hge
  rcases Nat.eq_or_lt_of_le (Nat.not_lt.mp hge) with heq | hgt
  · rcases Nat.lt_or_ge (pos % 512 + total) 0x80000000 with hsum | hsum
    · have hmem := @diskstreamerReadTraced_wraps disk _ pos total (Nat.lt_succ_self total) hpos hsum
        heq.symm
      have hle := ((hexact _).mp hmem).2
      rw [slobosSectorSize] at hle
      omega
    · -- The sum of the offset and the total overflows, so there is one round.
      have hmem := (hexact 1).mpr (by rw [slobosSectorSize]; omega)
      rw [diskstreamerReadTraced_overflows hsum (by omega)] at hmem
      have hone := List.mem_singleton.mp hmem
      omega
  · have hmem := (hexact 0x400000).mpr (by rw [slobosSectorSize]; omega)
    exact not_mem_diskstreamerReadTraced (by omega) (by omega) hmem

end Sectors

/-- The bytes of the disk from the position on are stored one after the other, and nothing else is;
another number of rounds, if it is enough, changes nothing. -/
theorem diskstreamerRead_stores {pos total : Nat} (hend : pos + total < 0x80000000)
    (memory : Nat → UInt8) (out : Nat) :
    (∀ left : Nat, total < left → diskstreamerReadLoop disk left pos total =
      { res := 0, bytes := disk.bytes pos total, pos := (pos + total : Nat) }) ∧
    diskstreamerRead disk pos total =
      { res := 0, bytes := disk.bytes pos total, pos := (pos + total : Nat) } ∧
    (∀ k < total, putBytes memory out (diskstreamerRead disk pos total).bytes (out + k) =
      disk.byte (pos + k)) ∧
    ∀ address : Nat, ¬(out ≤ address ∧ address < out + total) →
      putBytes memory out (diskstreamerRead disk pos total).bytes address = memory address := by
  have hloop : ∀ left : Nat, total < left → diskstreamerReadLoop disk left pos total =
      { res := 0, bytes := disk.bytes pos total, pos := (pos + total : Nat) } := by
    intro left hleft
    obtain ⟨hbytes, hpos⟩ := @diskstreamerReadLoop_eq disk left pos total hleft hend
    have hres := (@diskstreamerReadLoop_length disk pos left total hleft).1
    rw [← hbytes, ← hpos, ← hres]
  have hread := hloop (total + 1) (Nat.lt_succ_self _)
  rw [diskstreamerRead, Int.toNat_natCast, hread]
  refine ⟨hloop, rfl, fun k hk => ?_, fun address hout => ?_⟩
  · rw [putBytes_of_lt (by rwa [Disk.bytes_length]), Disk.bytes_getD hk]
  · apply putBytes_of_not_mem
    rwa [Disk.bytes_length]

theorem diskstreamerRead_stores_sector :
    (diskstreamerRead { sector := fun lba _ => UInt8.ofNat (lba + 1) } 0 512).pos = 512 ∧
      putBytes (fun _ => 7) 100 (diskstreamerRead { sector := fun lba _ => UInt8.ofNat (lba + 1) }
        0 512).bytes 99 = 7 := by
  obtain ⟨-, hread, -, houtside⟩ := @diskstreamerRead_stores
    { sector := fun lba _ => UInt8.ofNat (lba + 1) } 0 512 (by decide) (fun _ => 7) 100
  exact ⟨congrArg StreamRead.pos hread, houtside 99 (by decide)⟩

/-- The first sector alone is wanted, and the second one is asked for too. -/
theorem not_asksForItsSectors :
    ¬AsksForItsSectors { sector := fun _ _ => 0 } 0 512 := by
  intro h
  have hmem : 1 ∈ diskstreamerSectors { sector := fun _ _ => 0 } 0 512 := by decide
  exact absurd (h.inside 1 (by decide) 1 hmem) (Nat.lt_irrefl 1)

/-- A read asks for the sectors of its bytes unless it ends with a sector, or no `int` holds its end. -/
theorem asksForItsSectors_iff {pos total : Int} (hpos : 0 ≤ pos) (hpos' : pos < 0x80000000)
    (htotal : 1 ≤ total) (htotal' : total < 0x80000000) :
    AsksForItsSectors disk pos total ↔
      (pos + total) % slobosSectorSize ≠ 0 ∧ pos + total < 0x80000000 := by
  obtain ⟨pos, rfl⟩ := Int.eq_ofNat_of_zero_le hpos
  obtain ⟨total, rfl⟩ := Int.eq_ofNat_of_zero_le (show 0 ≤ total by omega)
  rw [slobosSectorSize]
  constructor
  · intro h
    have hend := h.end_lt (by omega)
    have hlast := h.end_ne hend
    omega
  · rintro ⟨hlast, hend⟩
    exact asksForItsSectors (by omega) (by omega)

theorem asksForItsSectors_iff_across :
    AsksForItsSectors { sector := fun _ _ => 0 } 510 3 ∧
      ¬AsksForItsSectors { sector := fun _ _ => 0 } 510 2 := by
  have hiff := @asksForItsSectors_iff { sector := fun _ _ => 0 } 510 3 (by decide) (by decide)
    (by decide) (by decide)
  have hiff' := @asksForItsSectors_iff { sector := fun _ _ => 0 } 510 2 (by decide) (by decide)
    (by decide) (by decide)
  exact ⟨hiff.mpr (by decide), fun h => (hiff'.mp h).1 (by decide)⟩

end SlobOS
