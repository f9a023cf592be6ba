import Mathlib.Order.Bounds.Basic
import Mathlib.Order.Nat
import SlobOS.Lib.Extremes
import SlobOS.Proof.ProcessMap

/-!
# The bounds of a loaded ELF file

`elf_process_pheaders` keeps the header with the lowest address and the one with the highest end among
those that are to be loaded. The lowest address is `0` before any header has been seen, and it is taken
for that again when a header has it.
-/

namespace SlobOS

open Extremes

def programHeaders (bytes : Nat → UInt8) (header : Nat) : List Elf32Phdr :=
  (List.range (ePhnum bytes header)).map fun i => readPhdr bytes (elfProgramHeader bytes header i)

def loadHeaders (bytes : Nat → UInt8) (header : Nat) : List Elf32Phdr :=
  (programHeaders bytes header).filter fun phdr => phdr.pType = ptLoad

/-- The bounds are the least address and the greatest end, each with the place in memory of a header that
has it. -/
structure BoundsOf (loads : List Elf32Phdr) (elfMemory : Nat) (file : ElfFile) : Prop where
  base : IsLeast {address | ∃ phdr ∈ loads, phdr.pVaddr = address} file.virtualBaseAddress
  stop : IsGreatest {address | ∃ phdr ∈ loads, phdr.pVaddr + phdr.pFilesz = address}
    file.virtualEndAddress
  physicalBase : ∃ phdr ∈ loads, phdr.pVaddr = file.virtualBaseAddress ∧
    file.physicalBaseAddress = toUint32 (elfMemory + phdr.pOffset)
  physicalEnd : ∃ phdr ∈ loads, phdr.pVaddr + phdr.pFilesz = file.virtualEndAddress ∧
    file.physicalEndAddress = toUint32 (elfMemory + phdr.pOffset + phdr.pFilesz)

/-- A header at address `0`, if there is one, is followed by none with another address at the end. -/
def ZeroBaseLast (loads : List Elf32Phdr) : Prop :=
  (∃ phdr ∈ loads, phdr.pVaddr = 0) → ∀ last ∈ loads.getLast?, last.pVaddr = 0

variable {bytes : Nat → UInt8} {file : ElfFile} {elfMemory : Nat} {base stop phdr : Elf32Phdr}
  {loads : List Elf32Phdr}

theorem elfProcessPheadersLoop_eq {n i left : Nat} (hn : i + n = ePhnum bytes file.elfMemory)
    (hle : n ≤ left) :
    (elfProcessPheadersLoop bytes left i file).2 =
      ((List.range' i n).map fun i =>
        readPhdr bytes (elfProgramHeader bytes file.elfMemory i)).foldl
          (fun current phdr => (elfProcessPheader current phdr).2) file := by
  induction left generalizing n i file with
  | zero =>
      obtain rfl := Nat.le_zero.mp hle
      rfl
  | succ left ih =>
      rw [elfProcessPheadersLoop]
      cases n with
      | zero => rw [if_neg (by omega), List.range'_zero, List.map_nil, List.foldl_nil]
      | succ n =>
          have hmemory := elfProcessPheader_elfMemory file
            (readPhdr bytes (elfProgramHeader bytes file.elfMemory i))
          have hres := elfProcessPheader_res file
            (readPhdr bytes (elfProgramHeader bytes file.elfMemory i))
          rw [if_pos (by omega), List.range'_succ, List.map_cons, List.foldl_cons]
          generalize elfProcessPheader file
            (readPhdr bytes (elfProgramHeader bytes file.elfMemory i)) = processed at hmemory hres ⊢
          obtain ⟨res, next⟩ := processed
          obtain rfl : res = 0 := hres
          rw [← show next.elfMemory = file.elfMemory from hmemory]
          refine (congrArg Prod.snd (if_neg (Int.lt_irrefl 0))).trans (ih ?_ (Nat.le_of_succ_le_succ hle))
          rw [show next.elfMemory = file.elfMemory from hmemory]
          omega

theorem elfProcessPheaders_eq : (elfProcessPheaders bytes file).2 =
    (loadHeaders bytes file.elfMemory).foldl
      (fun current phdr => (elfProcessPhdrPtLoad current phdr).2) file := by
  have hle : ePhnum bytes file.elfMemory ≤ 65536 := Nat.le_of_lt (readHalf_lt _ _)
  rw [elfProcessPheaders, elfProcessPheadersLoop_eq (Nat.zero_add _) hle, ← List.range_eq_range',
    loadHeaders, List.foldl_filter, programHeaders]
  refine List.foldl_ext _ _ _ fun current phdr _ => ?_
  rw [elfProcessPheader]
  by_cases hload : phdr.pType = ptLoad
  · rw [if_pos hload, if_pos (decide_eq_true hload)]
  · rw [if_neg hload, if_neg (mt of_decide_eq_true hload)]

def EndsLater (kept phdr : Elf32Phdr) : Prop :=
  kept.pVaddr + kept.pFilesz ≤ phdr.pVaddr + phdr.pFilesz

instance : DecidableRel EndsLater := fun _ _ => inferInstanceAs (Decidable (_ ≤ _))

structure KeepsBounds (elfMemory : Nat) (base stop : Elf32Phdr) (file : ElfFile) : Prop where
  memory : file.elfMemory = elfMemory
  virtualBase : file.virtualBaseAddress = base.pVaddr
  physicalBase : file.physicalBaseAddress = toUint32 (elfMemory + base.pOffset)
  virtualEnd : file.virtualEndAddress = stop.pVaddr + stop.pFilesz
  physicalEnd : file.physicalEndAddress = toUint32 (elfMemory + stop.pOffset + stop.pFilesz)

theorem elfProcessPhdrPtLoad_eq (hwrap : phdr.pVaddr + phdr.pFilesz < addressSpace) :
    (elfProcessPhdrPtLoad file phdr).2 =
      { elfMemory := file.elfMemory
        virtualBaseAddress :=
          if file.virtualBaseAddress ≥ phdr.pVaddr ∨ file.virtualBaseAddress = 0 then phdr.pVaddr
          else file.virtualBaseAddress
        virtualEndAddress :=
          if file.virtualEndAddress ≤ phdr.pVaddr + phdr.pFilesz then phdr.pVaddr + phdr.pFilesz
          else file.virtualEndAddress
        physicalBaseAddress :=
          if file.virtualBaseAddress ≥ phdr.pVaddr ∨ file.virtualBaseAddress = 0 then
            toUint32 (file.elfMemory + phdr.pOffset)
          else file.physicalBaseAddress
        physicalEndAddress :=
          if file.virtualEndAddress ≤ phdr.pVaddr + phdr.pFilesz then
            toUint32 (file.elfMemory + phdr.pOffset + phdr.pFilesz)
          else file.physicalEndAddress } := by
  have hstop : toUint32 (phdr.pVaddr + phdr.pFilesz) = phdr.pVaddr + phdr.pFilesz :=
    Nat.mod_eq_of_lt hwrap
  have hzero : ∀ last, (last ≤ phdr.pVaddr + phdr.pFilesz ∨ last = 0) ↔
      last ≤ phdr.pVaddr + phdr.pFilesz := by omega
  simp only [elfProcessPhdrPtLoad, hstop, hzero]
  split_ifs <;> rfl

theorem keepsBounds_first (hwrap : phdr.pVaddr + phdr.pFilesz < addressSpace) :
    KeepsBounds elfMemory phdr phdr (elfProcessPhdrPtLoad (elfFileAt elfMemory) phdr).2 := by
  have hbase : (elfFileAt elfMemory).virtualBaseAddress ≥ phdr.pVaddr ∨
      (elfFileAt elfMemory).virtualBaseAddress = 0 := Or.inr rfl
  have hstop : (elfFileAt elfMemory).virtualEndAddress ≤ phdr.pVaddr + phdr.pFilesz := Nat.zero_le _
  simp only [elfProcessPhdrPtLoad_eq hwrap, if_pos hbase, if_pos hstop]
  exact ⟨rfl, rfl, rfl, rfl, rfl⟩

theorem KeepsBounds.step (h : KeepsBounds elfMemory base stop file)
    (hwrap : phdr.pVaddr + phdr.pFilesz < addressSpace) :
    KeepsBounds elfMemory (keep (Resets Elf32Phdr.pVaddr) base phdr) (keep EndsLater stop phdr)
      (elfProcessPhdrPtLoad file phdr).2 := by
  obtain ⟨rfl, hbase, hphysicalBase, hstop, hphysicalEnd⟩ := h
  rw [elfProcessPhdrPtLoad_eq hwrap, hbase, hphysicalBase, hstop, hphysicalEnd]
  constructor
  · rfl
  · exact (apply_ite Elf32Phdr.pVaddr _ _ _).symm
  · exact (apply_ite (fun phdr : Elf32Phdr => toUint32 (file.elfMemory + phdr.pOffset)) _ _ _).symm
  · exact (apply_ite (fun phdr : Elf32Phdr => phdr.pVaddr + phdr.pFilesz) _ _ _).symm
  · exact (apply_ite (fun phdr : Elf32Phdr =>
      toUint32 (file.elfMemory + phdr.pOffset + phdr.pFilesz)) _ _ _).symm

theorem KeepsBounds.run (h : KeepsBounds elfMemory base stop file)
    (hwrap : ∀ phdr ∈ loads, phdr.pVaddr + phdr.pFilesz < addressSpace) :
    KeepsBounds elfMemory (keepAll (Resets Elf32Phdr.pVaddr) base loads) (keepAll EndsLater stop loads)
      (loads.foldl (fun current phdr => (elfProcessPhdrPtLoad current phdr).2) file) := by
  induction loads generalizing base stop file with
  | nil => exact h
  | cons phdr loads ih =>
      exact ih (h.step (hwrap phdr List.mem_cons_self))
        fun next hnext => hwrap next (List.mem_cons_of_mem _ hnext)

theorem zeroBaseLast_cons : ZeroBaseLast (phdr :: loads) ↔
    ((∃ entry ∈ phdr :: loads, entry.pVaddr = ⊥) → (loads.getLast?.getD phdr).pVaddr = ⊥) := by
  rw [ZeroBaseLast, List.getLast?_cons]
  exact imp_congr_right fun _ => ⟨fun h => h _ rfl, fun h last hlast => Option.some.inj hlast ▸ h⟩

theorem KeepsBounds.boundsOf_iff (h : KeepsBounds elfMemory base stop file) (hbase : base ∈ loads)
    (hstop : stop ∈ loads)
    (hlast : ∀ phdr ∈ loads, phdr.pVaddr + phdr.pFilesz ≤ stop.pVaddr + stop.pFilesz) :
    BoundsOf loads elfMemory file ↔ ∀ phdr ∈ loads, base.pVaddr ≤ phdr.pVaddr := by
  constructor
  · intro hbounds phdr hmem
    rw [← h.virtualBase]
    exact hbounds.base.2 ⟨phdr, hmem, rfl⟩
  · intro hleast
    refine ⟨⟨⟨base, hbase, h.virtualBase.symm⟩, ?_⟩, ⟨⟨stop, hstop, h.virtualEnd.symm⟩, ?_⟩,
      ⟨base, hbase, h.virtualBase.symm, h.physicalBase⟩, ⟨stop, hstop, h.virtualEnd.symm, h.physicalEnd⟩⟩
    · rintro address ⟨phdr, hmem, rfl⟩
      rw [h.virtualBase]
      exact hleast phdr hmem
    · rintro address ⟨phdr, hmem, rfl⟩
      rw [h.virtualEnd]
      exact hlast phdr hmem

/-- The bounds are right exactly if the last header has address `0` where any header has. -/
theorem elfProcessPheaders_boundsOf_iff (hloads : loadHeaders bytes elfMemory ≠ [])
    (hwrap : ∀ phdr ∈ loadHeaders bytes elfMemory, phdr.pVaddr + phdr.pFilesz < addressSpace) :
    BoundsOf (loadHeaders bytes elfMemory) elfMemory
        (elfProcessPheaders bytes (elfFileAt elfMemory)).2 ↔
      ZeroBaseLast (loadHeaders bytes elfMemory) := by
  rw [elfProcessPheaders_eq]
  change BoundsOf _ elfMemory ((loadHeaders bytes elfMemory).foldl _ _) ↔ _
  generalize loadHeaders bytes elfMemory = loads at hloads hwrap ⊢
  cases loads with
  | nil => exact absurd rfl hloads
  | cons first rest =>
      have hkept := (@keepsBounds_first elfMemory _ (hwrap first List.mem_cons_self)).run
        fun phdr hmem => hwrap phdr (List.mem_cons_of_mem _ hmem)
      have hlast := @keepAll_extreme _ EndsLater _ first rest EndsLater (fun _ => True)
        (fun first second => Nat.le_total _ _) Nat.le_trans (fun _ _ => Iff.rfl) fun _ _ => trivial
      rw [List.foldl_cons, hkept.boundsOf_iff keepAll_mem keepAll_mem hlast, keepAll_least_iff,
        zeroBaseLast_cons]

/-- An ELF file at the start of the kernel heap with two segments to be loaded, the second at `0x1000`. -/
def twoSegmentElf (page address : Nat) : UInt8 :=
  match address - slobosHeapAddress with
  | 0 => 0x7f
  | 1 => 0x45
  | 2 => 0x4c
  | 3 => 0x46
  | 28 => 52
  | 44 => 2
  | 52 => 1
  | 61 => UInt8.ofNat (16 * page)
  | 84 => 1
  | 93 => 0x10
  | _ => 0

theorem loadHeaders_twoSegmentElf : loadHeaders (twoSegmentElf 2) slobosHeapAddress =
    [⟨1, 0, 0x2000, 0, 0, 0⟩, ⟨1, 0, 0x1000, 0, 0, 0⟩] := rfl

theorem loadHeaders_zeroElf : loadHeaders (twoSegmentElf 0) slobosHeapAddress =
    [⟨1, 0, 0, 0, 0, 0⟩, ⟨1, 0, 0x1000, 0, 0, 0⟩] := rfl

theorem elfProcessPheaders_boundsOf_two :
    BoundsOf (loadHeaders (twoSegmentElf 2) slobosHeapAddress) slobosHeapAddress
      (elfProcessPheaders (twoSegmentElf 2) (elfFileAt slobosHeapAddress)).2 := by
  refine (elfProcessPheaders_boundsOf_iff ?_ ?_).mpr ?_
  all_goals rw [loadHeaders_twoSegmentElf]
  · exact List.cons_ne_nil _ _
  · decide
  · exact fun hzero => absurd hzero (by decide)

/-- The base of segments at `0` and at `0x1000` is taken to be `0x1000`. -/
theorem not_elfProcessPheaders_boundsOf : ¬∀ bytes elfMemory, loadHeaders bytes elfMemory ≠ [] →
    (∀ phdr ∈ loadHeaders bytes elfMemory, phdr.pVaddr + phdr.pFilesz < addressSpace) →
      BoundsOf (loadHeaders bytes elfMemory) elfMemory
        (elfProcessPheaders bytes (elfFileAt elfMemory)).2 := by
  intro hall
  have hbounds := hall (twoSegmentElf 0) slobosHeapAddress
  rw [loadHeaders_zeroElf, elfProcessPheaders_eq] at hbounds
  have hbase := (hbounds (List.cons_ne_nil _ _) (by decide)).base
  have hle : 0x1000 ≤ 0 := hbase.2 ⟨_, List.mem_cons_self, rfl⟩
  exact absurd hle (by decide)

end SlobOS
