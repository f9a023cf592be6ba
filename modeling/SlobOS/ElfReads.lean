import SlobOS.Elf
import SlobOS.Lib.Tracing
import SlobOS.Proof.ProcessMap
import SlobOS.ProcessLoad

/-!
# What is read of an ELF file

The file lies in memory with other bytes behind it, and nothing compares an offset with the size of the
file. So the functions of `elfloader.c` are written down once more, each with the addresses of the bytes
that it loads, in the order in which it loads them.
-/

namespace SlobOS

open Tracing Faulting

def etExec : Nat := 2

def eType (bytes : Nat → UInt8) (header : Nat) : Nat := readHalf bytes (header + 16)

/-- It has no caller. -/
def elfIsExecutable (bytes : Nat → UInt8) (header : Nat) : Bool :=
  eType bytes header == etExec && decide (eEntry bytes header ≥ slobosProgramVirtualAddress)

def tracedByte (bytes : Nat → UInt8) (address : Nat) : Reading Nat UInt8 :=
  read (toUint32 address) (bytes (toUint32 address))

def tracedHalf (bytes : Nat → UInt8) (address : Nat) : Reading Nat Nat := do
  let low ← tracedByte bytes address
  let high ← tracedByte bytes (address + 1)
  pure (low.toNat + 256 * high.toNat)

def tracedWord (bytes : Nat → UInt8) (address : Nat) : Reading Nat Nat := do
  let low ← tracedHalf bytes address
  let high ← tracedHalf bytes (address + 2)
  pure (low + 65536 * high)

def memcmpTraced (bytes : Nat → UInt8) : Nat → List UInt8 → Reading Nat Bool
  | _, [] => pure true
  | s1, byte :: s2 => do
      if (← tracedByte bytes s1) = byte then memcmpTraced bytes (s1 + 1) s2 else pure false

def elfValidSignatureTraced (bytes : Nat → UInt8) (buffer : Nat) : Reading Nat Bool :=
  memcmpTraced bytes buffer elfSignature

def identZeroOrOne (bytes : Nat → UInt8) (header i : Nat) : Reading Nat Bool := do
  if (← tracedByte bytes (header + i)) = 0 then pure true
  else do
    let ident ← tracedByte bytes (header + i)
    pure (ident == 1)

def elfValidClassTraced (bytes : Nat → UInt8) (header : Nat) : Reading Nat Bool :=
  identZeroOrOne bytes header 4

def elfValidEncodingTraced (bytes : Nat → UInt8) (header : Nat) : Reading Nat Bool :=
  identZeroOrOne bytes header 5

def elfHasProgramHeaderTraced (bytes : Nat → UInt8) (header : Nat) : Reading Nat Bool := do
  let phoff ← tracedWord bytes (header + 28)
  pure (phoff != 0)

def elfValidateLoadedTraced (bytes : Nat → UInt8) (header : Nat) : Reading Nat Int := do
  let valid ← andThen (andThen (andThen (elfValidSignatureTraced bytes header)
    (elfValidClassTraced bytes header)) (elfValidEncodingTraced bytes header))
    (elfHasProgramHeaderTraced bytes header)
  pure (if valid then slobosAllOk else -einformat)

def elfPheaderTraced (bytes : Nat → UInt8) (header : Nat) : Reading Nat Nat := do
  if (← tracedWord bytes (header + 28)) = 0 then pure 0
  else do
    let phoff ← tracedWord bytes (header + 28)
    pure (toUint32 (header + phoff))

def elfProgramHeaderTraced (bytes : Nat → UInt8) (header index : Nat) : Reading Nat Nat := do
  let pheader ← elfPheaderTraced bytes header
  pure (toUint32 (pheader + index * elf32PhdrSize))

/-- The first half of `elf_process_phdr_pt_load`, for the program header at the address. -/
def virtualBaseTraced (bytes : Nat → UInt8) (file : ElfFile) (phdr : Nat) : Reading Nat ElfFile := do
  if file.virtualBaseAddress ≥ (← tracedWord bytes (phdr + 8)) ∨ file.virtualBaseAddress = 0 then do
    let vaddr ← tracedWord bytes (phdr + 8)
    let offset ← tracedWord bytes (phdr + 4)
    pure { file with
      virtualBaseAddress := vaddr
      physicalBaseAddress := toUint32 (file.elfMemory + offset) }
  else pure file

def virtualEndTraced (bytes : Nat → UInt8) (file : ElfFile) (phdr : Nat) : Reading Nat ElfFile := do
  let vaddr ← tracedWord bytes (phdr + 8)
  let filesz ← tracedWord bytes (phdr + 16)
  if file.virtualEndAddress ≤ toUint32 (vaddr + filesz) ∨ file.virtualEndAddress = 0 then do
    let offset ← tracedWord bytes (phdr + 4)
    let size ← tracedWord bytes (phdr + 16)
    pure { file with
      virtualEndAddress := toUint32 (vaddr + filesz)
      physicalEndAddress := toUint32 (file.elfMemory + offset + size) }
  else pure file

def elfProcessPhdrPtLoadTraced (bytes : Nat → UInt8) (file : ElfFile) (phdr : Nat) :
    Reading Nat (Int × ElfFile) := do
  let file ← virtualBaseTraced bytes file phdr
  let file ← virtualEndTraced bytes file phdr
  pure (0, file)

def elfProcessPheaderTraced (bytes : Nat → UInt8) (file : ElfFile) (phdr : Nat) :
    Reading Nat (Int × ElfFile) := do
  if (← tracedWord bytes phdr) = ptLoad then elfProcessPhdrPtLoadTraced bytes file phdr
  else pure (0, file)

def elfProcessPheadersTracedLoop (bytes : Nat → UInt8) :
    Nat → Nat → ElfFile → Reading Nat (Int × ElfFile)
  | 0, _, file => pure (0, file)
  | left + 1, i, file => do
      if i < (← tracedHalf bytes (file.elfMemory + 44)) then do
        let phdr ← elfProgramHeaderTraced bytes file.elfMemory i
        let (res, file) ← elfProcessPheaderTraced bytes file phdr
        if res < 0 then pure (res, file)
        else elfProcessPheadersTracedLoop bytes left (i + 1) file
      else pure (0, file)

def elfProcessPheadersTraced (bytes : Nat → UInt8) (file : ElfFile) : Reading Nat (Int × ElfFile) :=
  elfProcessPheadersTracedLoop bytes 65536 0 file

def elfProcessLoadedTraced (bytes : Nat → UInt8) (file : ElfFile) : Reading Nat (Int × ElfFile) := do
  let res ← elfValidateLoadedTraced bytes file.elfMemory
  if res < 0 then pure (res, file) else elfProcessPheadersTraced bytes file

def elfLoadTraced (bytes : Nat → UInt8) (elfMemory filesize : Nat) : Reading Nat (Int × ElfFile) :=
  if filesize = 0 then pure (-einvarg, elfFileAt elfMemory)
  else elfProcessLoadedTraced bytes (elfFileAt elfMemory)

variable {bytes : Nat → UInt8} {header filesize : Nat} {file : ElfFile}

/-! ### The values -/

section Values

@[simp]
theorem value_tracedByte (address : Nat) :
    value (tracedByte bytes address) = bytes (toUint32 address) := rfl

@[simp]
theorem value_tracedHalf (address : Nat) :
    value (tracedHalf bytes address) = readHalf bytes address := rfl

@[simp]
theorem value_tracedWord (address : Nat) :
    value (tracedWord bytes address) = readWord bytes address := rfl

theorem value_memcmpTraced (s1 : Nat) (s2 : List UInt8) :
    value (memcmpTraced bytes s1 s2) =
      ((List.range s2.length).map (fun i => bytes (toUint32 (s1 + i))) == s2) := by
  induction s2 generalizing s1 with
  | nil => rfl
  | cons byte s2 ih =>
      have hshift : ((List.range s2.length).map fun i => bytes (toUint32 (s1 + 1 + i))) =
          (List.range s2.length).map ((fun i => bytes (toUint32 (s1 + i))) ∘ Nat.succ) := by
        apply List.map_congr_left
        intro i _
        rw [Function.comp_apply, Nat.succ_eq_add_one, Nat.add_assoc, Nat.add_comm 1 i]
      rw [memcmpTraced, value_bind, value_ite, value_tracedByte, ih, value_pure, List.length_cons,
        List.range_succ_eq_map, List.map_cons, List.map_map, hshift, List.cons_beq_cons, Nat.add_zero]
      by_cases heq : bytes (toUint32 s1) = byte
      · rw [if_pos heq, beq_iff_eq.mpr heq, Bool.true_and]
      · rw [if_neg heq, beq_eq_false_iff_ne.mpr heq, Bool.false_and]

@[simp]
theorem value_elfValidSignatureTraced :
    value (elfValidSignatureTraced bytes header) = elfValidSignature bytes header :=
  value_memcmpTraced header elfSignature

theorem value_identZeroOrOne (i : Nat) : value (identZeroOrOne bytes header i) =
    (eIdent bytes header i == 0 || eIdent bytes header i == 1) := by
  rw [identZeroOrOne, value_bind, value_ite, value_tracedByte]
  by_cases heq : bytes (toUint32 (header + i)) = 0
  · rw [if_pos heq, eIdent, beq_iff_eq.mpr heq]
    rfl
  · rw [if_neg heq, eIdent, beq_eq_false_iff_ne.mpr heq]
    rfl

@[simp]
theorem value_elfValidClassTraced :
    value (elfValidClassTraced bytes header) = elfValidClass bytes header := value_identZeroOrOne 4

@[simp]
theorem value_elfValidEncodingTraced :
    value (elfValidEncodingTraced bytes header) = elfValidEncoding bytes header :=
  value_identZeroOrOne 5

@[simp]
theorem value_elfHasProgramHeaderTraced :
    value (elfHasProgramHeaderTraced bytes header) = elfHasProgramHeader bytes header := rfl

@[simp]
theorem value_elfValidateLoadedTraced :
    value (elfValidateLoadedTraced bytes header) = elfValidateLoaded bytes header := by
  simp only [elfValidateLoadedTraced, value_bind, value_andThen, value_elfValidSignatureTraced,
    value_elfValidClassTraced, value_elfValidEncodingTraced, value_elfHasProgramHeaderTraced,
    value_pure]
  rfl

@[simp]
theorem value_elfProgramHeaderTraced (index : Nat) :
    value (elfProgramHeaderTraced bytes header index) = elfProgramHeader bytes header index := by
  simp only [elfProgramHeaderTraced, elfPheaderTraced, value_bind, value_ite, value_pure]
  rfl

@[simp]
theorem value_elfProcessPheaderTraced (phdr : Nat) :
    value (elfProcessPheaderTraced bytes file phdr) =
      elfProcessPheader file (readPhdr bytes phdr) := by
  rw [elfProcessPheaderTraced, elfProcessPheader, value_bind, value_ite, value_pure]
  simp only [elfProcessPhdrPtLoadTraced, virtualBaseTraced, virtualEndTraced, value_bind, value_ite,
    value_pure]
  rfl

theorem value_elfProcessPheadersTracedLoop (left i : Nat) :
    value (elfProcessPheadersTracedLoop bytes left i file) =
      elfProcessPheadersLoop bytes left i file := by
  induction left generalizing i file with
  | zero => rfl
  | succ left ih =>
      simp only [elfProcessPheadersTracedLoop, elfProcessPheadersLoop, value_bind, value_ite,
        value_pure, ih]
      rw [value_elfProgramHeaderTraced, value_elfProcessPheaderTraced]
      rfl

theorem value_elfProcessLoadedTraced :
    value (elfProcessLoadedTraced bytes file) = elfProcessLoaded bytes file := by
  rw [elfProcessLoadedTraced, value_bind, value_ite, value_pure, value_elfValidateLoadedTraced,
    elfProcessPheadersTraced, value_elfProcessPheadersTracedLoop]
  rfl

end Values

/-! ### The places -/

def fileOffset (header place : Nat) : Nat := toUint32 (place + (addressSpace - header))

def InFile (header filesize place : Nat) : Prop := fileOffset header place < filesize

theorem inFile_iff (hheader : header < addressSpace) {offset : Nat} (hoffset : offset < addressSpace) :
    InFile header filesize (toUint32 (header + offset)) ↔ offset < filesize := by
  have heq : fileOffset header (toUint32 (header + offset)) = offset := by
    simp only [fileOffset, toUint32, addressSpace] at *
    omega
  rw [InFile, heq]

section Places

variable {allowed : Nat → Prop}

theorem within_tracedByte (address : Nat) :
    Within allowed (tracedByte bytes address) ↔ allowed (toUint32 address) := within_read

theorem within_tracedHalf (address : Nat) : Within allowed (tracedHalf bytes address) ↔
    ∀ i < 2, allowed (toUint32 (address + i)) := by
  rw [tracedHalf, within_bind, within_bind, within_tracedByte, within_tracedByte,
    and_iff_left within_pure]
  constructor
  · rintro ⟨hlow, hhigh⟩ i hi
    rcases Nat.eq_zero_or_pos i with rfl | hpos
    · exact hlow
    · obtain rfl : i = 1 := by omega
      exact hhigh
  · exact fun h => ⟨h 0 (by decide), h 1 (by decide)⟩

theorem within_tracedWord (address : Nat) : Within allowed (tracedWord bytes address) ↔
    ∀ i < 4, allowed (toUint32 (address + i)) := by
  rw [tracedWord, within_bind, within_bind, within_tracedHalf, within_tracedHalf,
    and_iff_left within_pure]
  constructor
  · rintro ⟨hlow, hhigh⟩ i hi
    rcases Nat.lt_or_ge i 2 with hlt | hge
    · exact hlow i hlt
    · have hallowed := hhigh (i - 2) (by omega)
      rwa [show address + 2 + (i - 2) = address + i by omega] at hallowed
  · intro h
    refine ⟨fun i hi => h i (by omega), fun i hi => ?_⟩
    rw [Nat.add_assoc]
    exact h (2 + i) (by omega)

theorem within_memcmpTraced (s1 : Nat) (s2 : List UInt8) :
    Within allowed (memcmpTraced bytes s1 s2) ↔ ∀ k < s2.length,
      (∀ j < k, bytes (toUint32 (s1 + j)) = s2.getD j 0) → allowed (toUint32 (s1 + k)) := by
  induction s2 generalizing s1 with
  | nil => exact iff_of_true within_pure fun k hk => absurd hk (Nat.not_lt_zero k)
  | cons byte s2 ih =>
      rw [memcmpTraced, within_bind, within_ite, within_tracedByte, value_tracedByte, ih,
        and_iff_left (fun _ => within_pure)]
      constructor
      · rintro ⟨hfirst, hrest⟩ k hk hsame
        cases k with
        | zero => exact hfirst
        | succ k =>
            rw [Nat.add_comm k 1, ← Nat.add_assoc]
            refine hrest (hsame 0 (Nat.succ_pos k)) k (Nat.lt_of_succ_lt_succ hk) fun j hj => ?_
            rw [Nat.add_assoc, Nat.add_comm 1 j]
            exact hsame (j + 1) (Nat.succ_lt_succ hj)
      · intro h
        refine ⟨h 0 (Nat.succ_pos _) fun j hj => absurd hj (Nat.not_lt_zero j), fun heq k hk hsame => ?_⟩
        rw [Nat.add_assoc, Nat.add_comm 1 k]
        apply h (k + 1) (Nat.succ_lt_succ hk)
        intro j hj
        cases j with
        | zero => exact heq
        | succ j =>
            have hbyte := hsame j (Nat.lt_of_succ_lt_succ hj)
            rwa [Nat.add_assoc, Nat.add_comm 1 j] at hbyte

theorem within_identZeroOrOne (i : Nat) : Within allowed (identZeroOrOne bytes header i) ↔
    allowed (toUint32 (header + i)) := by
  rw [identZeroOrOne, within_bind, within_ite, within_tracedByte]
  refine and_iff_left_of_imp fun hread => ⟨fun _ => within_pure, fun _ => ?_⟩
  exact within_bind.mpr ⟨(within_tracedByte _).mpr hread, within_pure⟩

theorem within_virtualBaseTraced {phdr : Nat} (hvaddr : Within allowed (tracedWord bytes (phdr + 8)))
    (hoffset : Within allowed (tracedWord bytes (phdr + 4))) :
    Within allowed (virtualBaseTraced bytes file phdr) := by
  rw [virtualBaseTraced, within_bind, within_ite]
  exact ⟨hvaddr, fun _ => within_bind.mpr ⟨hvaddr, within_bind.mpr ⟨hoffset, within_pure⟩⟩,
    fun _ => within_pure⟩

theorem within_virtualEndTraced {phdr : Nat} (hvaddr : Within allowed (tracedWord bytes (phdr + 8)))
    (hoffset : Within allowed (tracedWord bytes (phdr + 4)))
    (hfilesz : Within allowed (tracedWord bytes (phdr + 16))) :
    Within allowed (virtualEndTraced bytes file phdr) := by
  rw [virtualEndTraced, within_bind, within_bind, within_ite]
  exact ⟨hvaddr, hfilesz, fun _ => within_bind.mpr
    ⟨hoffset, within_bind.mpr ⟨hfilesz, within_pure⟩⟩, fun _ => within_pure⟩

end Places

section Offsets

variable (hheader : header < addressSpace)

include hheader

theorem word_inFile_iff {offset : Nat} (hoffset : offset + 4 ≤ addressSpace) :
    Within (InFile header filesize) (tracedWord bytes (header + offset)) ↔ offset + 4 ≤ filesize := by
  rw [within_tracedWord]
  constructor
  · intro h
    have hlast := h 3 (by decide)
    rw [Nat.add_assoc, inFile_iff hheader (by omega)] at hlast
    omega
  · intro hle i hi
    rw [Nat.add_assoc, inFile_iff hheader (by omega)]
    omega

theorem half_inFile_iff {offset : Nat} (hoffset : offset + 2 ≤ addressSpace) :
    Within (InFile header filesize) (tracedHalf bytes (header + offset)) ↔ offset + 2 ≤ filesize := by
  rw [within_tracedHalf]
  constructor
  · intro h
    have hlast := h 1 (by decide)
    rw [Nat.add_assoc, inFile_iff hheader (by omega)] at hlast
    omega
  · intro hle i hi
    rw [Nat.add_assoc, inFile_iff hheader (by omega)]
    omega

theorem field_inFile {offset field phdr : Nat} (hphdr : phdr = toUint32 (header + offset))
    (hfield : field + 4 ≤ elf32PhdrSize) (hend : offset + elf32PhdrSize ≤ filesize)
    (hsize : filesize < addressSpace) :
    Within (InFile header filesize) (tracedWord bytes (phdr + field)) := by
  rw [within_tracedWord]
  intro i hi
  have haddress : toUint32 (phdr + field + i) = toUint32 (header + (offset + field + i)) := by
    rw [hphdr]
    simp only [toUint32, addressSpace]
    omega
  rw [haddress, inFile_iff hheader (by omega)]
  omega

theorem signature_inFile_iff : Within (InFile header filesize) (elfValidSignatureTraced bytes header) ↔
    (filesize < 4 → ∃ j < filesize, bytes (toUint32 (header + j)) ≠ elfSignature.getD j 0) := by
  have hoffset : ∀ k < elfSignature.length, InFile header filesize (toUint32 (header + k)) ↔
      k < filesize := by
    intro k hk
    have hlength : elfSignature.length = 4 := rfl
    exact inFile_iff hheader (by simp only [addressSpace]; omega)
  rw [elfValidSignatureTraced, within_memcmpTraced]
  constructor
  · intro h hlt
    by_contra hno
    have hsame : ∀ j < filesize, bytes (toUint32 (header + j)) = elfSignature.getD j 0 := by
      intro j hj
      by_contra hne
      exact hno ⟨j, hj, hne⟩
    exact Nat.lt_irrefl _ ((hoffset filesize hlt).mp (h filesize hlt hsame))
  · intro h k hk hsame
    rw [hoffset k hk]
    by_contra hge
    have hlength : elfSignature.length = 4 := rfl
    obtain ⟨j, hj, hne⟩ := h (by omega)
    exact hne (hsame j (by omega))

theorem elfValidateLoadedTraced_inFile_iff :
    Within (InFile header filesize) (elfValidateLoadedTraced bytes header) ↔
      (filesize < 4 → ∃ j < filesize, bytes (toUint32 (header + j)) ≠ elfSignature.getD j 0) ∧
      (elfValidSignature bytes header = true → 5 ≤ filesize) ∧
      (elfValidSignature bytes header = true → elfValidClass bytes header = true → 6 ≤ filesize) ∧
      (elfValidSignature bytes header = true → elfValidClass bytes header = true →
        elfValidEncoding bytes header = true → 32 ≤ filesize) := by
  have hclass : Within (InFile header filesize) (elfValidClassTraced bytes header) ↔ 5 ≤ filesize :=
    (within_identZeroOrOne 4).trans (inFile_iff hheader (by decide))
  have hencoding : Within (InFile header filesize) (elfValidEncodingTraced bytes header) ↔
      6 ≤ filesize :=
    (within_identZeroOrOne 5).trans (inFile_iff hheader (by decide))
  have hphoff : Within (InFile header filesize) (elfHasProgramHeaderTraced bytes header) ↔
      32 ≤ filesize := by
    rw [elfHasProgramHeaderTraced, within_bind, and_iff_left within_pure,
      word_inFile_iff hheader (by decide)]
  rw [elfValidateLoadedTraced, within_bind, and_iff_left within_pure, within_andThen, within_andThen,
    within_andThen, signature_inFile_iff hheader, hclass, hencoding, hphoff]
  simp only [value_andThen, value_elfValidSignatureTraced, value_elfValidClassTraced,
    value_elfValidEncodingTraced, Bool.and_eq_true, and_imp, and_assoc]

theorem elfProgramHeaderTraced_inFile (hlong : 46 ≤ filesize) (index : Nat) :
    Within (InFile header filesize) (elfProgramHeaderTraced bytes header index) := by
  have hphoff : Within (InFile header filesize) (tracedWord bytes (header + 28)) :=
    (word_inFile_iff hheader (by decide)).mpr (by omega)
  rw [elfProgramHeaderTraced, within_bind, and_iff_left within_pure, elfPheaderTraced, within_bind,
    within_ite]
  exact ⟨hphoff, fun _ => within_pure, fun _ => within_bind.mpr ⟨hphoff, within_pure⟩⟩

section Table

variable (hsize : filesize < addressSpace) (hlong : 46 ≤ filesize)

include hsize

theorem elfProcessPheaderTraced_inFile {offset phdr : Nat} (hphdr : phdr = toUint32 (header + offset))
    (hend : offset + elf32PhdrSize ≤ filesize) :
    Within (InFile header filesize) (elfProcessPheaderTraced bytes file phdr) := by
  have hfield : ∀ field, field + 4 ≤ elf32PhdrSize →
      Within (InFile header filesize) (tracedWord bytes (phdr + field)) :=
    fun field hfield => field_inFile hheader hphdr hfield hend hsize
  have hvaddr := hfield 8 (by decide)
  have hoffset := hfield 4 (by decide)
  have hfilesz := hfield 16 (by decide)
  rw [elfProcessPheaderTraced, within_bind, within_ite]
  refine ⟨hfield 0 (by decide), fun _ => ?_, fun _ => within_pure⟩
  rw [elfProcessPhdrPtLoadTraced, within_bind, within_bind, and_iff_left within_pure]
  exact ⟨within_virtualBaseTraced hvaddr hoffset, within_virtualEndTraced hvaddr hoffset hfilesz⟩

include hlong

theorem elfProcessPheadersTracedLoop_inFile {left i : Nat} (hfile : file.elfMemory = header)
    (htable : ePhoff bytes header + ePhnum bytes header * elf32PhdrSize ≤ filesize)
    (hheaders : elfHasProgramHeader bytes header = true) :
    Within (InFile header filesize) (elfProcessPheadersTracedLoop bytes left i file) := by
  induction left generalizing i file with
  | zero => exact within_pure
  | succ left ih =>
      subst hfile
      rw [elfProcessPheadersTracedLoop, within_bind, within_ite, value_tracedHalf]
      refine ⟨(half_inFile_iff hheader (by decide)).mpr hlong, fun hi => ?_, fun _ => within_pure⟩
      have hphnum : i < ePhnum bytes file.elfMemory := hi
      have hphoff : ePhoff bytes file.elfMemory ≠ 0 := by
        rwa [elfHasProgramHeader, bne_iff_ne] at hheaders
      have hphdr : elfProgramHeader bytes file.elfMemory i =
          toUint32 (file.elfMemory + (ePhoff bytes file.elfMemory + i * elf32PhdrSize)) := by
        rw [elfProgramHeader, elfPheader, if_neg hphoff]
        simp only [toUint32, addressSpace]
        omega
      have hend : ePhoff bytes file.elfMemory + i * elf32PhdrSize + elf32PhdrSize ≤ filesize := by
        rw [elf32PhdrSize] at htable ⊢
        omega
      rw [within_bind, within_bind, value_elfProgramHeaderTraced, value_elfProcessPheaderTraced]
      refine ⟨elfProgramHeaderTraced_inFile hheader hlong i,
        elfProcessPheaderTraced_inFile hheader hsize hphdr hend, within_ite.mpr
          ⟨fun _ => within_pure, fun _ => ?_⟩⟩
      have hmemory := elfProcessPheader_elfMemory file
        (readPhdr bytes (elfProgramHeader bytes file.elfMemory i))
      exact ih hmemory

end Table

end Offsets

/-! ### The whole file -/

structure TableInFile (bytes : Nat → UInt8) (header filesize : Nat) : Prop where
  nonneg : 0 ≤ toInt32 (ePhoff bytes header)
  le : ePhoff bytes header + ePhnum bytes header * elf32PhdrSize ≤ filesize

/-- Nothing behind the file is read, a table that does not lie in the file is refused, and what is
accepted is executable. -/
structure ReadsElf (bytes : Nat → UInt8) (elfMemory filesize : Nat) : Prop where
  inside : Within (InFile elfMemory filesize) (elfLoadTraced bytes elfMemory filesize)
  rejects : ¬TableInFile bytes elfMemory filesize →
    (value (elfLoadTraced bytes elfMemory filesize)).1 < 0
  executable : 0 ≤ (value (elfLoadTraced bytes elfMemory filesize)).1 →
    elfIsExecutable bytes elfMemory = true

/-- The file goes on for as long as the checks hold, and one that passes them all has its table inside
and is executable. -/
structure FileFits (bytes : Nat → UInt8) (header filesize : Nat) : Prop where
  signature : filesize < 4 →
    ∃ j < filesize, bytes (toUint32 (header + j)) ≠ elfSignature.getD j 0
  elfClass : elfValidSignature bytes header = true → 5 ≤ filesize
  encoding : elfValidSignature bytes header = true → elfValidClass bytes header = true → 6 ≤ filesize
  phoff : elfValidSignature bytes header = true → elfValidClass bytes header = true →
    elfValidEncoding bytes header = true → 32 ≤ filesize
  table : elfValidateLoaded bytes header = slobosAllOk →
    46 ≤ filesize ∧ TableInFile bytes header filesize ∧ elfIsExecutable bytes header = true

theorem elfValidateLoaded_cases (bytes : Nat → UInt8) (header : Nat) :
    elfValidateLoaded bytes header = slobosAllOk ∨ elfValidateLoaded bytes header = -einformat := by
  rw [elfValidateLoaded]
  split
  · exact Or.inl rfl
  · exact Or.inr rfl

theorem elfProcessPheadersLoop_res (left i : Nat) :
    (elfProcessPheadersLoop bytes left i file).1 = 0 := by
  induction left generalizing i file with
  | zero => rfl
  | succ left ih =>
      have hres := elfProcessPheader_res file (readPhdr bytes (elfProgramHeader bytes file.elfMemory i))
      simp only [elfProcessPheadersLoop, hres, Int.lt_irrefl, if_false]
      split
      · exact ih _
      · rfl

theorem elfProcessLoaded_res : (elfProcessLoaded bytes file).1 = elfValidateLoaded bytes file.elfMemory := by
  simp only [elfProcessLoaded]
  rcases elfValidateLoaded_cases bytes file.elfMemory with hok | hbad
  · rw [hok, if_neg (by decide)]
    exact elfProcessPheadersLoop_res _ _
  · rw [hbad, if_pos (by decide)]

section Whole

variable (hheader : header < addressSpace) (hsize : filesize < addressSpace)

include hheader hsize

theorem FileFits.within (h : FileFits bytes header filesize) :
    Within (InFile header filesize) (elfProcessLoadedTraced bytes (elfFileAt header)) := by
  rw [elfProcessLoadedTraced, within_bind, within_ite, value_elfValidateLoadedTraced]
  refine ⟨(elfValidateLoadedTraced_inFile_iff hheader).mpr
    ⟨h.signature, h.elfClass, h.encoding, h.phoff⟩, fun _ => within_pure, fun hres => ?_⟩
  have hok : elfValidateLoaded bytes header = slobosAllOk := by
    rcases elfValidateLoaded_cases bytes header with hok | hbad
    · exact hok
    · exact absurd (hbad.trans_lt (show -einformat < 0 by decide)) hres
  obtain ⟨hlong, htable, -⟩ := h.table hok
  have hheaders : elfHasProgramHeader bytes header = true := by
    by_contra hno
    rw [Bool.not_eq_true] at hno
    rw [elfValidateLoaded, hno, Bool.and_false] at hok
    exact absurd hok (by decide)
  exact elfProcessPheadersTracedLoop_inFile hheader hsize hlong rfl htable.le hheaders

omit hheader hsize in
theorem elfLoadTraced_res (hpos : 0 < filesize) :
    (value (elfLoadTraced bytes header filesize)).1 = elfValidateLoaded bytes header := by
  rw [elfLoadTraced, if_neg (Nat.ne_of_gt hpos), value_elfProcessLoadedTraced, elfProcessLoaded_res]
  rfl

/-- A file is read as it should be if it is empty, which is refused, or fits what is read of it. -/
theorem readsElf_iff : ReadsElf bytes header filesize ↔
    filesize = 0 ∨ FileFits bytes header filesize := by
  rcases Nat.eq_zero_or_pos filesize with rfl | hpos
  · refine iff_of_true ⟨within_pure, fun _ => ?_, fun hres => ?_⟩ (Or.inl rfl)
    · exact (show -einvarg < 0 by decide)
    · exact absurd hres (show ¬(0 : Int) ≤ -einvarg by decide)
  have hload : elfLoadTraced bytes header filesize = elfProcessLoadedTraced bytes (elfFileAt header) :=
    if_neg (Nat.ne_of_gt hpos)
  have hres := @elfLoadTraced_res bytes header filesize hpos
  rw [or_iff_right (Nat.ne_of_gt hpos)]
  constructor
  · rintro ⟨hinside, hrejects, hexecutable⟩
    rw [hload, elfProcessLoadedTraced, within_bind, within_ite, value_elfValidateLoadedTraced] at hinside
    obtain ⟨hsignature, hclass, hencoding, hphoff⟩ :=
      (elfValidateLoadedTraced_inFile_iff hheader).mp hinside.1
    refine ⟨hsignature, hclass, hencoding, hphoff, fun hok => ?_⟩
    have hge : ¬elfValidateLoaded bytes (elfFileAt header).elfMemory < 0 := by
      rw [show elfValidateLoaded bytes (elfFileAt header).elfMemory = slobosAllOk from hok]
      decide
    have hloop := hinside.2.2 hge
    rw [elfProcessPheadersTraced, elfProcessPheadersTracedLoop, within_bind] at hloop
    rw [hres, hok] at hrejects hexecutable
    refine ⟨(half_inFile_iff hheader (by decide)).mp hloop.1, ?_, hexecutable (by decide)⟩
    by_contra hout
    exact absurd (hrejects hout) (by decide)
  · intro h
    refine ⟨hload ▸ h.within hheader hsize, fun hout => ?_, fun hge => ?_⟩
    · rcases elfValidateLoaded_cases bytes header with hok | hbad
      · exact absurd (h.table hok).2.1 hout
      · rw [hres, hbad]
        decide
    · rcases elfValidateLoaded_cases bytes header with hok | hbad
      · exact (h.table hok).2.2
      · rw [hres, hbad] at hge
        exact absurd hge (by decide)

end Whole

theorem elfLoad_traced {filename : List UInt8} {kernel after : Kernel} {res : Int} {ptr : Nat}
    (h : Ends (Kernel.elfLoad filename) kernel (res, ptr) after) (hres : 0 ≤ res) :
    ∃ middle : Kernel, ∃ elfMemory size : Nat, 0 < size ∧
      res = (value (elfLoadTraced (middle.memory middle.pages) elfMemory size)).1 := by
  simp only [Kernel.elfLoad, ends_bind] at h
  obtain ⟨elfFile, first, -, fd, second, -, h⟩ := h
  rw [ends_ite] at h
  rcases h with ⟨-, h⟩ | ⟨-, h⟩
  · simp only [ends_bind, ends_pure, Prod.mk.injEq] at h
    obtain ⟨_, _, -, ⟨rfl, -⟩, -⟩ := h
    exact absurd hres (by decide)
  simp only [ends_bind] at h
  obtain ⟨⟨res', size⟩, third, -, h⟩ := h
  rw [ends_ite] at h
  rcases h with ⟨hneg, h⟩ | ⟨-, h⟩
  · simp only [ends_bind, ends_pure, Prod.mk.injEq] at h
    obtain ⟨_, _, -, ⟨rfl, -⟩, -⟩ := h
    exact absurd hneg (Int.not_lt.mpr hres)
  simp only [ends_bind] at h
  obtain ⟨elfMemory, _, -, _, _, -, _, _, -, code, fifth, hread, h⟩ := h
  rw [ends_ite] at h
  rcases h with ⟨hneg, h⟩ | ⟨hcode, h⟩
  · simp only [ends_bind, ends_pure, Prod.mk.injEq] at h
    obtain ⟨_, _, -, ⟨rfl, -⟩, -⟩ := h
    exact absurd hneg (Int.not_lt.mpr hres)
  have hpos : 0 < size := by
    by_contra hzero
    obtain rfl : size = 0 := by omega
    rw [Kernel.fread, if_pos (Or.inl rfl), ends_pure] at hread
    rw [hread.1] at hcode
    exact hcode (by decide)
  simp only [ends_bind, ends_get, ends_pure, and_assoc, Prod.mk.injEq] at h
  obtain ⟨_, _, -, middle, _, -, -, _, _, -, _, _, -, hcode', -⟩ := h
  refine ⟨middle, elfMemory, size, hpos, ?_⟩
  rw [elfLoadTraced, if_neg (Nat.ne_of_gt hpos), value_elfProcessLoadedTraced]
  exact hcode'

/-- A file at the start of the kernel heap that is an ELF header and nothing else. It has one program
header behind it. -/
def headerOnlyElf (address : Nat) : UInt8 :=
  match address - slobosHeapAddress with
  | 0 => 0x7f
  | 1 => 0x45
  | 2 => 0x4c
  | 3 => 0x46
  | 28 => 52
  | 44 => 1
  | _ => 0

theorem headerOnlyElf_fields : elfValidateLoaded headerOnlyElf slobosHeapAddress = slobosAllOk ∧
    ePhoff headerOnlyElf slobosHeapAddress = 52 ∧ ePhnum headerOnlyElf slobosHeapAddress = 1 ∧
    eType headerOnlyElf slobosHeapAddress = 0 := by decide

theorem not_readsElf : ¬ReadsElf headerOnlyElf slobosHeapAddress 52 := by
  obtain ⟨hok, hphoff, hphnum, -⟩ := headerOnlyElf_fields
  rintro ⟨-, hrejects, -⟩
  rw [elfLoadTraced_res (by decide), hok] at hrejects
  refine absurd (hrejects fun htable => ?_) (by decide)
  have hle := htable.le
  rw [hphoff, hphnum] at hle
  exact absurd hle (by decide)

theorem readsElf_iff_zeros : ReadsElf (fun _ => 0) slobosHeapAddress 4 ∧
    ¬ReadsElf headerOnlyElf slobosHeapAddress 84 := by
  have hiff := @readsElf_iff (fun _ => 0) slobosHeapAddress 4 (by decide) (by decide)
  have hiff' := @readsElf_iff headerOnlyElf slobosHeapAddress 84 (by decide) (by decide)
  refine ⟨hiff.mpr (Or.inr ⟨?_, ?_, ?_, ?_, ?_⟩), fun h => ?_⟩
  · exact fun hlt => absurd hlt (by decide)
  · exact fun hvalid => absurd hvalid (by decide)
  · exact fun hvalid => absurd hvalid (by decide)
  · exact fun hvalid => absurd hvalid (by decide)
  · exact fun hvalid => absurd hvalid (by decide)
  · rcases hiff'.mp h with hzero | hfits
    · exact absurd hzero (by decide)
    · have hexecutable := (hfits.table headerOnlyElf_fields.1).2.2
      rw [elfIsExecutable, headerOnlyElf_fields.2.2.2] at hexecutable
      exact absurd hexecutable (by decide)

end SlobOS
