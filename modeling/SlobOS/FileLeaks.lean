import SlobOS.Proof.RootFiles

/-!
# What opening a file leaves behind

The parsed path is never released: neither `fopen` nor `fclose` gives its blocks back. So the heap is
as before only when the path is refused before anything is taken.
-/

namespace SlobOS

namespace Kernel

open Faulting

structure TablesKept (before after : Kernel) : Prop where
  total : after.heap.table.total = before.heap.table.total
  entries : ∀ i < before.heap.table.total,
    after.heap.table.entries i = before.heap.table.entries i
  fileDescriptors : ∀ i < slobosMaxFileDescriptors,
    after.fileDescriptors i = before.fileDescriptors i

/-- When opening the file fails, the tables are as they were and nothing has been stored through a null
pointer, and when it succeeds, closing the file puts the tables back. -/
def OpenClean (filename modeStr : List UInt8) (kernel : Kernel) : Prop :=
  ∃ fd opened, Ends (fopen filename modeStr) kernel fd opened ∧
    (fd = 0 → TablesKept kernel opened ∧ opened.nullStores = kernel.nullStores) ∧
    (fd > 0 → ∃ closed, Ends (fclose fd) opened () closed ∧ TablesKept kernel closed)

variable {kernel after : Kernel} {filename modeStr : List UInt8}

theorem TablesKept.refl (kernel : Kernel) : TablesKept kernel kernel := by
  constructor <;> intros <;> rfl

theorem TablesKept.not_holds (h : TablesKept kernel after) {block : Nat}
    (hfree : kernel.heap.table.IsFree block) : ¬Holds after.heap block :=
  not_holds_of_same h.total h.entries hfree

theorem fopen_nonneg {fd : Int} (h : Ends (fopen filename modeStr) kernel fd after) : 0 ≤ fd := by
  simp only [fopen, ends_bind] at h
  obtain ⟨rootPath, middle, -, h⟩ := h
  cases rootPath with
  | none =>
      obtain ⟨rfl, -⟩ := ends_pure.mp h
      exact Int.le_refl 0
  | some rootPath =>
      cases fopenParsed_cases h with
      | refused => exact Int.le_refl 0
      | notFound => exact Int.le_refl 0
      | noSlot => exact Int.le_refl 0
      | opened => omega

/-- The root of an accepted path is in a block that was free. Without a block for it, the root is stored
through a null pointer and the path is refused. -/
theorem pathparserParse_root {result : Option PathRoot} (hsound : HeapSound kernel.heap)
    (h : Ends (pathparserParse filename) kernel result after) :
    (after = kernel ∧
        (slobosMaxPath < filename.length ∨ pathparserPathValidFormat filename = false)) ∨
      (result = none ∧ after.nullStores = kernel.nullStores + 1) ∨
        ∃ block, kernel.heap.table.IsFree block ∧ Holds after.heap block := by
  rcases pathparserParse_cases h with ⟨-, hsame, hrefused⟩ | ⟨root, first, -, -, halloc, hcases⟩
  · exact Or.inl ⟨hsame, hrefused⟩
  right
  rcases hcases with ⟨rfl, hnone, rfl⟩ | ⟨hne, parts, hparts, -⟩
  · obtain ⟨-, rfl⟩ := (kzalloc_null hsound).mp halloc
    exact Or.inl ⟨hnone, congrArg (first.nullStores + ·) (if_pos rfl)⟩
  · right
    obtain ⟨rfl, hheap, -, -⟩ := ends_kzalloc halloc
    obtain ⟨block, -, hfree, hblock⟩ := hsound.malloc_holds
      (show 0 < blockCount pathRootSize by decide) hne
    rw [← hheap] at hblock
    exact ⟨block, hfree, (pathparserParseParts_spares hparts hblock).holds⟩

/-- The block stays taken whatever the further course of `fopen` and through the following `fclose`. -/
theorem fopen_root (hlength : filename.length ≤ slobosMaxPath)
    (hformat : pathparserPathValidFormat filename = true) (hsound : HeapSound kernel.heap) {fd : Int}
    (h : Ends (fopen filename modeStr) kernel fd after) :
    (fd = 0 ∧ after.nullStores = kernel.nullStores + 1) ∨
      ∃ block, kernel.heap.table.IsFree block ∧ Holds after.heap block ∧
        CloseGuarded after block fd := by
  obtain ⟨rootPath, parsed, hparse, h⟩ := ends_bind.mp h
  rcases pathparserParse_root hsound hparse with
    ⟨-, hlong | hinvalid⟩ | ⟨rfl, hstores⟩ | ⟨block, hfree, hblock⟩
  · omega
  · rw [hformat] at hinvalid
    cases hinvalid
  · obtain ⟨rfl, rfl⟩ := ends_pure.mp h
    exact Or.inl ⟨rfl, hstores⟩
  · right
    cases rootPath with
    | none =>
        obtain ⟨rfl, rfl⟩ := ends_pure.mp h
        exact ⟨block, hfree, hblock, closeGuarded_zero⟩
    | some rootPath =>
        obtain ⟨hspares, hclose⟩ := fopenParsed_spares h hblock
        exact ⟨block, hfree, hspares.holds, hclose⟩

theorem OpenClean.refused (h : OpenClean filename modeStr kernel) (hsound : HeapSound kernel.heap) :
    slobosMaxPath < filename.length ∨ pathparserPathValidFormat filename = false := by
  obtain ⟨fd, opened, hopen, hfailed, hclosed⟩ := h
  by_contra hrefused
  obtain ⟨hlength, hformat⟩ := not_or.mp hrefused
  rcases fopen_root (Nat.le_of_not_lt hlength) (Bool.not_eq_false _ ▸ hformat) hsound hopen with
    ⟨rfl, hstores⟩ | ⟨block, hfree, hblock, hguarded⟩
  · have hkept := (hfailed rfl).2
    omega
  rcases Int.lt_or_eq_of_le (fopen_nonneg hopen) with hpos | hzero
  · obtain ⟨closed, hclose, hkept⟩ := hclosed hpos
    exact hkept.not_holds hfree (fclose_spares hclose hblock hguarded).holds
  · exact (hfailed hzero.symm).1.not_holds hfree hblock

/-- Opening a file is clean exactly when the path is refused for its length or its form. -/
theorem openClean_iff (filename modeStr : List UInt8) (hsound : HeapSound kernel.heap) :
    OpenClean filename modeStr kernel ↔
      slobosMaxPath < filename.length ∨ pathparserPathValidFormat filename = false := by
  refine ⟨fun h => h.refused hsound, fun hrefused => ?_⟩
  have hparse : Ends (pathparserParse filename) kernel none kernel := by
    rw [pathparserParse, ends_ite]
    by_cases hlength : filename.length > slobosMaxPath
    · exact Or.inl ⟨hlength, ends_pure.mpr ⟨rfl, rfl⟩⟩
    · refine Or.inr ⟨hlength, ?_⟩
      rw [hrefused.resolve_left hlength]
      exact ends_pure.mpr ⟨rfl, rfl⟩
  exact ⟨0, kernel, ends_bind.mpr ⟨none, kernel, hparse, ends_pure.mpr ⟨rfl, rfl⟩⟩,
    fun _ => ⟨.refl kernel, rfl⟩, fun hpos => absurd hpos (by decide)⟩

theorem openClean_iff_idle :
    OpenClean rootFilePath modeRead (idleKernel bootBytes unmountedVolume) ↔
      slobosMaxPath < rootFilePath.length ∨ pathparserPathValidFormat rootFilePath = false :=
  openClean_iff rootFilePath modeRead (idleKernel_sound _)

/-- On a disk without a filesystem `fopen` reports its failure, and keeps the parsed path. -/
theorem not_openClean_idle : ∃ opened,
    Ends (fopen rootFilePath modeRead) (idleKernel bootBytes unmountedVolume) 0 opened ∧
      ¬TablesKept (idleKernel bootBytes unmountedVolume) opened := by
  obtain ⟨root, parsed, hparse, -, hdrive, hscanned, -⟩ := @pathparserParse_ends _ rootFilePath 0 FreeBlocks _
    (by decide) (by decide)
    (idleKernel_freeBlocks unmountedVolume (by rw [rootFilePath_scanned]; decide))
  have htakes : TakesMemory (idleKernel bootBytes unmountedVolume) parsed :=
    (pathparserParse_keeps _).of_ends hparse
  have hmounted : parsed.volume.mounted = false :=
    congrArg (fun kernel : Kernel => kernel.volume.mounted) htakes
  have hparts : root.parts ≠ [] := by
    intro hnil
    have htexts := hscanned.trans rootFilePath_scanned
    rw [hnil] at htexts
    cases htexts
  have hopen : Ends (fopen rootFilePath modeRead) (idleKernel bootBytes unmountedVolume) 0 parsed := by
    refine ends_bind.mpr ⟨some root, parsed, hparse, ?_⟩
    change Ends (fopenParsed root modeRead) parsed 0 parsed
    rw [fopenParsed, if_neg hparts, if_neg (by rw [hdrive]; decide), ends_get_bind, hmounted]
    exact ends_pure.mpr ⟨rfl, rfl⟩
  rcases pathparserParse_root (idleKernel_sound _) hparse with
    ⟨-, hlong | hinvalid⟩ | ⟨hnone, -⟩ | ⟨block, hfree, hblock⟩
  · exact absurd hlong (by decide)
  · exact absurd hinvalid (by decide)
  · cases hnone
  · exact ⟨parsed, hopen, fun hkept => hkept.not_holds hfree hblock⟩

end Kernel

end SlobOS
