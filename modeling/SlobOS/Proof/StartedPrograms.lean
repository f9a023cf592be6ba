import SlobOS.Proof.InjectedArguments
import SlobOS.Proof.LoadedPrograms

/-!
# What a started program finds

The structure for the arguments lies on the stack of the program, and the processor finds it where the
kernel stores it. The array and the strings lie in other blocks, on pages that translate to themselves.
-/

namespace SlobOS

open CStrings Stores

section Pages

variable {pages : PageTables} {directory page virt : Nat}

theorem TaskPages.physical (h : TaskPages pages directory) (hvirt : virt < addressSpace) :
    pagingGetPhysicalAddress pages directory virt = translated pages directory virt := by
  have hindex := directoryIndex_lt (page_lt hvirt)
  have hget : pagingGet pages directory (pagingAlignToLowerPage virt) =
      pageEntry pages directory (virt / pagingPageSize) := by
    rw [pagingGet, pagingAlignToLowerPage_eq, pagingGetIndexes_page]
    simp only [tableAddress_mask (h.low _ hindex), pageEntry]
  have hoffset : virt - pagingAlignToLowerPage virt = virt % pagingPageSize := by
    have hle := Nat.mod_le virt pagingPageSize
    rw [pagingAlignToLowerPage]
    omega
  rw [pagingGetPhysicalAddress]
  simp only [hget, hoffset, tableAddress, translated, pageFrame, toUint32, addressSpace,
    pagingPageSize, pageCount]
  omega

end Pages

namespace Kernel

open Faulting

variable {kernel loaded after : Kernel} {process ptr frame i : Nat} {arguments : ProcessArguments}

theorem ProgramStack.translated (h : ProgramStack kernel process frame) {virt : Nat}
    (hge : 0x3FB000 ≤ virt) (hlt : virt < 0x3FF000) :
    translated kernel.pages (kernel.directoryOf process) virt =
      frame * pagingPageSize + (virt - 0x3FB000) := by
  obtain ⟨j, hj, hpage⟩ : ∃ j < 4, virt / pagingPageSize = 0x3FB + j := by
    refine ⟨virt / pagingPageSize - 0x3FB, ?_, ?_⟩ <;> simp only [pagingPageSize] <;> omega
  have hbound := h.bound
  rw [SlobOS.translated, pageFrame, hpage, h.entry j hj, page_or_flags (by decide)]
  simp only [pagingPageSize, pageCount] at *
  omega

section Structure

variable (hstack : ProgramStack kernel process frame)
  (hpages : TaskPages kernel.pages (kernel.directoryOf process)) (hge : 0x3FB000 ≤ ptr)
  (hlt : ptr + processArgumentsSize ≤ 0x3FF000)

include hstack hpages hge hlt

theorem argumentsStored_eq : argumentsStored kernel process ptr arguments =
    applyStores (kernel.memory kernel.pages)
      (storeArguments (fun i => frame * pagingPageSize + (ptr - 0x3FB000) + i) arguments) := by
  have hbound := hstack.bound
  rw [processArgumentsSize] at hlt
  have hvirt : ptr < addressSpace := by
    simp only [addressSpace]
    omega
  rw [argumentsStored, command8_eq, hpages.physical hvirt, hstack.translated hge (by omega),
    storeArguments, storeArguments]
  refine congrArg (applyStores _) (List.map_congr_left fun i hi => ?_)
  have hi' := List.mem_range.mp hi
  rw [toUint32, Nat.mod_eq_of_lt]
  simp only [processArgumentsSize, addressSpace, pagingPageSize, pageCount] at *
  omega

theorem programFinds_structure (hi : i < processArgumentsSize) :
    programFinds kernel process ptr arguments (ptr + i) = argumentByte arguments i := by
  have hplace : frame * pagingPageSize + (ptr + i - 0x3FB000) =
      frame * pagingPageSize + (ptr - 0x3FB000) + i := by omega
  rw [programFinds, programReads, argumentsStored_eq hstack hpages hge hlt,
    hstack.translated (by omega) (by omega), hplace]
  apply applyStores_mem (mem_storeArguments.mpr ⟨i, hi, rfl⟩)
  intro store hstore heq
  obtain ⟨j, -, rfl⟩ := mem_storeArguments.mp hstore
  obtain rfl : j = i := by
    simp only at heq
    omega
  rfl

theorem programFinds_outside {virt : Nat}
    (hown : OwnPage kernel.pages (kernel.directoryOf process) (virt / pagingPageSize))
    (hout : ∀ j < 4, frame + j ≠ virt / pagingPageSize) :
    programFinds kernel process ptr arguments virt = kernel.memory kernel.pages virt := by
  rw [programFinds, programReads, argumentsStored_eq hstack hpages hge hlt, hown.translated]
  apply applyStores_same rfl
  intro store hstore heq
  obtain ⟨j, hj, rfl⟩ := mem_storeArguments.mp hstore
  apply absurd _ (hout ((ptr - 0x3FB000 + j) / pagingPageSize) ?_)
  · rw [← heq]
    simp only [pagingPageSize]
    omega
  · simp only [processArgumentsSize, pagingPageSize] at *
    omega

theorem cStart_eq (hargc : arguments.argc < addressSpace) (hargv : arguments.argv < addressSpace) :
    cStart kernel process ptr arguments = arguments := by
  have hbyte : ∀ i < processArgumentsSize, programFinds kernel process ptr arguments (ptr + i) =
      argumentByte arguments i :=
    fun i hi => programFinds_structure hstack hpages hge hlt hi
  have hend : ptr + 7 < addressSpace := by
    simp only [processArgumentsSize, addressSpace] at *
    omega
  rw [processArgumentsSize] at hbyte
  have hfirst : readWord (programFinds kernel process ptr arguments) ptr = arguments.argc := by
    refine readWord_of_bytes hargc (by omega) fun i hi => ?_
    rw [hbyte i (by omega), argumentByte, if_pos hi]
  have hsecond : readWord (programFinds kernel process ptr arguments) (ptr + 4) = arguments.argv := by
    refine readWord_of_bytes hargv (by omega) fun i hi => ?_
    rw [Nat.add_assoc, hbyte (4 + i) (by omega), argumentByte, if_neg (by omega),
      Nat.add_sub_cancel_left]
  rw [cStart, hfirst, hsecond]

end Structure

theorem OwnBlock.found {block : Nat} (hown : OwnBlock after process block)
    (hfresh : Fresh loaded block) (hstack : ProgramStack loaded process frame)
    (hcontinues : Continues process loaded after)
    (hpages : TaskPages after.pages (after.directoryOf process)) (hge : 0x3FB000 ≤ ptr)
    (hlt : ptr + processArgumentsSize ≤ 0x3FF000) (hi : i < slobosHeapBlockSize) :
    programFinds after process ptr arguments (block + i) = after.memory after.pages (block + i) := by
  apply programFinds_outside (hstack.continues hcontinues) hpages hge hlt (hown.own i hi)
  intro j hj heq
  obtain ⟨index, rfl, hheld⟩ := hown.held
  rw [page_of_block index hi] at heq
  exact hfresh index (hstack.held j hj index (hcontinues.total ▸ hheld.lt) heq) rfl

end Kernel

end SlobOS
