import SlobOS.Lib.Stores
import SlobOS.Proof.Paging

/-!
# The arguments that a program asks for

System call 8 stores the number of arguments and their array to a structure of eight bytes of the
program. Its address is translated once, whatever the flags of the page are, and the structure may reach
into the next page.
-/

namespace SlobOS

open Stores

/-- `struct process_arguments`, of two words. -/
structure ProcessArguments where
  argc : Nat
  argv : Nat

def processArgumentsSize : Nat := 8

def storeWord (ptr word : Nat) : List (Nat × UInt8) :=
  (List.range 4).map fun i => (toUint32 (ptr + i), UInt8.ofNat (word >>> (8 * i)))

def processGetArguments (arguments : ProcessArguments) (argc argv : Nat) : List (Nat × UInt8) :=
  storeWord argc arguments.argc ++ storeWord argv arguments.argv

/-- `directory` is the page directory of the task. -/
def taskVirtualAddressToPhysical (pages : PageTables) (directory virtualAddress : Nat) : Nat :=
  pagingGetPhysicalAddress pages directory virtualAddress

/-- What is stored for the pointer that lies on the stack of the task. -/
def isr80hCommand8GetProgramArguments (pages : PageTables) (directory ptr : Nat)
    (processArguments : ProcessArguments) : List (Nat × UInt8) :=
  let arguments := taskVirtualAddressToPhysical pages directory ptr
  processGetArguments processArguments arguments (toUint32 (arguments + 4))

/-! ### Where the arguments belong -/

def pageFrame (pages : PageTables) (directory page : Nat) : Nat :=
  pageEntry pages directory page / pagingPageSize % pageCount

def translated (pages : PageTables) (directory virt : Nat) : Nat :=
  pageFrame pages directory (virt / pagingPageSize) * pagingPageSize + virt % pagingPageSize

def argumentByte (arguments : ProcessArguments) (i : Nat) : UInt8 :=
  if i < 4 then UInt8.ofNat (arguments.argc >>> (8 * i))
  else UInt8.ofNat (arguments.argv >>> (8 * (i - 4)))

def storeArguments (place : Nat → Nat) (arguments : ProcessArguments) : List (Nat × UInt8) :=
  (List.range processArgumentsSize).map fun i => (place i, argumentByte arguments i)

def StructureWriteable (pages : PageTables) (directory ptr : Nat) : Prop :=
  ∀ i < processArgumentsSize, UserWriteable pages directory (toUint32 (ptr + i) / pagingPageSize)

/-- If the program may write the structure, its bytes are stored where the processor finds them one by
one. Otherwise the memory stays as it is. -/
structure ArgumentsContained (pages : PageTables) (directory ptr : Nat) : Prop where
  stored : StructureWriteable pages directory ptr → ∀ arguments memory,
    applyStores memory (isr80hCommand8GetProgramArguments pages directory ptr arguments) =
      applyStores memory (storeArguments (fun i => translated pages directory (toUint32 (ptr + i)))
        arguments)
  refused : ¬StructureWriteable pages directory ptr → ∀ arguments memory,
    applyStores memory (isr80hCommand8GetProgramArguments pages directory ptr arguments) = memory

/-- The program may write the structure, the entry is looked for in the table that the processor uses,
and a structure that reaches into the next page lies in two frames one behind the other. -/
structure StructureFound (pages : PageTables) (directory ptr : Nat) : Prop where
  writeable : StructureWriteable pages directory ptr
  found : pagingGet pages directory (pagingAlignToLowerPage ptr) / pagingPageSize % pageCount =
    pageFrame pages directory (ptr / pagingPageSize)
  adjacent : pagingPageSize < ptr % pagingPageSize + processArgumentsSize →
    pageFrame pages directory (toUint32 (ptr + processArgumentsSize) / pagingPageSize) =
      (pageFrame pages directory (ptr / pagingPageSize) + 1) % pageCount

section Places

variable {pages : PageTables} {directory ptr : Nat} {place place' : Nat → Nat}
  {arguments : ProcessArguments}

theorem command8_eq (arguments : ProcessArguments) :
    isr80hCommand8GetProgramArguments pages directory ptr arguments =
      storeArguments (fun i => toUint32 (pagingGetPhysicalAddress pages directory ptr + i)) arguments := by
  have hsize : processArgumentsSize = 4 + 4 := rfl
  rw [storeArguments, hsize, List.range_add, List.map_append, List.map_map]
  change storeWord _ _ ++ storeWord _ _ = _
  congr 1
  apply List.map_congr_left
  intro i _
  have hplace : toUint32 (toUint32 (pagingGetPhysicalAddress pages directory ptr + 4) + i) =
      toUint32 (pagingGetPhysicalAddress pages directory ptr + (4 + i)) := by
    simp only [toUint32, addressSpace]
    omega
  change (toUint32 (toUint32 (pagingGetPhysicalAddress pages directory ptr + 4) + i), _) = _
  rw [hplace, Function.comp_apply, argumentByte, if_neg (by omega), Nat.add_sub_cancel_left]

theorem mem_storeArguments {store : Nat × UInt8} : store ∈ storeArguments place arguments ↔
    ∃ i < processArgumentsSize, store = (place i, argumentByte arguments i) := by
  rw [storeArguments, List.mem_map]
  constructor
  · rintro ⟨i, hi, rfl⟩
    exact ⟨i, List.mem_range.mp hi, rfl⟩
  · rintro ⟨i, hi, rfl⟩
    exact ⟨i, List.mem_range.mpr hi, rfl⟩

theorem exists_argumentByte {i : Nat} (hi : i < processArgumentsSize) :
    ∃ arguments, ∀ j < processArgumentsSize, argumentByte arguments j = if j = i then 1 else 0 := by
  rw [processArgumentsSize] at hi ⊢
  have hbyte : ∀ k < 4, ∀ j < 4,
      UInt8.ofNat ((1 <<< (8 * k)) >>> (8 * j)) = if j = k then 1 else 0 := by decide
  by_cases hlow : i < 4
  · refine ⟨{ argc := 1 <<< (8 * i), argv := 0 }, fun j hj => ?_⟩
    rw [argumentByte]
    by_cases hlow' : j < 4
    · rw [if_pos hlow', hbyte i hlow j hlow']
    · rw [if_neg hlow', Nat.zero_shiftRight, if_neg (by omega)]
      rfl
  · refine ⟨{ argc := 0, argv := 1 <<< (8 * (i - 4)) }, fun j hj => ?_⟩
    rw [argumentByte]
    by_cases hlow' : j < 4
    · rw [if_pos hlow', Nat.zero_shiftRight, if_neg (by omega)]
      rfl
    · rw [if_neg hlow', hbyte (i - 4) (by omega) (j - 4) (by omega)]
      exact if_congr (by omega) rfl rfl

theorem place_eq_of_stores {i : Nat} (hi : i < processArgumentsSize)
    (hinj : ∀ j < processArgumentsSize, place j = place i → j = i)
    (hsame : ∀ arguments memory, applyStores memory (storeArguments place arguments) =
      applyStores memory (storeArguments place' arguments)) : place i = place' i := by
  obtain ⟨arguments, hbyte⟩ := exists_argumentByte hi
  have hstored : applyStores (fun _ => 0) (storeArguments place arguments) (place i) = 1 := by
    apply applyStores_mem
    · rw [mem_storeArguments]
      exact ⟨i, hi, by rw [hbyte i hi, if_pos rfl]⟩
    · intro store hstore heq
      obtain ⟨j, hj, rfl⟩ := mem_storeArguments.mp hstore
      rw [hinj j hj heq, hbyte i hi, if_pos rfl]
  by_contra hne
  have hzero : applyStores (fun _ => 0) (storeArguments place' arguments) (place i) = 0 := by
    apply applyStores_same rfl
    intro store hstore heq
    obtain ⟨j, hj, rfl⟩ := mem_storeArguments.mp hstore
    rw [hbyte j hj, if_neg]
    rintro rfl
    exact hne heq.symm
  rw [hsame, hzero] at hstored
  cases hstored

theorem place_of_first {frame offset i : Nat} (hframe : frame < pageCount)
    (hlow : offset + i < pagingPageSize) : toUint32 (frame * pagingPageSize + offset + i) =
      frame * pagingPageSize + (offset + i) % pagingPageSize := by
  simp only [toUint32, addressSpace, pagingPageSize, pageCount] at *
  omega

theorem place_of_next {frame offset i : Nat} (hoffset : offset < pagingPageSize)
    (hi : i < processArgumentsSize) (hhigh : ¬offset + i < pagingPageSize) :
    toUint32 (frame * pagingPageSize + offset + i) =
      (frame + 1) % pageCount * pagingPageSize + (offset + i) % pagingPageSize := by
  simp only [toUint32, addressSpace, pagingPageSize, pageCount, processArgumentsSize] at *
  omega

theorem page_of_first {i : Nat} (hptr : ptr < addressSpace)
    (hlow : ptr % pagingPageSize + i < pagingPageSize) :
    toUint32 (ptr + i) / pagingPageSize = ptr / pagingPageSize := by
  simp only [toUint32, addressSpace, pagingPageSize] at *
  omega

theorem page_of_next {i : Nat} (hi : i < processArgumentsSize)
    (hhigh : ¬ptr % pagingPageSize + i < pagingPageSize) : toUint32 (ptr + i) / pagingPageSize =
      toUint32 (ptr + processArgumentsSize) / pagingPageSize := by
  simp only [toUint32, addressSpace, pagingPageSize, processArgumentsSize] at *
  omega

theorem toUint32_add_offset (ptr i : Nat) :
    toUint32 (ptr + i) % pagingPageSize = (ptr % pagingPageSize + i) % pagingPageSize := by
  simp only [toUint32, addressSpace, pagingPageSize]
  omega

/-- The places behind the translated address are the translated places, if the frame is the right one,
and the one of the next page follows it when it is needed. -/
theorem places_iff (hptr : ptr < addressSpace) :
    (∀ i < processArgumentsSize, toUint32 (pagingGetPhysicalAddress pages directory ptr + i) =
        translated pages directory (toUint32 (ptr + i))) ↔
      pagingGet pages directory (pagingAlignToLowerPage ptr) / pagingPageSize % pageCount =
          pageFrame pages directory (ptr / pagingPageSize) ∧
        (pagingPageSize < ptr % pagingPageSize + processArgumentsSize →
          pageFrame pages directory (toUint32 (ptr + processArgumentsSize) / pagingPageSize) =
            (pageFrame pages directory (ptr / pagingPageSize) + 1) % pageCount) := by
  have hframe : pageFrame pages directory (ptr / pagingPageSize) < pageCount :=
    Nat.mod_lt _ (by decide)
  have hlower : ptr - pagingAlignToLowerPage ptr = ptr % pagingPageSize := by
    have hle := Nat.mod_le ptr pagingPageSize
    rw [pagingAlignToLowerPage]
    omega
  rw [pagingGetPhysicalAddress]
  simp only [hlower, tableAddress, translated]
  generalize pagingGet pages directory (pagingAlignToLowerPage ptr) = entry
  generalize hfirst : pageFrame pages directory (ptr / pagingPageSize) = frame at hframe ⊢
  generalize hsecond : pageFrame pages directory
    (toUint32 (ptr + processArgumentsSize) / pagingPageSize) = next
  have hnext : next < pageCount := by
    rw [← hsecond]
    exact Nat.mod_lt _ (by decide)
  have hfirst' : ∀ i, ptr % pagingPageSize + i < pagingPageSize →
      pageFrame pages directory (toUint32 (ptr + i) / pagingPageSize) = frame := by
    intro i hlow
    rw [← hfirst, page_of_first hptr hlow]
  have hsecond' : ∀ i < processArgumentsSize, ¬ptr % pagingPageSize + i < pagingPageSize →
      pageFrame pages directory (toUint32 (ptr + i) / pagingPageSize) = next := by
    intro i hi hhigh
    rw [← hsecond, page_of_next hi hhigh]
  have hphysical : toUint32 (entry / pagingPageSize * pagingPageSize + ptr % pagingPageSize) =
      entry / pagingPageSize % pageCount * pagingPageSize + ptr % pagingPageSize := by
    simp only [toUint32, addressSpace, pagingPageSize, pageCount]
    omega
  have hoff : ptr % pagingPageSize < pagingPageSize := Nat.mod_lt _ (by decide)
  have hfound : entry / pagingPageSize % pageCount < pageCount := Nat.mod_lt _ (by decide)
  simp only [hphysical, toUint32_add_offset]
  generalize entry / pagingPageSize % pageCount = found at hfound ⊢
  generalize ptr % pagingPageSize = offset at hfirst' hsecond' hoff ⊢
  constructor
  · intro h
    have hfirstPlace := h 0 (by decide)
    rw [hfirst' 0 (by omega), place_of_first hfound (by omega)] at hfirstPlace
    have hframes : found = frame := Nat.eq_of_mul_eq_mul_right (by decide)
      (Nat.add_right_cancel hfirstPlace)
    refine ⟨hframes, fun hcrosses => ?_⟩
    have hlastPlace := h 7 (by decide)
    rw [processArgumentsSize] at hcrosses
    rw [hsecond' 7 (by decide) (by omega), place_of_next hoff (by decide) (by omega)] at hlastPlace
    rw [← hframes]
    exact (Nat.eq_of_mul_eq_mul_right (by decide) (Nat.add_right_cancel hlastPlace)).symm
  · rintro ⟨rfl, hadjacent⟩ i hi
    by_cases hlow : offset + i < pagingPageSize
    · rw [hfirst' i hlow, place_of_first hfound hlow]
    · rw [hsecond' i hi hlow, place_of_next hoff hi hlow, hadjacent (by omega)]

theorem ArgumentsContained.writeable (h : ArgumentsContained pages directory ptr) :
    StructureWriteable pages directory ptr := by
  by_contra hnot
  -- In a memory of ones the first byte of a structure of zeros would be seen.
  have hsame := congrFun (h.refused hnot { argc := 0, argv := 0 } fun _ => 1)
    (toUint32 (pagingGetPhysicalAddress pages directory ptr + 0))
  have hbyte : ∀ i, argumentByte { argc := 0, argv := 0 } i = 0 := by
    intro i
    simp [argumentByte]
  rw [command8_eq, applyStores_mem (mem_storeArguments.mpr ⟨0, by decide, rfl⟩), hbyte] at hsame
  · cases hsame
  · intro store hstore _
    obtain ⟨i, -, rfl⟩ := mem_storeArguments.mp hstore
    rw [hbyte, hbyte]

/-- The arguments are stored where they belong exactly if the structure is the program's own, and is
found where it is. -/
theorem argumentsContained_iff (hptr : ptr < addressSpace) :
    ArgumentsContained pages directory ptr ↔ StructureFound pages directory ptr := by
  have hplaces := @places_iff pages directory ptr hptr
  constructor
  · intro h
    have hall := hplaces.mp fun i hi => ?_
    · exact ⟨h.writeable, hall.1, hall.2⟩
    · have hsame := h.stored h.writeable
      simp only [command8_eq] at hsame
      refine place_eq_of_stores hi (fun j hj heq => ?_) hsame
      simp only [toUint32, addressSpace, processArgumentsSize] at hi hj heq
      omega
  · rintro ⟨hwriteable, hfound, hadjacent⟩
    refine ⟨fun _ arguments memory => ?_, fun hnot => absurd hwriteable hnot⟩
    have hall := hplaces.mpr ⟨hfound, hadjacent⟩
    rw [command8_eq, storeArguments, storeArguments]
    congr 1
    apply List.map_congr_left
    intro i hi
    rw [hall i (List.mem_range.mp hi)]

end Places

/-- The first pages as `paging_new_4gb` maps them for a task: present and accessible, not writeable. -/
def identityPages : PageTables where
  directories := fun _ _ => 0x2000007
  tables := fun _ index => index * pagingPageSize ||| (pagingIsPresent ||| pagingAccessFromAll)
  stores := []

theorem argumentsContained_iff_kernel : ArgumentsContained identityPages 0x2001000 0x100000 ↔
    StructureFound identityPages 0x2001000 0x100000 :=
  argumentsContained_iff (by decide)

/-- The arguments are stored over the code of the kernel. -/
theorem not_argumentsContained : ¬∀ pages directory ptr, ptr < addressSpace →
    ArgumentsContained pages directory ptr := by
  intro hall
  have hwriteable := (hall identityPages 0x2001000 0x100000 (by decide)).writeable 0 (by decide)
  exact absurd hwriteable.2 (by decide)

end SlobOS
