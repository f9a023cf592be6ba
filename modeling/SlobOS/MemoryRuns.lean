import SlobOS.Lib.Runs
import SlobOS.Proof.Allocations
import SlobOS.Proof.ProcessMemory
import SlobOS.Proof.ProgramPages
import SlobOS.Proof.Programs

/-!
# The memory of the processes

Processes ask for memory and give it back, in any order and with any arguments. The heap, the slots
of the processes and their page directories stay in step as long as nobody asks for no bytes at all,
and as long as the heap does not answer with a run of blocks that is too short.
-/

namespace SlobOS

open Windows Tilings

/-- What the memory calls work on: the heap, the page tables with the directory of each process, and
the slots of each process. -/
structure Accounts where
  heap : Heap
  pages : PageTables
  directory : Nat → Nat
  slots : Nat → Nat → ProcessAllocation

namespace Accounts

def Recorded (accounts : Accounts) (process i : Nat) : Prop :=
  i < slobosMaxProgramAllocations ∧ (accounts.slots process i).ptr ≠ 0

def span (accounts : Accounts) (process i : Nat) : Span :=
  (accounts.slots process i).span accounts.heap

def Opens (accounts : Accounts) (process block : Nat) : Prop :=
  UserWriteable accounts.pages (accounts.directory process) (blockPage accounts.heap block)

def Owns (accounts : Accounts) (process block : Nat) : Prop :=
  ∃ i, accounts.Recorded process i ∧ (accounts.span process i).Covers block

/-- The recorded allocations are ranges of taken blocks, apart from each other and at different
addresses, and a process can write to the blocks of its own allocations at most. -/
structure Safe (processes : List Nat) (accounts : Accounts) : Prop where
  taken : ∀ process ∈ processes, ∀ i, accounts.Recorded process i →
    (accounts.slots process i).ptr =
        heapBlockToAddress accounts.heap (accounts.span process i).start ∧
      (accounts.span process i).stop ≤ accounts.heap.table.total ∧
      ∀ block, (accounts.span process i).Covers block → ¬accounts.heap.table.IsFree block
  apart : ∀ process ∈ processes, ∀ other ∈ processes, ∀ i j, accounts.Recorded process i →
    accounts.Recorded other j → (process ≠ other ∨ i ≠ j) →
      (accounts.span process i).Apart (accounts.span other j) ∧
        (accounts.slots process i).ptr ≠ (accounts.slots other j).ptr
  writeable : ∀ process ∈ processes, ∀ block < accounts.heap.table.total,
    accounts.Opens process block → accounts.Owns process block

/-- The state that the calls keep: the recorded allocations are held in the heap, and the page
directories have tables of their own. -/
structure Kept (processes : List Nat) (accounts : Accounts) : Prop where
  sound : HeapSound accounts.heap
  held : ∀ process ∈ processes, ∀ i, accounts.Recorded process i →
    HeldAllocation accounts.heap (accounts.slots process i)
  apart : ∀ process ∈ processes, ∀ other ∈ processes, ∀ i j, accounts.Recorded process i →
    accounts.Recorded other j → (process ≠ other ∨ i ≠ j) →
      (accounts.span process i).Apart (accounts.span other j)
  distinct : ∀ process ∈ processes, DistinctTables accounts.pages (accounts.directory process)
  disjoint : ∀ process ∈ processes, ∀ other ∈ processes, process ≠ other →
    DisjointTables accounts.pages (accounts.directory process) (accounts.directory other)
  writeable : ∀ process ∈ processes, ∀ block < accounts.heap.table.total,
    accounts.Opens process block → accounts.Owns process block

def setHeap (accounts : Accounts) (heap : Heap) : Accounts := { accounts with heap := heap }

def setPages (accounts : Accounts) (pages : PageTables) : Accounts :=
  { accounts with pages := pages }

def setSlot (accounts : Accounts) (process index : Nat) (allocation : ProcessAllocation) :
    Accounts :=
  { accounts with slots := fun other i =>
      if other = process ∧ i = index then allocation else accounts.slots other i }

def clearSlots (accounts : Accounts) (process ptr : Nat) : Accounts :=
  { accounts with slots := fun other i =>
      if other = process ∧ i < slobosMaxProgramAllocations ∧ (accounts.slots other i).ptr = ptr
      then { ptr := 0, size := 0 } else accounts.slots other i }

variable {processes : List Nat} {accounts : Accounts} {heap : Heap} {pages : PageTables}
  {allocation : ProcessAllocation} {process ptr index : Nat}

theorem Kept.safe (h : Kept processes accounts) : Safe processes accounts where
  taken := by
    intro process hprocess i hi
    have hheld := h.held process hprocess i hi
    exact ⟨hheld.address, hheld.chained.inside, fun block => hheld.chained.not_isFree⟩
  apart := by
    intro process hprocess other hother i j hi hj hne
    have hapart := h.apart process hprocess other hother i j hi hj hne
    refine ⟨hapart, fun hptr => ?_⟩
    have hpos := (h.held process hprocess i hi).chained.nonempty
    have hpos' := (h.held other hother j hj).chained.nonempty
    have hstart : (accounts.span process i).start = (accounts.span other j).start := by
      rw [span, span, ProcessAllocation.span, ProcessAllocation.span, hptr]
    change 0 < (accounts.span process i).len at hpos
    change 0 < (accounts.span other j).len at hpos'
    simp only [Span.Apart, Span.stop] at hapart
    omega
  writeable := h.writeable

/-! ### What keeps the accounts -/

theorem span_setHeap (hsaddr : heap.saddr = accounts.heap.saddr) (process i : Nat) :
    (accounts.setHeap heap).span process i = accounts.span process i := by
  rw [span, span, ProcessAllocation.span, ProcessAllocation.span]
  exact congrArg (fun block : Int => (⟨block.toNat, _⟩ : Span)) (heapAddressToBlock_congr hsaddr _)

theorem opens_setHeap (hsaddr : heap.saddr = accounts.heap.saddr) (process block : Nat) :
    (accounts.setHeap heap).Opens process block ↔ accounts.Opens process block := by
  unfold Opens blockPage
  rw [show (accounts.setHeap heap).heap = heap from rfl, heapBlockToAddress_congr hsaddr]
  exact Iff.rfl

theorem Kept.setHeap (h : Kept processes accounts) (hsound : HeapSound heap)
    (hsaddr : heap.saddr = accounts.heap.saddr)
    (htotal : heap.table.total = accounts.heap.table.total)
    (hentries : ∀ process ∈ processes, ∀ i, accounts.Recorded process i →
      ∀ block, (accounts.span process i).Covers block →
        heap.table.entries block = accounts.heap.table.entries block) :
    Kept processes (accounts.setHeap heap) where
  sound := hsound
  held := by
    intro process hprocess i hi
    exact ((h.held process hprocess i hi).kept hsaddr htotal (hentries process hprocess i hi)).1
  apart := by
    intro process hprocess other hother i j hi hj hne
    rw [span_setHeap hsaddr, span_setHeap hsaddr]
    exact h.apart process hprocess other hother i j hi hj hne
  distinct := h.distinct
  disjoint := h.disjoint
  writeable := by
    intro process hprocess block hblock hopen
    obtain ⟨i, hi, hcover⟩ := h.writeable process hprocess block (htotal ▸ hblock)
      ((opens_setHeap hsaddr process block).mp hopen)
    exact ⟨i, hi, by rwa [span_setHeap hsaddr]⟩

theorem Kept.setPages (h : Kept processes accounts) (hprocess : process ∈ processes)
    {page frame count flags : Nat}
    (hmaps : Maps accounts.pages pages (accounts.directory process) page frame count flags)
    (hwriteable : ∀ block < accounts.heap.table.total,
      (accounts.setPages pages).Opens process block → accounts.Owns process block) :
    Kept processes (accounts.setPages pages) where
  sound := h.sound
  held := h.held
  apart := h.apart
  distinct := by
    intro other hother
    unfold DistinctTables
    rw [show (accounts.setPages pages).pages.directories = _ from hmaps.directories]
    exact h.distinct other hother
  disjoint := by
    intro other hother another hanother hne
    unfold DisjointTables
    rw [show (accounts.setPages pages).pages.directories = _ from hmaps.directories]
    exact h.disjoint other hother another hanother hne
  writeable := by
    intro other hother block hblock hopen
    by_cases heq : other = process
    · rw [heq] at hopen ⊢
      exact hwriteable block hblock hopen
    · apply h.writeable other hother block hblock
      obtain ⟨hdirectory, hentry⟩ := hopen
      have hpage := h.sound.blockPage_lt hblock
      have hsame := hmaps.other _ (h.disjoint process hprocess other hother (Ne.symm heq)) _ hpage
      refine ⟨?_, hsame ▸ hentry⟩
      rw [← hmaps.directories]
      exact hdirectory

theorem Kept.grant (h : Kept processes accounts) (hgrant : Grant accounts.heap heap allocation) :
    Kept processes (accounts.setHeap heap) ∧ ∀ process ∈ processes, ∀ i,
      accounts.Recorded process i → (allocation.span heap).Apart (accounts.span process i) := by
  have hout : ∀ process ∈ processes, ∀ i, accounts.Recorded process i → ∀ block,
      (accounts.span process i).Covers block → ¬(allocation.span heap).Covers block := by
    intro process hprocess i hi block hcover hin
    exact (h.held process hprocess i hi).chained.not_isFree hcover (hgrant.free block hin)
  refine ⟨h.setHeap hgrant.sound hgrant.saddr hgrant.total ?_, ?_⟩
  · intro process hprocess i hi block hcover
    exact hgrant.frame block (hout process hprocess i hi block hcover)
  · intro process hprocess i hi
    refine Span.apart_of_not_covers hgrant.held.chained.nonempty
      (h.held process hprocess i hi).chained.nonempty fun block hin hcover => ?_
    exact hout process hprocess i hi block hcover hin

theorem Kept.release (h : Kept processes accounts)
    (hheld : HeldAllocation accounts.heap allocation)
    (hapart : ∀ process ∈ processes, ∀ i, accounts.Recorded process i →
      (allocation.span accounts.heap).Apart (accounts.span process i)) :
    Kept processes (accounts.setHeap (heapFree accounts.heap allocation.ptr)) := by
  apply h.setHeap (h.sound.free _) (heapFree_saddr _ _) (heapFree_total _ _)
  intro process hprocess i hi block hcover
  exact hheld.release h.sound fun hin => (hapart process hprocess i hi).not_covers hin hcover

theorem Kept.release_null (h : Kept processes accounts) :
    Kept processes (accounts.setHeap (heapFree accounts.heap 0)) := by
  apply h.setHeap (h.sound.free _) (heapFree_saddr _ _) (heapFree_total _ _)
  intro _ _ _ _ block _
  exact h.sound.release_null block

theorem Kept.record (h : Kept processes accounts) (hempty : (accounts.slots process index).ptr = 0)
    (hheld : HeldAllocation accounts.heap allocation)
    (hapart : ∀ process ∈ processes, ∀ i, accounts.Recorded process i →
      (allocation.span accounts.heap).Apart (accounts.span process i)) :
    Kept processes (accounts.setSlot process index allocation) := by
  have hnew : (accounts.setSlot process index allocation).slots process index = allocation :=
    if_pos ⟨rfl, rfl⟩
  have hold : ∀ {other i}, ¬(other = process ∧ i = index) →
      (accounts.setSlot process index allocation).slots other i = accounts.slots other i :=
    fun hne => if_neg hne
  refine ⟨h.sound, ?_, ?_, h.distinct, h.disjoint, ?_⟩
  · intro other hother i hi
    by_cases heq : other = process ∧ i = index
    · rw [heq.1, heq.2, hnew]
      exact hheld
    · unfold Recorded at hi
      rw [hold heq] at hi ⊢
      exact h.held other hother i hi
  · intro other hother another hanother i j hi hj hne
    unfold Recorded at hi hj
    unfold span
    by_cases heq : other = process ∧ i = index <;> by_cases heq' : another = process ∧ j = index
    · exact absurd (heq.1.trans heq'.1.symm) (by
        rcases hne with hne | hne
        · exact hne
        · exact absurd (heq.2.trans heq'.2.symm) hne)
    · rw [hold heq'] at hj ⊢
      rw [heq.1, heq.2, hnew]
      exact hapart another hanother j hj
    · rw [hold heq] at hi ⊢
      rw [heq'.1, heq'.2, hnew]
      exact Or.symm (hapart other hother i hi)
    · rw [hold heq] at hi ⊢
      rw [hold heq'] at hj ⊢
      exact h.apart other hother another hanother i j hi hj hne
  · intro other hother block hblock hopen
    obtain ⟨i, hi, hcover⟩ := h.writeable other hother block hblock hopen
    have hne : ¬(other = process ∧ i = index) := by
      rintro ⟨rfl, rfl⟩
      exact hi.2 hempty
    refine ⟨i, ⟨hi.1, ?_⟩, ?_⟩
    · rw [hold hne]
      exact hi.2
    · unfold span
      rw [hold hne]
      exact hcover

theorem recorded_clearSlots {other i : Nat}
    (h : (accounts.clearSlots process ptr).Recorded other i) :
    (accounts.clearSlots process ptr).slots other i = accounts.slots other i ∧
      accounts.Recorded other i ∧ ¬(other = process ∧ (accounts.slots other i).ptr = ptr) := by
  obtain ⟨hi, hne⟩ := h
  by_cases hcleared : other = process ∧ i < slobosMaxProgramAllocations ∧
      (accounts.slots other i).ptr = ptr
  · exact absurd (congrArg ProcessAllocation.ptr (if_pos hcleared)) hne
  · have hsame : (accounts.clearSlots process ptr).slots other i = accounts.slots other i :=
      if_neg hcleared
    exact ⟨hsame, ⟨hi, hsame ▸ hne⟩, fun hptr => hcleared ⟨hptr.1, hi, hptr.2⟩⟩

theorem Kept.clear (h : Kept processes accounts)
    (hclosed : ∀ block < accounts.heap.table.total, accounts.Opens process block →
      ∀ i, accounts.Recorded process i → (accounts.slots process i).ptr = ptr →
        ¬(accounts.span process i).Covers block) :
    Kept processes (accounts.clearSlots process ptr) := by
  refine ⟨h.sound, ?_, ?_, h.distinct, h.disjoint, ?_⟩
  · intro other hother i hi
    obtain ⟨hsame, hi, -⟩ := recorded_clearSlots hi
    rw [hsame]
    exact h.held other hother i hi
  · intro other hother another hanother i j hi hj hne
    obtain ⟨hsame, hi, -⟩ := recorded_clearSlots hi
    obtain ⟨hsame', hj, -⟩ := recorded_clearSlots hj
    unfold span
    rw [hsame, hsame']
    exact h.apart other hother another hanother i j hi hj hne
  · intro other hother block hblock hopen
    obtain ⟨i, hi, hcover⟩ := h.writeable other hother block hblock hopen
    have hkept : (accounts.clearSlots process ptr).slots other i = accounts.slots other i := by
      apply if_neg
      rintro ⟨rfl, -, hptr⟩
      exact hclosed block hblock hopen i hi hptr hcover
    refine ⟨i, ⟨hi.1, ?_⟩, ?_⟩
    · rw [hkept]
      exact hi.2
    · unfold span
      rw [hkept]
      exact hcover

end Accounts

namespace Kernel

open Faulting Runs

def accounts (kernel : Kernel) : Accounts where
  heap := kernel.heap
  pages := kernel.pages
  directory := kernel.directoryOf
  slots := fun process => (kernel.processMemory process).allocations

def CallStep (processes : List Nat) (kernel : Kernel) (call : Nat × MemoryCall) (after : Kernel) :
    Prop :=
  call.1 ∈ processes ∧ MemoryStep call.1 kernel call.2 after

def Served (kernel : Kernel) (call : Nat × MemoryCall) : Prop :=
  match call.2 with
  | .malloc size => Serves kernel.heap size
  | .free _ => True

/-- No process has an allocation yet, each has a page directory with tables of its own, and none can
write to a block of the heap at its own address. -/
structure MemoryStart (processes : List Nat) (kernel : Kernel) : Prop where
  sound : HeapSound kernel.heap
  empty : ∀ process ∈ processes, ∀ i < slobosMaxProgramAllocations,
    ((kernel.processMemory process).allocations i).ptr = 0
  distinct : ∀ process ∈ processes, DistinctTables kernel.pages (kernel.directoryOf process)
  disjoint : ∀ process ∈ processes, ∀ other ∈ processes, process ≠ other →
    DisjointTables kernel.pages (kernel.directoryOf process) (kernel.directoryOf other)
  closed : ∀ process ∈ processes, ∀ block < kernel.heap.table.total,
    ¬UserWriteable kernel.pages (kernel.directoryOf process) (blockPage kernel.heap block)

variable {kernel alloc after : Kernel} {processes : List Nat} {process ptr size index : Nat}
  {pages : PageTables}

theorem MemoryStart.kept (h : MemoryStart processes kernel) :
    Accounts.Kept processes kernel.accounts where
  sound := h.sound
  held := fun process hprocess i hi => absurd (h.empty process hprocess i hi.1) hi.2
  apart := fun process hprocess _ _ i _ hi _ _ => absurd (h.empty process hprocess i hi.1) hi.2
  distinct := h.distinct
  disjoint := h.disjoint
  writeable := fun process hprocess block hblock hopen =>
    absurd hopen (h.closed process hprocess block hblock)

theorem accounts_takes (h : TakesMemory kernel after) :
    after.accounts = kernel.accounts.setHeap after.heap := by
  unfold TakesMemory at h
  rw [h]
  rfl

theorem accounts_kfree : ({ kernel with heap := heapFree kernel.heap ptr } : Kernel).accounts =
    kernel.accounts.setHeap (heapFree kernel.accounts.heap ptr) := rfl

theorem accounts_granted : (setAllocations process (grantedAllocations kernel process index ptr size)
      (Kernel.setPages pages kernel)).accounts =
    (kernel.accounts.setSlot process index ⟨ptr, size⟩).setPages pages := by
  have hslots : (fun other => ((setAllocations process
      (grantedAllocations kernel process index ptr size)
      (Kernel.setPages pages kernel)).processMemory other).allocations) =
      (kernel.accounts.setSlot process index ⟨ptr, size⟩).slots := by
    funext other i
    simp only [setAllocations, setProcessMemory, Kernel.setPages, Accounts.setSlot, accounts]
    by_cases heq : other = process
    · simp only [heq, if_true, true_and, grantedAllocations]
    · simp only [heq, if_false, false_and]
  exact congrArg (Accounts.mk kernel.heap pages kernel.directoryOf) hslots

theorem accounts_unjoin : (processUnjoinAllocationArray process ptr kernel).accounts =
    kernel.accounts.clearSlots process ptr := by
  have hslots : (fun other => ((processUnjoinAllocationArray process ptr
      kernel).processMemory other).allocations) =
      (kernel.accounts.clearSlots process ptr).slots := by
    funext other i
    simp only [processUnjoinAllocationArray, setAllocations, setProcessMemory, Accounts.clearSlots,
      accounts]
    by_cases heq : other = process
    · simp only [heq, if_true, true_and]
    · simp only [heq, if_false, false_and]
  exact congrArg (Accounts.mk kernel.heap kernel.pages kernel.directoryOf) hslots

theorem accounts_released : ({ processUnjoinAllocationArray process ptr kernel with
      heap := heapFree kernel.heap ptr } : Kernel).accounts =
    (kernel.accounts.clearSlots process ptr).setHeap (heapFree kernel.heap ptr) :=
  congrArg (fun accounts => accounts.setHeap (heapFree kernel.heap ptr)) accounts_unjoin

theorem kzalloc_grant (hsound : HeapSound kernel.heap) (hserves : Serves kernel.heap size)
    (h : Ends (kzalloc size) kernel ptr alloc) (hne : ptr ≠ 0) :
    Grant kernel.heap alloc.heap ⟨ptr, size⟩ := by
  obtain ⟨hptr, hheap, -, hbound⟩ := ends_kzalloc h
  have hlt := hbound hne
  rw [hptr] at hne hlt
  rw [hptr, hheap]
  exact heapMalloc_grant hsound hserves hne hlt

/-! ### One call -/

theorem processMalloc_kept (hkept : Accounts.Kept processes kernel.accounts)
    (hprocess : process ∈ processes) (hserves : Serves kernel.heap size)
    (h : Ends (processMalloc process size) kernel ptr after) :
    Accounts.Kept processes after.accounts := by
  have hgrants : ∀ {ptr alloc}, Ends (kzalloc size) kernel ptr alloc → ptr ≠ 0 →
      Grant kernel.heap alloc.heap ⟨ptr, size⟩ ∧ Accounts.Kept processes alloc.accounts ∧
        ∀ process ∈ processes, ∀ i, alloc.accounts.Recorded process i →
          ((⟨ptr, size⟩ : ProcessAllocation).span alloc.heap).Apart
            (alloc.accounts.span process i) := by
    intro ptr alloc halloc hne
    have hgrant := kzalloc_grant hkept.sound hserves halloc hne
    obtain ⟨hkept', hapart⟩ := Accounts.Kept.grant hkept hgrant
    rw [accounts_takes (ends_kzalloc halloc).2.2.1]
    refine ⟨hgrant, hkept', fun process hprocess i hi => ?_⟩
    rw [Accounts.span_setHeap hgrant.saddr]
    exact hapart process hprocess i hi
  cases processMalloc_cases h with
  | refused halloc =>
      obtain ⟨hnull, hheap, htakes, -⟩ := ends_kzalloc halloc
      have hsame : (heapMalloc kernel.heap size).2 = kernel.heap :=
        heapMalloc_null hkept.sound hnull.symm
      rw [accounts_takes htakes, hheap, hsame]
      exact hkept
  | @full ptr' alloc halloc hne =>
      obtain ⟨hgrant, hkept', hapart⟩ := hgrants halloc hne
      rw [accounts_kfree]
      exact @Accounts.Kept.release processes alloc.accounts ⟨ptr', size⟩ hkept' hgrant.held hapart
  | @unmapped ptr' alloc halloc hne hneg =>
      obtain ⟨hgrant, -, -⟩ := hgrants halloc hne
      obtain ⟨pages', hmap, -⟩ := hgrant.held.maps hgrant.sound alloc.pages
        (alloc.directoryOf process) 7
      have hres : (mapsAllocation alloc process ptr' size 7).1 = 0 := congrArg Prod.fst hmap
      omega
  | @granted _ index alloc halloc hne hlt hempty hge =>
      obtain ⟨hgrant, hkept', hapart⟩ := hgrants halloc hne
      obtain ⟨pages', hmap, hmaps⟩ := hgrant.held.maps hgrant.sound alloc.pages
        (alloc.directoryOf process) 7
      have hpages : (mapsAllocation alloc process ptr size 7).2 = pages' := congrArg Prod.snd hmap
      have hrecorded := @Accounts.Kept.record processes alloc.accounts ⟨ptr, size⟩ process index
        hkept' hempty hgrant.held hapart
      rw [accounts_granted, hpages]
      apply hrecorded.setPages hprocess hmaps
      intro block hblock hopen
      rcases hmaps.userWriteable (hkept'.distinct process hprocess) (by decide)
        (hgrant.sound.blockPage_lt hblock) hopen with ⟨hin, -⟩ | ⟨-, hopen⟩
      · -- The page is one of the new allocation.
        have hcover := (pageOffset_block hgrant.sound hblock hgrant.held.chained.inside).mp hin
        have hslot : (alloc.accounts.setSlot process index ⟨ptr, size⟩).slots process index =
            ⟨ptr, size⟩ := if_pos ⟨rfl, rfl⟩
        refine ⟨index, ⟨hlt, ?_⟩, ?_⟩
        · rw [hslot]
          exact hne
        · unfold Accounts.span
          rw [hslot]
          exact hcover
      · exact hrecorded.writeable process hprocess block hblock hopen

theorem mapsAllocation_null (kernel : Kernel) (process size : Nat) : ∃ pages' count,
    mapsAllocation kernel process 0 size 0 = (0, pages') ∧
      Maps kernel.pages pages' (kernel.directoryOf process) 0 0 count 0 := by
  obtain ⟨pages', hmap, hmaps⟩ := @pagingMapTo_maps kernel.pages (kernel.directoryOf process) 0 0
    (stopPage (toUint32 (0 + size))) 0 (by decide) (by decide) (stopPage_lt _) (Nat.zero_le _)
  rw [← pagingAlignAddress_eq (toUint32_lt _)] at hmap
  exact ⟨pages', _, hmap, hmaps⟩

theorem processFree_maps (hkept : Accounts.Kept processes kernel.accounts)
    (hprocess : process ∈ processes) {i : Nat} (hi : i < slobosMaxProgramAllocations)
    (hptr : ((kernel.processMemory process).allocations i).ptr = ptr) : ∃ pages',
    mapsAllocation kernel process ptr ((kernel.processMemory process).allocations i).size 0 =
        (0, pages') ∧
      Accounts.Kept processes (Kernel.setPages pages' kernel).accounts ∧
      ∀ block < kernel.heap.table.total, (Kernel.setPages pages' kernel).accounts.Opens process block →
        ptr ≠ 0 → ¬(kernel.accounts.span process i).Covers block := by
  have hdistinct := hkept.distinct process hprocess
  by_cases hnull : ptr = 0
  · obtain ⟨pages', count, hmap, hmaps⟩ := mapsAllocation_null kernel process
      ((kernel.processMemory process).allocations i).size
    refine ⟨pages', hnull ▸ hmap, ?_, fun _ _ _ hne => absurd hnull hne⟩
    apply hkept.setPages hprocess hmaps
    intro block hblock hopen
    rcases hmaps.userWriteable hdistinct (by decide) (hkept.sound.blockPage_lt hblock) hopen with
      ⟨-, hseven⟩ | ⟨-, hopen⟩
    · cases hseven
    · exact hkept.writeable process hprocess block hblock hopen
  · have hheld := hkept.held process hprocess i ⟨hi, hptr ▸ hnull⟩
    obtain ⟨pages', hmap, hmaps⟩ := hheld.maps hkept.sound kernel.pages (kernel.directoryOf process) 0
    have hopens : ∀ block < kernel.heap.table.total,
        (Kernel.setPages pages' kernel).accounts.Opens process block →
          ¬(kernel.accounts.span process i).Covers block ∧ kernel.accounts.Opens process block := by
      intro block hblock hopen
      rcases hmaps.userWriteable hdistinct (by decide) (hkept.sound.blockPage_lt hblock) hopen with
        ⟨-, hseven⟩ | ⟨hout, hopen⟩
      · cases hseven
      · refine ⟨fun hcover => hout ?_, hopen⟩
        exact (pageOffset_block hkept.sound hblock hheld.chained.inside).mpr hcover
    refine ⟨pages', hptr ▸ hmap, ?_, fun block hblock hopen _ => (hopens block hblock hopen).1⟩
    apply hkept.setPages hprocess hmaps
    intro block hblock hopen
    exact hkept.writeable process hprocess block hblock (hopens block hblock hopen).2

theorem processFree_kept {result : Unit} (hkept : Accounts.Kept processes kernel.accounts)
    (hprocess : process ∈ processes) (h : Ends (processFree process ptr) kernel result after) :
    Accounts.Kept processes after.accounts := by
  cases processFree_cases h with
  | ignored => exact hkept
  | unmapped hi hptr hneg =>
      obtain ⟨pages', hmap, -, -⟩ := processFree_maps hkept hprocess hi hptr
      rw [hmap] at hneg
      exact absurd hneg (Int.lt_irrefl 0)
  | @released i hi hptr _ =>
      obtain ⟨pages', hmap, hmapped, hclosed⟩ := processFree_maps hkept hprocess hi hptr
      rw [hmap]
      have hsame : ∀ j, ptr ≠ 0 → (Kernel.setPages pages' kernel).accounts.Recorded process j →
          ((Kernel.setPages pages' kernel).accounts.slots process j).ptr = ptr → j = i := by
        intro j hne hj hptr'
        by_contra hother
        exact (hmapped.safe.apart process hprocess process hprocess j i hj ⟨hi, hptr ▸ hne⟩
          (Or.inr hother)).2 (hptr'.trans hptr.symm)
      have hcleared := @Accounts.Kept.clear processes (Kernel.setPages pages' kernel).accounts process
        ptr hmapped (by
          intro block hblock hopen j hj hptr'
          have hne : ptr ≠ 0 := hptr' ▸ hj.2
          rw [hsame j hne hj hptr']
          exact hclosed block hblock hopen hne)
      have hafter := @accounts_released (Kernel.setPages pages' kernel) process ptr
      change Accounts.Kept processes ({ processUnjoinAllocationArray process ptr
        (Kernel.setPages pages' kernel) with heap := heapFree kernel.heap ptr } : Kernel).accounts
      by_cases hnull : ptr = 0
      · subst hnull
        exact hafter ▸ hcleared.release_null
      · have hheld := hmapped.held process hprocess i ⟨hi, hptr ▸ hnull⟩
        have hreleased := @Accounts.Kept.release processes
          ((Kernel.setPages pages' kernel).accounts.clearSlots process ptr)
          ((kernel.processMemory process).allocations i) hcleared hheld (by
            intro other hother j hj
            obtain ⟨hsame', hj, hne⟩ := Accounts.recorded_clearSlots hj
            unfold Accounts.span
            rw [hsame']
            apply hmapped.apart process hprocess other hother i j ⟨hi, hptr ▸ hnull⟩ hj
            by_contra heq
            rw [not_or, not_not, not_not] at heq
            obtain ⟨rfl, rfl⟩ := heq
            exact hne ⟨rfl, hptr⟩)
        rw [hptr] at hreleased
        exact hafter ▸ hreleased

theorem MemoryStep.kept {call : MemoryCall} (h : MemoryStep process kernel call after)
    (hprocess : process ∈ processes) (hserved : Served kernel (process, call))
    (hkept : Accounts.Kept processes kernel.accounts) : Accounts.Kept processes after.accounts := by
  cases h with
  | malloc h => exact processMalloc_kept hkept hprocess hserved h
  | free h => exact processFree_kept hkept hprocess h

/-- The allocations stay apart and closed to the other processes in every run of served calls. -/
theorem safe_of_run {calls : List (Nat × MemoryCall)} {state : Kernel}
    (hstart : MemoryStart processes kernel)
    (hrun : Run (Guarded Served (CallStep processes)) kernel calls state) :
    Accounts.Safe processes state.accounts := by
  have hkept := hrun.invariant (fun kernel => Accounts.Kept processes kernel.accounts)
    (fun _ _ _ hbefore hstep => hstep.2.2.kept hstep.2.1 hstep.1 hbefore) hstart.kept
  exact hkept.safe

/-! ### A program that has been loaded -/

theorem Acquires.memoryStart {acquired mapped : Kernel} {filename : List UInt8} {slot : Nat}
    {res : Int} (h : Acquires filename slot kernel process acquired) (hsound : HeapSound kernel.heap)
    (hmap : Ends (processMapMemory process) acquired res mapped) (hge : 0 ≤ res)
    (hfiletype : (acquired.sched.procs process).filetype = .binary)
    (hsize : (acquired.processMemory process).size ≤ 0x1C00000) :
    MemoryStart [process] (enterSlot slot process mapped) := by
  have hmappable := h.mappable hsound
  have hdistinct := hmappable.directory.distinct
  obtain ⟨haligned, hne, -, hbound⟩ := hmappable.program hfiletype
  obtain ⟨block, -, hblock, -⟩ := h.holds hsound
  have hdirectories := acquired.programPages_directories process
  obtain rfl := ends_processMapMemory hmap hge
  generalize hprogram : acquired.programPages process = program at hdirectories
  have hdistinct' : DistinctTables program (acquired.directoryOf process) := by
    unfold DistinctTables
    rw [hdirectories]
    exact hdistinct
  refine ⟨hblock.toHeapSound, ?_, ?_, ?_, ?_⟩
  · intro other hother i _
    rw [List.mem_singleton.mp hother]
    exact h.empty i
  · intro other hother
    rw [List.mem_singleton.mp hother]
    have hmaps := @stackMapped_maps program (acquired.directoryOf process) _ hmappable.stackAligned
      hmappable.stackBound
    change DistinctTables (stackMapped program _ _).2 (acquired.directoryOf process)
    unfold DistinctTables
    rw [hmaps.directories]
    exact hdistinct'
  · intro other hother another hanother hne
    exact absurd ((List.mem_singleton.mp hother).trans (List.mem_singleton.mp hanother).symm) hne
  · intro other hother block hlt hopen
    rw [List.mem_singleton.mp hother] at hopen
    have hpage := hblock.toHeapSound.blockPage_lt hlt
    have hentry : pageEntry (stackMapped program (acquired.directoryOf process)
        (acquired.processMemory process).stack).2 (acquired.directoryOf process)
        (blockPage acquired.heap block) % 8 = 7 := hopen.2
    have hplace := hblock.toHeapSound.blockPage hlt
    rw [stackMapped_entry hmappable.stackAligned hmappable.stackBound hdistinct' hpage (by omega),
      ← hprogram] at hentry
    unfold programPages programMapped at hentry
    simp only [hfiletype] at hentry
    rw [processMapBinary_entry haligned hne hbound hdistinct hpage (fun _ => by
      rw [hplace]
      simp only [pageOffset, pageCount, pagingPageSize] at hpage ⊢
      omega), hmappable.directory.entry _ hpage, page_or_flags (by decide)] at hentry
    have htask : taskPageFlags = 5 := by decide
    simp only [pagingPageSize] at hentry
    omega

theorem heapMalloc_zero {heap : Heap} (hlast : ¬heap.table.LastTaken) :
    ∃ start < heap.table.total, heapMalloc heap 0 = (heapBlockToAddress heap start, heap) := by
  have hcases := heapMallocBlocks_cases heap 0
  rw [show heapMallocBlocks heap 0 = heapMalloc heap 0 from rfl] at hcases
  generalize heapMalloc heap 0 = result at hcases
  cases hcases with
  | fail _ htaken => exact absurd htaken hlast
  | fit hpos => exact absurd hpos (Nat.lt_irrefl 0)
  | @short start hshort =>
      refine ⟨start, hshort.lt, ?_⟩
      rw [show toInt32 (0 : Nat) = 0 from rfl, heapMarkBlocksTaken_zero]

theorem processMalloc_zero (hsound : HeapSound kernel.heap) (hlast : ¬kernel.heap.table.LastTaken)
    (hindex : processFindFreeAllocationIndex (kernel.processMemory process) = some index) :
    ∃ ptr after, Ends (processMalloc process 0) kernel ptr after ∧ ptr ≠ 0 ∧
      ptr = (heapMalloc kernel.heap 0).1 ∧ after.heap = kernel.heap ∧
      ∀ i, (after.processMemory process).allocations i =
        if i = index then { ptr := ptr, size := 0 }
        else (kernel.processMemory process).allocations i := by
  obtain ⟨start, hlt, hmalloc⟩ := heapMalloc_zero hlast
  have hpage : 0x2000 + start < pageCount := by
    have hlt' := hsound.blockPage_lt hlt
    rwa [hsound.blockPage hlt] at hlt'
  have hptr := hsound.blockAddress hlt
  generalize 0x2000 + start = page at hpage hptr
  have hne : (heapMalloc kernel.heap 0).1 ≠ 0 := by
    rw [hmalloc]
    exact hsound.block_ne_null hlt
  have hbound : (heapMalloc kernel.heap 0).1 + 0 < addressSpace := by
    rw [hmalloc, hptr]
    simp only [pagingPageSize, addressSpace, pageCount] at *
    omega
  have halloc := kzalloc_ends hne hbound
  generalize halloc' : writeBytes (heapMalloc kernel.heap 0).1 0 (fun _ => 0)
    { kernel with heap := (heapMalloc kernel.heap 0).2 } = alloc at halloc
  have hstop : pagingAlignAddress (toUint32 ((heapMalloc kernel.heap 0).1 + 0)) =
      page * pagingPageSize := by
    rw [toUint32, Nat.mod_eq_of_lt hbound, Nat.add_zero, hmalloc, hptr, pagingAlignAddress_page]
  obtain ⟨pages', hmap, -⟩ := @pagingMapTo_maps alloc.pages (alloc.directoryOf process) page page page
    7 hpage hpage hpage (Nat.le_refl _)
  have hmapped : mapsAllocation alloc process (heapMalloc kernel.heap 0).1 0 7 = (0, pages') := by
    rw [mapsAllocation, hstop, ← hmap, hmalloc, hptr]
  have hmemory : alloc.processMemory = kernel.processMemory := by rw [← halloc']; rfl
  have hheap : alloc.heap = kernel.heap := by
    rw [← halloc']
    exact congrArg Prod.snd hmalloc
  have hge : 0 ≤ (mapsAllocation alloc process (heapMalloc kernel.heap 0).1 0 7).1 :=
    Int.le_of_eq (congrArg Prod.fst hmapped).symm
  refine ⟨_, _, processMalloc_granted halloc hne (hmemory ▸ hindex) hge, hne, rfl, hheap, fun i => ?_⟩
  simp only [setAllocations, setProcessMemory, if_true, grantedAllocations, hmemory]

theorem processFindFreeAllocationIndex_first {own : ProcessMemory}
    (hlt : index < slobosMaxProgramAllocations) (hfree : (own.allocations index).ptr = 0)
    (htaken : ∀ i < index, (own.allocations i).ptr ≠ 0) :
    processFindFreeAllocationIndex own = some index :=
  List.find?_range_eq_some.mpr ⟨decide_eq_true hfree, List.mem_range.mpr hlt, fun i hi => by
    simpa using htaken i hi⟩

theorem room_serves {heap : Heap} {rest : Nat} (h : Room heap (rest + 1)) : Serves heap 1 := by
  have hle := h.le
  have hone : blockCount 1 = 1 := by decide
  refine Or.inr ⟨by decide, heap.table.total - 1, by omega, fun i hge hlt => h.window i ?_ ?_⟩
  · omega
  · omega

theorem processMalloc_byte {rest : Nat} (hroom : Room kernel.heap (rest + 1))
    (hindex : processFindFreeAllocationIndex (kernel.processMemory process) = some index) :
    ∃ ptr alloc pages, ptr ≠ 0 ∧ TakesMemory kernel alloc ∧ Room alloc.heap rest ∧
      Ends (processMalloc process 1) kernel ptr (setAllocations process
        (grantedAllocations alloc process index ptr 1) (setPages pages alloc)) := by
  have hone : blockCount 1 = 1 := by decide
  obtain ⟨ptr, alloc, halloc, hne, hroom'⟩ :=
    kzalloc_succeeds hroom hone (by decide) (by decide) rest (by omega)
  have hgrant := kzalloc_grant hroom.toHeapSound (room_serves hroom) halloc hne
  have htakes := kzalloc_takesMemory halloc
  have hmemory := congrArg Kernel.processMemory htakes
  obtain ⟨pages, hmap, -⟩ := hgrant.held.maps hgrant.sound alloc.pages (alloc.directoryOf process) 7
  have hge : 0 ≤ (mapsAllocation alloc process ptr 1 7).1 :=
    Int.le_of_eq (congrArg Prod.fst hmap).symm
  exact ⟨ptr, alloc, _, hne, htakes, hroom', processMalloc_granted halloc hne
    (congrFun hmemory process ▸ hindex) hge⟩

theorem memoryStart_byte : ∃ process loaded,
    Ends (processLoad rootFilePath) (idleKernel bootBytes (programVolume 1)) (0, process) loaded ∧
      MemoryStart [process] loaded ∧ Room loaded.heap 20000 := by
  obtain ⟨process, acquired, mapped, hacquires, hmap, hload, hready, hfiletype, hsize, -⟩ :=
    @processLoadForSlot_program 1 (by decide) (by decide)
  have hstart := hacquires.memoryStart (idleKernel_sound _) hmap (Int.le_refl 0) hfiletype
    (by rw [hsize]; decide)
  obtain ⟨pages, rfl, -⟩ := processMapMemory_pages hmap
  exact ⟨process, _, (ends_processLoad rfl).mpr hload, hstart, hready.room⟩

theorem safe_of_run_byte : ∃ process loaded ptr state,
    Ends (processLoad rootFilePath) (idleKernel bootBytes (programVolume 1)) (0, process) loaded ∧
      ptr ≠ 0 ∧ Run (CallStep [process]) loaded
        [(process, .malloc 1), (process, .malloc 1), (process, .free ptr)] state ∧
      Accounts.Safe [process] state.accounts := by
  obtain ⟨process, loaded, hload, hstart, hroom⟩ := memoryStart_byte
  have hmem : process ∈ [process] := List.mem_cons_self
  have hempty := hstart.empty process hmem
  obtain ⟨ptr, alloc, pages, hne, htakes, hroom', hfirst⟩ := processMalloc_byte hroom
    (processFindFreeAllocationIndex_first (by decide) (hempty 0 (by decide))
      fun i hi => absurd hi (Nat.not_lt_zero i))
  have hslots : (alloc.processMemory process).allocations =
      (loaded.processMemory process).allocations := by
    rw [htakes]
  generalize hsecond : setAllocations process _ _ = second at hfirst
  have hroom'' : Room second.heap 19999 := hsecond ▸ hroom'
  have hindex : processFindFreeAllocationIndex (second.processMemory process) = some 1 := by
    subst hsecond
    refine processFindFreeAllocationIndex_first (by decide) ?_ fun i hi => ?_
    · simp only [setAllocations, setProcessMemory, if_true, grantedAllocations, hslots]
      exact hempty 1 (by decide)
    · obtain rfl : i = 0 := by omega
      simpa only [setAllocations, setProcessMemory, if_true, grantedAllocations] using hne
  obtain ⟨ptr', alloc', pages', -, -, -, hnext⟩ := processMalloc_byte hroom'' hindex
  obtain ⟨state, hfree⟩ := processFree_total _ process ptr
  have hrun : Run (Guarded Served (CallStep [process])) loaded
      [(process, .malloc 1), (process, .malloc 1), (process, .free ptr)] state :=
    ((Run.single ⟨room_serves hroom, hmem, .malloc hfirst⟩).snoc
      ⟨room_serves hroom'', hmem, .malloc hnext⟩).snoc ⟨trivial, hmem, .free hfree⟩
  exact ⟨process, loaded, ptr, state, hload, hne, hrun.unguarded, safe_of_run hstart hrun⟩

/-- Two requests for nothing are recorded with one address. -/
theorem not_safe : ¬∀ processes kernel calls state, MemoryStart processes kernel →
    Run (CallStep processes) kernel calls state → Accounts.Safe processes state.accounts := by
  intro hall
  obtain ⟨process, loaded, -, hstart, hroom⟩ := memoryStart_byte
  have hmem : process ∈ [process] := List.mem_cons_self
  have hempty := hstart.empty process hmem
  obtain ⟨ptr, first, hfirst, hne, hptr, hheap, hslots⟩ := processMalloc_zero hroom.toHeapSound
    hroom.not_lastTaken (processFindFreeAllocationIndex_first (by decide) (hempty 0 (by decide))
      fun i hi => absurd hi (Nat.not_lt_zero i))
  have hindex : processFindFreeAllocationIndex (first.processMemory process) = some 1 := by
    refine processFindFreeAllocationIndex_first (by decide) ?_ fun i hi => ?_
    · rw [hslots, if_neg (by decide)]
      exact hempty 1 (by decide)
    · rw [hslots, if_pos (by omega)]
      exact hne
  obtain ⟨ptr', second, hsecond, hne', hptr', -, hslots'⟩ := processMalloc_zero
    (hheap ▸ hroom.toHeapSound) (hheap ▸ hroom.not_lastTaken) hindex
  have hcall : CallStep [process] loaded (process, .malloc 0) first := ⟨hmem, .malloc hfirst⟩
  have hcall' : CallStep [process] first (process, .malloc 0) second := ⟨hmem, .malloc hsecond⟩
  have hsafe := hall [process] loaded _ second hstart (.snoc (.single hcall) hcall')
  have hzero : (second.processMemory process).allocations 0 = ⟨ptr, 0⟩ := by
    rw [hslots', if_neg (by decide), hslots, if_pos rfl]
  have hone : (second.processMemory process).allocations 1 = ⟨ptr', 0⟩ := by
    rw [hslots', if_pos rfl]
  refine (hsafe.apart process hmem process hmem 0 1 ⟨by decide, ?_⟩ ⟨by decide, ?_⟩
    (Or.inr (by decide))).2 ?_
  · rw [show second.accounts.slots process 0 = ⟨ptr, 0⟩ from hzero]
    exact hne
  · rw [show second.accounts.slots process 1 = ⟨ptr', 0⟩ from hone]
    exact hne'
  · rw [show second.accounts.slots process 0 = ⟨ptr, 0⟩ from hzero,
      show second.accounts.slots process 1 = ⟨ptr', 0⟩ from hone, hptr, hptr', hheap]

end Kernel

end SlobOS
