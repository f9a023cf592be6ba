import SlobOS.Proof.HeapOps
import SlobOS.Lib.Runs

/-!
# Histories of the heap

The heap under any sequence of allocations and releases, with the block ranges handed out and not
yet given back beside it. A request for blocks that do not fit is harmless while the last block of
the table is taken; otherwise the run that ends the table is handed out in their place, and the
marking leaves the table. Histories without such a request keep the table a tiling by the live
ranges.
-/

namespace SlobOS

open Runs Windows Tilings

/-- The two pointers delimit one region of memory: their difference is a signed 32-bit number. -/
structure PtrRange (ptr stop : Nat) : Prop where
  le : ptr ≤ stop
  lt : stop < addressSpace
  diff : stop - ptr < 0x80000000

structure HeapState where
  heap : Heap
  live : List Span

inductive HeapAction where
  | malloc (totalBlocks : Nat)
  | free (address : Nat)

def HeapState.malloc (state : HeapState) (totalBlocks : Nat) : HeapState :=
  let start := heapGetStartBlock state.heap totalBlocks
  { heap := (heapMallocBlocks state.heap totalBlocks).2
    live := if start < 0 then state.live else ⟨start.toNat, totalBlocks⟩ :: state.live }

def HeapState.free (state : HeapState) (span : Span) : HeapState :=
  { heap := heapFree state.heap (heapBlockToAddress state.heap span.start)
    live := state.live.erase span }

@[simp] theorem HeapState.malloc_total (state : HeapState) (n : Nat) :
    (state.malloc n).heap.table.total = state.heap.table.total :=
  heapMallocBlocks_total _ _

theorem HeapState.malloc_live_of_eq {state : HeapState} {n start : Nat}
    (hstart : heapGetStartBlock state.heap n = start) :
    (state.malloc n).live = ⟨start, n⟩ :: state.live := by
  have hnonneg : ¬(start : Int) < 0 := by omega
  simp [HeapState.malloc, hstart, hnonneg]

theorem HeapState.mem_malloc_live {state : HeapState} {span : Span} (h : span ∈ state.live) (n : Nat) :
    span ∈ (state.malloc n).live := by
  simp only [HeapState.malloc]
  split
  · exact h
  · exact List.mem_cons_of_mem _ h

/-- Any request for at least one block, and any release of an address handed out and still live. -/
inductive HeapStep : HeapState → HeapAction → HeapState → Prop
  | malloc {state : HeapState} {n : Nat} : 1 ≤ n → n < addressSpace →
      HeapStep state (.malloc n) (state.malloc n)
  | free {state : HeapState} {span : Span} : span ∈ state.live →
      HeapStep state (.free (heapBlockToAddress state.heap span.start)) (state.free span)

/-- The table has room for the blocks in one piece, or its last block is taken. -/
def Served (state : HeapState) : HeapAction → Prop
  | .malloc n => Fits state.heap.table.IsFree state.heap.table.total n ∨ state.heap.table.LastTaken
  | .free _ => True

def Fitting (state : HeapState) : HeapAction → Prop
  | .malloc n => Fits state.heap.table.IsFree state.heap.table.total n
  | .free _ => True

theorem Guarded.served {before after : HeapState} {action : HeapAction}
    (h : Guarded Fitting HeapStep before action after) :
    Guarded Served HeapStep before action after := by
  refine ⟨?_, h.2⟩
  cases action with
  | malloc n => exact Or.inl h.1
  | free address => trivial

/-- The live ranges lie inside the table and apart from each other, and no write has left it. -/
structure HeapSafe (state : HeapState) : Prop where
  inside : ∀ span ∈ state.live, span.stop ≤ state.heap.table.total
  apart : state.live.Pairwise Span.Apart
  written : ∀ i ∈ state.heap.table.written, 0 ≤ i ∧ i < state.heap.table.total

theorem HeapInv.safe {state : HeapState} (h : HeapInv state.heap state.live) : HeapSafe state :=
  ⟨h.decomposes.inside, h.decomposes.apart, h.written⟩

/-- The address returned is that of a range of blocks inside the table that were all free. -/
def Grants (heap : Heap) (n : Nat) (address : Nat) : Prop :=
  ∃ start : Nat, address = heapBlockToAddress heap start ∧ start + n ≤ heap.table.total ∧
    Window heap.table.IsFree start n

theorem heapCreate_inv {heap : Heap} {ptr stop : Nat} {table : HeapTable}
    (hrange : PtrRange ptr stop) (hcreate : (heapCreate heap ptr stop table).1 = 0) :
    HeapInv (heapCreate heap ptr stop table).2 [] := by
  obtain ⟨hle, hlt, hdiff⟩ := hrange
  have hdec : heapValidateTable ptr stop table < 0 ∨
      (heapValidateTable ptr stop table = 0 ∧
        table.total = toUint32 (stop + addressSpace - ptr) / slobosHeapBlockSize) := by
    unfold heapValidateTable
    dsimp only
    split
    · exact Or.inl (by decide)
    · exact Or.inr ⟨rfl, by omega⟩
  unfold heapCreate at hcreate ⊢
  split at hcreate
  · simp [einvarg] at hcreate
  rename_i halign
  rw [if_neg halign]
  dsimp only at hcreate ⊢
  split at hcreate
  · rename_i hneg
    exact absurd hcreate (by dsimp only; omega)
  rename_i hneg
  obtain hneg' | ⟨-, htotal⟩ := hdec
  · exact absurd hneg' hneg
  rw [if_neg hneg]
  refine ⟨⟨?_, ?_⟩, Tiles.nil fun i hi => ?_, by simp⟩
  · exact Nat.lt_of_le_of_lt hle hlt
  · simp only [htotal, toUint32, addressSpace, slobosHeapBlockSize] at hlt ⊢
    omega
  · simp only [HeapTable.cell] at hi ⊢
    rw [if_pos (by omega)]

theorem kheapInit_range :
    PtrRange slobosHeapAddress (slobosHeapAddress + slobosHeapSizeBytes) := by
  constructor <;> decide

theorem kheapInit_code (entries : Int → UInt8) :
    (heapCreate { saddr := 0, table := kernelHeapTable entries } slobosHeapAddress
      (slobosHeapAddress + slobosHeapSizeBytes) (kernelHeapTable entries)).1 = 0 := by
  simp [heapCreate, heapValidateAlignment, heapValidateTable, kernelHeapTable, toUint32,
    addressSpace, slobosHeapAddress, slobosHeapSizeBytes, slobosHeapBlockSize]

theorem kheapInit_inv (entries : Int → UInt8) : HeapInv (kheapInit entries) [] := by
  unfold kheapInit
  exact heapCreate_inv kheapInit_range (kheapInit_code entries)

theorem kheapInit_total (entries : Int → UInt8) : (kheapInit entries).table.total = 25600 := by
  simp [kheapInit, heapCreate, heapValidateAlignment, heapValidateTable, kernelHeapTable, toUint32,
    addressSpace, slobosHeapAddress, slobosHeapSizeBytes, slobosHeapBlockSize]

theorem kheapInit_saddr (entries : Int → UInt8) :
    (kheapInit entries).saddr = slobosHeapAddress := by
  simp [kheapInit, heapCreate, heapValidateAlignment, heapValidateTable, kernelHeapTable, toUint32,
    addressSpace, slobosHeapAddress, slobosHeapSizeBytes, slobosHeapBlockSize]

theorem HeapInv.isFree_of_nil {heap : Heap} (h : HeapInv heap []) {i : Nat}
    (hi : i < heap.table.total) : heap.table.IsFree i :=
  (h.isFree_iff hi).mpr (by simp)

theorem HeapInv.heapGetStartBlock_of_nil {heap : Heap} (h : HeapInv heap [])
    (hpos : 0 < heap.table.total) (n : Nat) : heapGetStartBlock heap n = 0 := by
  have hstart := heapGetStartBlock_cases heap n
  generalize heapGetStartBlock heap n = result at hstart
  cases hstart with
  | fail _ hlast =>
      rcases hlast with hzero | htaken
      · omega
      · exact absurd (h.isFree_of_nil (by omega)) htaken
  | @fit start hn hfirst =>
      have hinside := hfirst.inside
      by_contra hne
      exact hfirst.least 0 (by omega) fun i _ hi => h.isFree_of_nil (by omega)
  | @short start hshort =>
      have hlt := hshort.lt
      rcases hshort.run.maximal with hzero | htaken
      · omega
      · exact absurd (h.isFree_of_nil (by omega)) htaken

theorem HeapInv.step {state state' : HeapState} {action : HeapAction}
    (h : HeapInv state.heap state.live) (hserved : Served state action)
    (hstep : HeapStep state action state') : HeapInv state'.heap state'.live := by
  cases hstep with
  | @malloc n hn hlt =>
      have hstart := heapGetStartBlock_cases state.heap n
      generalize hresult : heapGetStartBlock state.heap n = result at hstart
      simp only [HeapState.malloc, hresult]
      cases hstart with
      | fail hnone hlast =>
          rw [if_pos (by decide), heapMallocBlocks_of_neg (by rw [hresult]; decide)]
          exact h
      | @fit start hpos hfirst =>
          have hnonneg : ¬(start : Int) < 0 := by omega
          simp only [if_neg hnonneg, heapMallocBlocks_of_nonneg hresult, Int.toNat_natCast]
          exact h.malloc hpos hfirst
      | short hshort =>
          exfalso
          rcases hserved with hfits | hlast
          · rcases hshort.noFit with hzero | hnone
            · omega
            · exact hnone hfits
          · exact hshort.run.isFree_last hshort.lt hlast
  | free hspan => exact h.free hspan

theorem heapInv_of_run {heap : Heap} {state : HeapState} {actions : List HeapAction}
    (hstart : HeapInv heap []) (hrun : Run (Guarded Served HeapStep) ⟨heap, []⟩ actions state) :
    HeapInv state.heap state.live :=
  hrun.invariant (fun state => HeapInv state.heap state.live)
    (fun _ _ _ hinv hstep => hinv.step hstep.1 hstep.2) hstart

theorem grants_of_served {heap : Heap} {n : Nat} (hn : 1 ≤ n)
    (hserved : Fits heap.table.IsFree heap.table.total n ∨ heap.table.LastTaken)
    (hne : (heapMallocBlocks heap n).1 ≠ 0) : Grants heap n (heapMallocBlocks heap n).1 := by
  have hcases := heapMallocBlocks_cases heap n
  generalize heapMallocBlocks heap n = result at hcases hne
  cases hcases with
  | fail => exact absurd rfl hne
  | @fit start _ hfirst => exact ⟨start, rfl, hfirst.inside, hfirst.window⟩
  | short hshort =>
      exfalso
      rcases hserved with hfits | hlast
      · rcases hshort.noFit with hzero | hnone
        · omega
        · exact hnone hfits
      · exact hshort.run.isFree_last hshort.lt hlast

/-- The condition cannot be weakened: a request that is not served writes behind the table. -/
theorem exists_written_of_not_served {heap : Heap} {n : Nat} (hn : 1 ≤ n)
    (hlt : heap.table.total + n ≤ 0x80000000)
    (hfits : ¬Fits heap.table.IsFree heap.table.total n) (hlast : ¬heap.table.LastTaken) :
    ∃ i ∈ (heapMallocBlocks heap n).2.table.written, (heap.table.total : Int) ≤ i := by
  have hcases := heapMallocBlocks_cases heap n
  generalize heapMallocBlocks heap n = result at hcases
  cases hcases with
  | fail _ htaken => exact absurd htaken hlast
  | fit _ hfirst => exact absurd hfirst.fits hfits
  | @short start hshort =>
      have hlt' := hshort.lt
      have hlong : heap.table.total < start + n := by
        by_contra hle
        exact hfits ⟨start, by omega, hshort.run.window.sub (Nat.le_refl _) (by omega)⟩
      have hmarked := heapMarkBlocksTaken_spec heap hn (show start + n ≤ 0x80000000 by omega)
      simp only [toInt32_of_lt (show n < 0x80000000 by omega)]
      exact ⟨heap.table.total, (hmarked.written _).mpr (Or.inr (by omega)), Int.le_refl _⟩

/-! ### Histories -/

/-- In a history of served requests every address handed out is that of a free range inside the
table, the live ranges stay apart and inside, and every write stays inside. -/
theorem heap_history_safe {heap : Heap} {ptr stop : Nat} {table : HeapTable}
    {actions : List HeapAction} {state : HeapState} (hrange : PtrRange ptr stop)
    (hcreate : (heapCreate heap ptr stop table).1 = 0)
    (hrun : Run (Guarded Served HeapStep) ⟨(heapCreate heap ptr stop table).2, []⟩ actions state) :
    HeapSafe state ∧ ∀ n, 1 ≤ n → n < addressSpace → Served state (.malloc n) →
      (heapMallocBlocks state.heap n).1 ≠ 0 →
        Grants state.heap n (heapMallocBlocks state.heap n).1 := by
  have hinv := heapInv_of_run (heapCreate_inv hrange hcreate) hrun
  exact ⟨hinv.safe, fun n hn _ hserved hne => grants_of_served hn hserved hne⟩

def freshKernelHeap : HeapState := ⟨kheapInit fun _ => 0, []⟩

theorem freshKernelHeap_eq : freshKernelHeap =
    ⟨(heapCreate { saddr := 0, table := kernelHeapTable fun _ => 0 } slobosHeapAddress
      (slobosHeapAddress + slobosHeapSizeBytes) (kernelHeapTable fun _ => 0)).2, []⟩ := rfl

theorem freshKernelHeap_total : freshKernelHeap.heap.table.total = 25600 := kheapInit_total _

theorem freshKernelHeap_startBlock (n : Nat) : heapGetStartBlock freshKernelHeap.heap n = 0 :=
  (kheapInit_inv _).heapGetStartBlock_of_nil
    (Nat.lt_of_lt_of_eq (by decide) freshKernelHeap_total.symm) n

theorem freshKernelHeap_malloc (size : Nat) :
    (heapMalloc freshKernelHeap.heap size).1 = slobosHeapAddress := by
  have hstart : heapGetStartBlock freshKernelHeap.heap (heapAlignValueToUpper size /
      slobosHeapBlockSize) = (0 : Nat) := freshKernelHeap_startBlock _
  rw [heapMalloc, heapMallocBlocks_of_nonneg hstart]
  simp [heapBlockToAddress, freshKernelHeap, kheapInit_saddr, slobosHeapAddress, addressSpace]

theorem freshKernelHeap_fits :
    Fits freshKernelHeap.heap.table.IsFree freshKernelHeap.heap.table.total 2 :=
  ⟨0, by decide, fun _ _ hi => (kheapInit_inv _).isFree_of_nil (Nat.lt_trans hi (by decide))⟩

theorem freshKernelHeap_live : (freshKernelHeap.malloc 2).live = [⟨0, 2⟩] :=
  HeapState.malloc_live_of_eq (freshKernelHeap_startBlock 2)

theorem freshKernelHeap_run : Run (Guarded Fitting HeapStep) freshKernelHeap
    [.malloc 2, .malloc 3,
      .free (heapBlockToAddress ((freshKernelHeap.malloc 2).malloc 3).heap (0 : Nat))]
    (((freshKernelHeap.malloc 2).malloc 3).free ⟨0, 2⟩) := by
  have hfirst : Run (Guarded Fitting HeapStep) freshKernelHeap [.malloc 2]
      (freshKernelHeap.malloc 2) :=
    .single ⟨freshKernelHeap_fits, .malloc (by decide) (by decide)⟩
  have hinv := heapInv_of_run (kheapInit_inv fun _ => 0) (hfirst.mono fun _ _ _ => Guarded.served)
  have htotal : (freshKernelHeap.malloc 2).heap.table.total = 25600 :=
    (HeapState.malloc_total _ _).trans freshKernelHeap_total
  have hfits : Fitting (freshKernelHeap.malloc 2) (.malloc 3) := by
    refine ⟨2, ?_, fun i hi hlt => ?_⟩
    · rw [htotal]
      decide
    have hinside : i < (freshKernelHeap.malloc 2).heap.table.total :=
      Nat.lt_of_lt_of_eq (Nat.lt_trans hlt (by decide)) htotal.symm
    refine (hinv.isFree_iff hinside).mpr fun span hspan => ?_
    rw [freshKernelHeap_live, List.mem_singleton] at hspan
    subst hspan
    exact fun hmem => absurd hmem.2 (Nat.not_lt.mpr hi)
  have hsecond := hfirst.snoc ⟨hfits, .malloc (by decide) (by decide)⟩
  have hlive : (⟨0, 2⟩ : Span) ∈ ((freshKernelHeap.malloc 2).malloc 3).live :=
    HeapState.mem_malloc_live (freshKernelHeap_live ▸ List.mem_singleton_self _) 3
  exact hsecond.snoc ⟨trivial, @HeapStep.free _ ⟨0, 2⟩ hlive⟩

theorem heap_history_safe_kernel :
    HeapSafe (((freshKernelHeap.malloc 2).malloc 3).free ⟨0, 2⟩) := by
  have hrun := freshKernelHeap_run.mono fun _ _ _ => Guarded.served
  exact (heap_history_safe kheapInit_range (kheapInit_code _) (freshKernelHeap_eq ▸ hrun)).1

/-- Asked for one block more than it has, the kernel heap hands out its first block and marks all
of the blocks asked for. -/
theorem heap_history_unsafe :
    ¬∀ actions state, Run HeapStep freshKernelHeap actions state → HeapSafe state := by
  intro hsafe
  have hrun : Run HeapStep freshKernelHeap [.malloc 25601] (freshKernelHeap.malloc 25601) :=
    .single (.malloc (by decide) (by decide))
  have hmem : (⟨0, 25601⟩ : Span) ∈ (freshKernelHeap.malloc 25601).live := by
    rw [HeapState.malloc_live_of_eq (freshKernelHeap_startBlock 25601)]
    exact List.mem_cons_self
  have hstop := (hsafe _ _ hrun).inside _ hmem
  rw [HeapState.malloc_total, freshKernelHeap_total] at hstop
  exact absurd hstop (by decide)

/-- In a history of fitting requests the live ranges are the chains of the table, as its only
decomposition, and the release of one of them clears its entries and changes nothing else. -/
theorem heap_history_decomposes {heap : Heap} {ptr stop : Nat} {table : HeapTable}
    {actions : List HeapAction} {state : HeapState} (hrange : PtrRange ptr stop)
    (hcreate : (heapCreate heap ptr stop table).1 = 0)
    (hrun : Run (Guarded Fitting HeapStep) ⟨(heapCreate heap ptr stop table).2, []⟩ actions state) :
    Decomposes state.heap.table state.live ∧
      (∀ spans, Decomposes state.heap.table spans → spans.Perm state.live) ∧
      ∀ span ∈ state.live, ∀ i : Int,
        (heapFree state.heap (heapBlockToAddress state.heap span.start)).table.entries i =
          if (span.start : Int) ≤ i ∧ i < span.stop then heapBlockTableEntryFree
          else state.heap.table.entries i := by
  have hinv := heapInv_of_run (heapCreate_inv hrange hcreate)
    (hrun.mono fun _ _ _ => Guarded.served)
  exact ⟨hinv.decomposes, fun spans hspans => hspans.perm chainEntry_delimits hinv.decomposes,
    fun span hspan => hinv.free_entries hspan⟩

theorem heap_history_decomposes_kernel :
    Decomposes (((freshKernelHeap.malloc 2).malloc 3).free ⟨0, 2⟩).heap.table
      (((freshKernelHeap.malloc 2).malloc 3).free ⟨0, 2⟩).live :=
  (heap_history_decomposes kheapInit_range (kheapInit_code _)
    (freshKernelHeap_eq ▸ freshKernelHeap_run)).1

end SlobOS
