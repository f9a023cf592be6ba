import SlobOS.Heap
import SlobOS.Lib.Windows

/-!
# What the scan of `heap_get_start_block` finds

The scan stops at the leftmost window that is long enough. When there is none it answers with the
start of the run of free blocks that ends the table, however short it is, and fails only when the
last block is taken.
-/

namespace SlobOS

open Windows

/-- The allocator takes a block for free by the low half of its entry. -/
def HeapTable.IsFree (table : HeapTable) (i : Nat) : Prop :=
  heapGetEntryType (table.entries i) = heapBlockTableEntryFree

instance (table : HeapTable) : DecidablePred table.IsFree := fun i =>
  inferInstanceAs (Decidable (heapGetEntryType (table.entries i) = heapBlockTableEntryFree))

variable (table : HeapTable) (n : Nat)

/-- The run of free blocks that ends before `i` starts at `start`. -/
structure RunBefore (i start : Nat) : Prop where
  le : start ≤ i
  window : Window table.IsFree start (i - start)
  maximal : start = 0 ∨ ¬table.IsFree (start - 1)

def runStart (i start : Nat) : Int := if start = i then -1 else start

variable {table n}

theorem runStart_eq_neg_one_iff {i start : Nat} : runStart i start = -1 ↔ start = i := by
  unfold runStart
  split <;> omega

theorem RunBefore.snoc {i start : Nat} (h : RunBefore table i start) (hfree : table.IsFree i) :
    RunBefore table (i + 1) start := by
  have hle := h.le
  refine ⟨by omega, ?_, h.maximal⟩
  rw [show i + 1 - start = i - start + 1 by omega]
  exact h.window.snoc (by rwa [show start + (i - start) = i by omega])

theorem RunBefore.restart {i : Nat} (htaken : ¬table.IsFree i) : RunBefore table (i + 1) (i + 1) :=
  ⟨Nat.le_refl _, fun _ _ _ => by omega, Or.inr (by simpa using htaken)⟩

/-- The outcome of the scan: the leftmost window, or the run at the end of the table. -/
inductive ScanResult (table : HeapTable) (n : Nat) : Int → Prop
  | found {start : Nat} : 0 < n → IsFirst table.IsFree table.total n start →
      ScanResult table n start
  | tail {start : Nat} : (n = 0 ∨ ¬Fits table.IsFree table.total n) →
      RunBefore table table.total start → ScanResult table n (runStart table.total start)

theorem not_fits_taken {i : Nat} (hnone : n = 0 ∨ ¬Fits table.IsFree i n) (htaken : ¬table.IsFree i) :
    n = 0 ∨ ¬Fits table.IsFree (i + 1) n := by
  rcases hnone with hzero | hnone
  · exact Or.inl hzero
  by_cases hzero : n = 0
  · exact Or.inl hzero
  refine Or.inr fun hfits => ?_
  rcases hfits.of_succ with hfits | ⟨hle, hwindow⟩
  · exact hnone hfits
  · exact htaken (hwindow i (by omega) (by omega))

theorem RunBefore.not_fits {i start : Nat} (h : RunBefore table i start)
    (hnone : n = 0 ∨ ¬Fits table.IsFree i n) (hcount : i - start + 1 ≠ n) :
    n = 0 ∨ ¬Fits table.IsFree (i + 1) n := by
  have hle := h.le
  rcases hnone with hzero | hnone
  · exact Or.inl hzero
  refine Or.inr fun hfits => ?_
  rcases hfits.of_succ with hfits | ⟨hstop, hwindow⟩
  · exact hnone hfits
  by_cases hshort : i + 1 - start < n
  · rcases h.maximal with hzero | hmax
    · omega
    · exact hmax (hwindow (start - 1) (by omega) (by omega))
  · exact hnone ⟨start, by omega, h.window.sub (Nat.le_refl _) (by omega)⟩

theorem heapGetStartBlockLoop_spec {left i start : Nat} (htotal : i + left = table.total)
    (hrun : RunBefore table i start) (hnone : n = 0 ∨ ¬Fits table.IsFree i n) :
    ScanResult table n (heapGetStartBlockLoop table n left i (i - start) (runStart i start)) := by
  induction left generalizing i start with
  | zero =>
      obtain rfl : i = table.total := by omega
      exact .tail hnone hrun
  | succ left ih =>
      have hle := hrun.le
      rw [heapGetStartBlockLoop]
      split
      case isTrue htaken =>
        have hih := ih (by omega) (.restart htaken) (not_fits_taken hnone htaken)
        simpa [runStart] using hih
      case isFalse hfree =>
        have hfree : table.IsFree i := not_not.mp hfree
        have hbs : (if runStart i start = -1 then (i : Int) else runStart i start) = start := by
          unfold runStart
          split <;> split <;> omega
        simp only [hbs]
        have hsnoc := hrun.snoc hfree
        split
        case isTrue hcount =>
          refine .found (by omega) ⟨by omega, ?_, fun other hother hwindow => ?_⟩
          · rw [← hcount, show i - start + 1 = i + 1 - start by omega]
            exact hsnoc.window
          · rcases hnone with hzero | hnone
            · omega
            · exact hnone ⟨other, by omega, hwindow⟩
        case isFalse hcount =>
          have hih := ih (by omega) hsnoc (hrun.not_fits hnone hcount)
          have hrunStart : runStart (i + 1) start = start := by
            unfold runStart
            split <;> omega
          rwa [hrunStart, show i + 1 - start = i - start + 1 by omega] at hih

theorem heapGetStartBlock_scan (table : HeapTable) (n : Nat) :
    ScanResult table n (heapGetStartBlockLoop table n table.total 0 0 (-1)) := by
  have hempty : RunBefore table 0 0 := ⟨Nat.le_refl _, fun _ _ _ => by omega, Or.inl rfl⟩
  have hnone : n = 0 ∨ ¬Fits table.IsFree 0 n := by
    by_cases hzero : n = 0
    · exact Or.inl hzero
    · exact Or.inr fun ⟨start, hinside, _⟩ => by omega
  have hscan := heapGetStartBlockLoop_spec (Nat.zero_add table.total) hempty hnone
  simpa [runStart] using hscan

end SlobOS
