import SlobOS.Proof.HeapScan

/-!
# What the marking and freeing loops write

Both loops are described entry by entry, for every index and every table: marking writes a chain
over consecutive entries, and a sweep clears the entries it reaches, which are those before which
every entry from the start on says that a next one follows.
-/

namespace SlobOS

def chainEntry (len k : Nat) : UInt8 :=
  heapBlockTableEntryTaken ||| (if k = 0 then heapBlockIsFirst else 0) |||
    (if k + 1 < len then heapBlockHasNext else 0)

def HasNext (entry : UInt8) : Prop := entry &&& heapBlockHasNext ≠ 0

instance : DecidablePred HasNext := fun entry =>
  inferInstanceAs (Decidable (entry &&& heapBlockHasNext ≠ 0))

def IsFirstEntry (entry : UInt8) : Prop := entry &&& heapBlockIsFirst ≠ 0

instance : DecidablePred IsFirstEntry := fun entry =>
  inferInstanceAs (Decidable (entry &&& heapBlockIsFirst ≠ 0))

theorem hasNext_chainEntry_iff (len k : Nat) : HasNext (chainEntry len k) ↔ k + 1 < len := by
  unfold chainEntry
  split_ifs with hk hnext hnext
  · exact iff_of_true (by decide) hnext
  · exact iff_of_false (by decide) hnext
  · exact iff_of_true (by decide) hnext
  · exact iff_of_false (by decide) hnext

theorem isFirstEntry_chainEntry_iff (len k : Nat) : IsFirstEntry (chainEntry len k) ↔ k = 0 := by
  unfold chainEntry
  split_ifs with hk hnext hnext
  · exact iff_of_true (by decide) hk
  · exact iff_of_true (by decide) hk
  · exact iff_of_false (by decide) hk
  · exact iff_of_false (by decide) hk

theorem heapGetEntryType_chainEntry (len k : Nat) :
    heapGetEntryType (chainEntry len k) = heapBlockTableEntryTaken := by
  unfold chainEntry
  split <;> split <;> decide

variable (heap : Heap)

section SetEntry

variable (index : Int) (entry : UInt8)

@[simp]
theorem Heap.setEntry_entries (i : Int) :
    (heap.setEntry index entry).table.entries i =
      if i = index then entry else heap.table.entries i := rfl

@[simp]
theorem Heap.setEntry_total : (heap.setEntry index entry).table.total = heap.table.total := rfl

@[simp]
theorem Heap.setEntry_saddr : (heap.setEntry index entry).saddr = heap.saddr := rfl

@[simp]
theorem Heap.setEntry_written :
    (heap.setEntry index entry).table.written = index :: heap.table.written := rfl

end SetEntry

structure Marked (before after : Heap) (start : Int) (left : Nat) (cell : Int → UInt8) : Prop where
  entries : ∀ i, after.table.entries i =
    if start ≤ i ∧ i < start + left then cell i else before.table.entries i
  total : after.table.total = before.table.total
  saddr : after.saddr = before.saddr
  written : ∀ i, i ∈ after.table.written ↔
    i ∈ before.table.written ∨ (start ≤ i ∧ i < start + left)

theorem heapMarkBlocksTakenLoop_spec (endBlock : Int) (left : Nat) (i : Int) (entry : UInt8)
    (hend : i + left = endBlock + 1) :
    Marked heap (heapMarkBlocksTakenLoop endBlock left i entry heap) i left fun j =>
      if j = i then entry
      else if j = endBlock then heapBlockTableEntryTaken
      else heapBlockTableEntryTaken ||| heapBlockHasNext := by
  induction left generalizing heap i entry with
  | zero =>
      rw [heapMarkBlocksTakenLoop]
      exact ⟨fun j => by rw [if_neg (by omega)], rfl, rfl,
        fun j => ⟨Or.inl, fun h => h.resolve_right (by omega)⟩⟩
  | succ left ih =>
      rw [heapMarkBlocksTakenLoop]
      obtain ⟨hentries, htotal, hsaddr, hwritten⟩ :=
        ih (heap.setEntry i entry) (i + 1) _ (by omega)
      refine ⟨fun j => ?_, htotal, hsaddr, fun j => ?_⟩
      · rw [hentries, Heap.setEntry_entries]
        split_ifs <;> first | rfl | omega
      · have hsplit : j = i ∨ i + 1 ≤ j ∧ j < i + 1 + left ↔ i ≤ j ∧ j < i + (left + 1 : Nat) := by
          omega
        rw [hwritten, Heap.setEntry_written, List.mem_cons, ← hsplit]
        exact or_assoc.trans or_left_comm

theorem heapMarkBlocksTaken_spec {n start : Nat} (hn : 0 < n) (hend : start + n ≤ 0x80000000) :
    Marked heap (heapMarkBlocksTaken heap start n) start n fun i =>
      chainEntry n (i - start).toNat := by
  obtain ⟨hentries, htotal, hsaddr, hwritten⟩ :=
    heapMarkBlocksTakenLoop_spec heap (start + n - 1) n start
      (if (n : Int) > 1 then
        heapBlockTableEntryTaken ||| heapBlockIsFirst ||| heapBlockHasNext
      else heapBlockTableEntryTaken ||| heapBlockIsFirst) (by omega)
  have hlast : toInt32 ((start : Int) + n - 1) = start + n - 1 :=
    toInt32_of_range (by omega) (by omega)
  have hcount : ((start : Int) + n - 1 + 1 - start).toNat = n := by omega
  simp only [heapMarkBlocksTaken, hlast, hcount]
  refine ⟨fun i => ?_, htotal, hsaddr, hwritten⟩
  rw [hentries]
  refine if_ctx_congr Iff.rfl (fun hin => ?_) fun _ => rfl
  unfold chainEntry
  split_ifs <;> first | rfl | omega

theorem heapMarkBlocksTaken_of_lt {start n : Int} (hlast : toInt32 (start + n - 1) < start) :
    heapMarkBlocksTaken heap start n = heap := by
  have hcount : (toInt32 (start + n - 1) + 1 - start).toNat = 0 := by omega
  simp only [heapMarkBlocksTaken, hcount, heapMarkBlocksTakenLoop]

theorem heapMarkBlocksTaken_zero (start : Nat) : heapMarkBlocksTaken heap start 0 = heap := by
  apply heapMarkBlocksTaken_of_lt
  simp only [toInt32, addressSpace, Int.bmod]
  omega

theorem heapMarkBlocksTakenLoop_frame (endBlock : Int) (left : Nat) (i : Int) (entry : UInt8) :
    (heapMarkBlocksTakenLoop endBlock left i entry heap).table.total = heap.table.total ∧
      (heapMarkBlocksTakenLoop endBlock left i entry heap).saddr = heap.saddr := by
  induction left generalizing heap i entry with
  | zero => exact ⟨rfl, rfl⟩
  | succ left ih => exact ih (heap.setEntry i entry) (i + 1) _

def Reaches (table : HeapTable) (start i : Int) : Prop :=
  start ≤ i ∧ i < table.total ∧ ∀ j, start ≤ j → j < i → HasNext (table.entries j)

structure Swept (before after : Heap) (reached : Int → Prop) : Prop where
  clear : ∀ i, reached i → after.table.entries i = heapBlockTableEntryFree
  frame : ∀ i, ¬reached i → after.table.entries i = before.table.entries i
  total : after.table.total = before.table.total
  saddr : after.saddr = before.saddr
  written : ∀ i, i ∈ after.table.written ↔ i ∈ before.table.written ∨ reached i

theorem heapMarkBlocksFreeLoop_spec (left : Nat) (start : Int)
    (hleft : left = (heap.table.total - start).toNat) :
    Swept heap (heapMarkBlocksFreeLoop left start heap) (Reaches heap.table start) := by
  induction left generalizing heap start with
  | zero =>
      have hnone : ∀ i, ¬Reaches heap.table start i := fun i ⟨hle, hlt, _⟩ => by omega
      exact ⟨fun i hi => absurd hi (hnone i), fun _ _ => rfl, rfl, rfl,
        fun i => by simp [heapMarkBlocksFreeLoop, hnone i]⟩
  | succ left ih =>
      have hstart : Reaches heap.table start start := ⟨Int.le_refl _, by omega, fun _ _ _ => by omega⟩
      simp only [heapMarkBlocksFreeLoop]
      split
      case isTrue hstop =>
        have honly : ∀ i, Reaches heap.table start i ↔ i = start := by
          refine fun i => ⟨fun ⟨hle, _, hnext⟩ => ?_, fun heq => heq ▸ hstart⟩
          by_contra hne
          exact hnext start (Int.le_refl _) (by omega) hstop
        refine ⟨fun i hi => ?_, fun i hi => ?_, rfl, rfl, fun i => ?_⟩
        · simp [(honly i).mp hi]
        · simp [mt (honly i).mpr hi]
        · rw [honly, Heap.setEntry_written, List.mem_cons, or_comm]
      case isFalse hnext =>
        obtain ⟨hclear, hframe, htotal, hsaddr, hwritten⟩ :=
          ih (heap.setEntry start heapBlockTableEntryFree) (start + 1)
            (by rw [Heap.setEntry_total]; omega)
        -- Clearing the entry at `start` does not change which later entries the sweep reaches.
        have hreach : ∀ i, Reaches heap.table start i ↔ i = start ∨
            Reaches (heap.setEntry start heapBlockTableEntryFree).table (start + 1) i := by
          intro i
          constructor
          · rintro ⟨hle, hlt, hall⟩
            by_cases heq : i = start
            · exact Or.inl heq
            · refine Or.inr ⟨by omega, hlt, fun j hj hj' => ?_⟩
              rw [Heap.setEntry_entries, if_neg (by omega)]
              exact hall j (by omega) hj'
          · rintro (rfl | ⟨hle, hlt, hall⟩)
            · exact hstart
            · refine ⟨by omega, hlt, fun j hj hj' => ?_⟩
              by_cases heq : j = start
              · exact heq ▸ hnext
              · have hnext' := hall j (by omega) hj'
                rwa [Heap.setEntry_entries, if_neg heq] at hnext'
        refine ⟨fun i hi => ?_, fun i hi => ?_, htotal, hsaddr, fun i => ?_⟩
        · by_cases hlater :
            Reaches (heap.setEntry start heapBlockTableEntryFree).table (start + 1) i
          · exact hclear i hlater
          · rw [hframe i hlater, Heap.setEntry_entries,
              if_pos (((hreach i).mp hi).resolve_right hlater)]
        · have hne := mt (hreach i).mpr hi
          rw [not_or] at hne
          rw [hframe i hne.2, Heap.setEntry_entries, if_neg hne.1]
        · rw [hwritten, hreach, Heap.setEntry_written, List.mem_cons]
          exact or_assoc.trans or_left_comm

theorem heapMarkBlocksFree_spec (start : Int) :
    Swept heap (heapMarkBlocksFree heap start) (Reaches heap.table start) :=
  heapMarkBlocksFreeLoop_spec heap _ start rfl

end SlobOS
