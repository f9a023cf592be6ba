import SlobOS.Lib.Lookups
import SlobOS.Proof.Paging

/-!
# Slots of the page tables

`paging_set` and `paging_get` find the table of an address in the same word of the directory, each with
a mask of its own.
-/

namespace SlobOS

open Lookups

def PageAligned (virt : Nat) : Prop := virt < addressSpace ∧ virt % pagingPageSize = 0

instance (virt : Nat) : Decidable (PageAligned virt) := inferInstanceAs (Decidable (_ ∧ _))

def EntryFound (pages : PageTables) (directory virt at' val : Nat) : Prop :=
  pagingGet (pagingSet pages directory virt val).2 directory at' =
    if at' = virt then val else pageEntry pages directory (at' / pagingPageSize)

def directoryEntry (pages : PageTables) (directory virt : Nat) : Nat :=
  pages.directories directory (pagingGetIndexes virt).1

def writtenSlot (pages : PageTables) (directory virt : Nat) : Nat × Nat :=
  (tableAddress (directoryEntry pages directory virt), (pagingGetIndexes virt).2)

def readSlot (pages : PageTables) (directory virt : Nat) : Nat × Nat :=
  (directoryEntry pages directory virt &&& 0xffff000, (pagingGetIndexes virt).2)

def entryIn (pages : PageTables) (slot : Nat × Nat) : Nat := pages.tables slot.1 slot.2

variable {pages : PageTables} {directory virt at' val : Nat}

theorem pagingGetIndexes_aligned (h : PageAligned virt) : pagingGetIndexes virt =
    (virt / pagingPageSize / pagingTotalEntriesPerTable,
      virt / pagingPageSize % pagingTotalEntriesPerTable) := by
  have hpage : virt = virt / pagingPageSize * pagingPageSize :=
    (Nat.div_mul_cancel (Nat.dvd_of_mod_eq_zero h.2)).symm
  calc pagingGetIndexes virt
    _ = pagingGetIndexes (virt / pagingPageSize * pagingPageSize) := congrArg _ hpage
    _ = _ := pagingGetIndexes_page _

theorem writtenSlot_injOn (hdistinct : DistinctTables pages directory) :
    Set.InjOn (writtenSlot pages directory) {virt | PageAligned virt} := by
  intro virt hvirt at' hat hslot
  rw [writtenSlot, writtenSlot, directoryEntry, directoryEntry, pagingGetIndexes_aligned hvirt,
    pagingGetIndexes_aligned hat, Prod.mk.injEq] at hslot
  have hdiv := hdistinct _ (directoryIndex_lt (page_lt hvirt.1)) _ (directoryIndex_lt (page_lt hat.1))
    hslot.1
  obtain ⟨-, hvirt⟩ := hvirt
  obtain ⟨-, hat⟩ := hat
  simp only [pagingTotalEntriesPerTable, pagingPageSize] at *
  omega

theorem mask_eq_iff {entry : Nat} : entry &&& 0xffff000 = tableAddress entry ↔ entry < 0x10000000 := by
  refine ⟨fun heq => ?_, tableAddress_mask⟩
  have hle : entry &&& 0xffff000 ≤ 0xffff000 := Nat.and_le_right
  rw [heq, tableAddress, pagingPageSize] at hle
  omega

theorem readSlot_eq_iff : readSlot pages directory virt = writtenSlot pages directory virt ↔
    directoryEntry pages directory virt < 0x10000000 := by
  rw [readSlot, writtenSlot, Prod.mk.injEq, mask_eq_iff, and_iff_left rfl]

theorem directoryEntry_table (i : Nat) :
    directoryEntry pages directory (i * pagingTotalEntriesPerTable * pagingPageSize) =
      pages.directories directory i := by
  rw [directoryEntry, pagingGetIndexes_page, Nat.mul_div_cancel i (by decide)]

theorem pageAligned_table {i : Nat} (hi : i < pagingTotalEntriesPerTable) :
    PageAligned (i * pagingTotalEntriesPerTable * pagingPageSize) := by
  refine ⟨?_, Nat.mul_mod_left _ _⟩
  simp only [pagingTotalEntriesPerTable, pagingPageSize, addressSpace] at *
  omega

theorem eqOn_slots_iff :
    Set.EqOn (readSlot pages directory) (writtenSlot pages directory) {virt | PageAligned virt} ↔
      ∀ i < pagingTotalEntriesPerTable, pages.directories directory i < 0x10000000 := by
  constructor
  · intro hagree i hi
    rw [← directoryEntry_table i]
    exact readSlot_eq_iff.mp (hagree (pageAligned_table hi))
  · intro hlow virt hvirt
    refine readSlot_eq_iff.mpr ?_
    rw [directoryEntry, pagingGetIndexes_aligned hvirt]
    exact hlow _ (directoryIndex_lt (page_lt hvirt.1))

theorem pagingSet_entryIn (hvirt : PageAligned virt) :
    entryIn (pagingSet pages directory virt val).2 =
      Function.update (entryIn pages) (writtenSlot pages directory virt) val := by
  have haligned : pagingIsAligned virt = true := beq_iff_eq.mpr hvirt.2
  funext slot
  rw [pagingSet, haligned, Function.update_apply]
  exact if_congr (@Prod.ext_iff _ _ slot (writtenSlot pages directory virt)).symm rfl rfl

theorem entryFound_iff (hvirt : PageAligned virt) (hat : PageAligned at') :
    EntryFound pages directory virt at' val ↔
      Finds (readSlot pages directory) (writtenSlot pages directory) (entryIn pages) virt at' val := by
  have hread : pagingGet (pagingSet pages directory virt val).2 directory at' =
      entryIn (pagingSet pages directory virt val).2 (readSlot pages directory at') := by
    have haligned : pagingIsAligned virt = true := beq_iff_eq.mpr hvirt.2
    rw [pagingSet, haligned]
    rfl
  have hentry : pageEntry pages directory (at' / pagingPageSize) =
      entryIn pages (writtenSlot pages directory at') := by
    rw [entryIn, writtenSlot, directoryEntry, pagingGetIndexes_aligned hat]
    rfl
  rw [EntryFound, Finds, hread, hentry, pagingSet_entryIn hvirt]

/-- An entry is found for every two addresses exactly if all tables lie below the addresses that the
mask of `paging_get` cuts off. For one address above them it is found only where the cut address leads
to the right entry by chance. -/
theorem pagingGet_pagingSet_iff (hdistinct : DistinctTables pages directory) :
    ((∀ virt at', PageAligned virt → PageAligned at' → ∀ val < addressSpace,
        EntryFound pages directory virt at' val) ↔
      ∀ i < pagingTotalEntriesPerTable, pages.directories directory i < 0x10000000) ∧
    ∀ virt at', PageAligned virt → PageAligned at' →
      ((∀ val < addressSpace, EntryFound pages directory virt at' val) ↔
        directoryEntry pages directory at' < 0x10000000 ∨
          at' ≠ virt ∧ readSlot pages directory at' ≠ writtenSlot pages directory virt ∧
            entryIn pages (readSlot pages directory at') =
              entryIn pages (writtenSlot pages directory at')) := by
  have hvalues : {val | val < addressSpace}.Nontrivial :=
    ⟨0, by decide, 1, by decide, Nat.zero_ne_one⟩
  have hinj := writtenSlot_injOn hdistinct
  constructor
  · calc (∀ virt at', PageAligned virt → PageAligned at' → ∀ val < addressSpace,
          EntryFound pages directory virt at' val)
      _ ↔ ∀ virt ∈ {virt | PageAligned virt}, ∀ at' ∈ {virt | PageAligned virt},
          ∀ val ∈ {val | val < addressSpace},
            Finds (readSlot pages directory) (writtenSlot pages directory) (entryIn pages) virt at' val :=
          ⟨fun hall virt hvirt at' hat val hval =>
              (entryFound_iff hvirt hat).mp (hall virt at' hvirt hat val hval),
            fun hall virt at' hvirt hat val hval =>
              (entryFound_iff hvirt hat).mpr (hall virt hvirt at' hat val hval)⟩
      _ ↔ Set.EqOn (readSlot pages directory) (writtenSlot pages directory) {virt | PageAligned virt} :=
          forall_keys_finds_iff hvalues hinj
      _ ↔ ∀ i < pagingTotalEntriesPerTable, pages.directories directory i < 0x10000000 :=
          eqOn_slots_iff
  · intro virt at' hvirt hat
    rw [← readSlot_eq_iff, ← forall_finds_iff hvalues hinj hvirt hat]
    exact forall₂_congr fun val _ => entryFound_iff hvirt hat

def tablesFrom (page : Nat) : PageTables :=
  { blankPageTables with directories := fun _ i => (page + i) * pagingPageSize }

theorem tablesFrom_distinct (page directory : Nat) : DistinctTables (tablesFrom page) directory := by
  intro i _ j _ htable
  have hpages : (page + i) * pagingPageSize / pagingPageSize * pagingPageSize =
      (page + j) * pagingPageSize / pagingPageSize * pagingPageSize := htable
  rw [pagingPageSize] at hpages
  omega

theorem pagingGet_pagingSet_low : EntryFound (tablesFrom 0x400) 0x3ff000 0x1000 0x1000 7 :=
  (pagingGet_pagingSet_iff (tablesFrom_distinct 0x400 0x3ff000)).1.mpr
    (fun i hi => by
      change (0x400 + i) * 4096 < 0x10000000
      rw [pagingTotalEntriesPerTable] at hi
      omega)
    0x1000 0x1000 (by decide) (by decide) 7 (by decide)

/-- With a table at `0x10000000` an entry that has just been stored is not read back. -/
theorem not_pagingGet_pagingSet : ¬∀ pages directory, DistinctTables pages directory →
    ∀ virt at', PageAligned virt → PageAligned at' → ∀ val < addressSpace,
      EntryFound pages directory virt at' val := by
  intro hall
  have hfound : pagingGet (pagingSet (tablesFrom 0x10000) 0 0 1).2 0 0 = 1 :=
    hall (tablesFrom 0x10000) 0 (tablesFrom_distinct 0x10000 0) 0 0 (by decide) (by decide) 1 (by decide)
  exact absurd hfound (by decide)

end SlobOS
