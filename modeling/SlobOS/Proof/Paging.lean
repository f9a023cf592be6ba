import SlobOS.Paging
import Mathlib.Data.Nat.Bitwise

/-!
# Page tables as address spaces

Seen through one directory whose tables are distinct, the page tables are a function from page
numbers to entries, and a mapping of a range overwrites the entries of the range and no others.
-/

namespace SlobOS

def pageCount : Nat := 0x100000

theorem page_lt {address : Nat} (h : address < addressSpace) :
    address / pagingPageSize < pageCount := by
  simp only [addressSpace] at h
  simp only [pagingPageSize, pageCount]
  omega

theorem directoryIndex_lt {page : Nat} (h : page < pageCount) :
    page / pagingTotalEntriesPerTable < pagingTotalEntriesPerTable := by
  simp only [pageCount, pagingTotalEntriesPerTable] at h ⊢
  omega

def DistinctTables (pages : PageTables) (directory : Nat) : Prop :=
  ∀ i < pagingTotalEntriesPerTable, ∀ j < pagingTotalEntriesPerTable,
    tableAddress (pages.directories directory i) = tableAddress (pages.directories directory j) →
      i = j

def DisjointTables (pages : PageTables) (directory other : Nat) : Prop :=
  ∀ i < pagingTotalEntriesPerTable, ∀ j < pagingTotalEntriesPerTable,
    tableAddress (pages.directories directory i) ≠ tableAddress (pages.directories other j)

def pageOffset (first page : Nat) : Nat := (page + pageCount - first) % pageCount

def PageTables.store (pages : PageTables) (directory page val : Nat) : PageTables :=
  { pages with
    tables := fun address index =>
      if address = tableAddress
          (pages.directories directory (page / pagingTotalEntriesPerTable)) ∧
        index = page % pagingTotalEntriesPerTable then val else pages.tables address index
    stores := (page * pagingPageSize, val) :: pages.stores }

section Store

variable {pages : PageTables} {directory other page phys flags val : Nat}

@[simp]
theorem PageTables.store_directories :
    (pages.store directory page val).directories = pages.directories := rfl

@[simp]
theorem PageTables.store_stores :
    (pages.store directory page val).stores = (page * pagingPageSize, val) :: pages.stores := rfl

theorem pagingGetIndexes_page (page : Nat) : pagingGetIndexes (page * pagingPageSize) =
    (page / pagingTotalEntriesPerTable, page % pagingTotalEntriesPerTable) := by
  simp only [pagingGetIndexes, pagingTotalEntriesPerTable, pagingPageSize, Prod.mk.injEq]
  omega

@[simp]
theorem pagingIsAligned_page (page : Nat) : pagingIsAligned (page * pagingPageSize) = true := by
  simp [pagingIsAligned]

theorem pagingSet_page :
    pagingSet pages directory (page * pagingPageSize) val =
      (0, pages.store directory page val) := by
  simp only [pagingSet, pagingIsAligned_page, pagingGetIndexes_page]
  rfl

theorem pagingMap_page :
    pagingMap pages directory (page * pagingPageSize) (phys * pagingPageSize) flags =
      (0, pages.store directory page (phys * pagingPageSize ||| flags)) := by
  have hvirt : page * pagingPageSize % pagingPageSize = 0 := Nat.mul_mod_left _ _
  have hphys : phys * pagingPageSize % pagingPageSize = 0 := Nat.mul_mod_left _ _
  simp only [pagingMap, hvirt, hphys, ne_eq, not_true_eq_false, or_self, if_false]
  exact pagingSet_page

theorem page_or_flags (hflags : flags < pagingPageSize) :
    phys * pagingPageSize ||| flags = phys * pagingPageSize + flags := by
  have hor := Nat.two_pow_add_eq_or_of_lt (i := 12) hflags phys
  rw [Nat.mul_comm phys]
  exact hor.symm

theorem pageEntry_store (hdistinct : DistinctTables pages directory) (hpage : page < pageCount)
    {at' : Nat} (hat : at' < pageCount) :
    pageEntry (pages.store directory page val) directory at' =
      if at' = page then val else pageEntry pages directory at' := by
  simp only [pageEntry, PageTables.store]
  by_cases heq : at' = page
  · subst heq
    simp
  · rw [if_neg heq, if_neg]
    rintro ⟨htable, hindex⟩
    have hdiv := hdistinct _ (directoryIndex_lt hat) _ (directoryIndex_lt hpage) htable
    simp only [pagingTotalEntriesPerTable] at hdiv hindex
    omega

theorem pageEntry_store_other (hdisjoint : DisjointTables pages directory other)
    (hpage : page < pageCount) {at' : Nat} (hat : at' < pageCount) :
    pageEntry (pages.store directory page val) other at' = pageEntry pages other at' := by
  simp only [pageEntry, PageTables.store]
  rw [if_neg]
  rintro ⟨htable, -⟩
  simp only [pageCount] at hpage hat
  exact hdisjoint _ (by simp only [pagingTotalEntriesPerTable]; omega) _
    (by simp only [pagingTotalEntriesPerTable]; omega) htable.symm

end Store

/-- The effect of mapping `count` pages from `page` to as many frames from `frame`. -/
structure Maps (pages pages' : PageTables) (directory page frame count flags : Nat) : Prop where
  directories : pages'.directories = pages.directories
  stores : ∃ stored, pages'.stores = stored ++ pages.stores ∧
    ∀ store, store ∈ stored ↔ ∃ j < count,
      store = ((page + j) % pageCount * pagingPageSize,
        (frame + j) % pageCount * pagingPageSize ||| flags)
  entry : DistinctTables pages directory → ∀ at' < pageCount,
    pageEntry pages' directory at' =
      if pageOffset page at' < count then
        (frame + pageOffset page at') % pageCount * pagingPageSize ||| flags
      else pageEntry pages directory at'
  other : ∀ other, DisjointTables pages directory other → ∀ at' < pageCount,
    pageEntry pages' other at' = pageEntry pages other at'

section MapRange

variable {pages : PageTables} {directory page frame count flags : Nat}

section

variable {pages' : PageTables} {at' : Nat}

theorem Maps.inside (h : Maps pages pages' directory page frame count flags)
    (hdistinct : DistinctTables pages directory) (hstop : page + count ≤ pageCount)
    (hframe : frame + count ≤ pageCount) (hge : page ≤ at') (hlt : at' < page + count) :
    pageEntry pages' directory at' = (frame + (at' - page)) * pagingPageSize ||| flags := by
  have hat : at' < pageCount := Nat.lt_of_lt_of_le hlt hstop
  have hoffset : pageOffset page at' = at' - page := by
    simp only [pageOffset, pageCount] at hat ⊢
    omega
  rw [h.entry hdistinct at' hat, hoffset, if_pos (by omega), Nat.mod_eq_of_lt (by omega)]

theorem Maps.outside (h : Maps pages pages' directory page frame count flags)
    (hdistinct : DistinctTables pages directory) (hstop : page + count ≤ pageCount)
    (hat : at' < pageCount) (hout : at' < page ∨ page + count ≤ at') :
    pageEntry pages' directory at' = pageEntry pages directory at' := by
  have hoffset : ¬pageOffset page at' < count := by
    simp only [pageOffset, pageCount] at hat hstop ⊢
    omega
  rw [h.entry hdistinct at' hat, if_neg hoffset]

end

theorem Maps.zero : Maps pages pages directory page frame 0 flags where
  directories := rfl
  stores := ⟨[], rfl, by simp⟩
  entry _ _ _ := by simp
  other _ _ _ _ := rfl

theorem Maps.succ {pages' : PageTables} (hpage : page < pageCount) (hframe : frame < pageCount)
    (hcount : count < pageCount)
    (h : Maps (pages.store directory page (frame * pagingPageSize ||| flags)) pages' directory
      ((page + 1) % pageCount) ((frame + 1) % pageCount) count flags) :
    Maps pages pages' directory page frame (count + 1) flags where
  directories := h.directories
  stores := by
    have hshift : ∀ first j, ((first + 1) % pageCount + j) % pageCount =
        (first + (j + 1)) % pageCount := by
      intro first j
      simp only [pageCount]
      omega
    obtain ⟨stored, hstored, hmem⟩ := h.stores
    refine ⟨stored ++ [(page * pagingPageSize, frame * pagingPageSize ||| flags)], ?_, ?_⟩
    · simp only [hstored, PageTables.store_stores, List.append_assoc, List.singleton_append]
    intro store
    rw [List.mem_append, hmem, List.mem_singleton]
    constructor
    · rintro (⟨j, hj, rfl⟩ | rfl)
      · exact ⟨j + 1, by omega, by simp only [hshift]⟩
      · exact ⟨0, by omega, by simp [Nat.mod_eq_of_lt, hpage, hframe]⟩
    · rintro ⟨j, hj, rfl⟩
      cases j with
      | zero => exact Or.inr (by simp [Nat.mod_eq_of_lt, hpage, hframe])
      | succ j => exact Or.inl ⟨j, by omega, by simp only [hshift]⟩
  entry hdistinct at' hat := by
    rw [h.entry hdistinct at' hat, pageEntry_store hdistinct hpage hat]
    by_cases heq : at' = page
    · subst heq
      have hself : pageOffset at' at' = 0 := by simp [pageOffset]
      have hlast : ¬pageOffset ((at' + 1) % pageCount) at' < count := by
        simp only [pageOffset, pageCount] at *
        omega
      simp [hself, hlast, Nat.mod_eq_of_lt hframe]
    · have hnext : pageOffset page at' = pageOffset ((page + 1) % pageCount) at' + 1 := by
        simp only [pageOffset, pageCount] at *
        omega
      have hlt : pageOffset ((page + 1) % pageCount) at' < count ↔
          pageOffset ((page + 1) % pageCount) at' + 1 < count + 1 := by omega
      have hphys : ((frame + 1) % pageCount + pageOffset ((page + 1) % pageCount) at') %
          pageCount = (frame + (pageOffset ((page + 1) % pageCount) at' + 1)) % pageCount := by
        simp only [pageCount]
        omega
      simp only [hnext, heq, if_false, hphys, hlt]
  other other hdisjoint at' hat := by
    rw [h.other other hdisjoint at' hat, pageEntry_store_other hdisjoint hpage hat]

theorem pagingMapRange_maps (hpage : page < pageCount) (hframe : frame < pageCount)
    (hcount : count ≤ pageCount) : ∃ pages', pagingMapRange pages directory
      (page * pagingPageSize) (frame * pagingPageSize) count flags = (0, pages') ∧
    Maps pages pages' directory page frame count flags := by
  induction count generalizing pages page frame with
  | zero => exact ⟨pages, rfl, .zero⟩
  | succ count ih =>
      have hwrap : ∀ first, toUint32 (first * pagingPageSize + pagingPageSize) =
          (first + 1) % pageCount * pagingPageSize := by
        intro first
        simp only [toUint32, addressSpace, pagingPageSize, pageCount]
        omega
      have hlt : ∀ first, first % pageCount < pageCount := fun first =>
        Nat.mod_lt _ (by simp only [pageCount]; omega)
      obtain ⟨pages', hrange, hmaps⟩ := @ih
        (pages.store directory page (frame * pagingPageSize ||| flags)) _ _
        (hlt (page + 1)) (hlt (frame + 1)) (by omega)
      refine ⟨pages', ?_, hmaps.succ hpage hframe (by omega)⟩
      simp only [pagingMapRange, pagingMap_page, hwrap]
      exact hrange

end MapRange

/-! ### `paging_map_to` -/

theorem pagingMap_directories (pages : PageTables) (directory virt phys flags : Nat) :
    (pagingMap pages directory virt phys flags).2.directories = pages.directories := by
  unfold pagingMap pagingSet
  split_ifs <;> rfl

theorem pagingMapRange_directories (pages : PageTables) (directory virt phys count flags : Nat) :
    (pagingMapRange pages directory virt phys count flags).2.directories = pages.directories := by
  induction count generalizing pages virt phys with
  | zero => rfl
  | succ count ih =>
      have hmap := pagingMap_directories pages directory virt phys flags
      simp only [pagingMapRange]
      split
      · exact hmap
      · rw [ih, hmap]

theorem pagingMapTo_directories (pages : PageTables) (directory virt phys physEnd flags : Nat) :
    (pagingMapTo pages directory virt phys physEnd flags).2.directories = pages.directories := by
  unfold pagingMapTo
  split_ifs
  · rfl
  · rfl
  · rfl
  · rfl
  · exact pagingMapRange_directories _ _ _ _ _ _

section MapTo

variable {pages : PageTables} {directory page frame stop flags : Nat}

theorem pagingMapTo_pages (pages : PageTables) (directory page frame stop flags : Nat) :
    pagingMapTo pages directory (page * pagingPageSize) (frame * pagingPageSize)
        (stop * pagingPageSize) flags =
      if stop < frame then (-einvarg, pages)
      else pagingMapRange pages directory (page * pagingPageSize) (frame * pagingPageSize)
        (stop - frame) flags := by
  have haligned : ∀ first, first * pagingPageSize % pagingPageSize = 0 := fun first =>
    Nat.mul_mod_left _ _
  have hlt : stop * pagingPageSize < frame * pagingPageSize ↔ stop < frame :=
    Nat.mul_lt_mul_right (by decide)
  have hcount : (stop * pagingPageSize - frame * pagingPageSize) / pagingPageSize =
      stop - frame := by
    rw [← Nat.sub_mul]
    exact Nat.mul_div_cancel _ (by decide)
  simp only [pagingMapTo, haligned, ne_eq, not_true_eq_false, if_false, hlt, hcount]

theorem pagingMapTo_refused (h : stop < frame) :
    pagingMapTo pages directory (page * pagingPageSize) (frame * pagingPageSize)
      (stop * pagingPageSize) flags = (-einvarg, pages) := by
  rw [pagingMapTo_pages, if_pos h]

theorem pagingMapTo_maps (hpage : page < pageCount) (hframe : frame < pageCount)
    (hstop : stop < pageCount) (hle : frame ≤ stop) : ∃ pages',
      pagingMapTo pages directory (page * pagingPageSize) (frame * pagingPageSize)
        (stop * pagingPageSize) flags = (0, pages') ∧
      Maps pages pages' directory page frame (stop - frame) flags := by
  rw [pagingMapTo_pages, if_neg (by omega)]
  exact pagingMapRange_maps hpage hframe (by omega)

end MapTo

theorem tableAddress_mask {entry : Nat} (hlow : entry < 0x10000000) :
    entry &&& 0xffff000 = tableAddress entry := by
  have hhigh := @Nat.and_div_two_pow entry 0xffff000 12
  have hrest := @Nat.and_mod_two_pow entry 0xffff000 12
  have hmask := Nat.and_two_pow_sub_one_eq_mod (entry / 4096) 16
  simp only [Nat.reducePow, Nat.reduceDiv, Nat.reduceMod, Nat.and_zero] at hhigh hrest
  simp only [Nat.reducePow, Nat.reduceSub] at hmask
  simp only [tableAddress, pagingPageSize]
  omega

theorem toUint32_lt (value : Nat) : toUint32 value < addressSpace :=
  Nat.mod_lt _ (by decide)

def stopPage (address : Nat) : Nat := (address + (pagingPageSize - 1)) / pagingPageSize % pageCount

theorem pagingAlignToLowerPage_eq (address : Nat) :
    pagingAlignToLowerPage address = address / pagingPageSize * pagingPageSize := by
  simp only [pagingAlignToLowerPage, pagingPageSize]
  omega

theorem pagingAlignAddress_eq {address : Nat} (h : address < addressSpace) :
    pagingAlignAddress address = stopPage address * pagingPageSize := by
  unfold pagingAlignAddress
  split <;>
    simp only [stopPage, toUint32, addressSpace, pagingPageSize, pageCount] at * <;>
    omega

theorem pagingAlignAddress_page (page : Nat) :
    pagingAlignAddress (page * pagingPageSize) = page * pagingPageSize := by
  have haligned : page * pagingPageSize % pagingPageSize = 0 := Nat.mul_mod_left _ _
  rw [pagingAlignAddress, if_neg (not_not.mpr haligned)]

theorem stopPage_lt (address : Nat) : stopPage address < pageCount :=
  Nat.mod_lt _ (by decide)

end SlobOS
