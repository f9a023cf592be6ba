import SlobOS.DirectoryEntries
import SlobOS.ItemRequests
import SlobOS.RootDirectories
import SlobOS.ShortNames

/-!
# The search of a directory

The items of a directory are counted without the deleted slots, and the slots are searched with them.
So as many slots at the end are left out as slots before them are deleted.
-/

namespace SlobOS

open Faulting Stores

def readItem (bytes : Nat → UInt8) (left : Nat) : Option FatDirectoryItem :=
  match fat16GetFullRelativeFilename bytes left slobosMaxPath with
  | none => none
  | some stores =>
      if ∀ store ∈ stores, store.1 < slobosMaxPath then some
        { fullRelativeFilename := bufferText (applyStores (fun _ => 0x00) stores) slobosMaxPath
          attributes := bytes 11
          firstCluster := readHalf bytes 20 ||| readHalf bytes 26
          filesize := readWord bytes 28 }
      else none

namespace FatDirectory

def slot (directory : FatDirectory) (i : Nat) : Nat → UInt8 := fun k =>
  directory.item (directoryItemSize * i + k)

def searched (directory : FatDirectory) (left : Nat) : Option (List FatDirectoryItem) :=
  (List.range directory.total.toNat).mapM fun i => readItem (directory.slot i) left

/-- The slot is in use, and neither it nor one before it ends the directory. -/
def Live (directory : FatDirectory) (i : Nat) : Prop :=
  (∀ k ≤ i, directory.slot k 0 ≠ 0x00) ∧ directory.slot i 0 ≠ 0xE5

def LiveItem (directory : FatDirectory) (name : List UInt8) (item : FatDirectoryItem) : Prop :=
  ∃ i left, directory.Live i ∧ readItem (directory.slot i) left = some item ∧
    Kernel.istrncmpEqual item.fullRelativeFilename name = true

/-- `fat16_find_item_in_directory`, which compares as many characters as the buffer has. -/
def fat16FindItemInDirectory (directory : FatDirectory) (left : Nat) (name : List UInt8) :
    Option (KernelM (Option FatItem)) :=
  (directory.searched left).map fun items =>
    Kernel.fat16FindItemInDirectory (name.take slobosMaxPath) items none

/-- The search comes back, with an item if some live slot has the name, and with a copy of the item of
such a slot. -/
def FindsItem (directory : FatDirectory) (kernel : Kernel) (name : List UInt8) : Prop :=
  ∃ left search found after, directory.fat16FindItemInDirectory left name = some search ∧
    Ends search kernel found after ∧ (found.isSome ↔ ∃ item, directory.LiveItem name item) ∧
      ∀ fatItem ∈ found, ∃ clone item, fatItem.data = .file clone item ∧ clone ≠ 0 ∧
        directory.LiveItem name item

/-- As many slots are compared as items are counted, and their names stay inside of the buffer. If some
live slot has the name, then the last of the compared slots with the name has the item of a live one,
and the heap has memory for it. Otherwise none of the compared slots has it, or the heap has no memory.
For files, memory is two free blocks for each slot with the name (`itemsFit_plain`). -/
def SearchesLive (directory : FatDirectory) (kernel : Kernel) (name : List UInt8) : Prop :=
  ∃ left items, directory.searched left = some items ∧
    let named := items.filter fun item =>
      Kernel.istrncmpEqual item.fullRelativeFilename (name.take slobosMaxPath)
    ((∃ item, directory.LiveItem name item) →
      (∃ item, named.getLast? = some item ∧ directory.LiveItem name item) ∧
        Kernel.ItemsFit kernel.volume named kernel.heap) ∧
    ((¬∃ item, directory.LiveItem name item) →
      named = [] ∨ Kernel.ItemsRefused kernel.volume named kernel.heap)

end FatDirectory

/-! ### The search -/

namespace Kernel

variable {kernel after : Kernel} {name : List UInt8} {items : List FatDirectoryItem}

theorem newFatItems_data {made result : Option FatItem} {item : FatDirectoryItem}
    (h : Ends (newFatItems items made) kernel result after) (hlast : items.getLast? = some item) :
    ∀ fatItem ∈ result, ∃ clone, fatItem.data = .file clone item := by
  induction items generalizing kernel made with
  | nil => cases hlast
  | cons first items ih =>
      obtain ⟨fatItem, middle, hnew, h⟩ := ends_bind.mp h
      cases items with
      | nil =>
          obtain ⟨rfl, rfl⟩ := ends_pure.mp h
          cases hlast
          exact fat16NewFatItem_data hnew
      | cons next items =>
          rw [List.getLast?_cons_cons] at hlast
          exact ih h hlast

end Kernel

namespace FatDirectory

open Kernel

variable {directory : FatDirectory} {kernel : Kernel} {name : List UInt8}

end FatDirectory

/-! ### The items of a directory -/

section Items

variable {bytes : Nat → UInt8} {left name ext : Nat}

theorem readItem_name {item : FatDirectoryItem} (h : readItem bytes left = some item)
    (hends : NameEnds bytes name ext) :
    item.fullRelativeFilename = (storedText bytes name ext).take slobosMaxPath := by
  rw [readItem] at h
  cases hstores : fat16GetFullRelativeFilename bytes left slobosMaxPath with
  | none =>
      rw [hstores] at h
      cases h
  | some stores =>
      rw [hstores] at h
      simp only at h
      split at h
      · obtain ⟨name', ext', hends', -, hholds⟩ := fat16GetFullRelativeFilename_holds hstores
        cases hends.1.unique hends'.1
        cases hends.2.unique hends'.2
        cases h
        exact (hholds _).bufferText_eq fun c hc =>
          (not_endsCopy_iff.mp (storedText_not_endsCopy hends c hc)).1
      · cases h

theorem readItem_isSome (hends : NameEnds bytes name ext)
    (hroom : (storedText bytes name ext).length < slobosMaxPath) :
    ∃ left item, readItem bytes left = some item := by
  obtain ⟨left, stores, hstores⟩ := fat16GetFullRelativeFilename_isSome hends slobosMaxPath
  obtain ⟨name', ext', hends', hinside, -⟩ := fat16GetFullRelativeFilename_holds hstores
  cases hends.1.unique hends'.1
  cases hends.2.unique hends'.2
  refine ⟨left, ?_⟩
  rw [readItem, hstores]
  simp only [if_pos (hinside hroom)]
  exact ⟨_, rfl⟩

end Items

section Loaded

variable {disk : Disk} {header : FatHeader} {left dir i j : Nat} {held : Nat → UInt8}
  {directory : FatDirectory} {total : Int}

theorem loadedDirectory_slot {pos k : Nat} (hpos : header.rootDirPos = pos)
    (hend : pos + header.rootDirSize < 0x80000000) (hi : i < header.rootDirEntries.toNat)
    (hk : k < directoryItemSize) :
    (header.loadedDirectory disk held total).slot i k = disk.byte (pos + directoryItemSize * i + k) := by
  have hsize : directoryItemSize * i + k < header.rootDirSize := by
    rw [FatHeader.rootDirSize, directoryItemSize] at *
    omega
  change (if directoryItemSize * i + k < header.rootDirSize then
    (diskstreamerRead disk header.rootDirPos header.rootDirSize).bytes.getD _ 0 else _) = _
  rw [if_pos hsize, hpos, (diskstreamerRead_eq hend).1, Disk.bytes_getD hsize, Nat.add_assoc]

theorem loadedDirectory_slot_zero {pos : Nat} (hpos : header.rootDirPos = pos)
    (hend : pos + header.rootDirSize < 0x80000000) (hi : i < header.rootDirEntries.toNat) :
    (header.loadedDirectory disk held total).slot i 0 = slotStart disk header.rootDirPos i := by
  have hsize : pos + directoryItemSize * (i + 1) < 0x80000000 := by
    rw [FatHeader.rootDirSize, directoryItemSize] at *
    omega
  rw [loadedDirectory_slot hpos hend hi (by decide), hpos, slotStart_eq hsize, Nat.add_zero]

theorem fat16GetRootDirectory_loaded
    (hload : header.fat16GetRootDirectory disk left dir held = some (.ok directory)) :
    directory = header.loadedDirectory disk held directory.total := by
  have hcount := fat16GetRootDirectory_total hload
  by_cases hdir : dir = 0
  · rw [FatHeader.fat16GetRootDirectory, fat16GetTotalItems_eq, hcount] at hload
    simp only [if_pos hdir] at hload
    cases hload
  · rw [fat16GetRootDirectory_eq hcount hdir] at hload
    exact (Except.ok.inj (Option.some.inj hload)).symm

theorem loaded_total {pos : Nat} (hpos : header.rootDirPos = pos)
    (hend : pos + header.rootDirSize < 0x80000000)
    (hload : header.fat16GetRootDirectory disk left dir held = some (.ok directory))
    (hj : j < header.rootDirEntries.toNat) (hlast : directory.slot j 0 = 0x00)
    (hbefore : ∀ i < j, directory.slot i 0 ≠ 0x00) :
    directory.total = (List.range j).countP fun i => directory.slot i 0 ≠ 0xE5 := by
  have hcount := fat16GetRootDirectory_total hload
  have hslot : ∀ i ≤ j, directory.slot i 0 = slotStart disk header.rootDirPos i := by
    intro i hi
    rw [fat16GetRootDirectory_loaded hload]
    exact loadedDirectory_slot_zero hpos hend (by omega)
  have hlast' : slotStart disk header.rootDirPos j = 0x00 := by
    rw [← hslot j (Nat.le_refl j), hlast]
  have hbefore' : ∀ i < j, slotStart disk header.rootDirPos i ≠ 0x00 := by
    intro i hi
    rw [← hslot i (by omega)]
    exact hbefore i hi
  have hleft : j < left := by
    by_contra hle
    rw [fat16CountItems_eq_none (rootDirPos_int header) fun i hi => hbefore' i (by omega)] at hcount
    cases hcount
  have hle := liveCount_le disk header.rootDirPos j
  have hentries := header.rootDirEntries.toNat_lt
  rw [fat16CountItems_eq_some (rootDirPos_int header) rfl hleft hlast' hbefore', Int.zero_add,
    toInt32_of_range (by omega) (by omega)] at hcount
  rw [← Option.some.inj hcount, liveCount, Int.natCast_inj]
  apply List.countP_congr
  intro i hi
  rw [hslot i (Nat.le_of_lt (List.mem_range.mp hi))]

end Loaded

def deletedDisk : Disk :=
  smallDisk fun lba i => if lba = 2 ∧ i = 0 then 0xE5 else if lba = 2 ∧ i = 32 then 0x41 else 0

def deletedDirectory : FatDirectory := smallHeader.loadedDirectory deletedDisk (fun _ => 0) 1

theorem deletedDirectory_slot {i k : Nat} (hi : i < 16) (hk : k < 32) :
    deletedDirectory.slot i k = if i = 0 ∧ k = 0 then 0xE5 else if i = 1 ∧ k = 0 then 0x41 else 0 := by
  have hslot := @loadedDirectory_slot deletedDisk smallHeader i (fun _ => 0) 1 1024 k
    smallHeader_rootDirPos (by decide) hi hk
  have hlba : (1024 + 32 * i + k) / 512 = 2 := by omega
  have hindex : (1024 + 32 * i + k) % 512 = 32 * i + k := by omega
  rw [deletedDirectory, hslot, Disk.byte, directoryItemSize, hlba, hindex]
  simp only [deletedDisk, smallDisk, if_neg (show ¬2 = 0 by decide), true_and]
  by_cases hdeleted : i = 0 ∧ k = 0
  · rw [if_pos hdeleted, if_pos (by omega)]
  · rw [if_neg hdeleted, if_neg (by omega)]
    by_cases hlive : i = 1 ∧ k = 0
    · rw [if_pos hlive, if_pos (by omega)]
    · rw [if_neg hlive, if_neg (by omega)]

theorem deletedDirectory_loaded :
    smallHeader.fat16GetRootDirectory deletedDisk 3 slobosHeapAddress (fun _ => 0) =
      some (.ok deletedDirectory) := by
  have hstart : ∀ k < 3, slotStart deletedDisk smallHeader.rootDirPos k =
      if k = 0 then 0xE5 else if k = 1 then 0x41 else 0 := by
    intro k hk
    have hslot := @deletedDirectory_slot k 0 (by omega) (by omega)
    rw [deletedDirectory, loadedDirectory_slot_zero smallHeader_rootDirPos (by decide)
      (show k < smallHeader.rootDirEntries.toNat by change k < 16; omega)] at hslot
    simpa using hslot
  have hbefore : ∀ k < 2, slotStart deletedDisk smallHeader.rootDirPos k ≠ 0x00 := by
    intro k hk
    rw [hstart k (by omega)]
    split
    · decide
    · rw [if_pos (by omega)]
      decide
  have hlive : liveCount deletedDisk smallHeader.rootDirPos 2 = 1 := by
    rw [liveCount]
    simp [List.range_succ, hstart]
  have hcount := @fat16CountItems_eq_some deletedDisk smallHeader.rootDirPos 0 3 2
    (rootDirPos_int _) rfl (by decide) (hstart 2 (by decide)) hbefore
  rw [hlive] at hcount
  exact fat16GetRootDirectory_eq hcount (by decide)

theorem deletedDirectory_ends {i : Nat} (hi : i < 2) :
    NameEnds (deletedDirectory.slot i) 1 0 := by
  have hslot := fun {k} => @deletedDirectory_slot i k (by omega)
  refine ⟨⟨?_, ?_⟩, ⟨by omega, ?_⟩⟩
  · intro k hk
    rw [hslot (by omega), not_endsCopy_iff]
    by_cases hfirst : i = 0
    · rw [if_pos (by omega)]
      decide
    · rw [if_neg (by omega), if_pos (by omega)]
      decide
  · rw [hslot (by decide), if_neg (by omega), if_neg (by omega)]
    exact .inl rfl
  · rw [hslot (by decide), if_neg (by omega), if_neg (by omega)]
    exact .inl rfl

theorem deletedDirectory_text {i : Nat} (hi : i < 2) :
    storedText (deletedDirectory.slot i) 1 0 = [if i = 0 then 0xE5 else 0x41] := by
  rw [storedText, if_pos rfl, List.append_nil, copiedText, List.range_one, List.map_singleton,
    deletedDirectory_slot (by omega) (by omega)]
  by_cases hfirst : i = 0
  · rw [if_pos (by omega), if_pos hfirst]
  · rw [if_neg (by omega), if_pos (by omega), if_neg hfirst]

theorem deletedDirectory_liveItem : ∃ item, deletedDirectory.LiveItem [0x41] item := by
  have hends := deletedDirectory_ends (show 1 < 2 by decide)
  obtain ⟨left, item, hread⟩ := readItem_isSome hends (by
    rw [deletedDirectory_text (by decide)]
    decide)
  refine ⟨item, 1, left, ⟨?_, ?_⟩, hread, ?_⟩
  · intro k hk
    rw [deletedDirectory_slot (by omega) (by decide)]
    by_cases hfirst : k = 0
    · rw [if_pos (by omega)]
      decide
    · rw [if_neg (by omega), if_pos (by omega)]
      decide
  · rw [deletedDirectory_slot (by decide) (by decide)]
    decide
  · rw [readItem_name hread hends, deletedDirectory_text (by decide)]
    rfl

end SlobOS
