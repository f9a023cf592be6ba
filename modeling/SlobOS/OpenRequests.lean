import SlobOS.DirectoryEntries
import SlobOS.ItemRequests

/-!
# What opening a file asks of the heap

A path that is parsed as a whole, the descriptor of the driver and the items with the name take their
blocks before the descriptor of the file is asked for. So the heap that is left then can be told from the
heap before the call, the path and the root directory.
-/

namespace SlobOS

namespace Kernel

open Faulting Splits

def partsHeap : Nat → Heap → Heap
  | 0, heap => heapFree (heapMalloc heap slobosMaxPath).2 (heapMalloc heap slobosMaxPath).1
  | count + 1, heap => partsHeap count (heapMalloc (heapMalloc heap slobosMaxPath).2 pathPartSize).2

def parsedHeap (count : Nat) (heap : Heap) : Heap := partsHeap count (heapMalloc heap pathRootSize).2

def namedItems (volume : Volume) (name : List UInt8) : List FatDirectoryItem :=
  volume.rootDirectory.filter fun item => istrncmpEqual item.fullRelativeFilename name

/-- A file is opened for reading whose name is the only component of the path, and behind the item that is
made for it, this is left of the heap. -/
structure OpensItem (volume : Volume) (filename modeStr : List UInt8) (heap left : Heap) : Prop where
  length : filename.length ≤ slobosMaxPath
  format : pathparserPathValidFormat filename = true
  drive : tonumericdigit (filename.headD 0) = 0
  mounted : volume.mounted = true
  mode : fileGetModeByString modeStr = .read
  item : ∃ name descriptor taken, scanned slash (filename.drop 3) = [name] ∧
    zeroedHeap fatFileDescriptorSize (parsedHeap 1 heap) = some (descriptor, taken) ∧ descriptor ≠ 0 ∧
      namedItems volume name ≠ [] ∧ ¬ItemsRefused volume (namedItems volume name) taken ∧
        itemsHeap volume (namedItems volume name) taken = some left

variable {kernel middle after : Kernel} {path filename modeStr : List UInt8}

theorem pathparserGetPathPart_heap {result : Nat × List UInt8 × List UInt8}
    (h : Ends (pathparserGetPathPart path) kernel result after) :
    result.2 = (part slash path, rest slash path) ∧
      (part slash path = [] ∧ result.1 = 0 ∧ after.heap = partsHeap 0 kernel.heap ∨
        part slash path ≠ [] ∧ after.heap = (heapMalloc kernel.heap slobosMaxPath).2) := by
  obtain ⟨ptr, first, halloc, h⟩ := ends_bind.mp h
  obtain ⟨rfl, hheap, -, -⟩ := ends_kzalloc halloc
  change Ends (if part slash path = [] then _ else _) _ _ _ at h
  rw [ends_ite] at h
  simp only [ends_bind, ends_kfree, ends_storeTo, ends_modify, ends_pure, exists_eq_left,
    exists_const] at h
  rcases h with ⟨hnil, rfl, rfl⟩ | ⟨hne, rfl, rfl⟩
  · exact ⟨rfl, Or.inl ⟨hnil, rfl, congrArg (heapFree · _) hheap⟩⟩
  · exact ⟨rfl, Or.inr ⟨hne, hheap⟩⟩

theorem pathparserParsePathPart_heap {result : Option PathPart × List UInt8}
    (h : Ends (pathparserParsePathPart path) kernel result after) : result.2 = rest slash path ∧
      (part slash path = [] ∧ result.1 = none ∧ after.heap = partsHeap 0 kernel.heap ∨
        part slash path ≠ [] ∧ (result.1 = none ∨
          after.heap = (heapMalloc (heapMalloc kernel.heap slobosMaxPath).2 pathPartSize).2)) := by
  obtain ⟨⟨ptr, text, rest'⟩, first, hget, h⟩ := ends_bind.mp h
  obtain ⟨hresult, hcases⟩ := pathparserGetPathPart_heap hget
  obtain ⟨rfl, rfl⟩ := Prod.mk.inj hresult
  change Ends (if ptr = 0 then _ else _) _ _ _ at h
  rw [ends_ite] at h
  rcases h with ⟨-, h⟩ | ⟨hptr, h⟩
  · obtain ⟨rfl, rfl⟩ := ends_pure.mp h
    refine ⟨rfl, ?_⟩
    rcases hcases with ⟨hnil, -, hheap⟩ | ⟨hne, -⟩
    · exact Or.inl ⟨hnil, rfl, hheap⟩
    · exact Or.inr ⟨hne, Or.inl rfl⟩
  · obtain ⟨hne, hheap⟩ := hcases.resolve_left fun hnil => hptr hnil.2.1
    rw [ends_bind] at h
    obtain ⟨address, second, halloc, h⟩ := h
    rw [ends_storeTo_bind, ends_ite] at h
    simp only [ends_pure] at h
    have hheap' : second.heap = _ := (ends_kzalloc halloc).2.1.trans (by rw [hheap])
    rcases h with ⟨-, rfl, rfl⟩ | ⟨-, rfl, rfl⟩
    · exact ⟨rfl, Or.inr ⟨hne, Or.inl rfl⟩⟩
    · exact ⟨rfl, Or.inr ⟨hne, Or.inr hheap'⟩⟩

theorem pathparserParseParts_heap {left : Nat} {parts : List PathPart}
    (h : Ends (pathparserParseParts left path) kernel parts after)
    (hall : parts.map PathPart.text = scanned slash path) (hleft : path.length < left) :
    after.heap = partsHeap parts.length kernel.heap := by
  induction left generalizing kernel path parts after with
  | zero => omega
  | succ left ih =>
      rw [pathparserParseParts, ends_bind] at h
      obtain ⟨⟨found, rest'⟩, first, hpart, h⟩ := h
      obtain ⟨hrest, hcases⟩ := pathparserParsePathPart_heap hpart
      obtain rfl : rest' = rest slash path := hrest
      rw [scanned_eq] at hall
      cases found with
      | none =>
          obtain ⟨rfl, rfl⟩ := ends_pure.mp h
          rcases hcases with ⟨-, -, hheap⟩ | ⟨hne, -⟩
          · exact hheap
          · rw [if_neg hne] at hall
            cases hall
      | some found =>
          obtain ⟨parts', last, hparts, h⟩ := ends_bind.mp h
          obtain ⟨rfl, rfl⟩ := ends_pure.mp h
          obtain ⟨hne, hheap⟩ := hcases.resolve_left fun hnil => by cases hnil.2.1
          rw [if_neg hne, List.map_cons] at hall
          have hlength := rest_length slash path hne
          rw [ih hparts (List.cons.inj hall).2 (by omega),
            hheap.resolve_left (Option.some_ne_none found)]
          rfl

/-- What the driver opens is an item of the root directory, behind the items of the entries with its
name. -/
theorem fat16Open_item {names : List (List UInt8)} {mode : FileMode} {opened : Nat × FatItem}
    (h : Ends (fat16Open names mode) kernel (some opened) middle) (hne : names ≠ []) :
    mode = .read ∧ ∃ name descriptor taken, names = [name] ∧
      zeroedHeap fatFileDescriptorSize kernel.heap = some (descriptor, taken) ∧ descriptor ≠ 0 ∧
        namedItems kernel.volume name ≠ [] ∧
          ¬ItemsRefused kernel.volume (namedItems kernel.volume name) taken ∧
            itemsHeap kernel.volume (namedItems kernel.volume name) taken = some middle.heap := by
  rw [fat16Open, ends_ite] at h
  obtain ⟨hmode, h⟩ := h.resolve_left fun hother => by cases (ends_pure.mp hother.2).1
  rw [ends_bind] at h
  obtain ⟨descriptor, taken, halloc, h⟩ := h
  rw [ends_ite] at h
  obtain ⟨hdescriptor, h⟩ := h.resolve_left fun hother => by cases (ends_pure.mp hother.2).1
  rw [ends_bind] at h
  obtain ⟨found, last, hentry, h⟩ := h
  obtain ⟨rootItem, after, hfind⟩ : ∃ rootItem after, Ends (fat16FindItemInDirectory (names.headD [])
      taken.volume.rootDirectory none) taken rootItem after := by
    rw [fat16GetDirectoryEntry, ends_get_bind, ends_bind] at hentry
    obtain ⟨rootItem, after, hfind, -⟩ := hentry
    exact ⟨rootItem, after, hfind⟩
  obtain ⟨rfl, rfl⟩ := hentry.unique (ends_fat16GetDirectoryEntry hne hfind)
  have hvolume : taken.volume = kernel.volume := (ends_kzalloc halloc).2.2.1.volume
  by_cases hlength : names.length = 1
  · obtain ⟨name, rfl⟩ := List.length_eq_one_iff.mp hlength
    rw [if_pos hlength] at h
    cases rootItem with
    | none => cases (ends_pure.mp h).1
    | some item =>
        obtain ⟨-, rfl⟩ := ends_pure.mp h
        rw [fat16FindItemInDirectory_eq, hvolume] at hfind
        change Ends (newFatItems (namedItems kernel.volume name) none) taken (some item) middle at hfind
        refine ⟨not_not.mp hmode, name, descriptor, taken.heap, rfl, zeroedHeap_of_ends halloc,
          hdescriptor, fun hnil => ?_, fun hrefused => ?_, ?_⟩
        · rw [hnil] at hfind
          cases (ends_pure.mp hfind).1
        · rw [← hvolume, itemsRefused_iff] at hrefused
          obtain ⟨-, after, hnone⟩ := hrefused
          rw [hvolume] at hnone
          cases (hfind.unique hnone).1
        · rw [← hvolume]
          exact ((newFatItems_onHeap _ none).leaves taken _).mp ⟨_, middle, hvolume ▸ hfind, rfl⟩
  · rw [if_neg hlength] at h
    cases (ends_pure.mp h).1

/-- What comes to `file_new_descriptor` has opened an item, and has left that much of the heap. -/
theorem ComesToDescriptor.opensItem (h : ComesToDescriptor filename modeStr kernel middle)
    (hsound : HeapSound kernel.heap) :
    OpensItem kernel.volume filename modeStr kernel.heap middle.heap := by
  obtain ⟨root, parsed, opened, hparse, hchecks, hopen⟩ := h
  have hvolume : parsed.volume = kernel.volume :=
    ((pathparserParse_keeps filename).of_ends hparse : TakesMemory kernel parsed).volume
  have hsound' : StaysSound kernel parsed := (pathparserParse_keeps filename).of_ends hparse
  obtain ⟨hmode, name, descriptor, taken, hnames, hdescriptor, hne, hnamed, hmade, hleft⟩ :=
    fat16Open_item hopen fun hnil => hchecks.parts (List.map_eq_nil_iff.mp hnil)
  -- There is memory left, so no part is missing.
  obtain ⟨first, -, hfound⟩ := pathparserParse_found hparse hsound
  have hall : root.parts.map PathPart.text = scanned slash (filename.drop 3) := by
    refine hfound.exhausted.resolve_right fun hnone => hne ?_
    rcases zeroedHeap_single (hsound' hsound) (show 0 < fatFileDescriptorSize by decide) (by decide) with
      ⟨-, hnull⟩ | ⟨ptr, left, -, -, htaken, hcount⟩
    · exact (Prod.mk.inj (Option.some.inj (hdescriptor.symm.trans hnull))).1
    · exact absurd ((hcount 0).mpr (.zero htaken)) hnone
  rcases pathparserParse_cases hparse with ⟨hnone, -⟩ | ⟨address, second, hlength, hformat, halloc, hroot⟩
  · cases hnone
  obtain ⟨-, parts, hparts, heq⟩ := hroot.resolve_left fun hnull => by cases hnull.2.1
  obtain rfl := Option.some.inj heq
  have hone : parts.length = 1 := by
    rw [← List.length_map PathPart.text, hnames, List.length_singleton]
  have hheap : parsed.heap = parsedHeap 1 kernel.heap := by
    rw [pathparserParseParts_heap hparts hall (by rw [List.length_drop]; omega), hone,
      (ends_kzalloc halloc).2.1]
    rfl
  rw [hvolume] at hnamed hmade hleft
  rw [hheap] at hdescriptor
  exact ⟨hlength, hformat, hchecks.drive, hvolume ▸ hchecks.mounted, hmode, name, descriptor, taken,
    hall ▸ hnames, hdescriptor, hne, hnamed, hmade, hleft⟩

variable {volume : Volume} {heap left : Heap} {name : List UInt8} {count further : Nat}

theorem partsHeap_freeBlocks (hfree : FreeBlocks heap (2 * count + further + 1)) :
    FreeBlocks (partsHeap count heap) further := by
  induction count generalizing heap with
  | zero =>
      rw [Nat.mul_zero, Nat.zero_add] at hfree
      exact (hfree.malloc (show blockCount slobosMaxPath = 1 by decide)).2.release _
  | succ count ih =>
      rw [show 2 * (count + 1) + further + 1 = 2 * count + further + 1 + 1 + 1 by omega] at hfree
      have hbuffer := (hfree.malloc (show blockCount slobosMaxPath = 1 by decide)).2
      exact ih (hbuffer.malloc (show blockCount pathPartSize = 1 by decide)).2

/-- With two blocks for each file of that name and six others, one is left for the descriptor. -/
theorem OpensItem.left_block (h : OpensItem volume filename modeStr heap left)
    (hname : scanned slash (filename.drop 3) = [name])
    (hplain : ∀ item ∈ namedItems volume name, item.attributes &&& fatFileSubdirectory = 0)
    (hfree : FreeBlocks heap (2 * (namedItems volume name).length + 6)) : FreeBlocks left 1 := by
  obtain ⟨name', descriptor, taken, hname', hdescriptor, -, -, -, hleft⟩ := h.item
  obtain rfl : name' = name := List.singleton_inj.mp (hname'.symm.trans hname)
  have hroot := (hfree.malloc (show blockCount pathRootSize = 1 by decide)).2
  have hparsed : FreeBlocks (parsedHeap 1 heap) (2 * (namedItems volume name').length + 2) :=
    partsHeap_freeBlocks (hroot.mono (by omega))
  rcases zeroedHeap_single hparsed.toHeapSound (show 0 < fatFileDescriptorSize by decide) (by decide) with
    ⟨hnone, -⟩ | ⟨ptr, _, -, hserved, htaken, hcount⟩
  · exact absurd (hparsed.mono (by omega)) hnone
  cases hserved.symm.trans hdescriptor
  obtain ⟨left', hleft', -, hitems⟩ := @itemsHeap_plain _ _ volume htaken hplain
  cases hleft'.symm.trans hleft
  exact (hitems 0).mp ((hcount _).mp hparsed)

end Kernel

end SlobOS
