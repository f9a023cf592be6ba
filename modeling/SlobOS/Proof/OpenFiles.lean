import SlobOS.Proof.Blocks
import SlobOS.Proof.Files
import SlobOS.Proof.SingleBlocks

/-!
# The blocks of an open file

Everything that a descriptor refers to lies in blocks of its own, one for each structure, so that
closing a file releases exactly these. A pointer to such a block guards every other block, also those
that are taken later.
-/

namespace SlobOS

structure Single (heap : Heap) (ptr block : Nat) : Prop extends Holds heap block where
  address : ptr = heapBlockToAddress heap block
  last : ¬HasNext (heap.table.entries block)

def NullOrSingle (heap : Heap) (ptr : Nat) : Prop := ptr ≠ 0 → ∃ block, Single heap ptr block

section Single

variable {heap after : Heap} {block ptr : Nat}

theorem Single.spares (h : Single heap ptr block) (hspares : Spares block heap after) :
    Single after ptr block := by
  have hsaddr : after.saddr = heap.saddr := hspares.holds.saddr.trans h.saddr.symm
  exact ⟨hspares.holds, by rw [heapBlockToAddress_congr hsaddr, h.address],
    by rw [hspares.kept]; exact h.last⟩

theorem Single.toBlock (h : Single heap ptr block) : heapAddressToBlock heap ptr = block := by
  rw [h.address, heapAddressToBlock_blockToAddress h.sized h.lt]

theorem Single.guards (h : Single heap ptr block) {other : Nat} (hne : other ≠ block) :
    Guards heap other ptr := by
  rw [Guards, h.toBlock]
  by_cases hlt : other < block
  · exact Or.inl (by omega)
  · exact Or.inr ⟨block, Int.le_refl _, by omega, h.last⟩

theorem Single.ne_of_guards (h : Single heap ptr block) {new : Nat} (hguards : Guards heap block new) :
    new ≠ ptr := by
  rintro rfl
  rw [Guards, h.toBlock] at hguards
  rcases hguards with hlt | ⟨k, hle, hlt, -⟩ <;> omega

theorem NullOrSingle.spares (h : NullOrSingle heap ptr)
    (hspares : ∀ block, Single heap ptr block → Spares block heap after) :
    NullOrSingle after ptr := by
  intro hne
  obtain ⟨block, hblock⟩ := h hne
  exact ⟨block, hblock.spares (hspares block hblock)⟩

end Single

namespace Kernel

open Faulting

variable {kernel after : Kernel} {block ptr size : Nat}

theorem kzalloc_single (hsound : HeapSound kernel.heap) (h : Ends (kzalloc size) kernel ptr after)
    (hpos : 0 < size) (hsize : size ≤ slobosHeapBlockSize) : NullOrSingle after.heap ptr := by
  intro hne
  have hone := blockCount_one hpos hsize
  obtain ⟨rfl, hheap, -, -⟩ := ends_kzalloc h
  obtain ⟨start, count, hgiven⟩ := heapMalloc_given hne
  obtain rfl : count = 1 := (hgiven.eq (hsound.end_le hgiven.lt size)).trans hone
  have hmarked := hgiven.marked
  rw [hheap, hgiven.address]
  refine ⟨start, ⟨hsound.malloc size, hmarked.total ▸ hgiven.lt, ?_⟩,
    (heapBlockToAddress_congr hmarked.saddr (start : Int)).symm, ?_⟩
  · exact not_isFree_of_eq_chainEntry (by rw [hmarked.entries, if_pos (by omega)])
  · rw [hmarked.entries, if_pos (by omega), Int.sub_self]
    decide

def privatePointers (fatDescriptor : Nat) (item : FatItem) : List Nat :=
  fatDescriptor :: item.address ::
    match item.data with
    | .directory directory directoryItem _ => [directory, directoryItem]
    | .file item _ => [item]

def filePointers (desc : Nat) (file : FileDescriptor) : List Nat :=
  desc :: privatePointers file.fatDescriptor file.item

/-- The item is a file, and both of its pointers are those of single blocks. -/
structure ItemOwned (heap : Heap) (item : FatItem) : Prop where
  address : NullOrSingle heap item.address
  data : ∃ fileItem contents, item.data = .file fileItem contents ∧ NullOrSingle heap fileItem

theorem fat16NewFatItem_owned {item : FatDirectoryItem} {result : Option FatItem}
    (h : Ends (fat16NewFatItemForDirectoryItem item) kernel result after)
    (hsound : HeapSound kernel.heap) : ∀ fatItem ∈ result, ItemOwned after.heap fatItem := by
  simp only [fat16NewFatItemForDirectoryItem, ends_bind] at h
  obtain ⟨address, first, hfirst, h⟩ := h
  have hsingle := kzalloc_single hsound hfirst (by decide) (by decide)
  rw [ends_ite] at h
  rcases h with ⟨-, h⟩ | ⟨hne, h⟩
  · obtain ⟨rfl, -⟩ := ends_pure.mp h
    simp
  obtain ⟨block, hblock⟩ := hsingle hne
  -- The clone is allocated last, in both branches.
  have hclone : ∀ {middle clone}, Spares block first.heap middle.heap →
      Ends (kzalloc fatDirectoryItemSize) middle clone after →
      ItemOwned after.heap { address := address, data := .file clone item } := by
    intro middle clone hspares halloc
    have hspares' := hspares.trans (kzalloc_spares halloc hspares.holds).1
    exact ⟨fun _ => ⟨block, hblock.spares hspares'⟩, clone, item, rfl,
      kzalloc_single hspares.holds.toHeapSound halloc (by decide) (by decide)⟩
  rw [ends_ite] at h
  simp only [ends_bind, ends_pure] at h
  rcases h with ⟨-, _, middle, hload, clone, _, halloc, rfl, rfl⟩ | ⟨-, clone, _, halloc, rfl, rfl⟩
  · intro fatItem hmem
    obtain rfl := Option.mem_some.mp hmem
    exact hclone (fat16LoadFatDirectory_spares hload hblock.toHolds) halloc
  · intro fatItem hmem
    obtain rfl := Option.mem_some.mp hmem
    exact hclone (.refl hblock.toHolds) halloc

theorem fat16FindItemInDirectory_owned {name : List UInt8} {items : List FatDirectoryItem}
    {found result : Option FatItem}
    (h : Ends (fat16FindItemInDirectory name items found) kernel result after)
    (hsound : HeapSound kernel.heap) (hfound : ∀ item ∈ found, ItemOwned kernel.heap item) :
    ∀ item ∈ result, ItemOwned after.heap item := by
  induction items generalizing kernel found with
  | nil =>
      obtain ⟨rfl, rfl⟩ := ends_pure.mp h
      exact hfound
  | cons item items ih =>
      rw [fat16FindItemInDirectory, ends_ite] at h
      rcases h with ⟨-, h⟩ | ⟨-, h⟩
      · obtain ⟨fatItem, middle, hnew, h⟩ := ends_bind.mp h
        have hsound' : StaysSound kernel middle := (fat16NewFatItem_keeps item).of_ends hnew
        exact ih h (hsound' hsound) (fat16NewFatItem_owned hnew hsound)
      · exact ih h hsound hfound

theorem fat16GetDirectoryEntry_owned {path : List (List UInt8)} {result : Option FatItem}
    (h : Ends (fat16GetDirectoryEntry path) kernel result after) (hsound : HeapSound kernel.heap) :
    ∀ item ∈ result, ItemOwned after.heap item := by
  rw [fat16GetDirectoryEntry, ends_get_bind, ends_bind] at h
  obtain ⟨rootItem, middle, hfind, h⟩ := h
  have howned := fat16FindItemInDirectory_owned hfind hsound (by simp)
  cases rootItem with
  | none =>
      obtain ⟨rfl, -⟩ := ends_pure.mp h
      simp
  | some rootItem =>
      have hroot := howned rootItem rfl
      obtain ⟨fileItem, contents, hdata, -⟩ := hroot.data
      change Ends (fat16GetDirectoryEntryLoop path.tail rootItem) middle result after at h
      cases htail : path.tail with
      | nil =>
          rw [htail] at h
          obtain ⟨rfl, rfl⟩ := ends_pure.mp h
          exact fun item hitem => Option.mem_some.mp hitem ▸ hroot
      | cons name names =>
          rw [htail, fat16GetDirectoryEntryLoop, hdata] at h
          obtain ⟨rfl, -⟩ := ends_pure.mp h
          simp

theorem fat16Open_owned {path : List (List UInt8)} {mode : FileMode} {descriptor : Nat}
    {item : FatItem} (h : Ends (fat16Open path mode) kernel (some (descriptor, item)) after)
    (hsound : HeapSound kernel.heap) :
    ∀ ptr ∈ privatePointers descriptor item, NullOrSingle after.heap ptr := by
  rw [fat16Open, ends_ite] at h
  rcases h with ⟨-, h⟩ | ⟨-, h⟩
  · cases (ends_pure.mp h).1
  obtain ⟨descriptor', first, hfirst, h⟩ := ends_bind.mp h
  have hsingle := kzalloc_single hsound hfirst (by decide) (by decide)
  rw [ends_ite] at h
  rcases h with ⟨-, h⟩ | ⟨-, h⟩
  · cases (ends_pure.mp h).1
  obtain ⟨found, second, hentry, h⟩ := ends_bind.mp h
  cases found with
  | none => cases (ends_pure.mp h).1
  | some found =>
      obtain ⟨heq, rfl⟩ := ends_pure.mp h
      cases heq
      have hsound' : HeapSound first.heap := by
        rw [(ends_kzalloc hfirst).2.1]
        exact hsound.malloc _
      obtain ⟨haddress, fileItem, contents, hdata, hfileItem⟩ :=
        fat16GetDirectoryEntry_owned hentry hsound' item rfl
      intro ptr hptr
      simp only [privatePointers, hdata, List.mem_cons, List.not_mem_nil, or_false] at hptr
      rcases hptr with rfl | rfl | rfl
      · exact hsingle.spares fun block hblock =>
          (fat16GetDirectoryEntry_spares hentry hblock.toHolds).1
      · exact haddress
      · exact hfileItem

theorem ItemGuarded.pointers {item : FatItem} (h : ItemGuarded kernel block item)
    {fatDescriptor : Nat} (hfat : Guards kernel.heap block fatDescriptor) :
    ∀ ptr ∈ privatePointers fatDescriptor item, Guards kernel.heap block ptr := by
  obtain ⟨address, data⟩ := item
  have hself := h.self
  have hdata := h.data
  cases data with
  | directory directory directoryItem items => simpa [privatePointers, hfat, hself] using hdata
  | file fileItem contents => simpa [privatePointers, hfat, hself] using hdata

theorem ends_fileNewDescriptor {slot desc : Nat}
    (h : Ends fileNewDescriptor kernel (some (slot, desc)) after) :
    kernel.fileFreeSlot = some slot ∧ ∃ middle,
      Ends (kzalloc fileDescriptorSize) kernel desc middle ∧
      after = setFileDescriptor slot desc (noteStore desc middle) := by
  rw [fileNewDescriptor, ends_get_bind] at h
  cases hfree : kernel.fileFreeSlot with
  | none =>
      rw [hfree] at h
      cases (ends_pure.mp h).1
  | some i =>
      rw [hfree] at h
      obtain ⟨desc', middle, halloc, h⟩ := ends_bind.mp h
      rw [ends_storeTo_bind, ends_modify_bind] at h
      obtain ⟨heq, rfl⟩ := ends_pure.mp h
      cases heq
      exact ⟨rfl, middle, halloc, rfl⟩

def slotPointers (kernel : Kernel) (slot : Nat) : List Nat :=
  filePointers (kernel.fileDescriptors slot) (kernel.files (kernel.fileDescriptors slot))

/-- Every slot that is taken has a descriptor with its own number, and what it refers to is in single
blocks, which no other slot shares. -/
structure FilesInv (kernel : Kernel) : Prop extends HeapSound kernel.heap where
  owned : ∀ slot < slobosMaxFileDescriptors, kernel.fileDescriptors slot ≠ 0 →
    ∀ ptr ∈ slotPointers kernel slot, NullOrSingle kernel.heap ptr
  disjoint : ∀ slot < slobosMaxFileDescriptors, ∀ slot' < slobosMaxFileDescriptors,
    kernel.fileDescriptors slot ≠ 0 → kernel.fileDescriptors slot' ≠ 0 → slot ≠ slot' →
    ∀ ptr ∈ slotPointers kernel slot, ptr ∈ slotPointers kernel slot' → ptr = 0
  index : ∀ slot < slobosMaxFileDescriptors, kernel.fileDescriptors slot ≠ 0 →
    (kernel.files (kernel.fileDescriptors slot)).index = slot + 1

theorem desc_mem_slotPointers (kernel : Kernel) (slot : Nat) :
    kernel.fileDescriptors slot ∈ slotPointers kernel slot := List.mem_cons_self

section Invariant

variable {slot desc : Nat} {file : FileDescriptor}

theorem FilesInv.spares (h : FilesInv kernel) (hsound : HeapSound after.heap)
    (hspares : ∀ block, Holds kernel.heap block → Spares block kernel.heap after.heap)
    (hdescriptors : after.fileDescriptors = kernel.fileDescriptors)
    (hfiles : ∀ desc ≠ 0, after.files desc = kernel.files desc) : FilesInv after := by
  have hpointers : ∀ slot, kernel.fileDescriptors slot ≠ 0 →
      slotPointers after slot = slotPointers kernel slot := fun slot hopen => by
    rw [slotPointers, slotPointers, hdescriptors, hfiles _ hopen]
  refine ⟨hsound, fun slot hslot hopen ptr hptr => ?_,
    fun slot hslot slot' hslot' hopen hopen' => ?_, fun slot hslot hopen => ?_⟩
  · rw [hdescriptors] at hopen
    rw [hpointers slot hopen] at hptr
    exact (h.owned slot hslot hopen ptr hptr).spares fun block hblock =>
      hspares block hblock.toHolds
  · rw [hdescriptors] at hopen hopen'
    rw [hpointers slot hopen, hpointers slot' hopen']
    exact h.disjoint slot hslot slot' hslot' hopen hopen'
  · rw [hdescriptors] at hopen ⊢
    rw [hfiles _ hopen]
    exact h.index slot hslot hopen

theorem FilesInv.takes (h : FilesInv kernel) (hsound : StaysSound kernel after)
    (hspares : ∀ block, Holds kernel.heap block → Spares block kernel.heap after.heap)
    (htakes : TakesMemory kernel after) : FilesInv after :=
  h.spares (hsound h.toHeapSound) hspares htakes.fileDescriptors fun desc _ =>
    congrFun htakes.files desc

def enterFile (slot desc : Nat) (file : FileDescriptor) (kernel : Kernel) : Kernel :=
  setFile desc file (setFileDescriptor slot desc kernel)

theorem slotPointers_enterFile_self :
    slotPointers (enterFile slot desc file kernel) slot = filePointers desc file := by
  simp only [slotPointers, enterFile, setFile, setFileDescriptor, if_true]

theorem enterFile_of_ne {slot' : Nat} (hne : slot' ≠ slot)
    (hdesc : kernel.fileDescriptors slot' ≠ desc) :
    (enterFile slot desc file kernel).fileDescriptors slot' = kernel.fileDescriptors slot' ∧
      (enterFile slot desc file kernel).files (kernel.fileDescriptors slot') =
        kernel.files (kernel.fileDescriptors slot') :=
  ⟨if_neg hne, if_neg hdesc⟩

theorem FilesInv.enter (h : FilesInv kernel) (hindex : file.index = slot + 1)
    (howned : ∀ ptr ∈ filePointers desc file, NullOrSingle kernel.heap ptr)
    (hfresh : ∀ slot' < slobosMaxFileDescriptors, kernel.fileDescriptors slot' ≠ 0 →
      ∀ ptr ∈ slotPointers kernel slot', ptr ∈ filePointers desc file → ptr = 0) :
    FilesInv (enterFile slot desc file kernel) := by
  have hother : ∀ slot' < slobosMaxFileDescriptors, slot' ≠ slot →
      (enterFile slot desc file kernel).fileDescriptors slot' ≠ 0 →
      kernel.fileDescriptors slot' ≠ 0 ∧
        (enterFile slot desc file kernel).fileDescriptors slot' = kernel.fileDescriptors slot' ∧
        (enterFile slot desc file kernel).files (kernel.fileDescriptors slot') =
          kernel.files (kernel.fileDescriptors slot') := by
    intro slot' hslot' hslot hopen
    have hopen' : kernel.fileDescriptors slot' ≠ 0 := by
      rwa [show (enterFile slot desc file kernel).fileDescriptors slot' = _ from if_neg hslot]
        at hopen
    refine ⟨hopen', enterFile_of_ne hslot fun heq => hopen' ?_⟩
    exact hfresh slot' hslot' hopen' _ (desc_mem_slotPointers kernel slot')
      (heq ▸ List.mem_cons_self)
  have hpointers : ∀ slot' < slobosMaxFileDescriptors, slot' ≠ slot →
      (enterFile slot desc file kernel).fileDescriptors slot' ≠ 0 →
      slotPointers (enterFile slot desc file kernel) slot' = slotPointers kernel slot' := by
    intro slot' hslot' hslot hopen
    obtain ⟨-, hdesc, hfile⟩ := hother slot' hslot' hslot hopen
    rw [slotPointers, slotPointers, hdesc, hfile]
  refine ⟨h.toHeapSound, fun slot' hslot' hopen ptr hptr => ?_,
    fun first hfirst second hsecond hopen hopen' hdiff ptr hptr hptr' => ?_,
    fun slot' hslot' hopen => ?_⟩
  · by_cases hslot : slot' = slot
    · rw [hslot, slotPointers_enterFile_self] at hptr
      exact howned ptr hptr
    · rw [hpointers slot' hslot' hslot hopen] at hptr
      exact h.owned slot' hslot' (hother slot' hslot' hslot hopen).1 ptr hptr
  · by_cases hslot : first = slot
    · have hslot' : second ≠ slot := fun heq => hdiff (hslot.trans heq.symm)
      rw [hslot, slotPointers_enterFile_self] at hptr
      rw [hpointers second hsecond hslot' hopen'] at hptr'
      exact hfresh second hsecond (hother second hsecond hslot' hopen').1 ptr hptr' hptr
    · rw [hpointers first hfirst hslot hopen] at hptr
      have hopen := (hother first hfirst hslot hopen).1
      by_cases hslot' : second = slot
      · rw [hslot', slotPointers_enterFile_self] at hptr'
        exact hfresh first hfirst hopen ptr hptr hptr'
      · rw [hpointers second hsecond hslot' hopen'] at hptr'
        have hopen' := (hother second hsecond hslot' hopen').1
        exact h.disjoint first hfirst second hsecond hopen hopen' hdiff ptr hptr hptr'
  · by_cases hslot : slot' = slot
    · subst hslot
      have hself : (enterFile slot' desc file kernel).fileDescriptors slot' = desc := if_pos rfl
      rw [hself]
      exact (congrArg FileDescriptor.index (if_pos rfl)).trans hindex
    · obtain ⟨hopen', hdesc, hfile⟩ := hother slot' hslot' hslot hopen
      rw [hdesc, hfile]
      exact h.index slot' hslot' hopen'

/-! ### Opening and closing -/

variable {fd : Int}

theorem fileGetDescriptor_eq {slot : Nat} (hslot : slot + 1 < slobosMaxFileDescriptors) :
    kernel.fileGetDescriptor (slot + 1) = kernel.fileDescriptors slot := by
  rw [fileGetDescriptor, if_neg (by omega)]
  exact congrArg kernel.fileDescriptors (by omega)

theorem fileGetDescriptor_ne_zero (h : kernel.fileGetDescriptor fd ≠ 0) :
    ∃ slot : Nat, fd = slot + 1 ∧ slot + 1 < slobosMaxFileDescriptors ∧
      kernel.fileGetDescriptor fd = kernel.fileDescriptors slot := by
  by_cases hrange : fd ≤ 0 ∨ fd ≥ slobosMaxFileDescriptors
  · exact absurd (if_pos hrange) h
  · refine ⟨(fd - 1).toNat, by omega, by omega, ?_⟩
    exact if_neg hrange

theorem FilesInv.guards (h : FilesInv kernel) {slot slot' : Nat}
    (hslot : slot < slobosMaxFileDescriptors) (hslot' : slot' < slobosMaxFileDescriptors)
    (hopen : kernel.fileDescriptors slot ≠ 0) (hopen' : kernel.fileDescriptors slot' ≠ 0)
    (hdiff : slot ≠ slot') (hptr : ptr ∈ slotPointers kernel slot') (hne : ptr ≠ 0)
    (hblock : Single kernel.heap ptr block) :
    ∀ released ∈ slotPointers kernel slot, Guards kernel.heap block released := by
  intro released hreleased
  by_cases hnull : released = 0
  · rw [hnull]
    exact hblock.toHolds.guards_null
  · obtain ⟨other, hother⟩ := h.owned slot hslot hopen released hreleased hnull
    refine hother.guards fun heq => hne ?_
    have hsame : released = ptr := by rw [hother.address, hblock.address, heq]
    exact h.disjoint slot hslot slot' hslot' hopen hopen' hdiff ptr (hsame ▸ hreleased) hptr

theorem FilesInv.closeGuarded (h : FilesInv kernel) {slot' : Nat}
    (hslot' : slot' < slobosMaxFileDescriptors) (hopen' : kernel.fileDescriptors slot' ≠ 0)
    (hdiff : fd ≠ slot' + 1) (hptr : ptr ∈ slotPointers kernel slot') (hne : ptr ≠ 0)
    (hblock : Single kernel.heap ptr block) : CloseGuarded kernel block fd := by
  intro hopen
  obtain ⟨slot, rfl, hslot, hget⟩ := fileGetDescriptor_ne_zero hopen
  rw [hget] at hopen
  have hguards := h.guards (by omega) hslot' hopen hopen' (by omega) hptr hne hblock
  unfold slotPointers filePointers privatePointers at hguards
  constructor
  · exact hget ▸ hguards _ (by simp)
  · exact hget ▸ hguards _ (by simp)
  · rw [hget]
    refine ⟨hguards _ (by simp), ?_⟩
    generalize (kernel.files (kernel.fileDescriptors slot)).item.data = data at hguards
    cases data with
    | directory directory directoryItem =>
        exact ⟨hguards _ (by simp), hguards _ (by simp)⟩
    | file item => exact hguards _ (by simp)

theorem ends_fclose (h : Ends (fclose fd) kernel () after) :
    after.files = kernel.files ∧ StaysSound kernel after ∧
      (kernel.fileGetDescriptor fd = 0 ∧ after.fileDescriptors = kernel.fileDescriptors ∨
        kernel.fileGetDescriptor fd ≠ 0 ∧ after.fileDescriptors = (setFileDescriptor
          ((kernel.files (kernel.fileGetDescriptor fd)).index - 1) 0 kernel).fileDescriptors) := by
  rw [fclose, ends_get_bind, ends_ite] at h
  rcases h with ⟨hnull, h⟩ | ⟨hne, h⟩
  · obtain ⟨-, rfl⟩ := ends_pure.mp h
    exact ⟨rfl, id, Or.inl ⟨hnull, rfl⟩⟩
  obtain ⟨_, middle, hfree, h⟩ := ends_bind.mp h
  have htakes : TakesMemory kernel middle := (fat16FatItemFree_keeps _).of_ends hfree
  have hsound : StaysSound kernel middle := (fat16FatItemFree_keeps _).of_ends hfree
  have hdescriptors := htakes.fileDescriptors
  simp only [ends_bind, ends_kfree, ends_modify, exists_eq_left, exists_const] at h
  subst h
  refine ⟨htakes.files, fun h => ((hsound h).free _).free _, Or.inr ⟨hne, ?_⟩⟩
  funext i
  exact congrArg (fun descriptors : Nat → Nat => if i = _ then 0 else descriptors i) hdescriptors

theorem FilesInv.fclose (h : FilesInv kernel) (hend : Ends (fclose fd) kernel () after) :
    FilesInv after ∧ after.files = kernel.files ∧
      ∀ slot < slobosMaxFileDescriptors, after.fileDescriptors slot =
        if fd = slot + 1 ∧ slot + 1 < slobosMaxFileDescriptors then 0
        else kernel.fileDescriptors slot := by
  obtain ⟨hfiles, hsound, hclose⟩ := ends_fclose hend
  have hslots : ∀ slot < slobosMaxFileDescriptors, after.fileDescriptors slot =
      if fd = slot + 1 ∧ slot + 1 < slobosMaxFileDescriptors then 0
      else kernel.fileDescriptors slot := by
    intro slot hslot
    rcases hclose with ⟨hnull, hdescriptors⟩ | ⟨hopen, hdescriptors⟩
    · rw [hdescriptors]
      split
      case isTrue hin =>
        obtain ⟨rfl, hlt⟩ := hin
        rwa [fileGetDescriptor_eq hlt] at hnull
      case isFalse => rfl
    · obtain ⟨closed, rfl, hclosed, hget⟩ := fileGetDescriptor_ne_zero hopen
      rw [hget] at hopen
      rw [hdescriptors, hget, h.index closed (by omega) hopen]
      simp only [setFileDescriptor]
      exact if_congr (by omega) rfl rfl
  have hkept : ∀ slot < slobosMaxFileDescriptors, after.fileDescriptors slot ≠ 0 →
      (fd ≠ slot + 1 ∨ kernel.fileGetDescriptor fd = 0) ∧
        after.fileDescriptors slot = kernel.fileDescriptors slot := by
    intro slot hslot hopen
    have hcell := hslots slot hslot
    split at hcell
    case isTrue => exact absurd hcell hopen
    case isFalse hout =>
      refine ⟨?_, hcell⟩
      by_contra hboth
      obtain ⟨heq, hne⟩ := not_or.mp hboth
      obtain ⟨slot', heq', hlt, -⟩ := fileGetDescriptor_ne_zero hne
      omega
  have hpointers : ∀ slot, after.fileDescriptors slot = kernel.fileDescriptors slot →
      slotPointers after slot = slotPointers kernel slot := fun slot hslot => by
    rw [slotPointers, slotPointers, hslot, hfiles]
  refine ⟨⟨hsound h.toHeapSound, fun slot hslot hopen ptr hptr hne => ?_,
    fun slot hslot slot' hslot' hopen hopen' => ?_, fun slot hslot hopen => ?_⟩, hfiles, hslots⟩
  · obtain ⟨hdiff, hcell⟩ := hkept slot hslot hopen
    rw [hpointers slot hcell] at hptr
    rw [hcell] at hopen
    obtain ⟨block, hblock⟩ := h.owned slot hslot hopen ptr hptr hne
    refine ⟨block, hblock.spares (fclose_spares hend hblock.toHolds ?_)⟩
    rcases hdiff with hdiff | hnull
    · exact h.closeGuarded hslot hopen hdiff hptr hne hblock
    · exact fun hget => absurd hnull hget
  · rw [hpointers slot (hkept slot hslot hopen).2, hpointers slot' (hkept slot' hslot' hopen').2]
    rw [(hkept slot hslot hopen).2] at hopen
    rw [(hkept slot' hslot' hopen').2] at hopen'
    exact h.disjoint slot hslot slot' hslot' hopen hopen'
  · obtain ⟨-, hcell⟩ := hkept slot hslot hopen
    rw [hcell] at hopen ⊢
    rw [hfiles]
    exact h.index slot hslot hopen

/-- What `file_new_descriptor` makes of the descriptors: a new one enters the first free slot, if there is
memory for it. Otherwise the number of the slot is returned, and the slot stays free. -/
inductive OpenResult (kernel : Kernel) (memory : Prop) : Int → Kernel → Prop
  | unfilled {slot : Nat} {after : Kernel} : ¬memory → kernel.fileFreeSlot = some slot →
      after.fileDescriptors = kernel.fileDescriptors →
      (∀ desc ≠ 0, after.files desc = kernel.files desc) →
      OpenResult kernel memory (slot + 1) after
  | opened {slot desc : Nat} {file : FileDescriptor} {after : Kernel} : memory →
      kernel.fileFreeSlot = some slot → desc ≠ 0 → file.index = slot + 1 →
      (∀ slot' < slobosMaxFileDescriptors, kernel.fileDescriptors slot' ≠ 0 →
        kernel.fileDescriptors slot' ≠ desc) →
      after.fileDescriptors = (enterFile slot desc file kernel).fileDescriptors →
      after.files = (enterFile slot desc file kernel).files →
      OpenResult kernel memory (slot + 1) after

theorem fileFreeSlot_congr (h : after.fileDescriptors = kernel.fileDescriptors) :
    after.fileFreeSlot = kernel.fileFreeSlot := by
  rw [fileFreeSlot, fileFreeSlot, h]

theorem fileFreeSlot_some {slot : Nat} (h : kernel.fileFreeSlot = some slot) :
    slot < slobosMaxFileDescriptors ∧ kernel.fileDescriptors slot = 0 ∧
      ∀ before < slot, kernel.fileDescriptors before ≠ 0 := by
  obtain ⟨hzero, hmem, hbefore⟩ := List.find?_range_eq_some.mp h
  exact ⟨List.mem_range.mp hmem, of_decide_eq_true hzero, fun before hlt => by
    simpa using hbefore before hlt⟩

theorem OpenResult.congr {first : Kernel} {memory : Prop} (h : OpenResult kernel memory fd after)
    (hdescriptors : kernel.fileDescriptors = first.fileDescriptors)
    (hfiles : kernel.files = first.files) : OpenResult first memory fd after := by
  cases h with
  | unfilled hmemory hfree hdescriptors' hfiles' =>
      exact .unfilled hmemory (by rw [← fileFreeSlot_congr hdescriptors, hfree])
        (hdescriptors'.trans hdescriptors) fun desc hne => hfiles ▸ hfiles' desc hne
  | opened hmemory hfree hne hindex hother hdescriptors' hfiles' =>
      refine .opened hmemory (by rw [← fileFreeSlot_congr hdescriptors, hfree]) hne hindex
        (hdescriptors ▸ hother) (hdescriptors'.trans ?_) (hfiles'.trans ?_)
      · simp only [enterFile, setFile, setFileDescriptor, hdescriptors]
      · simp only [enterFile, setFile, setFileDescriptor, hfiles]

theorem FilesInv.newDescriptor (h : FilesInv kernel) {slot desc fatDescriptor : Nat}
    {item : FatItem} (hnew : Ends fileNewDescriptor kernel (some (slot, desc)) after)
    (howned : ∀ ptr ∈ privatePointers fatDescriptor item, NullOrSingle kernel.heap ptr)
    (hfresh : ∀ slot' < slobosMaxFileDescriptors, kernel.fileDescriptors slot' ≠ 0 →
      ∀ ptr ∈ slotPointers kernel slot', ptr ∈ privatePointers fatDescriptor item → ptr = 0) :
    FilesInv (setFile desc
        { index := slot + 1, fatDescriptor := fatDescriptor, item := item, pos := 0 } after) ∧
      OpenResult kernel (FreeBlocks kernel.heap 1) (slot + 1) (setFile desc
        { index := slot + 1, fatDescriptor := fatDescriptor, item := item, pos := 0 } after) := by
  obtain ⟨hfree, alloc, halloc, rfl⟩ := ends_fileNewDescriptor hnew
  obtain ⟨-, hheap, htakes, -⟩ := ends_kzalloc halloc
  have hsound : HeapSound alloc.heap := hheap ▸ h.toHeapSound.malloc _
  have hspares : ∀ block, Holds kernel.heap block → Spares block kernel.heap alloc.heap :=
    fun _ hblock => (kzalloc_spares halloc hblock).1
  rcases kzalloc_oneBlock h.toHeapSound (by decide) (by decide) halloc with
    ⟨hnone, rfl, rfl⟩ | ⟨block, hne, -, htaken, -⟩
  · -- The slot was free, and a null pointer is entered.
    have hdescriptors : (setFileDescriptor slot 0 (noteStore 0 alloc)).fileDescriptors =
        alloc.fileDescriptors := by
      funext other
      simp only [setFileDescriptor, noteStore]
      split
      · next heq => rw [heq, (fileFreeSlot_some hfree).2.1]
      · rfl
    have hfiles : ∀ other ≠ 0, (setFile 0 { index := slot + 1, fatDescriptor, item, pos := 0 }
        (setFileDescriptor slot 0 (noteStore 0 alloc))).files other = alloc.files other :=
      fun other hother => if_neg hother
    exact ⟨h.spares hsound hspares hdescriptors hfiles, .unfilled hnone hfree hdescriptors hfiles⟩
  rw [noteStore_eq hne]
  have hmemory : FreeBlocks kernel.heap 1 :=
    (freeBlocks_one_iff h.toHeapSound).mpr ⟨block, htaken.lt, htaken.free⟩
  have hpointers : ∀ slot', slotPointers alloc slot' = slotPointers kernel slot' := fun slot' => by
    rw [slotPointers, slotPointers, htakes.fileDescriptors, htakes.files]
  have hfresh' : ∀ slot' < slobosMaxFileDescriptors, kernel.fileDescriptors slot' ≠ 0 →
      ∀ ptr ∈ slotPointers kernel slot', ptr ∈ filePointers desc
        { index := slot + 1, fatDescriptor := fatDescriptor, item := item, pos := 0 } → ptr = 0 := by
    intro slot' hslot' hopen ptr hptr hmem
    rcases List.mem_cons.mp hmem with rfl | hmem
    · by_contra hnull
      obtain ⟨block, hblock⟩ := h.owned slot' hslot' hopen ptr hptr hnull
      have hguards := (kzalloc_spares halloc hblock.toHolds).2
      exact (hblock.spares (hspares block hblock.toHolds)).ne_of_guards hguards rfl
    · exact hfresh slot' hslot' hopen ptr hptr hmem
  constructor
  · refine (h.takes (fun _ => hsound) hspares htakes).enter rfl (fun ptr hptr => ?_) ?_
    · rcases List.mem_cons.mp hptr with rfl | hptr
      · exact kzalloc_single h.toHeapSound halloc (by decide) (by decide)
      · exact (howned ptr hptr).spares fun block hblock => hspares block hblock.toHolds
    · intro slot' hslot' hopen ptr hptr
      rw [htakes.fileDescriptors] at hopen
      rw [hpointers] at hptr
      exact hfresh' slot' hslot' hopen ptr hptr
  · refine @OpenResult.opened kernel _ slot desc
      { index := slot + 1, fatDescriptor := fatDescriptor, item := item, pos := 0 } _
      hmemory hfree hne rfl (fun slot' hslot' hopen heq => hopen ?_) ?_ ?_
    · exact hfresh' slot' hslot' hopen _ (desc_mem_slotPointers kernel slot')
        (heq ▸ List.mem_cons_self)
    · simp only [enterFile, setFile, setFileDescriptor, htakes.fileDescriptors]
    · simp only [enterFile, setFile, setFileDescriptor, htakes.files]

def ComesToDescriptor (filename modeStr : List UInt8) (kernel middle : Kernel) : Prop :=
  ∃ root parsed opened, Ends (pathparserParse filename) kernel (some root) parsed ∧
    PassesChecks root parsed ∧
    Ends (fat16Open (root.parts.map PathPart.text) (fileGetModeByString modeStr)) parsed (some opened)
      middle

structure SameFiles (kernel after : Kernel) : Prop where
  descriptors : after.fileDescriptors = kernel.fileDescriptors
  files : after.files = kernel.files

theorem TakesMemory.sameFiles (h : TakesMemory kernel after) : SameFiles kernel after :=
  ⟨h.fileDescriptors, h.files⟩

theorem FilesInv.fopenParsed (h : FilesInv kernel) {rootPath : PathRoot} {modeStr : List UInt8}
    (hend : Ends (fopenParsed rootPath modeStr) kernel fd after) :
    FilesInv after ∧ (fd = 0 ∧ SameFiles kernel after ∨ ∃ opened middle,
      PassesChecks rootPath kernel ∧ Ends (fat16Open (rootPath.parts.map PathPart.text)
        (fileGetModeByString modeStr)) kernel (some opened) middle ∧
      OpenResult kernel (FreeBlocks middle.heap 1) fd after) := by
  have hdriver : ∀ {opened middle}, Ends (fat16Open (rootPath.parts.map PathPart.text)
      (fileGetModeByString modeStr)) kernel opened middle →
      FilesInv middle ∧ TakesMemory kernel middle := by
    intro opened middle hopen
    have htakes : TakesMemory kernel middle := (fat16Open_keeps _ _).of_ends hopen
    exact ⟨h.takes ((fat16Open_keeps _ _).of_ends hopen)
      (fun _ hblock => (fat16Open_spares hopen hblock).1) htakes, htakes⟩
  cases fopenParsed_cases hend with
  | refused => exact ⟨h, Or.inl ⟨rfl, rfl, rfl⟩⟩
  | notFound hopen =>
      obtain ⟨hmiddle, htakes⟩ := hdriver hopen
      exact ⟨hmiddle, Or.inl ⟨rfl, htakes.sameFiles⟩⟩
  | @noSlot opened middle _ hopen hnew =>
      obtain ⟨hmiddle, htakes⟩ := hdriver hopen
      obtain rfl : after = middle := by
        rw [fileNewDescriptor, ends_get_bind] at hnew
        cases hfree : middle.fileFreeSlot with
        | none =>
            rw [hfree] at hnew
            exact (ends_pure.mp hnew).2
        | some i =>
            rw [hfree] at hnew
            simp only [ends_bind, ends_pure, reduceCtorEq, false_and, and_false, exists_false] at hnew
      exact ⟨hmiddle, Or.inl ⟨rfl, htakes.sameFiles⟩⟩
  | @opened fatDescriptor slot desc item middle last hchecks hopen hnew =>
      obtain ⟨hmiddle, htakes⟩ := hdriver hopen
      -- What the driver has taken is not among the pointers of the files that are open.
      have hfresh : ∀ slot' < slobosMaxFileDescriptors, middle.fileDescriptors slot' ≠ 0 →
          ∀ ptr ∈ slotPointers middle slot', ptr ∈ privatePointers fatDescriptor item → ptr = 0 := by
        intro slot' hslot' hopen' ptr hptr hnew'
        by_contra hnull
        rw [slotPointers, htakes.fileDescriptors, htakes.files] at hptr
        rw [htakes.fileDescriptors] at hopen'
        obtain ⟨block, hblock⟩ := h.owned slot' hslot' hopen' ptr hptr hnull
        obtain ⟨hspares, hguards⟩ := fat16Open_spares hopen hblock.toHolds
        obtain ⟨hfat, hitem⟩ := hguards _ rfl
        exact (hblock.spares hspares).ne_of_guards (hitem.pointers hfat ptr hnew') rfl
      obtain ⟨hlast, hresult⟩ :=
        hmiddle.newDescriptor hnew (fat16Open_owned hopen h.toHeapSound) hfresh
      exact ⟨hlast, Or.inr ⟨_, middle, hchecks, hopen,
        hresult.congr htakes.fileDescriptors htakes.files⟩⟩

theorem FilesInv.fopen (h : FilesInv kernel) {filename modeStr : List UInt8}
    (hend : Ends (fopen filename modeStr) kernel fd after) :
    FilesInv after ∧ (fd = 0 ∧ SameFiles kernel after ∨ ∃ middle,
      ComesToDescriptor filename modeStr kernel middle ∧
      OpenResult kernel (FreeBlocks middle.heap 1) fd after) := by
  obtain ⟨rootPath, parsed, hparse, hend⟩ := ends_bind.mp hend
  have htakes : TakesMemory kernel parsed := (pathparserParse_keeps _).of_ends hparse
  have hparsed := h.takes ((pathparserParse_keeps _).of_ends hparse)
    (fun _ hblock => pathparserParse_spares hparse hblock) htakes
  cases rootPath with
  | none =>
      obtain ⟨rfl, rfl⟩ := ends_pure.mp hend
      exact ⟨hparsed, Or.inl ⟨rfl, htakes.sameFiles⟩⟩
  | some rootPath =>
      obtain ⟨hafter, ⟨rfl, hsame⟩ | ⟨opened, middle, hchecks, hopen, hresult⟩⟩ :=
        hparsed.fopenParsed hend
      · exact ⟨hafter, Or.inl ⟨rfl, hsame.descriptors.trans htakes.fileDescriptors,
          hsame.files.trans htakes.files⟩⟩
      · exact ⟨hafter, Or.inr ⟨middle, ⟨rootPath, parsed, opened, hparse, hchecks, hopen⟩,
          hresult.congr htakes.fileDescriptors htakes.files⟩⟩

end Invariant

end Kernel

end SlobOS
