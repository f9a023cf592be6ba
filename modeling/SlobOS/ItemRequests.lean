import SlobOS.Proof.Files
import SlobOS.Proof.SingleBlocks

/-!
# What new items ask of the heap

A new item is a block for itself, the directory that a subdirectory is loaded into, and a block for the
copy of its entry. Which of these requests are served depends on the heap and on the disk only.
-/

namespace SlobOS

namespace Kernel

open Faulting

/-- The address that `kzalloc` returns and the heap that it leaves, where the memory that it clears ends
inside the address space. -/
def zeroedHeap (size : Nat) (heap : Heap) : Option (Nat × Heap) :=
  if (heapMalloc heap size).1 ≠ 0 ∧ addressSpace ≤ (heapMalloc heap size).1 + size then none
  else some (heapMalloc heap size)

def directorySize (volume : Volume) (item : FatDirectoryItem) : Nat :=
  (volume.totalItems item.firstCluster * fatDirectoryItemSize % addressSpace).toNat

/-- The heap behind the load of a subdirectory of that size. If it cannot be read as a whole, its blocks
are given back. -/
def directoryHeap (size : Nat) (volume : Volume) (item : FatDirectoryItem) (heap : Heap) :
    Option Heap :=
  (zeroedHeap fatDirectorySize heap).bind fun directory =>
    if directory.1 = 0 then some directory.2
    else (zeroedHeap size directory.2).bind fun items =>
      if items.1 = 0 then some (heapFree items.2 directory.1)
      else (volume.readInternal item.firstCluster 0 (toInt32 size)).bind fun read =>
        if read.1 ≠ slobosAllOk then some (heapFree (heapFree items.2 items.1) directory.1)
        else some items.2

def loadedHeap (volume : Volume) (item : FatDirectoryItem) (heap : Heap) : Option Heap :=
  if item.attributes &&& fatFileSubdirectory ≠ 0 then
    directoryHeap (directorySize volume item) volume item heap
  else some heap

def itemHeap (volume : Volume) (item : FatDirectoryItem) (heap : Heap) : Option Heap :=
  (zeroedHeap fatItemSize heap).bind fun fatItem =>
    if fatItem.1 = 0 then some fatItem.2
    else (loadedHeap volume item fatItem.2).bind fun loaded =>
      (zeroedHeap fatDirectoryItemSize loaded).map Prod.snd

def itemsHeap (volume : Volume) : List FatDirectoryItem → Heap → Option Heap
  | [], heap => some heap
  | item :: items, heap => (itemHeap volume item heap).bind (itemsHeap volume items)

def ItemFits (volume : Volume) (item : FatDirectoryItem) (heap : Heap) : Prop :=
  ∃ fatItem taken loaded clone left, zeroedHeap fatItemSize heap = some (fatItem, taken) ∧
    fatItem ≠ 0 ∧ loadedHeap volume item taken = some loaded ∧
      zeroedHeap fatDirectoryItemSize loaded = some (clone, left) ∧ clone ≠ 0

/-- There is memory for an item of the last entry and for the copy, behind the items of the others. -/
def ItemsFit (volume : Volume) (items : List FatDirectoryItem) (heap : Heap) : Prop :=
  ∃ earlier last left, items = earlier ++ [last] ∧ itemsHeap volume earlier heap = some left ∧
    ItemFits volume last left

def ItemsRefused (volume : Volume) (items : List FatDirectoryItem) (heap : Heap) : Prop :=
  ∃ earlier last left, items = earlier ++ [last] ∧ itemsHeap volume earlier heap = some left ∧
    (heapMalloc left fatItemSize).1 = 0

/-- New items are made of the entries, one after the other, and the last one is kept. -/
def newFatItems : List FatDirectoryItem → Option FatItem → KernelM (Option FatItem)
  | [], made => pure made
  | item :: items, _ => do
      let fatItem ← fat16NewFatItemForDirectoryItem item
      newFatItems items fatItem

theorem fat16FindItemInDirectory_eq (name : List UInt8) (items : List FatDirectoryItem)
    (found : Option FatItem) : fat16FindItemInDirectory name items found =
      newFatItems (items.filter fun item => istrncmpEqual item.fullRelativeFilename name) found := by
  induction items generalizing found with
  | nil => rfl
  | cons item items ih =>
      rw [fat16FindItemInDirectory]
      by_cases hname : istrncmpEqual item.fullRelativeFilename name = true
      · rw [if_pos hname, List.filter_cons, if_pos hname, newFatItems]
        congr 1
        funext fatItem
        exact ih fatItem
      · rw [if_neg hname, List.filter_cons, if_neg hname]
        exact ih found

variable {kernel after : Kernel} {heap : Heap} {item : FatDirectoryItem}
  {items : List FatDirectoryItem} {size ptr : Nat}

theorem zeroedHeap_of_ends (h : Ends (kzalloc size) kernel ptr after) :
    zeroedHeap size kernel.heap = some (ptr, after.heap) := by
  obtain ⟨rfl, hheap, -, hbelow⟩ := ends_kzalloc h
  rw [zeroedHeap, if_neg fun hover => ?_, hheap]
  have := hbelow hover.1
  omega

theorem zeroedHeap_ends (h : zeroedHeap size kernel.heap = some (ptr, heap)) :
    ∃ after, Ends (kzalloc size) kernel ptr after ∧ after.heap = heap := by
  rw [zeroedHeap] at h
  split at h
  · cases h
  next hover =>
    obtain ⟨rfl, rfl⟩ := Prod.mk.inj (Option.some.inj h)
    by_cases hnull : (heapMalloc kernel.heap size).1 = 0
    · refine ⟨{ kernel with heap := (heapMalloc kernel.heap size).2 }, ?_, rfl⟩
      refine ends_bind.mpr ⟨_, _, ends_kmalloc.mpr ⟨rfl, rfl⟩, ?_⟩
      rw [if_pos hnull]
      exact ends_pure.mpr ⟨hnull, rfl⟩
    · have hbelow : (heapMalloc kernel.heap size).1 + size < addressSpace := by
        by_contra hle
        exact hover ⟨hnull, by omega⟩
      exact ⟨_, kzalloc_ends hnull hbelow, rfl⟩

theorem TakesMemory.volume (h : TakesMemory kernel after) : after.volume = kernel.volume := by
  have hvolume := congrArg Kernel.volume h
  exact hvolume

/-- What the program leaves of the heap depends on the heap and the volume only, and is this. -/
structure OnHeap {α : Type} (program : KernelM α) (act : Volume → Heap → Option Heap) : Prop where
  keeps : Keeps TakesMemory program
  leaves : ∀ kernel heap, (∃ result after, Ends program kernel result after ∧ after.heap = heap) ↔
    act kernel.volume kernel.heap = some heap

namespace OnHeap

variable {α β : Type} {program program' : KernelM α} {next : α → KernelM β}
  {act act' : Volume → Heap → Option Heap}

theorem pure {value : α} : OnHeap (Pure.pure value : KernelM α) fun _ heap => some heap := by
  refine ⟨.pure, fun kernel heap => ?_⟩
  simp

theorem kfree (ptr : Nat) : OnHeap (Kernel.kfree ptr) fun _ heap => some (heapFree heap ptr) := by
  refine ⟨HeapFrame.kfree ptr, fun kernel heap => ?_⟩
  simp

theorem bind {last : Volume → Heap → Option Heap} (h : OnHeap program act)
    (h' : ∀ value, OnHeap (next value) last) :
    OnHeap (program >>= next) fun volume heap => (act volume heap).bind (last volume) := by
  refine ⟨.bind h.keeps fun value => (h' value).keeps, fun kernel heap => ?_⟩
  rw [Option.bind_eq_some_iff]
  constructor
  · rintro ⟨result, after, hends, rfl⟩
    obtain ⟨value, middle, hfirst, hnext⟩ := ends_bind.mp hends
    refine ⟨middle.heap, (h.leaves kernel _).mp ⟨value, middle, hfirst, rfl⟩, ?_⟩
    rw [← (h.keeps.of_ends hfirst).volume]
    exact ((h' value).leaves middle _).mp ⟨result, after, hnext, rfl⟩
  · rintro ⟨_, hfirst, hnext⟩
    obtain ⟨value, middle, hends, rfl⟩ := (h.leaves kernel _).mpr hfirst
    rw [← (h.keeps.of_ends hends).volume] at hnext
    obtain ⟨result, after, hends', rfl⟩ := ((h' value).leaves middle _).mpr hnext
    exact ⟨result, after, ends_bind.mpr ⟨value, middle, hends, hends'⟩, rfl⟩

theorem kzalloc {next : Nat → KernelM β} {last : Volume → Nat × Heap → Option Heap}
    (h : ∀ ptr, OnHeap (next ptr) fun volume heap => last volume (ptr, heap)) :
    OnHeap (Kernel.kzalloc size >>= next) fun volume heap => (zeroedHeap size heap).bind (last volume) := by
  have htakes : Keeps TakesMemory (Kernel.kzalloc size) := HeapFrame.kzalloc size
  refine ⟨.bind htakes fun ptr => (h ptr).keeps, fun kernel heap => ?_⟩
  rw [Option.bind_eq_some_iff]
  constructor
  · rintro ⟨result, after, hends, rfl⟩
    obtain ⟨ptr, middle, hfirst, hnext⟩ := ends_bind.mp hends
    refine ⟨_, zeroedHeap_of_ends hfirst, ?_⟩
    rw [← (htakes.of_ends hfirst).volume]
    exact ((h ptr).leaves middle _).mp ⟨result, after, hnext, rfl⟩
  · rintro ⟨⟨ptr, taken⟩, hserved, hnext⟩
    obtain ⟨middle, hends, rfl⟩ := zeroedHeap_ends hserved
    rw [← (htakes.of_ends hends).volume] at hnext
    obtain ⟨result, after, hends', rfl⟩ := ((h ptr).leaves middle _).mpr hnext
    exact ⟨result, after, ends_bind.mpr ⟨ptr, middle, hends, hends'⟩, rfl⟩

theorem read {cluster offset total : Int} {out : Nat} {next : Int → KernelM β}
    {last : Volume → Heap → Int × List UInt8 → Option Heap} (hne : out ≠ 0)
    (h : ∀ res bytes, OnHeap (next res) fun volume heap => last volume heap (res, bytes)) :
    OnHeap (fat16ReadInternal cluster offset total out >>= next) fun volume heap =>
      (volume.readInternal cluster offset total).bind (last volume heap) := by
  have htakes : Keeps TakesMemory (fat16ReadInternal cluster offset total out) :=
    fat16ReadInternal_keeps _ _ _ _
  refine ⟨.bind htakes fun res => (h res []).keeps, fun kernel heap => ?_⟩
  cases hread : kernel.volume.readInternal cluster offset total with
  | none =>
      refine iff_of_false ?_ (by simp)
      rintro ⟨result, after, hends, -⟩
      obtain ⟨_, _, hfirst, -⟩ := ends_bind.mp hends
      rw [fat16ReadInternal, ends_get_bind, hread] at hfirst
      exact ends_throw hfirst
  | some read =>
      obtain ⟨res, bytes⟩ := read
      have hends := ends_fat16ReadInternal hread hne
      simp only [hends.bind_iff]
      exact (h res bytes).leaves _ heap

theorem get {next : Kernel → KernelM β} {last : Volume → Volume → Heap → Option Heap}
    (h : ∀ kernel, OnHeap (next kernel) (last kernel.volume)) :
    OnHeap (MonadState.get >>= next) fun volume heap => last volume volume heap := by
  refine ⟨.bind .get fun kernel => (h kernel).keeps, fun kernel heap => ?_⟩
  simp only [ends_get_bind]
  exact (h kernel).leaves kernel heap

theorem ite {condition : Prop} [Decidable condition] (h : condition → OnHeap program act)
    (h' : ¬condition → OnHeap program' act') : OnHeap (if condition then program else program')
      fun volume heap => if condition then act volume heap else act' volume heap := by
  by_cases hcondition : condition
  · simp only [if_pos hcondition]
    exact h hcondition
  · simp only [if_neg hcondition]
    exact h' hcondition

theorem congr (h : OnHeap program act) (hact : ∀ volume heap, act volume heap = act' volume heap) :
    OnHeap program act' := by
  refine ⟨h.keeps, fun kernel heap => ?_⟩
  rw [h.leaves, hact]

end OnHeap

theorem fat16FreeDirectory_onHeap {directory directoryItem : Nat} (hdirectory : directory ≠ 0) :
    OnHeap (fat16FreeDirectory directory directoryItem) fun _ heap =>
      some (heapFree (if directoryItem = 0 then heap else heapFree heap directoryItem) directory) := by
  rw [fat16FreeDirectory, if_neg hdirectory]
  refine (OnHeap.ite (fun _ => .kfree directory) fun _ =>
    .bind (.kfree directoryItem) fun _ => .kfree directory).congr fun _ heap => ?_
  split <;> rfl

theorem fat16LoadFatDirectory_onHeap (hdirectory : item.attributes &&& fatFileSubdirectory ≠ 0) :
    OnHeap (fat16LoadFatDirectory item) fun volume heap =>
      directoryHeap (directorySize volume item) volume item heap := by
  refine @OnHeap.get _ _
    (fun first volume heap => directoryHeap (directorySize first item) volume item heap) fun kernel => ?_
  simp only [if_neg hdirectory]
  refine OnHeap.kzalloc fun directory => ?_
  dsimp only
  refine OnHeap.ite (fun _ => .pure) fun hne => ?_
  refine OnHeap.kzalloc fun directoryItem => ?_
  dsimp only
  refine OnHeap.ite (fun hnull => ?_) fun hne' => ?_
  · refine (OnHeap.bind (fat16FreeDirectory_onHeap hne) fun _ => .pure).congr fun _ heap => ?_
    rw [if_pos hnull]
    rfl
  · refine OnHeap.read hne' fun res bytes => ?_
    dsimp only
    refine OnHeap.ite (fun _ => ?_) fun _ => .pure
    refine (OnHeap.bind (fat16FreeDirectory_onHeap hne) fun _ => .pure).congr fun _ heap => ?_
    rw [if_neg hne']
    rfl

/-! ### New items -/

inductive ItemOutcome (volume : Volume) (item : FatDirectoryItem) (heap : Heap) :
    Option FatItem → Heap → Prop
  | refused {taken : Heap} : zeroedHeap fatItemSize heap = some (0, taken) →
      ItemOutcome volume item heap none taken
  | made {address clone : Nat} {taken loaded left : Heap} :
      zeroedHeap fatItemSize heap = some (address, taken) → address ≠ 0 →
      loadedHeap volume item taken = some loaded →
      zeroedHeap fatDirectoryItemSize loaded = some (clone, left) →
      ItemOutcome volume item heap (some { address := address, data := .file clone item }) left

theorem ends_copy {address : Nat} {result : Option FatItem} :
    (∃ after, Ends (if item.attributes &&& fatFileSubdirectory ≠ 0 then do
        let _ ← fat16LoadFatDirectory item
        let clone ← kzalloc fatDirectoryItemSize
        pure (some { address := address, data := .file clone item })
      else do
        let clone ← kzalloc fatDirectoryItemSize
        pure (some { address := address, data := .file clone item })) kernel result after ∧
      after.heap = heap) ↔
    ∃ loaded clone, loadedHeap kernel.volume item kernel.heap = some loaded ∧
      zeroedHeap fatDirectoryItemSize loaded = some (clone, heap) ∧
      result = some { address := address, data := .file clone item } := by
  by_cases hdirectory : item.attributes &&& fatFileSubdirectory ≠ 0
  · simp only [if_pos hdirectory, loadedHeap]
    have hleaves := (fat16LoadFatDirectory_onHeap hdirectory).leaves kernel
    constructor
    · rintro ⟨after, h, rfl⟩
      obtain ⟨data, middle, hload, h⟩ := ends_bind.mp h
      obtain ⟨clone, last, hclone, h⟩ := ends_bind.mp h
      obtain ⟨rfl, rfl⟩ := ends_pure.mp h
      exact ⟨middle.heap, clone, (hleaves _).mp ⟨data, middle, hload, rfl⟩,
        zeroedHeap_of_ends hclone, rfl⟩
    · rintro ⟨loaded, clone, hload, hclone, rfl⟩
      obtain ⟨data, middle, hends, rfl⟩ := (hleaves _).mpr hload
      obtain ⟨after, hends', rfl⟩ := zeroedHeap_ends hclone
      exact ⟨after, ends_bind.mpr ⟨data, middle, hends, ends_bind.mpr ⟨clone, after, hends',
        ends_pure.mpr ⟨rfl, rfl⟩⟩⟩, rfl⟩
  · simp only [if_neg hdirectory, loadedHeap, Option.some.injEq]
    constructor
    · rintro ⟨after, h, rfl⟩
      obtain ⟨clone, last, hclone, h⟩ := ends_bind.mp h
      obtain ⟨rfl, rfl⟩ := ends_pure.mp h
      exact ⟨kernel.heap, clone, rfl, zeroedHeap_of_ends hclone, rfl⟩
    · rintro ⟨_, clone, rfl, hclone, rfl⟩
      obtain ⟨after, hends, rfl⟩ := zeroedHeap_ends hclone
      exact ⟨after, ends_bind.mpr ⟨clone, after, hends, ends_pure.mpr ⟨rfl, rfl⟩⟩, rfl⟩

theorem fat16NewFatItem_outcome {result : Option FatItem} :
    (∃ after, Ends (fat16NewFatItemForDirectoryItem item) kernel result after ∧ after.heap = heap) ↔
      ItemOutcome kernel.volume item kernel.heap result heap := by
  constructor
  · rintro ⟨after, h, rfl⟩
    obtain ⟨address, first, hfirst, h⟩ := ends_bind.mp h
    have htaken := zeroedHeap_of_ends hfirst
    have hvolume := (ends_kzalloc hfirst).2.2.1.volume
    rw [ends_ite] at h
    rcases h with ⟨rfl, h⟩ | ⟨hne, h⟩
    · obtain ⟨rfl, rfl⟩ := ends_pure.mp h
      exact .refused htaken
    · obtain ⟨loaded, clone, hload, hclone, rfl⟩ := ends_copy.mp ⟨after, h, rfl⟩
      exact .made htaken hne (hvolume ▸ hload) hclone
  · intro h
    cases h with
    | refused htaken =>
        obtain ⟨after, hends, rfl⟩ := zeroedHeap_ends htaken
        refine ⟨after, ends_bind.mpr ⟨0, after, hends, ?_⟩, rfl⟩
        rw [if_pos rfl]
        exact ends_pure.mpr ⟨rfl, rfl⟩
    | @made address clone _ loaded _ htaken hne hload hclone =>
        obtain ⟨first, hends, rfl⟩ := zeroedHeap_ends htaken
        have hvolume := (ends_kzalloc hends).2.2.1.volume
        obtain ⟨after, hends', hheap⟩ := (@ends_copy first heap item address _).mpr
          ⟨loaded, clone, hvolume ▸ hload, hclone, rfl⟩
        refine ⟨after, ends_bind.mpr ⟨address, first, hends, ?_⟩, hheap⟩
        rw [if_neg hne]
        exact hends'

theorem itemHeap_eq_some {volume : Volume} {left : Heap} :
    itemHeap volume item heap = some left ↔ ∃ result, ItemOutcome volume item heap result left := by
  rw [itemHeap, Option.bind_eq_some_iff]
  constructor
  · rintro ⟨⟨address, taken⟩, htaken, h⟩
    by_cases hnull : address = 0
    · subst hnull
      obtain rfl := Option.some.inj ((if_pos rfl).symm.trans h)
      exact ⟨none, .refused htaken⟩
    · rw [if_neg hnull, Option.bind_eq_some_iff] at h
      obtain ⟨loaded, hload, h⟩ := h
      obtain ⟨⟨clone, _⟩, hclone, rfl⟩ := Option.map_eq_some_iff.mp h
      exact ⟨_, .made htaken hnull hload hclone⟩
  · rintro ⟨result, h⟩
    cases h with
    | refused htaken => exact ⟨_, htaken, if_pos rfl⟩
    | made htaken hne hload hclone =>
        refine ⟨_, htaken, ?_⟩
        rw [if_neg hne, hload, Option.bind_some, hclone]
        rfl

theorem fat16NewFatItem_onHeap (item : FatDirectoryItem) :
    OnHeap (fat16NewFatItemForDirectoryItem item) (itemHeap · item) := by
  refine ⟨fat16NewFatItem_keeps item, fun kernel heap => ?_⟩
  rw [itemHeap_eq_some]
  exact exists_congr fun _ => fat16NewFatItem_outcome

theorem newFatItems_onHeap (items : List FatDirectoryItem) (made : Option FatItem) :
    OnHeap (newFatItems items made) (itemsHeap · items) := by
  induction items generalizing made with
  | nil => exact .pure
  | cons item items ih => exact .bind (fat16NewFatItem_onHeap item) ih

theorem newFatItems_snoc (last : FatDirectoryItem) (made : Option FatItem) :
    newFatItems (items ++ [last]) made =
      newFatItems items made >>= fun _ => fat16NewFatItemForDirectoryItem last := by
  induction items generalizing made with
  | nil => simp [newFatItems]
  | cons item items ih => simp [newFatItems, ih]

theorem newFatItems_outcome {last : FatDirectoryItem} {made result : Option FatItem} :
    (∃ after, Ends (newFatItems (items ++ [last]) made) kernel result after) ↔
      ∃ left heap, itemsHeap kernel.volume items kernel.heap = some left ∧
        ItemOutcome kernel.volume last left result heap := by
  have hearlier := newFatItems_onHeap items made
  rw [newFatItems_snoc]
  constructor
  · rintro ⟨after, h⟩
    obtain ⟨_, middle, hmade, hlast⟩ := ends_bind.mp h
    refine ⟨middle.heap, after.heap, (hearlier.leaves kernel _).mp ⟨_, middle, hmade, rfl⟩, ?_⟩
    rw [← (hearlier.keeps.of_ends hmade).volume]
    exact fat16NewFatItem_outcome.mp ⟨after, hlast, rfl⟩
  · rintro ⟨left, heap, hleft, houtcome⟩
    obtain ⟨_, middle, hmade, rfl⟩ := (hearlier.leaves kernel _).mpr hleft
    rw [← (hearlier.keeps.of_ends hmade).volume] at houtcome
    obtain ⟨after, hlast, -⟩ := fat16NewFatItem_outcome.mpr houtcome
    exact ⟨after, ends_bind.mpr ⟨_, middle, hmade, hlast⟩⟩

theorem itemsFit_iff {made : Option FatItem} : ItemsFit kernel.volume items kernel.heap ↔
    ∃ address clone item after, Ends (newFatItems items made) kernel
      (some { address := address, data := .file clone item }) after ∧ items ≠ [] ∧ clone ≠ 0 := by
  constructor
  · rintro ⟨earlier, last, left, rfl, hleft, address, taken, loaded, clone, heap, htaken, hne, hload, hclone,
      hcopy⟩
    obtain ⟨after, hends⟩ := (@newFatItems_outcome kernel earlier last made _).mpr
      ⟨left, heap, hleft, .made htaken hne hload hclone⟩
    exact ⟨address, clone, last, after, hends, by simp, hcopy⟩
  · rintro ⟨address, clone, item, after, hends, hne, hcopy⟩
    obtain ⟨earlier, last, rfl⟩ := (List.eq_nil_or_concat' items).resolve_left hne
    obtain ⟨left, heap, hleft, houtcome⟩ := newFatItems_outcome.mp ⟨after, hends⟩
    cases houtcome with
    | made htaken haddress hload hclone =>
        exact ⟨earlier, item, left, rfl, hleft, _, _, _, _, _, htaken, haddress, hload, hclone, hcopy⟩

theorem itemsRefused_iff {made : Option FatItem} : ItemsRefused kernel.volume items kernel.heap ↔
    items ≠ [] ∧ ∃ after, Ends (newFatItems items made) kernel none after := by
  constructor
  · rintro ⟨earlier, last, left, rfl, hleft, hnull⟩
    have htaken : zeroedHeap fatItemSize left = some (0, (heapMalloc left fatItemSize).2) := by
      rw [zeroedHeap, if_neg fun hover => hover.1 hnull]
      exact congrArg some (Prod.ext hnull rfl)
    exact ⟨by simp, newFatItems_outcome.mpr ⟨left, _, hleft, .refused htaken⟩⟩
  · rintro ⟨hne, hends⟩
    obtain ⟨earlier, last, rfl⟩ := (List.eq_nil_or_concat' items).resolve_left hne
    obtain ⟨left, heap, hleft, houtcome⟩ := newFatItems_outcome.mp hends
    cases houtcome with
    | refused htaken =>
        refine ⟨earlier, last, left, rfl, hleft, ?_⟩
        rw [zeroedHeap] at htaken
        split at htaken
        · cases htaken
        · exact (Prod.mk.inj (Option.some.inj htaken)).1

theorem zeroedHeap_single (hsound : HeapSound heap) (hpos : 0 < size)
    (hsize : size ≤ slobosHeapBlockSize) :
    (¬FreeBlocks heap 1 ∧ zeroedHeap size heap = some (0, heap)) ∨ ∃ ptr taken, ptr ≠ 0 ∧
      zeroedHeap size heap = some (ptr, taken) ∧ HeapSound taken ∧
        ∀ count, FreeBlocks heap (count + 1) ↔ FreeBlocks taken count := by
  rcases heapMalloc_single hsound (blockCount_one hpos hsize) with ⟨hnone, hnull⟩ | ⟨block, hptr, htakes⟩
  · refine Or.inl ⟨hnone, ?_⟩
    rw [zeroedHeap, if_neg fun hover => hover.1 hnull]
    exact congrArg some (Prod.ext hnull (heapMalloc_null hsound hnull))
  · have hne : (heapMalloc heap size).1 ≠ 0 := hptr ▸ hsound.block_ne_null htakes.lt
    have hbelow := hsound.malloc_below hsize hne
    refine Or.inr ⟨_, _, hne, if_neg fun hover => ?_, hsound.malloc size,
      fun count => htakes.freeBlocks_iff hsound (hsound.malloc size)⟩
    omega

variable {volume : Volume}

theorem itemFits_plain (hsound : HeapSound heap) (hplain : item.attributes &&& fatFileSubdirectory = 0) :
    ItemFits volume item heap ↔ FreeBlocks heap 2 := by
  have hloaded : ∀ heap, loadedHeap volume item heap = some heap := fun _ =>
    if_neg (not_not.mpr hplain)
  simp only [ItemFits, hloaded]
  rcases zeroedHeap_single hsound (show 0 < fatItemSize by decide) (by decide) with
    ⟨hnone, hzero⟩ | ⟨ptr, taken, hne, hserved, htaken, hleft⟩
  · rw [hzero]
    refine iff_of_false ?_ fun hfree => hnone (hfree.mono (by decide))
    rintro ⟨_, _, _, _, _, heq, hne, -⟩
    cases heq
    exact hne rfl
  rw [hserved, hleft 1]
  rcases zeroedHeap_single htaken (show 0 < fatDirectoryItemSize by decide) (by decide) with
    ⟨hnone, hzero⟩ | ⟨clone, left, hclone, hcopied, hsound', hleft'⟩
  · refine iff_of_false ?_ hnone
    rintro ⟨_, _, _, _, _, heq, -, hload, hcopy, hne'⟩
    cases heq
    cases hload
    rw [hzero] at hcopy
    cases hcopy
    exact hne' rfl
  · refine iff_of_true ⟨ptr, taken, taken, clone, left, rfl, hne, rfl, hcopied, hclone⟩ ?_
    exact (hleft' 0).mpr (.zero hsound')

theorem itemHeap_plain (hsound : HeapSound heap) (hplain : item.attributes &&& fatFileSubdirectory = 0) :
    ∃ left, itemHeap volume item heap = some left ∧ HeapSound left ∧
      ∀ count, FreeBlocks heap (count + 3) ↔ FreeBlocks left (count + 1) := by
  have hloaded : ∀ heap, loadedHeap volume item heap = some heap := fun _ =>
    if_neg (not_not.mpr hplain)
  rcases zeroedHeap_single hsound (show 0 < fatItemSize by decide) (by decide) with
    ⟨hnone, hzero⟩ | ⟨ptr, taken, hne, hserved, htaken, hleft⟩
  · refine ⟨heap, ?_, hsound, fun count => iff_of_false (fun hfree => hnone (hfree.mono (by omega)))
      fun hfree => hnone (hfree.mono (by omega))⟩
    rw [itemHeap, hzero]
    rfl
  rcases zeroedHeap_single htaken (show 0 < fatDirectoryItemSize by decide) (by decide) with
    ⟨hnone, hzero⟩ | ⟨clone, left, -, hcopied, hsound', hleft'⟩
  · refine ⟨taken, ?_, htaken, fun count => ?_⟩
    · simp only [itemHeap, hserved, Option.bind_some, if_neg hne, hloaded, hzero]
      rfl
    · rw [hleft]
      exact iff_of_false (fun hfree => hnone (hfree.mono (by omega)))
        fun hfree => hnone (hfree.mono (by omega))
  · refine ⟨left, ?_, hsound', fun count => ?_⟩
    · simp only [itemHeap, hserved, Option.bind_some, if_neg hne, hloaded, hcopied]
      rfl
    · rw [hleft, hleft']

theorem itemsHeap_plain (hsound : HeapSound heap)
    (hplain : ∀ item ∈ items, item.attributes &&& fatFileSubdirectory = 0) :
    ∃ left, itemsHeap volume items heap = some left ∧ HeapSound left ∧
      ∀ count, FreeBlocks heap (2 * items.length + count + 1) ↔ FreeBlocks left (count + 1) := by
  induction items generalizing heap with
  | nil => exact ⟨heap, rfl, hsound, fun count => by rw [List.length_nil, Nat.mul_zero, Nat.zero_add]⟩
  | cons item items ih =>
      obtain ⟨middle, hfirst, hmiddle, hcount⟩ :=
        @itemHeap_plain _ _ volume hsound (hplain item List.mem_cons_self)
      obtain ⟨left, hlast, hleft, hcount'⟩ :=
        ih hmiddle fun item hitem => hplain item (List.mem_cons_of_mem _ hitem)
      refine ⟨left, ?_, hleft, fun count => ?_⟩
      · rw [itemsHeap, hfirst, Option.bind_some, hlast]
      · rw [← hcount', List.length_cons, ← hcount]
        rw [show 2 * (items.length + 1) + count + 1 = 2 * items.length + count + 3 by omega]

theorem itemsFit_plain (hsound : HeapSound heap) (hne : items ≠ [])
    (hplain : ∀ item ∈ items, item.attributes &&& fatFileSubdirectory = 0) :
    ItemsFit volume items heap ↔ FreeBlocks heap (2 * items.length) := by
  obtain ⟨earlier, last, rfl⟩ := (List.eq_nil_or_concat' items).resolve_left hne
  obtain ⟨left, hearlier, hleft, hcount⟩ := @itemsHeap_plain _ earlier volume hsound
    fun item hitem => hplain item (List.mem_append_left _ hitem)
  have hlength : 2 * (earlier ++ [last]).length = 2 * earlier.length + 1 + 1 := by
    rw [List.length_append, List.length_singleton]
    omega
  rw [hlength, hcount, ← itemFits_plain hleft (hplain last (by simp))]
  constructor
  · rintro ⟨earlier', last', left', heq, hearlier', hfits⟩
    obtain ⟨rfl, hlast⟩ := List.append_inj' heq rfl
    obtain rfl := List.singleton_inj.mp hlast
    obtain rfl := Option.some.inj (hearlier.symm.trans hearlier')
    exact hfits
  · exact fun hfits => ⟨earlier, last, left, rfl, hearlier, hfits⟩

end Kernel

end SlobOS
