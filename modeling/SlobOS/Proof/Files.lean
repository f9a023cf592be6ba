import SlobOS.Files
import SlobOS.Proof.Kernel

/-!
# Files and the blocks in use

Opening, reading and closing a file spares every block that was in use before, whatever the path, the
volume and the heap are like: what is given back on the way was taken on the way.
-/

namespace SlobOS

namespace Kernel

open Faulting

variable {kernel after : Kernel} {block : Nat}

def TakesFiles (kernel after : Kernel) : Prop :=
  after = { kernel with
    heap := after.heap, memory := after.memory, nullStores := after.nullStores
    fileDescriptors := after.fileDescriptors, files := after.files }

instance : Frame TakesFiles where
  refl _ := rfl
  trans h h' := by
    unfold TakesFiles at h h' ⊢
    rw [h', h]

theorem TakesMemory.takesFiles (h : TakesMemory kernel after) : TakesFiles kernel after := by
  unfold TakesMemory at h
  unfold TakesFiles
  rw [h]

/-- A frame of the allocator and of writes to memory is one of all that is built from them. -/
class HeapFrame (rel : Kernel → Kernel → Prop) : Prop extends Frame rel where
  kzalloc : ∀ size, Keeps rel (kzalloc size)
  kfree : ∀ ptr, Keeps rel (kfree ptr)
  writeBytes : ∀ ptr size bytes kernel, rel kernel (writeBytes ptr size bytes kernel)
  noteStore : ∀ ptr kernel, rel kernel (noteStore ptr kernel)

instance : HeapFrame TakesMemory where
  kzalloc _ := ⟨fun h => (ends_kzalloc h).2.2.1⟩
  kfree _ := .modify fun _ => rfl
  writeBytes _ _ _ _ := rfl
  noteStore _ _ := rfl

def StaysSound (kernel after : Kernel) : Prop := HeapSound kernel.heap → HeapSound after.heap

instance : HeapFrame StaysSound where
  refl _ := id
  trans h h' := h' ∘ h
  kzalloc size := ⟨fun h hsound => (ends_kzalloc h).2.1 ▸ hsound.malloc size⟩
  kfree ptr := .modify fun _ hsound => hsound.free ptr
  writeBytes _ _ _ _ := id
  noteStore _ _ := id

section Frames

variable {rel : Kernel → Kernel → Prop} [HeapFrame rel]

theorem deref_keeps (ptr : Nat) : Keeps rel (deref ptr) := .ite .throw .pure

theorem storeTo_keeps (ptr : Nat) : Keeps rel (storeTo ptr) := .modify (HeapFrame.noteStore ptr)

theorem writeBytes_keeps (ptr size : Nat) (bytes : Nat → UInt8) :
    Keeps rel (modify (writeBytes ptr size bytes) : KernelM Unit) :=
  .modify (HeapFrame.writeBytes ptr size bytes)

theorem pathparserGetPathPart_keeps (path : List UInt8) :
    Keeps rel (pathparserGetPathPart path) :=
  .bind (HeapFrame.kzalloc _) fun _ => .ite (.bind (HeapFrame.kfree _) fun _ => .pure)
    (.bind (storeTo_keeps _) fun _ => .bind (writeBytes_keeps _ _ _) fun _ => .pure)

theorem pathparserParsePathPart_keeps (path : List UInt8) :
    Keeps rel (pathparserParsePathPart path) :=
  .bind (pathparserGetPathPart_keeps path) fun _ => .ite .pure
    (.bind (HeapFrame.kzalloc _) fun _ => .bind (storeTo_keeps _) fun _ => .ite .pure .pure)

theorem pathparserParseParts_keeps (left : Nat) (path : List UInt8) :
    Keeps rel (pathparserParseParts left path) := by
  induction left generalizing path with
  | zero => exact .pure
  | succ left ih =>
      refine .bind (pathparserParsePathPart_keeps path) fun part => ?_
      obtain ⟨part, rest⟩ := part
      cases part with
      | none => exact .pure
      | some part => exact .bind (ih _) fun _ => .pure

theorem pathparserCreateRoot_keeps : Keeps rel pathparserCreateRoot :=
  .bind (HeapFrame.kzalloc _) fun _ => .bind (storeTo_keeps _) fun _ => .pure

theorem pathparserParse_keeps (path : List UInt8) : Keeps rel (pathparserParse path) :=
  .ite .pure (.ite .pure (.bind pathparserCreateRoot_keeps fun _ =>
    .ite .pure (.bind (pathparserParseParts_keeps _ _) fun _ => .pure)))

theorem fat16ReadInternal_keeps (cluster offset total : Int) (out : Nat) :
    Keeps rel (fat16ReadInternal cluster offset total out) := by
  refine .bind .get fun kernel => ?_
  cases kernel.volume.readInternal cluster offset total with
  | none => exact .throw
  | some read => exact .ite .throw (.bind (writeBytes_keeps _ _ _) fun _ => .pure)

theorem fat16FreeDirectory_keeps (directory item : Nat) :
    Keeps rel (fat16FreeDirectory directory item) :=
  .ite .pure (.ite (HeapFrame.kfree _) (.bind (HeapFrame.kfree _) fun _ => HeapFrame.kfree _))

theorem fat16FatItemFree_keeps (item : FatItem) : Keeps rel (fat16FatItemFree item) := by
  obtain ⟨address, data⟩ := item
  cases data with
  | directory => exact .bind (fat16FreeDirectory_keeps _ _) fun _ => HeapFrame.kfree _
  | file => exact .bind (HeapFrame.kfree _) fun _ => HeapFrame.kfree _

theorem fat16LoadFatDirectory_keeps (item : FatDirectoryItem) :
    Keeps rel (fat16LoadFatDirectory item) :=
  .bind .get fun _ => .ite .pure <| .bind (HeapFrame.kzalloc _) fun _ => .ite .pure <|
    .bind (HeapFrame.kzalloc _) fun _ => .ite (.bind (fat16FreeDirectory_keeps _ _) fun _ => .pure) <|
      .bind (fat16ReadInternal_keeps _ _ _ _) fun _ =>
        .ite (.bind (fat16FreeDirectory_keeps _ _) fun _ => .pure) .pure

theorem fat16NewFatItem_keeps (item : FatDirectoryItem) :
    Keeps rel (fat16NewFatItemForDirectoryItem item) :=
  .bind (HeapFrame.kzalloc _) fun _ => .ite .pure <| .ite
    (.bind (fat16LoadFatDirectory_keeps _) fun _ => .bind (HeapFrame.kzalloc _) fun _ => .pure)
    (.bind (HeapFrame.kzalloc _) fun _ => .pure)

theorem fat16FindItemInDirectory_keeps (name : List UInt8) (items : List FatDirectoryItem)
    (found : Option FatItem) : Keeps rel (fat16FindItemInDirectory name items found) := by
  induction items generalizing found with
  | nil => exact .pure
  | cons item items ih => exact .ite (.bind (fat16NewFatItem_keeps item) fun _ => ih _) (ih _)

theorem fat16GetDirectoryEntryLoop_keeps (path : List (List UInt8)) (item : FatItem) :
    Keeps rel (fat16GetDirectoryEntryLoop path item) := by
  induction path generalizing item with
  | nil => exact .pure
  | cons name path ih =>
      obtain ⟨address, data⟩ := item
      cases data with
      | file => exact .pure
      | directory =>
          refine .bind (fat16FindItemInDirectory_keeps _ _ _) fun tmpItem =>
            .bind (fat16FatItemFree_keeps _) fun _ => ?_
          cases tmpItem with
          | none => exact .ite .pure .throw
          | some tmpItem => exact ih tmpItem

theorem fat16Open_keeps (path : List (List UInt8)) (mode : FileMode) :
    Keeps rel (fat16Open path mode) := by
  refine .ite .pure <| .bind (HeapFrame.kzalloc _) fun _ => .ite .pure <| .bind (.bind .get fun _ =>
    .bind (fat16FindItemInDirectory_keeps _ _ _) fun rootItem => ?_) fun item => ?_
  · cases rootItem with
    | none => exact .pure
    | some rootItem => exact fat16GetDirectoryEntryLoop_keeps _ _
  · cases item <;> exact .pure

end Frames

def WritesMemory (kernel after : Kernel) : Prop := after = { kernel with memory := after.memory }

instance : Frame WritesMemory where
  refl _ := rfl
  trans h h' := by
    unfold WritesMemory at h h' ⊢
    rw [h', h]

theorem WritesMemory.takesMemory (h : WritesMemory kernel after) : TakesMemory kernel after := by
  unfold WritesMemory at h
  unfold TakesMemory
  rw [h]

theorem WritesMemory.heap (h : WritesMemory kernel after) : after.heap = kernel.heap := by
  have hheap := congrArg Kernel.heap h
  exact hheap

theorem fat16ReadInternal_writes (cluster offset total : Int) (out : Nat) :
    Keeps WritesMemory (fat16ReadInternal cluster offset total out) := by
  refine .bind .get fun kernel => ?_
  cases kernel.volume.readInternal cluster offset total with
  | none => exact .throw
  | some read => exact .ite .throw (.bind (.modify fun _ => rfl) fun _ => .pure)

theorem ends_fat16ReadInternal {cluster offset total res : Int} {out : Nat} {bytes : List UInt8}
    (hread : kernel.volume.readInternal cluster offset total = some (res, bytes)) (hne : out ≠ 0) :
    Ends (fat16ReadInternal cluster offset total out) kernel res
      (writeBytes out bytes.length (fun i => bytes.getD i 0) kernel) := by
  rw [fat16ReadInternal, ends_get_bind, hread]
  change Ends (if out = 0 ∧ bytes ≠ [] then _ else _) _ _ _
  rw [if_neg (fun h => hne h.1), ends_modify_bind]
  exact ends_pure.mpr ⟨rfl, rfl⟩

theorem fat16ReadMembers_writes (cluster : Int) (size left : Nat) (offset : Int) (out : Nat) :
    Keeps WritesMemory (fat16ReadMembers cluster size left offset out) := by
  induction left generalizing offset out with
  | zero => exact .pure
  | succ left ih =>
      exact .bind (fat16ReadInternal_writes _ _ _ _) fun _ => .ite .pure (ih _ _)

theorem fread_writes (ptr size nmemb : Nat) (fd : Int) :
    Keeps WritesMemory (fread ptr size nmemb fd) := by
  refine .ite .pure <| .bind .get fun kernel => .ite .pure ?_
  generalize (kernel.files (kernel.fileGetDescriptor fd)).item.data = data
  cases data with
  | directory => exact .throw
  | file item contents =>
      exact .bind (.ite .throw .pure) fun _ =>
        .bind (fat16ReadMembers_writes _ _ _ _ _) fun _ => .ite .pure .pure

theorem fileNewDescriptor_keeps : Keeps TakesFiles fileNewDescriptor := by
  refine .bind .get fun kernel => ?_
  cases kernel.fileFreeSlot with
  | none => exact .pure
  | some i =>
      exact .bind ((HeapFrame.kzalloc _).mono TakesMemory.takesFiles) fun _ =>
        .bind ((storeTo_keeps _).mono TakesMemory.takesFiles) fun _ =>
          .bind (.modify fun _ => rfl) fun _ => .pure

theorem fopenParsed_keeps (rootPath : PathRoot) (modeStr : List UInt8) :
    Keeps TakesFiles (fopenParsed rootPath modeStr) := by
  refine .ite .pure <| .ite .pure <| .bind .get fun _ => .ite .pure <| .ite .pure <|
    .bind ((fat16Open_keeps _ _).mono TakesMemory.takesFiles) fun opened => ?_
  cases opened with
  | none => exact .pure
  | some opened =>
      refine .bind fileNewDescriptor_keeps fun created => ?_
      cases created with
      | none => exact .pure
      | some created => exact .bind (.modify fun _ => rfl) fun _ => .pure

theorem fopen_keeps (filename modeStr : List UInt8) : Keeps TakesFiles (fopen filename modeStr) := by
  refine .bind ((pathparserParse_keeps filename).mono TakesMemory.takesFiles) fun rootPath => ?_
  cases rootPath with
  | none => exact .pure
  | some rootPath => exact fopenParsed_keeps _ _

theorem fclose_keeps (fd : Int) : Keeps TakesFiles (fclose fd) :=
  .bind .get fun _ => .ite .pure <|
    .bind ((fat16FatItemFree_keeps _).mono TakesMemory.takesFiles) fun _ =>
      .bind ((HeapFrame.kfree _).mono TakesMemory.takesFiles) fun _ => .bind (.modify fun _ => rfl)
        fun _ => (HeapFrame.kfree _).mono TakesMemory.takesFiles

/-! ### Paths -/

section Paths

variable {path filename : List UInt8}

theorem pathparserGetPathPart_spares {result : Nat × List UInt8 × List UInt8}
    (h : Ends (pathparserGetPathPart path) kernel result after) (hblock : Holds kernel.heap block) :
    Spares block kernel.heap after.heap := by
  simp only [pathparserGetPathPart, ends_bind] at h
  obtain ⟨ptr, middle, halloc, h⟩ := h
  obtain ⟨hspares, hguards⟩ := kzalloc_spares halloc hblock
  rw [ends_ite] at h
  simp only [ends_bind, ends_kfree, ends_storeTo, ends_modify, ends_pure, exists_eq_left,
    exists_const] at h
  rcases h with ⟨-, -, rfl⟩ | ⟨-, -, rfl⟩
  · exact hspares.trans (hspares.holds.free hguards)
  · exact hspares

theorem pathparserParsePathPart_spares {result : Option PathPart × List UInt8}
    (h : Ends (pathparserParsePathPart path) kernel result after)
    (hblock : Holds kernel.heap block) : Spares block kernel.heap after.heap := by
  simp only [pathparserParsePathPart, ends_bind] at h
  obtain ⟨part, middle, hpart, h⟩ := h
  have hspares := pathparserGetPathPart_spares hpart hblock
  rw [ends_ite] at h
  rcases h with ⟨-, h⟩ | ⟨-, h⟩
  · obtain ⟨-, rfl⟩ := ends_pure.mp h
    exact hspares
  · obtain ⟨part, last, halloc, h⟩ := ends_bind.mp h
    rw [ends_storeTo_bind, ends_ite, ends_pure, ends_pure] at h
    rcases h with ⟨-, -, rfl⟩ | ⟨-, -, rfl⟩ <;>
      exact hspares.trans (kzalloc_spares halloc hspares.holds).1

theorem pathparserParseParts_spares {left : Nat} {result : List PathPart}
    (h : Ends (pathparserParseParts left path) kernel result after)
    (hblock : Holds kernel.heap block) : Spares block kernel.heap after.heap := by
  induction left generalizing kernel path result with
  | zero =>
      obtain ⟨-, rfl⟩ := ends_pure.mp h
      exact .refl hblock
  | succ left ih =>
      simp only [pathparserParseParts, ends_bind] at h
      obtain ⟨⟨part, rest⟩, middle, hpart, h⟩ := h
      have hspares := pathparserParsePathPart_spares hpart hblock
      cases part with
      | none =>
          obtain ⟨-, rfl⟩ := ends_pure.mp h
          exact hspares
      | some part =>
          simp only [ends_bind, ends_pure] at h
          obtain ⟨parts, last, hparts, -, rfl⟩ := h
          exact hspares.trans (ih hparts hspares.holds)

theorem ends_pathparserCreateRoot {result : Nat}
    (h : Ends pathparserCreateRoot kernel result after) :
    ∃ middle, Ends (kzalloc pathRootSize) kernel result middle ∧ after = noteStore result middle := by
  obtain ⟨ptr, middle, halloc, h⟩ := ends_bind.mp h
  rw [ends_storeTo_bind] at h
  obtain ⟨rfl, rfl⟩ := ends_pure.mp h
  exact ⟨middle, halloc, rfl⟩

theorem pathparserParse_cases {result : Option PathRoot}
    (h : Ends (pathparserParse filename) kernel result after) :
    (result = none ∧ after = kernel ∧
      (slobosMaxPath < filename.length ∨ pathparserPathValidFormat filename = false)) ∨
    ∃ root first, filename.length ≤ slobosMaxPath ∧
      pathparserPathValidFormat filename = true ∧ Ends (kzalloc pathRootSize) kernel root first ∧
      ((root = 0 ∧ result = none ∧ after = noteStore 0 first) ∨ (root ≠ 0 ∧ ∃ parts,
        Ends (pathparserParseParts (filename.length + 1) (filename.drop 3)) first parts after ∧
        result = some { address := root, driveNo := tonumericdigit (filename.headD 0), parts })) := by
  rw [pathparserParse, ends_ite, ends_ite] at h
  rcases h with ⟨hlength, h⟩ | ⟨hlength, ⟨hformat, h⟩ | ⟨hformat, h⟩⟩
  · obtain ⟨rfl, rfl⟩ := ends_pure.mp h
    exact Or.inl ⟨rfl, rfl, Or.inl hlength⟩
  · obtain ⟨rfl, rfl⟩ := ends_pure.mp h
    exact Or.inl ⟨rfl, rfl, Or.inr (by simpa using hformat)⟩
  obtain ⟨root, middle, hroot, h⟩ := ends_bind.mp h
  obtain ⟨first, halloc, rfl⟩ := ends_pathparserCreateRoot hroot
  refine Or.inr ⟨root, first, Nat.le_of_not_lt hlength, by simpa using hformat, halloc, ?_⟩
  rw [ends_ite] at h
  rcases h with ⟨rfl, h⟩ | ⟨hne, h⟩
  · exact Or.inl ⟨rfl, ends_pure.mp h⟩
  · obtain ⟨parts, last, hparts, h⟩ := ends_bind.mp h
    obtain ⟨rfl, rfl⟩ := ends_pure.mp h
    rw [noteStore_eq hne] at hparts
    exact Or.inr ⟨hne, parts, hparts, rfl⟩

theorem pathparserParse_spares {result : Option PathRoot}
    (h : Ends (pathparserParse filename) kernel result after) (hblock : Holds kernel.heap block) :
    Spares block kernel.heap after.heap := by
  rcases pathparserParse_cases h with ⟨-, rfl, -⟩ | ⟨root, first, -, -, halloc, h⟩
  · exact .refl hblock
  have hspares := (kzalloc_spares halloc hblock).1
  rcases h with ⟨-, -, rfl⟩ | ⟨-, parts, hparts, -⟩
  · exact hspares
  · exact hspares.trans (pathparserParseParts_spares hparts hspares.holds)

end Paths

/-! ### The driver -/

section Driver

structure ItemGuarded (kernel : Kernel) (block : Nat) (item : FatItem) : Prop where
  self : Guards kernel.heap block item.address
  data : match item.data with
    | .directory directory directoryItem _ =>
        Guards kernel.heap block directory ∧ Guards kernel.heap block directoryItem
    | .file fileItem _ => Guards kernel.heap block fileItem

theorem ItemGuarded.spares {item : FatItem} (h : ItemGuarded kernel block item)
    (hspares : Spares block kernel.heap after.heap) : ItemGuarded after block item := by
  obtain ⟨address, data⟩ := item
  refine ⟨hspares.guards _ h.self, ?_⟩
  have hdata := h.data
  cases data with
  | directory => exact ⟨hspares.guards _ hdata.1, hspares.guards _ hdata.2⟩
  | file => exact hspares.guards _ hdata

theorem fat16FreeDirectory_spares {directory item : Nat} {result : Unit}
    (h : Ends (fat16FreeDirectory directory item) kernel result after)
    (hblock : Holds kernel.heap block) (hdirectory : Guards kernel.heap block directory)
    (hitem : Guards kernel.heap block item) : Spares block kernel.heap after.heap := by
  unfold fat16FreeDirectory at h
  rw [ends_ite, ends_ite] at h
  simp only [ends_bind, ends_kfree, ends_pure, exists_eq_left, exists_const] at h
  rcases h with ⟨-, -, rfl⟩ | ⟨-, ⟨-, rfl⟩ | ⟨-, rfl⟩⟩
  · exact .refl hblock
  · exact hblock.free hdirectory
  · have hspares := hblock.free hitem
    exact hspares.trans (hspares.holds.free (hspares.guards _ hdirectory))

theorem fat16FatItemFree_spares {item : FatItem} {result : Unit}
    (h : Ends (fat16FatItemFree item) kernel result after) (hblock : Holds kernel.heap block)
    (hitem : ItemGuarded kernel block item) : Spares block kernel.heap after.heap := by
  obtain ⟨address, data⟩ := item
  have hdata := hitem.data
  cases data with
  | directory directory directoryItem items =>
      simp only [fat16FatItemFree, ends_bind, ends_kfree] at h
      obtain ⟨_, middle, hfree, rfl⟩ := h
      have hspares := fat16FreeDirectory_spares hfree hblock hdata.1 hdata.2
      exact hspares.trans (hspares.holds.free (hspares.guards _ hitem.self))
  | file fileItem contents =>
      simp only [fat16FatItemFree, ends_bind, ends_kfree, exists_eq_left, exists_const] at h
      subst h
      have hspares := hblock.free hdata
      exact hspares.trans (hspares.holds.free (hspares.guards _ hitem.self))

theorem fat16LoadFatDirectory_spares {item : FatDirectoryItem} {result : FatItemData}
    (h : Ends (fat16LoadFatDirectory item) kernel result after) (hblock : Holds kernel.heap block) :
    Spares block kernel.heap after.heap := by
  simp only [fat16LoadFatDirectory, ends_bind, ends_get, and_assoc, exists_eq_left,
    exists_and_left] at h
  rw [ends_ite] at h
  rcases h with ⟨-, h⟩ | ⟨-, h⟩
  · obtain ⟨-, rfl⟩ := ends_pure.mp h
    exact .refl hblock
  simp only [ends_bind] at h
  obtain ⟨directory, first, hfirst, h⟩ := h
  obtain ⟨hspares, hguards⟩ := kzalloc_spares hfirst hblock
  rw [ends_ite] at h
  rcases h with ⟨-, h⟩ | ⟨-, h⟩
  · obtain ⟨-, rfl⟩ := ends_pure.mp h
    exact hspares
  simp only [ends_bind] at h
  obtain ⟨directoryItem, second, hsecond, h⟩ := h
  obtain ⟨hspares', hguards'⟩ := kzalloc_spares hsecond hspares.holds
  have hboth := hspares.trans hspares'
  rw [ends_ite] at h
  rcases h with ⟨-, h⟩ | ⟨-, h⟩
  · simp only [ends_bind, ends_pure] at h
    obtain ⟨_, _, hfree, -, rfl⟩ := h
    exact hboth.trans (fat16FreeDirectory_spares hfree hboth.holds (hspares'.guards _ hguards)
      hguards')
  simp only [ends_bind] at h
  obtain ⟨res, third, hread, h⟩ := h
  have hheap := ((fat16ReadInternal_writes _ _ _ _).of_ends hread).heap
  rw [← hheap] at hboth hguards' hspares'
  rw [ends_ite] at h
  simp only [ends_bind, ends_pure] at h
  rcases h with ⟨-, _, _, hfree, -, rfl⟩ | ⟨-, -, rfl⟩
  · exact hboth.trans (fat16FreeDirectory_spares hfree hboth.holds (hspares'.guards _ hguards)
      hguards')
  · exact hboth

theorem fat16NewFatItem_spares {item : FatDirectoryItem} {result : Option FatItem}
    (h : Ends (fat16NewFatItemForDirectoryItem item) kernel result after)
    (hblock : Holds kernel.heap block) :
    Spares block kernel.heap after.heap ∧ ∀ fatItem ∈ result, ItemGuarded after block fatItem := by
  simp only [fat16NewFatItemForDirectoryItem, ends_bind] at h
  obtain ⟨address, first, hfirst, h⟩ := h
  obtain ⟨hspares, hguards⟩ := kzalloc_spares hfirst hblock
  rw [ends_ite] at h
  rcases h with ⟨-, h⟩ | ⟨-, h⟩
  · obtain ⟨rfl, rfl⟩ := ends_pure.mp h
    exact ⟨hspares, by simp⟩
  obtain ⟨second, clone, hsecond, hclone, rfl⟩ : ∃ second clone,
      Spares block first.heap second.heap ∧ Ends (kzalloc fatDirectoryItemSize) second clone after ∧
      result = some { address := address, data := .file clone item } := by
    rw [ends_ite] at h
    simp only [ends_bind, ends_pure] at h
    rcases h with ⟨-, _, second, hload, clone, _, hclone, rfl, rfl⟩ | ⟨-, clone, _, hclone, rfl, rfl⟩
    · exact ⟨second, clone, fat16LoadFatDirectory_spares hload hspares.holds, hclone, rfl⟩
    · exact ⟨first, clone, .refl hspares.holds, hclone, rfl⟩
  obtain ⟨hspares', hguards'⟩ := kzalloc_spares hclone hsecond.holds
  refine ⟨(hspares.trans hsecond).trans hspares', fun fatItem hitem => ?_⟩
  obtain rfl := Option.mem_some.mp hitem
  exact ⟨hspares'.guards _ (hsecond.guards _ hguards), hguards'⟩

theorem fat16FindItemInDirectory_spares {name : List UInt8} {items : List FatDirectoryItem}
    {found result : Option FatItem}
    (h : Ends (fat16FindItemInDirectory name items found) kernel result after)
    (hblock : Holds kernel.heap block) (hfound : ∀ item ∈ found, ItemGuarded kernel block item) :
    Spares block kernel.heap after.heap ∧ ∀ item ∈ result, ItemGuarded after block item := by
  induction items generalizing kernel found with
  | nil =>
      obtain ⟨rfl, rfl⟩ := ends_pure.mp h
      exact ⟨.refl hblock, hfound⟩
  | cons item items ih =>
      unfold fat16FindItemInDirectory at h
      rw [ends_ite] at h
      rcases h with ⟨-, h⟩ | ⟨-, h⟩
      · simp only [ends_bind] at h
        obtain ⟨fatItem, middle, hnew, h⟩ := h
        obtain ⟨hspares, hguarded⟩ := fat16NewFatItem_spares hnew hblock
        obtain ⟨hspares', hguarded'⟩ := ih h hspares.holds hguarded
        exact ⟨hspares.trans hspares', hguarded'⟩
      · exact ih h hblock hfound

theorem fat16GetDirectoryEntryLoop_spares {path : List (List UInt8)} {item : FatItem}
    {result : Option FatItem}
    (h : Ends (fat16GetDirectoryEntryLoop path item) kernel result after)
    (hblock : Holds kernel.heap block) (hitem : ItemGuarded kernel block item) :
    Spares block kernel.heap after.heap ∧ ∀ item ∈ result, ItemGuarded after block item := by
  induction path generalizing kernel item with
  | nil =>
      obtain ⟨rfl, rfl⟩ := ends_pure.mp h
      exact ⟨.refl hblock, fun _ hmem => Option.mem_some.mp hmem ▸ hitem⟩
  | cons name path ih =>
      obtain ⟨address, data⟩ := item
      cases data with
      | file =>
          obtain ⟨rfl, rfl⟩ := ends_pure.mp h
          exact ⟨.refl hblock, by simp⟩
      | directory directory directoryItem items =>
          simp only [fat16GetDirectoryEntryLoop, ends_bind] at h
          obtain ⟨tmpItem, first, hfind, _, second, hfree, h⟩ := h
          obtain ⟨hspares, hguarded⟩ := fat16FindItemInDirectory_spares hfind hblock (by simp)
          have hspares' := fat16FatItemFree_spares hfree hspares.holds (hitem.spares hspares)
          have hboth := hspares.trans hspares'
          cases tmpItem with
          | none =>
              rw [ends_ite] at h
              simp only [ends_pure, ends_throw, and_false, or_false] at h
              obtain ⟨-, rfl, rfl⟩ := h
              exact ⟨hboth, by simp⟩
          | some tmpItem =>
              obtain ⟨hspares'', hguarded''⟩ :=
                ih h hboth.holds ((hguarded tmpItem rfl).spares hspares')
              exact ⟨hboth.trans hspares'', hguarded''⟩

theorem fat16GetDirectoryEntry_spares {path : List (List UInt8)} {result : Option FatItem}
    (h : Ends (fat16GetDirectoryEntry path) kernel result after) (hblock : Holds kernel.heap block) :
    Spares block kernel.heap after.heap ∧ ∀ item ∈ result, ItemGuarded after block item := by
  rw [fat16GetDirectoryEntry, ends_get_bind] at h
  obtain ⟨rootItem, middle, hfind, h⟩ := ends_bind.mp h
  obtain ⟨hspares, hguarded⟩ := fat16FindItemInDirectory_spares hfind hblock (by simp)
  cases rootItem with
  | none =>
      obtain ⟨rfl, rfl⟩ := ends_pure.mp h
      exact ⟨hspares, by simp⟩
  | some rootItem =>
      obtain ⟨hspares', hguarded'⟩ :=
        fat16GetDirectoryEntryLoop_spares h hspares.holds (hguarded rootItem rfl)
      exact ⟨hspares.trans hspares', hguarded'⟩

theorem fat16Open_spares {path : List (List UInt8)} {mode : FileMode}
    {result : Option (Nat × FatItem)}
    (h : Ends (fat16Open path mode) kernel result after) (hblock : Holds kernel.heap block) :
    Spares block kernel.heap after.heap ∧ ∀ opened ∈ result,
      Guards after.heap block opened.1 ∧ ItemGuarded after block opened.2 := by
  rw [fat16Open, ends_ite] at h
  rcases h with ⟨-, h⟩ | ⟨-, h⟩
  · obtain ⟨rfl, rfl⟩ := ends_pure.mp h
    exact ⟨.refl hblock, by simp⟩
  simp only [ends_bind] at h
  obtain ⟨descriptor, first, hfirst, h⟩ := h
  obtain ⟨hspares, hguards⟩ := kzalloc_spares hfirst hblock
  rw [ends_ite] at h
  rcases h with ⟨-, h⟩ | ⟨-, h⟩
  · obtain ⟨rfl, rfl⟩ := ends_pure.mp h
    exact ⟨hspares, by simp⟩
  obtain ⟨item, second, hentry, h⟩ := ends_bind.mp h
  obtain ⟨hspares', hguarded'⟩ := fat16GetDirectoryEntry_spares hentry hspares.holds
  have hboth := hspares.trans hspares'
  cases item with
  | none =>
      obtain ⟨rfl, rfl⟩ := ends_pure.mp h
      exact ⟨hboth, by simp⟩
  | some item =>
      obtain ⟨rfl, rfl⟩ := ends_pure.mp h
      refine ⟨hboth, fun opened hopened => ?_⟩
      obtain rfl := Option.mem_some.mp hopened
      exact ⟨hspares'.guards _ hguards, hguarded' item rfl⟩

end Driver

/-! ### Descriptors -/

section Descriptors

variable {fd : Int}

/-- What closing the descriptor releases reaches none of the blocks in use. -/
structure DescriptorGuarded (kernel : Kernel) (block : Nat) (fd : Int) : Prop where
  self : Guards kernel.heap block (kernel.fileGetDescriptor fd)
  fat : Guards kernel.heap block (kernel.files (kernel.fileGetDescriptor fd)).fatDescriptor
  item : ItemGuarded kernel block (kernel.files (kernel.fileGetDescriptor fd)).item

def CloseGuarded (kernel : Kernel) (block : Nat) (fd : Int) : Prop :=
  kernel.fileGetDescriptor fd ≠ 0 → DescriptorGuarded kernel block fd

theorem CloseGuarded.spares (h : CloseGuarded kernel block fd)
    (hspares : Spares block kernel.heap after.heap)
    (hdescriptors : after.fileDescriptors = kernel.fileDescriptors)
    (hfiles : after.files = kernel.files) : CloseGuarded after block fd := by
  have hget : after.fileGetDescriptor fd = kernel.fileGetDescriptor fd := by
    simp only [fileGetDescriptor, hdescriptors]
  intro hne
  rw [hget] at hne
  obtain ⟨hself, hfat, hitem⟩ := h hne
  constructor
  · rw [hget]
    exact hspares.guards _ hself
  · rw [hget, hfiles]
    exact hspares.guards _ hfat
  · rw [hget, hfiles]
    exact hitem.spares hspares

theorem CloseGuarded.takes (h : CloseGuarded kernel block fd)
    (hspares : Spares block kernel.heap after.heap) (htakes : TakesMemory kernel after) :
    CloseGuarded after block fd :=
  h.spares hspares htakes.fileDescriptors htakes.files

theorem closeGuarded_zero : CloseGuarded kernel block 0 := fun hne => absurd rfl hne

theorem fileNewDescriptor_spares {result : Option (Nat × Nat)}
    (h : Ends fileNewDescriptor kernel result after) (hblock : Holds kernel.heap block) :
    Spares block kernel.heap after.heap ∧ ∀ created ∈ result,
      Guards after.heap block created.2 ∧ after.fileDescriptors created.1 = created.2 := by
  simp only [fileNewDescriptor, ends_bind, ends_get, and_assoc, exists_eq_left,
    exists_and_left] at h
  cases hfree : kernel.fileFreeSlot with
  | none =>
      rw [hfree] at h
      obtain ⟨rfl, rfl⟩ := ends_pure.mp h
      exact ⟨.refl hblock, by simp⟩
  | some i =>
      rw [hfree] at h
      simp only [ends_bind, ends_storeTo, ends_modify, ends_pure, exists_eq_left, exists_const] at h
      obtain ⟨desc, middle, halloc, rfl, rfl⟩ := h
      obtain ⟨hspares, hguards⟩ := kzalloc_spares halloc hblock
      refine ⟨hspares, fun created hcreated => ?_⟩
      obtain rfl := Option.mem_some.mp hcreated
      exact ⟨hguards, if_pos rfl⟩

structure PassesChecks (rootPath : PathRoot) (kernel : Kernel) : Prop where
  parts : rootPath.parts ≠ []
  drive : rootPath.driveNo = 0
  mounted : kernel.volume.mounted = true

inductive OpenEnds (rootPath : PathRoot) (modeStr : List UInt8) (kernel : Kernel) :
    Int → Kernel → Prop
  | refused : OpenEnds rootPath modeStr kernel 0 kernel
  | notFound {after : Kernel} :
      Ends (fat16Open (rootPath.parts.map PathPart.text) (fileGetModeByString modeStr)) kernel none
        after → OpenEnds rootPath modeStr kernel 0 after
  | noSlot {opened : Nat × FatItem} {middle after : Kernel} :
      Ends (fat16Open (rootPath.parts.map PathPart.text) (fileGetModeByString modeStr)) kernel
        (some opened) middle → Ends fileNewDescriptor middle none after →
      OpenEnds rootPath modeStr kernel 0 after
  | opened {fatDescriptor i desc : Nat} {item : FatItem} {middle last : Kernel} :
      PassesChecks rootPath kernel →
      Ends (fat16Open (rootPath.parts.map PathPart.text) (fileGetModeByString modeStr)) kernel
        (some (fatDescriptor, item)) middle → Ends fileNewDescriptor middle (some (i, desc)) last →
      OpenEnds rootPath modeStr kernel (i + 1) (setFile desc
        { index := i + 1, fatDescriptor := fatDescriptor, item := item, pos := 0 } last)

theorem fopenParsed_cases {rootPath : PathRoot} {modeStr : List UInt8} {result : Int}
    (h : Ends (fopenParsed rootPath modeStr) kernel result after) :
    OpenEnds rootPath modeStr kernel result after := by
  rw [fopenParsed, ends_ite, ends_ite] at h
  rcases h with ⟨-, h⟩ | ⟨hparts, ⟨-, h⟩ | ⟨hdrive, h⟩⟩
  · obtain ⟨rfl, rfl⟩ := ends_pure.mp h
    exact .refused
  · obtain ⟨rfl, rfl⟩ := ends_pure.mp h
    exact .refused
  rw [ends_get_bind, ends_ite, ends_ite] at h
  rcases h with ⟨-, h⟩ | ⟨hmounted, ⟨-, h⟩ | ⟨-, h⟩⟩
  · obtain ⟨rfl, rfl⟩ := ends_pure.mp h
    exact .refused
  · obtain ⟨rfl, rfl⟩ := ends_pure.mp h
    exact .refused
  simp only [ends_bind] at h
  obtain ⟨opened, middle, hopen, h⟩ := h
  cases opened with
  | none =>
      obtain ⟨rfl, rfl⟩ := ends_pure.mp h
      exact .notFound hopen
  | some opened =>
      obtain ⟨fatDescriptor, item⟩ := opened
      simp only [ends_bind] at h
      obtain ⟨created, last, hnew, h⟩ := h
      cases created with
      | none =>
          obtain ⟨rfl, rfl⟩ := ends_pure.mp h
          exact .noSlot hopen hnew
      | some created =>
          rw [ends_modify_bind] at h
          obtain ⟨rfl, rfl⟩ := ends_pure.mp h
          exact .opened ⟨hparts, not_not.mp hdrive, by simpa using hmounted⟩ hopen hnew

theorem fopenParsed_spares {rootPath : PathRoot} {modeStr : List UInt8} {result : Int}
    (h : Ends (fopenParsed rootPath modeStr) kernel result after) (hblock : Holds kernel.heap block) :
    Spares block kernel.heap after.heap ∧ CloseGuarded after block result := by
  cases fopenParsed_cases h with
  | refused => exact ⟨.refl hblock, closeGuarded_zero⟩
  | notFound hopen => exact ⟨(fat16Open_spares hopen hblock).1, closeGuarded_zero⟩
  | noSlot hopen hnew =>
      have hspares := (fat16Open_spares hopen hblock).1
      exact ⟨hspares.trans (fileNewDescriptor_spares hnew hspares.holds).1, closeGuarded_zero⟩
  | @opened fatDescriptor i desc item middle last _ hopen hnew =>
      obtain ⟨hspares, hopened⟩ := fat16Open_spares hopen hblock
      obtain ⟨hfat, hitem⟩ := hopened _ rfl
      obtain ⟨hspares', hcreated⟩ := fileNewDescriptor_spares hnew hspares.holds
      obtain ⟨hdesc, hslot⟩ := hcreated _ rfl
      refine ⟨hspares.trans hspares', fun hne => ?_⟩
      -- The descriptor that the number leads to is the one just created.
      have hget : (setFile desc { index := i + 1, fatDescriptor, item, pos := 0 }
          last).fileGetDescriptor ((i : Int) + 1) = desc := by
        simp only [fileGetDescriptor, setFile] at hne ⊢
        split at hne
        · exact absurd rfl hne
        · rename_i hvalid
          rw [if_neg hvalid, show ((i : Int) + 1 - 1).toNat = i by omega, hslot]
      constructor
      · rwa [hget]
      · rw [hget]
        simp only [setFile, if_true]
        exact hspares'.guards _ hfat
      · rw [hget]
        simp only [setFile, if_true]
        exact hitem.spares hspares'

theorem fopen_spares {filename modeStr : List UInt8} {result : Int}
    (h : Ends (fopen filename modeStr) kernel result after) (hblock : Holds kernel.heap block) :
    Spares block kernel.heap after.heap ∧ CloseGuarded after block result := by
  simp only [fopen, ends_bind] at h
  obtain ⟨rootPath, first, hparse, h⟩ := h
  have hspares := pathparserParse_spares hparse hblock
  cases rootPath with
  | none =>
      obtain ⟨rfl, rfl⟩ := ends_pure.mp h
      exact ⟨hspares, closeGuarded_zero⟩
  | some rootPath =>
      obtain ⟨hspares', hclose⟩ := fopenParsed_spares h hspares.holds
      exact ⟨hspares.trans hspares', hclose⟩

theorem ends_fstat {result : Int × Nat} (h : Ends (fstat fd) kernel result after) :
    after = kernel ∧ result.1 ≤ 0 := by
  simp only [fstat, ends_bind, ends_get, and_assoc, exists_eq_left, exists_and_left] at h
  rw [ends_ite] at h
  rcases h with ⟨-, h⟩ | ⟨-, h⟩
  · obtain ⟨rfl, rfl⟩ := ends_pure.mp h
    exact ⟨rfl, by decide⟩
  split at h
  · obtain ⟨rfl, rfl⟩ := ends_pure.mp h
    exact ⟨rfl, by decide⟩
  · simp only [ends_bind, ends_deref, ends_pure] at h
    obtain ⟨_, _, ⟨-, rfl⟩, rfl, rfl⟩ := h
    exact ⟨rfl, Int.le_refl _⟩

theorem fclose_spares {result : Unit} (h : Ends (fclose fd) kernel result after)
    (hblock : Holds kernel.heap block) (hguarded : CloseGuarded kernel block fd) :
    Spares block kernel.heap after.heap := by
  simp only [fclose, ends_bind, ends_get, and_assoc, exists_eq_left, exists_and_left] at h
  rw [ends_ite] at h
  rcases h with ⟨-, h⟩ | ⟨hne, h⟩
  · obtain ⟨-, rfl⟩ := ends_pure.mp h
    exact .refl hblock
  obtain ⟨hself, hfat, hitem⟩ := hguarded hne
  simp only [ends_bind, ends_kfree, ends_modify, exists_eq_left, exists_const] at h
  obtain ⟨_, middle, hfree, rfl⟩ := h
  have hspares := fat16FatItemFree_spares hfree hblock hitem
  have hspares' := hspares.trans (hspares.holds.free (hspares.guards _ hfat))
  exact hspares'.trans (hspares'.holds.free (hspares'.guards _ hself))

theorem fclose_pure_spares {α : Type} {code result : α} {first : Kernel}
    (hspares : Spares block first.heap kernel.heap) (hguarded : CloseGuarded kernel block fd)
    (h : Ends (do fclose fd; pure code) kernel result after) :
    result = code ∧ Spares block first.heap after.heap := by
  obtain ⟨_, closed, hclose, hlast⟩ := ends_bind.mp h
  obtain ⟨rfl, rfl⟩ := ends_pure.mp hlast
  exact ⟨rfl, hspares.trans (fclose_spares hclose hspares.holds hguarded)⟩

end Descriptors

end Kernel

end SlobOS
