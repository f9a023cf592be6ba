import SlobOS.Proof.Blocks
import SlobOS.Proof.Fat16
import SlobOS.Proof.ProcessLoad

/-!
# What stands in the blocks in use

Loading a program overwrites none of the blocks that were in use before, as long as the driver stores no
more bytes than it is asked for.
-/

namespace SlobOS

namespace Kernel

open Faulting

variable {kernel after : Kernel} {block ptr size : Nat} {filename : List UInt8}

def Untouched (block : Nat) (kernel after : Kernel) : Prop :=
  ∀ pages, ∀ i < slobosHeapBlockSize,
    after.memory pages (slobosHeapAddress + block * slobosHeapBlockSize + i) =
      kernel.memory pages (slobosHeapAddress + block * slobosHeapBlockSize + i)

instance : Frame (Untouched block) where
  refl _ _ _ _ := rfl
  trans h h' pages i hi := (h' pages i hi).trans (h pages i hi)

def Apart (block ptr size : Nat) : Prop :=
  ∀ i < slobosHeapBlockSize, ¬(ptr ≤ slobosHeapAddress + block * slobosHeapBlockSize + i ∧
    slobosHeapAddress + block * slobosHeapBlockSize + i < ptr + size)

theorem Apart.mono (h : Apart block ptr size) {less : Nat} (hle : less ≤ size) :
    Apart block ptr less :=
  fun i hi hin => h i hi ⟨hin.1, by omega⟩

theorem Apart.writeBytes (h : Apart block ptr size) (bytes : Nat → UInt8) (kernel : Kernel) :
    Untouched block kernel (writeBytes ptr size bytes kernel) :=
  fun _ i hi => if_neg (h i hi)

def ReadsWithin (volume : Volume) : Prop :=
  ∀ cluster offset total res bytes, volume.readInternal cluster offset total = some (res, bytes) →
    bytes.length ≤ total.toNat

theorem readsWithin_fat16 {volume : Volume} {fatPrivate : FatPrivate} {disk : Disk}
    (hvolume : volume.readInternal = fatPrivate.fat16ReadInternal disk) : ReadsWithin volume := by
  intro cluster offset total res bytes hread
  rw [hvolume, FatPrivate.fat16ReadInternal] at hread
  split at hread
  · cases hread
  · have hwithin := fatPrivate.fat16ReadInternalFromStream_within disk cluster offset total
      (total.toNat + 1)
    rwa [Option.some.inj hread] at hwithin

structure SameMachine (kernel after : Kernel) : Prop where
  volume : after.volume = kernel.volume
  total : after.heap.table.total = kernel.heap.table.total

instance : HeapFrame SameMachine where
  refl _ := ⟨rfl, rfl⟩
  trans h h' := ⟨h'.volume.trans h.volume, h'.total.trans h.total⟩
  kzalloc _ := by
    refine ⟨fun h => ?_⟩
    obtain ⟨-, hheap, htakes, -⟩ := ends_kzalloc h
    have hvolume := congrArg Kernel.volume htakes
    refine ⟨hvolume, ?_⟩
    rw [hheap]
    exact heapMallocBlocks_total _ _
  kfree _ := .modify fun _ => ⟨rfl, heapFree_total _ _⟩
  writeBytes _ _ _ _ := ⟨rfl, rfl⟩
  noteStore _ _ := ⟨rfl, rfl⟩

theorem ReadsWithin.congr (h : ReadsWithin kernel.volume) (hsame : SameMachine kernel after) :
    ReadsWithin after.volume :=
  hsame.volume ▸ h

theorem kzalloc_sameMachine (h : Ends (kzalloc size) kernel ptr after) : SameMachine kernel after :=
  (HeapFrame.kzalloc size).of_ends h

theorem kfree_untouched (ptr : Nat) : Keeps (Untouched block) (kfree ptr) :=
  .modify fun _ _ _ _ => rfl

theorem blockCount_covers (hsize : slobosHeapAddress + size < addressSpace) :
    size ≤ blockCount size * slobosHeapBlockSize := by
  simp only [addressSpace, slobosHeapAddress] at hsize
  rw [blockCount_eq (by omega)]
  simp only [slobosHeapBlockSize]
  omega

/-- What is handed out does not meet a block in use, also where the end of the heap cuts it short. -/
theorem kzalloc_apart (h : Ends (kzalloc size) kernel ptr after) (hblock : Holds kernel.heap block)
    (hne : ptr ≠ 0) : Apart block ptr size := by
  obtain ⟨rfl, -, -, hlt⟩ := ends_kzalloc h
  have hlt := hlt hne
  have hused := hblock.lt
  obtain ⟨start, count, hgiven⟩ := heapMalloc_given hne
  have hstart := hgiven.lt
  rw [hgiven.address, hblock.address hstart] at hlt ⊢
  have hside : block < start ∨ start + min (blockCount size) (kernel.heap.table.total - start) ≤
      block := by
    by_contra hin
    exact hblock.taken (hgiven.window block (by omega) (by omega))
  have hsize := blockCount_covers (show slobosHeapAddress + size < addressSpace by omega)
  intro i hi
  simp only [slobosHeapBlockSize] at *
  omega

theorem apart_zero (hsize : size ≤ slobosHeapAddress) : Apart block 0 size := fun i _ hin => by omega

theorem kzalloc_untouched (h : Ends (kzalloc size) kernel ptr after)
    (hblock : Holds kernel.heap block) : Untouched block kernel after := by
  by_cases hne : ptr = 0
  · subst hne
    obtain ⟨-, rfl⟩ := (kzalloc_null hblock.toHeapSound).mp h
    exact Frame.refl _
  · have hlt := (ends_kzalloc h).2.2.2 hne
    have hapart := kzalloc_apart h hblock hne
    obtain ⟨rfl, -, -, -⟩ := ends_kzalloc h
    obtain ⟨-, rfl⟩ := h.unique (kzalloc_ends hne hlt)
    exact hapart.writeBytes _ _

section Paths

variable {path : List UInt8}

theorem pathparserGetPathPart_untouched {result : Nat × List UInt8 × List UInt8}
    (h : Ends (pathparserGetPathPart path) kernel result after) (hblock : Holds kernel.heap block)
    (hpath : path.length ≤ slobosMaxPath) :
    Untouched block kernel after ∧ result.2.2.length ≤ slobosMaxPath := by
  have hrest : ((path.dropWhile (· != slash)).drop 1).length ≤ slobosMaxPath := by
    have hsub := (List.dropWhile_sublist (· != slash) (l := path)).length_le
    rw [List.length_drop]
    omega
  have hpart : (path.takeWhile (· != slash)).length ≤ slobosMaxPath :=
    Nat.le_trans (List.takeWhile_sublist _).length_le hpath
  simp only [pathparserGetPathPart, ends_bind] at h
  obtain ⟨ptr, middle, halloc, h⟩ := h
  have hsame := kzalloc_untouched halloc hblock
  rw [ends_ite] at h
  simp only [ends_bind, ends_kfree, ends_storeTo, ends_modify, ends_pure, exists_eq_left,
    exists_const] at h
  rcases h with ⟨-, rfl, rfl⟩ | ⟨-, rfl, rfl⟩
  · exact ⟨hsame, hrest⟩
  · have hapart : Apart block ptr (path.takeWhile (· != slash)).length := by
      by_cases hne : ptr = 0
      · exact hne ▸ apart_zero (Nat.le_trans hpart (by decide))
      · exact (kzalloc_apart halloc hblock hne).mono hpart
    exact ⟨Frame.trans hsame (hapart.writeBytes _ (noteStore ptr middle)), hrest⟩

theorem pathparserParsePathPart_untouched {result : Option PathPart × List UInt8}
    (h : Ends (pathparserParsePathPart path) kernel result after) (hblock : Holds kernel.heap block)
    (hpath : path.length ≤ slobosMaxPath) :
    Untouched block kernel after ∧ result.2.length ≤ slobosMaxPath := by
  simp only [pathparserParsePathPart, ends_bind] at h
  obtain ⟨part, middle, hpart, h⟩ := h
  obtain ⟨hsame, hrest⟩ := pathparserGetPathPart_untouched hpart hblock hpath
  have hspares := pathparserGetPathPart_spares hpart hblock
  rw [ends_ite] at h
  simp only [ends_pure] at h
  rcases h with ⟨-, rfl, rfl⟩ | ⟨-, h⟩
  · exact ⟨hsame, hrest⟩
  obtain ⟨ptr, last, halloc, h⟩ := ends_bind.mp h
  have hsame' := Frame.trans hsame (kzalloc_untouched halloc hspares.holds)
  rw [ends_storeTo_bind, ends_ite] at h
  simp only [ends_pure] at h
  rcases h with ⟨-, rfl, rfl⟩ | ⟨-, rfl, rfl⟩
  · exact ⟨hsame', hrest⟩
  · exact ⟨hsame', hrest⟩

theorem pathparserParseParts_untouched {left : Nat} {result : List PathPart}
    (h : Ends (pathparserParseParts left path) kernel result after)
    (hblock : Holds kernel.heap block) (hpath : path.length ≤ slobosMaxPath) :
    Untouched block kernel after := by
  induction left generalizing kernel path result with
  | zero =>
      obtain ⟨-, rfl⟩ := ends_pure.mp h
      exact Frame.refl _
  | succ left ih =>
      simp only [pathparserParseParts, ends_bind] at h
      obtain ⟨⟨part, rest⟩, middle, hpart, h⟩ := h
      obtain ⟨hsame, hrest⟩ := pathparserParsePathPart_untouched hpart hblock hpath
      have hspares := pathparserParsePathPart_spares hpart hblock
      cases part with
      | none =>
          obtain ⟨-, rfl⟩ := ends_pure.mp h
          exact hsame
      | some part =>
          simp only [ends_bind, ends_pure] at h
          obtain ⟨parts, last, hparts, -, rfl⟩ := h
          exact Frame.trans hsame (ih hparts hspares.holds hrest)

theorem pathparserParse_untouched {result : Option PathRoot}
    (h : Ends (pathparserParse filename) kernel result after) (hblock : Holds kernel.heap block) :
    Untouched block kernel after := by
  rcases pathparserParse_cases h with ⟨-, rfl, -⟩ | ⟨root, first, hlength, -, halloc, h⟩
  · exact Frame.refl _
  have hsame := kzalloc_untouched halloc hblock
  rcases h with ⟨-, -, rfl⟩ | ⟨-, parts, hparts, -⟩
  · exact hsame
  · have hspares := (kzalloc_spares halloc hblock).1
    refine Frame.trans hsame (pathparserParseParts_untouched hparts hspares.holds ?_)
    rw [List.length_drop]
    omega

end Paths

/-! ### The driver -/

section Driver

theorem fat16ReadInternal_untouched {cluster offset total res : Int} {out : Nat}
    (h : Ends (fat16ReadInternal cluster offset total out) kernel res after)
    (hwithin : ReadsWithin kernel.volume) (hout : out = 0 ∨ Apart block out total.toNat) :
    Untouched block kernel after := by
  rw [fat16ReadInternal, ends_get_bind] at h
  cases hread : kernel.volume.readInternal cluster offset total with
  | none =>
      rw [hread] at h
      exact absurd h ends_throw
  | some read =>
      obtain ⟨code, bytes⟩ := read
      have hle := hwithin _ _ _ _ _ hread
      rw [hread] at h
      change Ends (if out = 0 ∧ bytes ≠ [] then _ else _) _ _ _ at h
      rw [ends_ite] at h
      rcases h with ⟨-, h⟩ | ⟨hnot, h⟩
      · exact absurd h ends_throw
      rw [ends_modify_bind] at h
      obtain ⟨-, rfl⟩ := ends_pure.mp h
      rcases hout with hnull | hapart
      · -- Nothing is stored at a null pointer.
        have hnil : bytes = [] := not_not.mp fun hne => hnot ⟨hnull, hne⟩
        subst hnil
        exact fun _ i _ => if_neg (by rw [List.length_nil]; omega)
      · exact (hapart.mono hle).writeBytes _ _

theorem fat16FreeDirectory_untouched (directory item : Nat) :
    Keeps (Untouched block) (fat16FreeDirectory directory item) :=
  .ite .pure (.ite (kfree_untouched _) (.bind (kfree_untouched _) fun _ => kfree_untouched _))

theorem fat16FatItemFree_untouched (item : FatItem) :
    Keeps (Untouched block) (fat16FatItemFree item) := by
  obtain ⟨address, data⟩ := item
  cases data with
  | directory => exact .bind (fat16FreeDirectory_untouched _ _) fun _ => kfree_untouched _
  | file => exact .bind (kfree_untouched _) fun _ => kfree_untouched _

theorem toInt32_toNat_le {value : Nat} : (toInt32 value).toNat ≤ value := by
  simp only [toInt32, addressSpace, Int.bmod]
  omega

theorem fat16LoadFatDirectory_untouched {item : FatDirectoryItem} {result : FatItemData}
    (h : Ends (fat16LoadFatDirectory item) kernel result after) (hblock : Holds kernel.heap block)
    (hwithin : ReadsWithin kernel.volume) : Untouched block kernel after := by
  simp only [fat16LoadFatDirectory, ends_bind, ends_get, and_assoc, exists_eq_left,
    exists_and_left] at h
  rw [ends_ite] at h
  rcases h with ⟨-, h⟩ | ⟨-, h⟩
  · obtain ⟨-, rfl⟩ := ends_pure.mp h
    exact Frame.refl _
  simp only [ends_bind] at h
  obtain ⟨directory, first, hfirst, h⟩ := h
  have hsame := kzalloc_untouched hfirst hblock
  have hspares := (kzalloc_spares hfirst hblock).1
  rw [ends_ite] at h
  rcases h with ⟨-, h⟩ | ⟨-, h⟩
  · obtain ⟨-, rfl⟩ := ends_pure.mp h
    exact hsame
  simp only [ends_bind] at h
  obtain ⟨directoryItem, second, hsecond, h⟩ := h
  have hboth := Frame.trans hsame (kzalloc_untouched hsecond hspares.holds)
  rw [ends_ite] at h
  rcases h with ⟨-, h⟩ | ⟨hne, h⟩
  · simp only [ends_bind, ends_pure] at h
    obtain ⟨_, _, hfree, -, rfl⟩ := h
    exact Frame.trans hboth ((fat16FreeDirectory_untouched _ _).of_ends hfree)
  simp only [ends_bind] at h
  obtain ⟨res, third, hread, h⟩ := h
  have hwithin' := (hwithin.congr (kzalloc_sameMachine hfirst)).congr (kzalloc_sameMachine hsecond)
  have hthird : Untouched block kernel third := Frame.trans hboth
    (fat16ReadInternal_untouched hread hwithin'
      (Or.inr ((kzalloc_apart hsecond hspares.holds hne).mono toInt32_toNat_le)))
  rw [ends_ite] at h
  simp only [ends_bind, ends_pure] at h
  rcases h with ⟨-, _, _, hfree, -, rfl⟩ | ⟨-, -, rfl⟩
  · exact Frame.trans hthird ((fat16FreeDirectory_untouched _ _).of_ends hfree)
  · exact hthird

theorem fat16NewFatItem_untouched {item : FatDirectoryItem} {result : Option FatItem}
    (h : Ends (fat16NewFatItemForDirectoryItem item) kernel result after)
    (hblock : Holds kernel.heap block) (hwithin : ReadsWithin kernel.volume) :
    Untouched block kernel after := by
  simp only [fat16NewFatItemForDirectoryItem, ends_bind] at h
  obtain ⟨address, first, hfirst, h⟩ := h
  have hsame := kzalloc_untouched hfirst hblock
  have hspares := (kzalloc_spares hfirst hblock).1
  have hwithin' := hwithin.congr (kzalloc_sameMachine hfirst)
  rw [ends_ite] at h
  rcases h with ⟨-, h⟩ | ⟨-, h⟩
  · obtain ⟨-, rfl⟩ := ends_pure.mp h
    exact hsame
  rw [ends_ite] at h
  simp only [ends_bind, ends_pure] at h
  rcases h with ⟨-, _, second, hload, clone, _, hclone, -, rfl⟩ | ⟨-, clone, _, hclone, -, rfl⟩
  · have hload' := fat16LoadFatDirectory_untouched hload hspares.holds hwithin'
    have hspares' := fat16LoadFatDirectory_spares hload hspares.holds
    exact Frame.trans (Frame.trans hsame hload') (kzalloc_untouched hclone hspares'.holds)
  · exact Frame.trans hsame (kzalloc_untouched hclone hspares.holds)

theorem fat16FindItemInDirectory_untouched {name : List UInt8} {items : List FatDirectoryItem}
    {found result : Option FatItem}
    (h : Ends (fat16FindItemInDirectory name items found) kernel result after)
    (hblock : Holds kernel.heap block) (hwithin : ReadsWithin kernel.volume) :
    Untouched block kernel after := by
  induction items generalizing kernel found with
  | nil =>
      obtain ⟨-, rfl⟩ := ends_pure.mp h
      exact Frame.refl _
  | cons item items ih =>
      unfold fat16FindItemInDirectory at h
      rw [ends_ite] at h
      rcases h with ⟨-, h⟩ | ⟨-, h⟩
      · simp only [ends_bind] at h
        obtain ⟨fatItem, middle, hnew, h⟩ := h
        have hspares := (fat16NewFatItem_spares hnew hblock).1
        exact Frame.trans (fat16NewFatItem_untouched hnew hblock hwithin)
          (ih h hspares.holds (hwithin.congr ((fat16NewFatItem_keeps item).of_ends hnew)))
      · exact ih h hblock hwithin

theorem fat16GetDirectoryEntryLoop_untouched {path : List (List UInt8)} {item : FatItem}
    {result : Option FatItem}
    (h : Ends (fat16GetDirectoryEntryLoop path item) kernel result after)
    (hblock : Holds kernel.heap block) (hitem : ItemGuarded kernel block item)
    (hwithin : ReadsWithin kernel.volume) : Untouched block kernel after := by
  induction path generalizing kernel item with
  | nil =>
      obtain ⟨-, rfl⟩ := ends_pure.mp h
      exact Frame.refl _
  | cons name path ih =>
      obtain ⟨address, data⟩ := item
      cases data with
      | file =>
          obtain ⟨-, rfl⟩ := ends_pure.mp h
          exact Frame.refl _
      | directory directory directoryItem items =>
          simp only [fat16GetDirectoryEntryLoop, ends_bind] at h
          obtain ⟨tmpItem, first, hfind, _, second, hfree, h⟩ := h
          obtain ⟨hspares, hguarded⟩ := fat16FindItemInDirectory_spares hfind hblock (by simp)
          have hspares' := fat16FatItemFree_spares hfree hspares.holds (hitem.spares hspares)
          have hboth : Untouched block kernel second :=
            Frame.trans (fat16FindItemInDirectory_untouched hfind hblock hwithin)
              ((fat16FatItemFree_untouched _).of_ends hfree)
          have hwithin' := (hwithin.congr ((fat16FindItemInDirectory_keeps _ _ _).of_ends hfind)).congr
            ((fat16FatItemFree_keeps _).of_ends hfree)
          cases tmpItem with
          | none =>
              rw [ends_ite] at h
              simp only [ends_pure, ends_throw, and_false, or_false] at h
              obtain ⟨-, -, rfl⟩ := h
              exact hboth
          | some tmpItem =>
              exact Frame.trans hboth (ih h (hspares.trans hspares').holds
                ((hguarded tmpItem rfl).spares hspares') hwithin')

theorem fat16GetDirectoryEntry_untouched {path : List (List UInt8)} {result : Option FatItem}
    (h : Ends (fat16GetDirectoryEntry path) kernel result after) (hblock : Holds kernel.heap block)
    (hwithin : ReadsWithin kernel.volume) : Untouched block kernel after := by
  rw [fat16GetDirectoryEntry, ends_get_bind] at h
  obtain ⟨rootItem, middle, hfind, h⟩ := ends_bind.mp h
  obtain ⟨hspares, hguarded⟩ := fat16FindItemInDirectory_spares hfind hblock (by simp)
  have hsame := fat16FindItemInDirectory_untouched hfind hblock hwithin
  have hwithin' := hwithin.congr ((fat16FindItemInDirectory_keeps _ _ _).of_ends hfind)
  cases rootItem with
  | none =>
      obtain ⟨-, rfl⟩ := ends_pure.mp h
      exact hsame
  | some rootItem =>
      exact Frame.trans hsame (fat16GetDirectoryEntryLoop_untouched h hspares.holds
        (hguarded rootItem rfl) hwithin')

theorem fat16Open_untouched {path : List (List UInt8)} {mode : FileMode}
    {result : Option (Nat × FatItem)}
    (h : Ends (fat16Open path mode) kernel result after) (hblock : Holds kernel.heap block)
    (hwithin : ReadsWithin kernel.volume) : Untouched block kernel after := by
  rw [fat16Open, ends_ite] at h
  rcases h with ⟨-, h⟩ | ⟨-, h⟩
  · obtain ⟨-, rfl⟩ := ends_pure.mp h
    exact Frame.refl _
  simp only [ends_bind] at h
  obtain ⟨descriptor, first, hfirst, h⟩ := h
  have hsame := kzalloc_untouched hfirst hblock
  have hspares := (kzalloc_spares hfirst hblock).1
  have hwithin' := hwithin.congr (kzalloc_sameMachine hfirst)
  rw [ends_ite] at h
  rcases h with ⟨-, h⟩ | ⟨-, h⟩
  · obtain ⟨-, rfl⟩ := ends_pure.mp h
    exact hsame
  obtain ⟨item, second, hentry, h⟩ := ends_bind.mp h
  have hsecond : Untouched block kernel second := Frame.trans hsame
    (fat16GetDirectoryEntry_untouched hentry hspares.holds hwithin')
  cases item with
  | none =>
      obtain ⟨-, rfl⟩ := ends_pure.mp h
      exact hsecond
  | some item =>
      obtain ⟨-, rfl⟩ := ends_pure.mp h
      exact hsecond

end Driver

section Descriptors

variable {fd : Int}

theorem fileNewDescriptor_untouched {result : Option (Nat × Nat)}
    (h : Ends fileNewDescriptor kernel result after) (hblock : Holds kernel.heap block) :
    Untouched block kernel after := by
  simp only [fileNewDescriptor, ends_bind, ends_get, and_assoc, exists_eq_left,
    exists_and_left] at h
  cases hfree : kernel.fileFreeSlot with
  | none =>
      rw [hfree] at h
      obtain ⟨-, rfl⟩ := ends_pure.mp h
      exact Frame.refl _
  | some i =>
      rw [hfree] at h
      simp only [ends_bind, ends_storeTo, ends_modify, ends_pure, exists_eq_left, exists_const] at h
      obtain ⟨desc, middle, halloc, -, rfl⟩ := h
      have hsame := kzalloc_untouched halloc hblock
      exact hsame

theorem fopen_untouched {modeStr : List UInt8} {result : Int}
    (h : Ends (fopen filename modeStr) kernel result after) (hblock : Holds kernel.heap block)
    (hwithin : ReadsWithin kernel.volume) : Untouched block kernel after := by
  simp only [fopen, ends_bind] at h
  obtain ⟨rootPath, parsed, hparse, h⟩ := h
  have hsame := pathparserParse_untouched hparse hblock
  have hheld := (pathparserParse_spares hparse hblock).holds
  have hwithin' := hwithin.congr ((pathparserParse_keeps _).of_ends hparse)
  cases rootPath with
  | none =>
      obtain ⟨-, rfl⟩ := ends_pure.mp h
      exact hsame
  | some rootPath =>
      cases fopenParsed_cases h with
      | refused => exact hsame
      | notFound hopen => exact Frame.trans hsame (fat16Open_untouched hopen hheld hwithin')
      | noSlot hopen hnew =>
          have hheld' := (fat16Open_spares hopen hheld).1.holds
          exact Frame.trans (Frame.trans hsame (fat16Open_untouched hopen hheld hwithin'))
            (fileNewDescriptor_untouched hnew hheld')
      | opened _ hopen hnew =>
          have hheld' := (fat16Open_spares hopen hheld).1.holds
          have hnew' := fileNewDescriptor_untouched hnew hheld'
          exact Frame.trans (Frame.trans hsame (fat16Open_untouched hopen hheld hwithin')) hnew'

theorem fclose_untouched (fd : Int) : Keeps (Untouched block) (fclose fd) :=
  .bind .get fun _ => .ite .pure <| .bind (fat16FatItemFree_untouched _) fun _ =>
    .bind (kfree_untouched _) fun _ => .bind (.modify fun _ _ _ _ => rfl) fun _ => kfree_untouched _

theorem Untouched.closed {α : Type} {code result : α} {middle : Kernel}
    (hsame : Untouched block kernel middle)
    (h : Ends (do fclose fd; pure code) middle result after) : Untouched block kernel after := by
  obtain ⟨_, closed, hclose, hlast⟩ := ends_bind.mp h
  obtain ⟨-, rfl⟩ := ends_pure.mp hlast
  exact Frame.trans hsame ((fclose_untouched fd).of_ends hclose)

theorem fread_untouched {res : Int} (h : Ends (fread ptr size 1 fd) kernel res after)
    (hwithin : ReadsWithin kernel.volume) (hptr : ptr = 0 ∨ Apart block ptr size) :
    Untouched block kernel after := by
  have hout : ptr = 0 ∨ Apart block ptr (toInt32 size).toNat :=
    hptr.imp_right fun hapart => hapart.mono toInt32_toNat_le
  rw [fread, ends_ite] at h
  rcases h with ⟨-, h⟩ | ⟨-, h⟩
  · obtain ⟨-, rfl⟩ := ends_pure.mp h
    exact Frame.refl _
  rw [ends_get_bind, ends_ite] at h
  rcases h with ⟨-, h⟩ | ⟨-, h⟩
  · obtain ⟨-, rfl⟩ := ends_pure.mp h
    exact Frame.refl _
  cases hdata : (kernel.files (kernel.fileGetDescriptor fd)).item.data with
  | directory =>
      rw [hdata] at h
      exact absurd h ends_throw
  | file item contents =>
      rw [hdata] at h
      simp only [fat16Read, fat16ReadMembers, ends_bind, ends_deref, and_assoc, exists_eq_left,
        exists_and_left, exists_const] at h
      obtain ⟨-, res', middle, ⟨code, read, hread, hmembers⟩, h⟩ := h
      have hsame := fat16ReadInternal_untouched hread hwithin hout
      have hmiddle : middle = read := by
        rw [ends_ite, ends_pure, ends_pure] at hmembers
        rcases hmembers with ⟨-, -, hmiddle⟩ | ⟨-, -, hmiddle⟩ <;> exact hmiddle
      rw [ends_ite, ends_pure, ends_pure] at h
      rcases h with ⟨-, -, rfl⟩ | ⟨-, -, rfl⟩ <;> exact hmiddle ▸ hsame

end Descriptors

/-! ### Programs -/

section Loads

variable {process slot : Nat} {res : Int}

theorem fileNewDescriptor_sameMachine : Keeps SameMachine fileNewDescriptor := by
  refine .bind .get fun kernel => ?_
  cases kernel.fileFreeSlot with
  | none => exact .pure
  | some i =>
      exact .bind (HeapFrame.kzalloc _) fun _ => .bind (storeTo_keeps _) fun _ =>
        .bind (.modify fun _ => ⟨rfl, rfl⟩) fun _ => .pure

theorem fopen_sameMachine (filename modeStr : List UInt8) :
    Keeps SameMachine (fopen filename modeStr) := by
  refine .bind (pathparserParse_keeps filename) fun rootPath => ?_
  cases rootPath with
  | none => exact .pure
  | some rootPath =>
      refine .ite .pure <| .ite .pure <| .bind .get fun _ => .ite .pure <| .ite .pure <|
        .bind (fat16Open_keeps _ _) fun opened => ?_
      cases opened with
      | none => exact .pure
      | some opened =>
          refine .bind fileNewDescriptor_sameMachine fun created => ?_
          cases created with
          | none => exact .pure
          | some created => exact .bind (.modify fun _ => ⟨rfl, rfl⟩) fun _ => .pure

theorem fclose_sameMachine (fd : Int) : Keeps SameMachine (fclose fd) :=
  .bind .get fun _ => .ite .pure <| .bind (fat16FatItemFree_keeps _) fun _ =>
    .bind (HeapFrame.kfree _) fun _ => .bind (.modify fun _ => ⟨rfl, rfl⟩) fun _ => HeapFrame.kfree _

theorem WritesMemory.sameMachine (h : WritesMemory kernel after) : SameMachine kernel after := by
  unfold WritesMemory at h
  rw [h]
  exact ⟨rfl, rfl⟩

theorem fstat_sameMachine (fd : Int) : Keeps SameMachine (fstat fd) :=
  ⟨fun h => by rw [(ends_fstat h).1]; exact Frame.refl _⟩

theorem fread_sameMachine (ptr size nmemb : Nat) (fd : Int) :
    Keeps SameMachine (fread ptr size nmemb fd) :=
  (fread_writes ptr size nmemb fd).mono WritesMemory.sameMachine

theorem elfLoad_sameMachine (filename : List UInt8) : Keeps SameMachine (elfLoad filename) := by
  refine .bind (HeapFrame.kzalloc _) fun elfFile => .bind (fopen_sameMachine _ _) fun fd =>
    .ite (.bind (fclose_sameMachine _) fun _ => .pure) <| .bind (fstat_sameMachine _) fun stat =>
      .ite (.bind (fclose_sameMachine _) fun _ => .pure) ?_
  refine .bind (HeapFrame.kzalloc _) fun _ => .bind (deref_keeps _) fun _ =>
    .bind (.modify fun _ => ⟨rfl, rfl⟩) fun _ => .bind (fread_sameMachine _ _ _ _) fun _ =>
      .ite (.bind (fclose_sameMachine _) fun _ => .pure) <| .bind (deref_keeps _) fun _ =>
        .bind .get fun _ => .bind (.modify fun _ => ⟨rfl, rfl⟩) fun _ =>
          .bind (fclose_sameMachine _) fun _ => .pure

theorem processLoadData_sameMachine (filename : List UInt8) (process : Nat) :
    Keeps SameMachine (processLoadData filename process) := by
  refine .bind (.bind (elfLoad_sameMachine _) fun _ => .ite .pure <|
    .bind (.modify fun _ => ⟨rfl, rfl⟩) fun _ => .pure) fun _ => .ite ?_ .pure
  refine .bind (fopen_sameMachine _ _) fun fd => .ite (.bind (fclose_sameMachine _) fun _ => .pure) <|
    .bind (fstat_sameMachine _) fun stat => .ite (.bind (fclose_sameMachine _) fun _ => .pure) ?_
  exact .bind (HeapFrame.kzalloc _) fun _ => .ite (.bind (fclose_sameMachine _) fun _ => .pure) <|
    .bind (fread_sameMachine _ _ _ _) fun _ => .ite (.bind (fclose_sameMachine _) fun _ => .pure) <|
      .bind (.modify fun _ => ⟨rfl, rfl⟩) fun _ => .bind (fclose_sameMachine _) fun _ => .pure

theorem elfLoad_untouched {result : Int × Nat} (h : Ends (elfLoad filename) kernel result after)
    (hblock : Holds kernel.heap block) (hwithin : ReadsWithin kernel.volume) :
    Untouched block kernel after := by
  simp only [elfLoad, ends_bind] at h
  obtain ⟨elfFile, first, halloc, fd, second, hopen, h⟩ := h
  have hheld := (kzalloc_spares halloc hblock).1.holds
  have hwithin' := hwithin.congr (kzalloc_sameMachine halloc)
  have hsecond : Untouched block kernel second :=
    Frame.trans (kzalloc_untouched halloc hblock) (fopen_untouched hopen hheld hwithin')
  rw [ends_ite] at h
  rcases h with ⟨-, h⟩ | ⟨-, h⟩
  · exact hsecond.closed h
  simp only [ends_bind] at h
  obtain ⟨⟨res, filesize⟩, third, hstat, h⟩ := h
  obtain rfl := (ends_fstat hstat).1
  rw [ends_ite] at h
  rcases h with ⟨-, h⟩ | ⟨-, h⟩
  · exact hsecond.closed h
  simp only [ends_bind, ends_deref, ends_modify, and_assoc, exists_eq_left, exists_and_left,
    exists_const] at h
  obtain ⟨elfMemory, fourth, hmemory, -, res', fifth, hread, h⟩ := h
  have hheld' := (fopen_spares hopen hheld).1.holds
  have hfourth : Untouched block kernel fourth :=
    Frame.trans hsecond (kzalloc_untouched hmemory hheld')
  have hwithin'' := (hwithin'.congr ((fopen_sameMachine _ _).of_ends hopen)).congr
    (kzalloc_sameMachine hmemory)
  have hread' := fread_untouched hread hwithin''
    (or_iff_not_imp_left.mpr (kzalloc_apart hmemory hheld'))
  have hfifth : Untouched block kernel fifth := Frame.trans hfourth hread'
  rw [ends_ite] at h
  rcases h with ⟨-, h⟩ | ⟨-, h⟩
  · exact hfifth.closed h
  simp only [ends_bind, ends_deref, ends_get, ends_modify, ends_pure, and_assoc, exists_eq_left,
    exists_and_left, exists_const] at h
  obtain ⟨-, _, last, hend, -, rfl⟩ := h
  have hclosed := (@fclose_untouched block _).of_ends hend
  exact Frame.trans hfifth hclosed

theorem processLoadBinary_untouched (h : Ends (processLoadBinary filename process) kernel res after)
    (hblock : Holds kernel.heap block) (hwithin : ReadsWithin kernel.volume) :
    Untouched block kernel after := by
  simp only [processLoadBinary, ends_bind] at h
  obtain ⟨fd, first, hopen, h⟩ := h
  have hfirst := fopen_untouched hopen hblock hwithin
  have hheld := (fopen_spares hopen hblock).1.holds
  have hwithin' := hwithin.congr ((fopen_sameMachine _ _).of_ends hopen)
  rw [ends_ite] at h
  rcases h with ⟨-, h⟩ | ⟨-, h⟩
  · exact hfirst.closed h
  simp only [ends_bind] at h
  obtain ⟨⟨res', filesize⟩, second, hstat, h⟩ := h
  obtain rfl := (ends_fstat hstat).1
  rw [ends_ite] at h
  rcases h with ⟨-, h⟩ | ⟨-, h⟩
  · exact hfirst.closed h
  simp only [ends_bind] at h
  obtain ⟨ptr, third, halloc, h⟩ := h
  have hthird : Untouched block kernel third := Frame.trans hfirst (kzalloc_untouched halloc hheld)
  rw [ends_ite] at h
  rcases h with ⟨-, h⟩ | ⟨-, h⟩
  · exact hthird.closed h
  simp only [ends_bind] at h
  obtain ⟨count, fourth, hread, h⟩ := h
  have hfourth : Untouched block kernel fourth := Frame.trans hthird
    (fread_untouched hread (hwithin'.congr (kzalloc_sameMachine halloc))
      (or_iff_not_imp_left.mpr (kzalloc_apart halloc hheld)))
  rw [ends_ite] at h
  simp only [ends_bind, ends_modify, ends_pure, exists_eq_left, exists_const] at h
  rcases h with ⟨-, _, _, hend, -, rfl⟩ | ⟨-, _, last, hend, -, rfl⟩
  · exact Frame.trans hfourth ((fclose_untouched _).of_ends hend)
  · have hclosed := (@fclose_untouched block _).of_ends hend
    exact Frame.trans hfourth hclosed

theorem processLoadData_untouched (h : Ends (processLoadData filename process) kernel res after)
    (hblock : Holds kernel.heap block) (hwithin : ReadsWithin kernel.volume) :
    Untouched block kernel after := by
  simp only [processLoadData, ends_bind] at h
  obtain ⟨code, middle, helf, h⟩ := h
  have hmiddle : Untouched block kernel middle ∧ SameMachine kernel middle := by
    obtain ⟨⟨code', elfFile⟩, loaded, hload, hset⟩ := ends_bind.mp helf
    have hloaded := elfLoad_untouched hload hblock hwithin
    have hsame := (elfLoad_sameMachine _).of_ends hload
    rw [ends_ite] at hset
    simp only [ends_bind, ends_modify, ends_pure, exists_eq_left, exists_const] at hset
    rcases hset with ⟨-, -, rfl⟩ | ⟨-, -, rfl⟩
    · exact ⟨hloaded, hsame⟩
    · exact ⟨hloaded, hsame.volume, hsame.total⟩
  rw [ends_ite] at h
  rcases h with ⟨-, h⟩ | ⟨-, h⟩
  · have hheld := (processLoadElf_spares helf hblock).1.holds
    exact Frame.trans hmiddle.1 (processLoadBinary_untouched h hheld (hwithin.congr hmiddle.2))
  · obtain ⟨-, rfl⟩ := ends_pure.mp h
    exact hmiddle.1

/-! ### Tasks -/

theorem pagingNewTables_sameMachine (directory flags left i : Nat) :
    Keeps SameMachine (pagingNewTables directory flags left i) := by
  induction left generalizing i with
  | zero => exact .pure
  | succ left ih =>
      exact .bind (HeapFrame.kzalloc _) fun _ => .bind (deref_keeps _) fun _ =>
        .bind (.modify fun _ => ⟨rfl, rfl⟩) fun _ => .bind (deref_keeps _) fun _ =>
          .bind (.modify fun _ => ⟨rfl, rfl⟩) fun _ => ih _

theorem pagingNew4gb_sameMachine (flags : Nat) : Keeps SameMachine (pagingNew4gb flags) :=
  .bind (HeapFrame.kzalloc _) fun _ => .bind (pagingNewTables_sameMachine _ _ _ _) fun _ =>
    .bind (HeapFrame.kzalloc _) fun _ => .bind (deref_keeps _) fun _ =>
      .bind (.modify fun _ => ⟨rfl, rfl⟩) fun _ => .pure

theorem taskNew_sameMachine {task : Nat} (h : Ends (taskNew process) kernel task after) :
    SameMachine kernel after := by
  obtain ⟨-, first, chunk, second, htask, hchunk, rfl⟩ := ends_taskNew h
  have hmachine : SameMachine kernel second :=
    Frame.trans (kzalloc_sameMachine htask) ((pagingNew4gb_sameMachine _).of_ends hchunk)
  exact ⟨hmachine.volume, hmachine.total⟩

theorem pagingNewTables_untouched {directory flags left i : Nat} {result : Unit}
    (h : Ends (pagingNewTables directory flags left i) kernel result after)
    (hblock : Holds kernel.heap block) : Untouched block kernel after ∧ Holds after.heap block := by
  induction left generalizing kernel i with
  | zero =>
      obtain ⟨-, rfl⟩ := ends_pure.mp h
      exact ⟨Frame.refl _, hblock⟩
  | succ left ih =>
      simp only [pagingNewTables, ends_bind, ends_deref, ends_modify, and_assoc, exists_eq_left,
        exists_and_left, exists_const] at h
      obtain ⟨entry, middle, halloc, -, -, h⟩ := h
      obtain ⟨hsame, hheld⟩ := ih h (kzalloc_spares halloc hblock).1.holds
      exact ⟨Frame.trans (kzalloc_untouched halloc hblock) hsame, hheld⟩

theorem taskNew_untouched {task : Nat} (h : Ends (taskNew process) kernel task after)
    (hblock : Holds kernel.heap block) : Untouched block kernel after := by
  obtain ⟨-, first, chunk, second, htask, hchunk, rfl⟩ := ends_taskNew h
  have hheld := (kzalloc_spares htask hblock).1.holds
  simp only [pagingNew4gb, ends_bind, ends_deref, ends_modify, ends_pure, and_assoc, exists_eq_left,
    exists_and_left, exists_const] at hchunk
  obtain ⟨directory, third, hdirectory, _, fourth, htables, _, fifth, hlast, -, rfl, rfl⟩ := hchunk
  have hheld' := (kzalloc_spares hdirectory hheld).1.holds
  obtain ⟨hsame, hheld''⟩ := pagingNewTables_untouched htables hheld'
  have hfifth : Untouched block kernel fifth :=
    Frame.trans (kzalloc_untouched htask hblock) <| Frame.trans (kzalloc_untouched hdirectory hheld) <|
      Frame.trans hsame (kzalloc_untouched hlast hheld'')
  exact hfifth

theorem Acquires.preserves (h : Acquires filename slot kernel process after)
    (hwithin : ReadsWithin kernel.volume) : Preserves kernel after ∧ SameMachine kernel after := by
  cases h with
  | @intro first second third fourth res stack task hprocess hne hdata hres hstack hstackNe htask =>
      have hfirst : SameMachine kernel (processInit process first) :=
        ⟨(kzalloc_sameMachine hprocess).volume, (kzalloc_sameMachine hprocess).total⟩
      have hsecond : SameMachine kernel second :=
        Frame.trans hfirst ((processLoadData_sameMachine _ _).of_ends hdata)
      have hthird : SameMachine kernel third := Frame.trans hsecond (kzalloc_sameMachine hstack)
      have hfourth : SameMachine kernel fourth :=
        ⟨(taskNew_sameMachine htask).volume.trans hthird.volume,
          (taskNew_sameMachine htask).total.trans hthird.total⟩
      refine ⟨fun block hblock => ?_, hfourth.volume, hfourth.total⟩
      have hheld := (kzalloc_spares hprocess hblock).1.holds
      have hheld' := (processLoadData_spares hdata hheld).1.holds
      have hheld'' := (kzalloc_spares hstack hheld').1.holds
      have hdata' := processLoadData_untouched hdata hheld (hwithin.congr hfirst)
      have htask' := taskNew_untouched htask hheld''
      refine ⟨(taskNew_spares htask hheld'').1.holds, ?_⟩
      have hall : Untouched block kernel fourth :=
        Frame.trans (kzalloc_untouched hprocess hblock) <| Frame.trans hdata' <|
          Frame.trans (kzalloc_untouched hstack hheld') htask'
      exact hall

end Loads

end Kernel

end SlobOS
