import SlobOS.Proof.RootFiles

/-!
# Directory entries

The driver loads a subdirectory and then marks its item as a file, so that the walk along a path stops
at the first component. A path of one component is looked up, and every longer one is not found.
-/

namespace SlobOS

namespace Kernel

open Faulting

def lookup (name : List UInt8) (items : List FatDirectoryItem) : Option FatDirectoryItem :=
  (items.filter fun item => istrncmpEqual item.fullRelativeFilename name).getLast?

def resolve (volume : Volume) : List (List UInt8) → List FatDirectoryItem →
    Option FatDirectoryItem
  | [], _ => none
  | [name], items => lookup name items
  | name :: path, items =>
      match lookup name items with
      | none => none
      | some item =>
          if item.attributes &&& fatFileSubdirectory = 0 then none
          else resolve volume path (volume.subdirectory item.firstCluster)

def Describes (volume : Volume) (fatItem : FatItem) (entry : FatDirectoryItem) : Prop :=
  match fatItem.data with
  | .file clone contents => clone ≠ 0 ∧ contents = entry
  | .directory directory directoryItem items => directory ≠ 0 ∧ directoryItem ≠ 0 ∧
      entry.attributes &&& fatFileSubdirectory ≠ 0 ∧ items = volume.subdirectory entry.firstCluster

/-- What is found is the entry, and nothing is found if there is none. -/
def Selects (volume : Volume) (found : Option FatItem) (entry : Option FatDirectoryItem) : Prop :=
  match found, entry with
  | none, none => True
  | some fatItem, some entry => Describes volume fatItem entry
  | _, _ => False

def LookupRight (name : List UInt8) (items : List FatDirectoryItem) (kernel : Kernel) : Prop :=
  ∃ found after, Ends (fat16FindItemInDirectory name items none) kernel found after ∧
    Selects kernel.volume found (lookup name items)

def EntryRight (path : List (List UInt8)) (kernel : Kernel) : Prop :=
  ∃ found after, Ends (fat16GetDirectoryEntry path) kernel found after ∧
    Selects kernel.volume found (resolve kernel.volume path kernel.volume.rootDirectory)

variable {kernel after : Kernel} {path : List (List UInt8)} {name : List UInt8}
  {items : List FatDirectoryItem}

theorem fat16NewFatItem_data {item : FatDirectoryItem} {result : Option FatItem}
    (h : Ends (fat16NewFatItemForDirectoryItem item) kernel result after) :
    ∀ fatItem ∈ result, ∃ clone, fatItem.data = .file clone item := by
  obtain ⟨address, first, -, h⟩ := ends_bind.mp h
  rw [ends_ite, ends_ite] at h
  simp only [ends_bind, ends_pure] at h
  rcases h with ⟨-, rfl, -⟩ |
    ⟨-, ⟨-, _, _, -, clone, _, -, rfl, -⟩ | ⟨-, clone, _, -, rfl, -⟩⟩
  · simp
  · exact fun fatItem hmem => ⟨clone, by rw [← Option.mem_some.mp hmem]⟩
  · exact fun fatItem hmem => ⟨clone, by rw [← Option.mem_some.mp hmem]⟩

theorem fat16FindItem_file {found result : Option FatItem}
    (h : Ends (fat16FindItemInDirectory name items found) kernel result after)
    (hfound : ∀ fatItem ∈ found, ∃ clone contents, fatItem.data = .file clone contents) :
    ∀ fatItem ∈ result, ∃ clone contents, fatItem.data = .file clone contents := by
  induction items generalizing kernel found with
  | nil =>
      obtain ⟨rfl, -⟩ := ends_pure.mp h
      exact hfound
  | cons item items ih =>
      rw [fat16FindItemInDirectory, ends_ite] at h
      rcases h with ⟨-, h⟩ | ⟨-, h⟩
      · obtain ⟨fatItem, middle, hnew, h⟩ := ends_bind.mp h
        refine ih h fun fatItem hmem => ?_
        obtain ⟨clone, hdata⟩ := fat16NewFatItem_data hnew fatItem hmem
        exact ⟨clone, item, hdata⟩
      · exact ih h hfound

theorem ends_fat16GetDirectoryEntry {rootItem : Option FatItem} (hne : path ≠ [])
    (h : Ends (fat16FindItemInDirectory (path.headD []) kernel.volume.rootDirectory none) kernel
      rootItem after) :
    Ends (fat16GetDirectoryEntry path) kernel (if path.length = 1 then rootItem else none) after := by
  rw [fat16GetDirectoryEntry, ends_get_bind]
  refine ends_bind.mpr ⟨rootItem, after, h, ?_⟩
  cases rootItem with
  | none => exact ends_pure.mpr ⟨by rw [ite_self], rfl⟩
  | some rootItem =>
      change Ends (fat16GetDirectoryEntryLoop path.tail rootItem) after _ after
      obtain ⟨clone, contents, hdata⟩ := fat16FindItem_file h (by simp) rootItem rfl
      obtain ⟨name, names, rfl⟩ := List.exists_cons_of_ne_nil hne
      rw [List.tail_cons]
      cases names with
      | nil => exact ends_pure.mpr ⟨rfl, rfl⟩
      | cons name' names =>
          rw [fat16GetDirectoryEntryLoop, hdata]
          exact ends_pure.mpr ⟨if_neg (by simp), rfl⟩

/-- The walk is right exactly for the paths of one component and for those that lead nowhere. -/
theorem entryRight_iff (hne : path ≠ [])
    (hlookup : LookupRight (path.headD []) kernel.volume.rootDirectory kernel) :
    EntryRight path kernel ↔ path.length = 1 ∨
      resolve kernel.volume path kernel.volume.rootDirectory = none := by
  obtain ⟨rootItem, after, hfind, hselects⟩ := hlookup
  have hend := ends_fat16GetDirectoryEntry hne hfind
  constructor
  · rintro ⟨found, after', hend', hright⟩
    obtain ⟨rfl, rfl⟩ := hend'.unique hend
    by_cases hlength : path.length = 1
    · exact Or.inl hlength
    · right
      rw [if_neg hlength] at hright
      cases hresolve : resolve kernel.volume path kernel.volume.rootDirectory with
      | none => rfl
      | some entry =>
          rw [hresolve] at hright
          exact hright.elim
  · intro hpath
    refine ⟨_, after, hend, ?_⟩
    by_cases hlength : path.length = 1
    · rw [if_pos hlength]
      obtain ⟨name, rfl⟩ := List.length_eq_one_iff.mp hlength
      exact hselects
    · rw [if_neg hlength, hpath.resolve_left hlength]
      trivial

def subdirectoryItem : FatDirectoryItem where
  fullRelativeFilename := [0x61]
  attributes := fatFileSubdirectory
  firstCluster := 2
  filesize := 0

def subdirectoryVolume : Volume where
  mounted := true
  rootDirectory := [subdirectoryItem]
  subdirectory := fun _ => [{ rootFileItem with fullRelativeFilename := [0x62] }]
  totalItems := fun _ => 1
  readInternal := fun _ _ total => some (0, List.replicate total.toNat 0)

theorem fat16LoadFatDirectory_loads {count : Nat} (hvolume : kernel.volume = subdirectoryVolume)
    (hfree : FreeBlocks kernel.heap (count + 2)) :
    ∃ data after, Ends (fat16LoadFatDirectory subdirectoryItem) kernel data after ∧
      FreeBlocks after.heap count := by
  obtain ⟨directory, first, hfirst, hdirectory, hcount⟩ :=
    kzalloc_block hfree (show 0 < fatDirectorySize by decide) (by decide)
  obtain ⟨directoryItem, second, hsecond, hdirectoryItem, hcount'⟩ :=
    kzalloc_block hcount (show 0 < fatDirectoryItemSize by decide) (by decide)
  have hvolume' : second.volume = subdirectoryVolume := by
    have htakes : TakesMemory kernel second :=
      Frame.trans (kzalloc_takesMemory hfirst) (kzalloc_takesMemory hsecond)
    have hsame := congrArg Kernel.volume htakes
    exact Eq.trans hsame hvolume
  have hread : ∀ total, ∃ after, Ends (fat16ReadInternal 2 0 total directoryItem) second 0 after ∧
      after.heap = second.heap := fun total =>
    ⟨_, ends_fat16ReadInternal (by rw [hvolume']; rfl) hdirectoryItem, rfl⟩
  obtain ⟨after, hread, hheap⟩ := hread _
  refine ⟨.directory directory directoryItem (subdirectoryVolume.subdirectory 2), after, ?_,
    hheap ▸ hcount'⟩
  rw [fat16LoadFatDirectory, ends_get_bind, hvolume, if_neg (by decide)]
  refine ends_bind.mpr ⟨directory, first, hfirst, ?_⟩
  rw [if_neg hdirectory]
  refine ends_bind.mpr ⟨directoryItem, second, hsecond, ?_⟩
  rw [if_neg hdirectoryItem]
  refine ends_bind.mpr ⟨0, after, hread, ?_⟩
  rw [if_neg (by decide)]
  exact ends_pure.mpr ⟨rfl, rfl⟩

theorem lookupRight_subdirectory :
    LookupRight ([[0x61], [0x62]].headD []) subdirectoryVolume.rootDirectory
      (idleKernel bootBytes subdirectoryVolume) := by
  change LookupRight [0x61] [subdirectoryItem] _
  obtain ⟨address, first, hfirst, haddress, hcount⟩ := @kzalloc_block fatItemSize 3
    (idleKernel bootBytes subdirectoryVolume) FreeBlocks _ (idleKernel_freeBlocks _ (by decide))
    (by decide) (by decide)
  have hvolume : first.volume = subdirectoryVolume := by
    have hsame := congrArg Kernel.volume (kzalloc_takesMemory hfirst)
    exact hsame
  obtain ⟨data, second, hload, hcount'⟩ := fat16LoadFatDirectory_loads hvolume hcount
  obtain ⟨clone, third, hthird, hclone, -⟩ :=
    kzalloc_block hcount' (show 0 < fatDirectoryItemSize by decide) (by decide)
  refine ⟨some { address := address, data := .file clone subdirectoryItem }, third, ?_, hclone, rfl⟩
  rw [fat16FindItemInDirectory, if_pos (by decide)]
  refine ends_bind.mpr ⟨some { address := address, data := .file clone subdirectoryItem }, third, ?_,
    ends_pure.mpr ⟨rfl, rfl⟩⟩
  refine ends_bind.mpr ⟨address, first, hfirst, ?_⟩
  rw [if_neg haddress, if_pos (by decide)]
  refine ends_bind.mpr ⟨data, second, hload, ?_⟩
  exact ends_bind.mpr ⟨clone, third, hthird, ends_pure.mpr ⟨rfl, rfl⟩⟩

theorem entryRight_iff_subdirectory :
    EntryRight [[0x61], [0x62]] (idleKernel bootBytes subdirectoryVolume) ↔
      [[0x61], [0x62]].length = 1 ∨
        resolve subdirectoryVolume [[0x61], [0x62]] subdirectoryVolume.rootDirectory = none :=
  entryRight_iff (by decide) lookupRight_subdirectory

/-- The file `b` in the directory `a` is not found. -/
theorem not_entryRight : ¬∀ path kernel, path ≠ [] →
    LookupRight (path.headD []) kernel.volume.rootDirectory kernel → EntryRight path kernel := by
  intro hall
  obtain ⟨found, after, hend, hright⟩ := hall [[0x61], [0x62]]
    (idleKernel bootBytes subdirectoryVolume) (by decide) lookupRight_subdirectory
  obtain ⟨rootItem, middle, hfind, -⟩ := lookupRight_subdirectory
  obtain ⟨rfl, -⟩ := hend.unique (ends_fat16GetDirectoryEntry (by decide) hfind)
  exact hright

end Kernel

end SlobOS
