import SlobOS.Paths
import SlobOS.Proof.OpenFiles

/-!
# A file in the root directory

The root directory holds one file, and there are free blocks. Then every step of opening the file
succeeds.
-/

namespace SlobOS

namespace Kernel

open Faulting Splits

/-- The path leads to the only file of the disk. -/
structure RootFile (volume : Volume) (filename : List UInt8) (item : FatDirectoryItem) : Prop where
  mounted : volume.mounted = true
  directory : volume.rootDirectory = [item]
  plain : item.attributes &&& fatFileSubdirectory = 0
  format : pathparserPathValidFormat filename = true
  length : filename.length ≤ slobosMaxPath
  drive : filename.headD 0 = 0x30
  name : ∃ name, scanned slash (filename.drop 3) = [name] ∧
    istrncmpEqual item.fullRelativeFilename name = true

/-- The number refers to an open file with that entry and position. -/
structure OpenFile (kernel : Kernel) (fd : Int) (contents : FatDirectoryItem) (pos : Nat) :
    Prop where
  desc : kernel.fileGetDescriptor fd ≠ 0
  data : ∃ item, item ≠ 0 ∧
    (kernel.files (kernel.fileGetDescriptor fd)).item.data = .file item contents
  pos : (kernel.files (kernel.fileGetDescriptor fd)).pos = pos

variable {kernel : Kernel} {filename name : List UInt8} {item : FatDirectoryItem} {count : Nat}
  {supply : Heap → Nat → Prop} [Supply supply]

theorem OpenFile.one_le {fd : Int} {contents : FatDirectoryItem} {pos : Nat}
    (h : OpenFile kernel fd contents pos) : 1 ≤ fd := by
  have hdesc := h.desc
  rw [fileGetDescriptor] at hdesc
  split at hdesc
  · exact absurd rfl hdesc
  · omega

theorem kzalloc_takesMemory {size ptr : Nat} {after : Kernel}
    (h : Ends (kzalloc size) kernel ptr after) : TakesMemory kernel after :=
  (ends_kzalloc h).2.2.1

theorem fat16FindItem_finds (hplain : item.attributes &&& fatFileSubdirectory = 0)
    (hname : istrncmpEqual item.fullRelativeFilename name = true)
    (hfree : supply kernel.heap (count + 2)) :
    ∃ address clone after, Ends (fat16FindItemInDirectory name [item] none) kernel
        (some { address := address, data := .file clone item }) after ∧
      TakesMemory kernel after ∧ supply after.heap count ∧ clone ≠ 0 := by
  obtain ⟨address, first, hfirst, haddress, hcount⟩ :=
    kzalloc_block hfree (show 0 < fatItemSize by decide) (by decide)
  obtain ⟨clone, second, hsecond, hclone, hcount'⟩ :=
    kzalloc_block hcount (show 0 < fatDirectoryItemSize by decide) (by decide)
  refine ⟨address, clone, second, ?_,
    Frame.trans (kzalloc_takesMemory hfirst) (kzalloc_takesMemory hsecond), hcount', hclone⟩
  rw [fat16FindItemInDirectory, if_pos hname]
  refine ends_bind.mpr ⟨some { address := address, data := .file clone item }, second, ?_,
    ends_pure.mpr ⟨rfl, rfl⟩⟩
  refine ends_bind.mpr ⟨address, first, hfirst, ?_⟩
  rw [if_neg haddress, if_neg (not_not.mpr hplain)]
  exact ends_bind.mpr ⟨clone, second, hsecond, ends_pure.mpr ⟨rfl, rfl⟩⟩

theorem fat16Open_opens (hplain : item.attributes &&& fatFileSubdirectory = 0)
    (hdirectory : kernel.volume.rootDirectory = [item])
    (hname : istrncmpEqual item.fullRelativeFilename name = true)
    (hfree : supply kernel.heap (count + 3)) :
    ∃ descriptor address clone after, Ends (fat16Open [name] .read) kernel
        (some (descriptor, { address := address, data := .file clone item })) after ∧
      TakesMemory kernel after ∧ supply after.heap count ∧ clone ≠ 0 := by
  obtain ⟨descriptor, first, hfirst, hdescriptor, hcount⟩ :=
    kzalloc_block hfree (show 0 < fatFileDescriptorSize by decide) (by decide)
  obtain ⟨address, clone, after, hfind, htakes, hcount', hclone⟩ :=
    fat16FindItem_finds hplain hname hcount
  have htakes' := kzalloc_takesMemory hfirst
  have hvolume := congrArg (fun kernel : Kernel => kernel.volume.rootDirectory) htakes'
  refine ⟨descriptor, address, clone, after, ?_, Frame.trans htakes' htakes, hcount', hclone⟩
  rw [fat16Open, if_neg (by decide)]
  refine ends_bind.mpr ⟨descriptor, first, hfirst, ?_⟩
  rw [if_neg hdescriptor]
  refine ends_bind.mpr ⟨some { address := address, data := .file clone item }, after, ?_,
    ends_pure.mpr ⟨rfl, rfl⟩⟩
  rw [fat16GetDirectoryEntry, ends_get_bind, hvolume, hdirectory]
  exact ends_bind.mpr ⟨_, after, hfind, ends_pure.mpr ⟨rfl, rfl⟩⟩

def rootFileDescriptor (slot descriptor address clone : Nat) (item : FatDirectoryItem) :
    FileDescriptor where
  index := slot + 1
  fatDescriptor := descriptor
  item := { address := address, data := .file clone item }
  pos := 0

theorem fopen_opens (h : RootFile kernel.volume filename item)
    (hfree : supply kernel.heap (count + 8)) {slot : Nat}
    (hslot : kernel.fileFreeSlot = some slot) :
    ∃ descriptor address clone desc alloc, Ends (fopen filename modeRead) kernel (slot + 1)
        (enterFile slot desc (rootFileDescriptor slot descriptor address clone item) alloc) ∧
      TakesMemory kernel alloc ∧ supply alloc.heap count ∧ clone ≠ 0 ∧ desc ≠ 0 := by
  obtain ⟨name, hscanned, hname⟩ := h.name
  obtain ⟨root, parsed, hparse, hcount, hdrive, hparts, -⟩ := @pathparserParse_ends kernel filename
    (count + 4) supply _ h.format h.length (by rw [hscanned]; exact Supply.mono hfree (by simp; omega))
  have htexts := hparts.trans hscanned
  have htakes : TakesMemory kernel parsed := (pathparserParse_keeps _).of_ends hparse
  have hvolume := congrArg Kernel.volume htakes
  obtain ⟨descriptor, address, clone, opened, hopen, htakes', hcount', hclone⟩ :=
    fat16Open_opens h.plain (hvolume ▸ h.directory) hname hcount
  obtain ⟨desc, alloc, halloc, hdesc, hcount''⟩ :=
    kzalloc_block hcount' (show 0 < fileDescriptorSize by decide) (by decide)
  have htakes'' := kzalloc_takesMemory halloc
  have hall : TakesMemory kernel alloc := Frame.trans htakes (Frame.trans htakes' htakes'')
  refine ⟨descriptor, address, clone, desc, alloc, ?_, hall, hcount'', hclone, hdesc⟩
  refine ends_bind.mpr ⟨some root, parsed, hparse, ?_⟩
  change Ends (fopenParsed root modeRead) parsed _ _
  have hparts : root.parts ≠ [] := by
    intro hnil
    rw [hnil] at htexts
    cases htexts
  have hmounted : (!parsed.volume.mounted) = false := by
    rw [show parsed.volume = kernel.volume from hvolume, h.mounted]
    rfl
  have hdriveNo : root.driveNo = 0 := by rw [hdrive, h.drive]; decide
  have hfreeSlot : opened.fileFreeSlot = some slot := by
    rw [fileFreeSlot_congr (Frame.trans htakes htakes').fileDescriptors, hslot]
  rw [fopenParsed, if_neg hparts, if_neg (not_not.mpr hdriveNo), ends_get_bind, hmounted, htexts]
  refine ends_bind.mpr ⟨_, opened, hopen, ?_⟩
  refine ends_bind.mpr ⟨some (slot, desc), setFileDescriptor slot desc alloc, ?_, ?_⟩
  · rw [fileNewDescriptor, ends_get_bind, hfreeSlot]
    refine ends_bind.mpr ⟨desc, alloc, halloc, ?_⟩
    rw [ends_storeTo_bind, noteStore_eq hdesc, ends_modify_bind]
    exact ends_pure.mpr ⟨rfl, rfl⟩
  · change Ends (modify _ >>= _) _ _ _
    rw [ends_modify_bind]
    exact ends_pure.mpr ⟨rfl, rfl⟩

structure Opened (kernel : Kernel) (slot : Nat) (item : FatDirectoryItem) : Prop
    extends OpenFile kernel (slot + 1) item 0 where
  index : (kernel.files (kernel.fileGetDescriptor (slot + 1))).index = slot + 1

theorem fopen_opened (h : RootFile kernel.volume filename item)
    (hfree : supply kernel.heap (count + 8)) {slot : Nat} (hslot : kernel.fileFreeSlot = some slot)
    (hlt : slot + 1 < slobosMaxFileDescriptors) :
    ∃ after, Ends (fopen filename modeRead) kernel (slot + 1) after ∧ Opened after slot item ∧
      supply after.heap count ∧ ∀ i, i ≠ slot → after.fileDescriptors i = kernel.fileDescriptors i := by
  obtain ⟨descriptor, address, clone, desc, alloc, hopen, htakes, hcount, hclone, hdesc⟩ :=
    fopen_opens h hfree hslot
  generalize hfile : rootFileDescriptor slot descriptor address clone item = file at hopen
  have hget : (enterFile slot desc file alloc).fileGetDescriptor (slot + 1) = desc := by
    rw [fileGetDescriptor, if_neg (by omega), show ((slot : Int) + 1 - 1).toNat = slot by omega]
    simp only [enterFile, setFile, setFileDescriptor, if_true]
  have hentered : (enterFile slot desc file alloc).files desc = file := by
    simp only [enterFile, setFile, if_true]
  refine ⟨_, hopen, ⟨⟨?_, ⟨clone, hclone, ?_⟩, ?_⟩, ?_⟩, hcount, fun i hi => ?_⟩
  · rw [hget]
    exact hdesc
  · rw [hget, hentered, ← hfile]
    rfl
  · rw [hget, hentered, ← hfile]
    rfl
  · rw [hget, hentered, ← hfile]
    rfl
  · simp only [enterFile, setFile, setFileDescriptor, if_neg hi, htakes.fileDescriptors]

theorem fstat_opened {fd : Int} {pos : Nat} (h : OpenFile kernel fd item pos) :
    Ends (fstat fd) kernel (0, item.filesize) kernel := by
  obtain ⟨clone, hclone, hdata⟩ := h.data
  rw [fstat, ends_get_bind, if_neg h.desc, hdata]
  change Ends (deref clone >>= _) _ _ _
  rw [ends_deref_bind hclone]
  exact ends_pure.mpr ⟨rfl, rfl⟩

theorem kfree_supply (hcount : supply kernel.heap count) (ptr : Nat) :
    ∃ after, Ends (kfree ptr) kernel () after ∧ supply after.heap count ∧
      after.fileDescriptors = kernel.fileDescriptors :=
  ⟨_, ends_kfree.mpr rfl, Supply.release hcount ptr, rfl⟩

theorem fclose_opened {slot : Nat} (h : Opened kernel slot item) (hcount : supply kernel.heap count) :
    ∃ after, Ends (fclose (slot + 1)) kernel () after ∧ supply after.heap count ∧
      after.fileDescriptors = fun i => if i = slot then 0 else kernel.fileDescriptors i := by
  obtain ⟨clone, hclone, hdata⟩ := h.data
  have hslot : (kernel.files (kernel.fileGetDescriptor (slot + 1))).index - 1 = slot := by
    rw [h.index]
    omega
  obtain ⟨first, hfirst, hcount, hsameFirst⟩ := kfree_supply hcount clone
  obtain ⟨second, hsecond, hcount, hsameSecond⟩ := kfree_supply hcount
    (kernel.files (kernel.fileGetDescriptor (slot + 1))).item.address
  obtain ⟨third, hthird, hcount, hsameThird⟩ := kfree_supply hcount
    (kernel.files (kernel.fileGetDescriptor (slot + 1))).fatDescriptor
  obtain ⟨after, hafter, hcount, hsame⟩ := @kfree_supply (setFileDescriptor slot 0 third) count
    supply _ hcount (kernel.fileGetDescriptor (slot + 1))
  refine ⟨after, ?_, hcount, ?_⟩
  · rw [fclose, ends_get_bind, if_neg h.desc]
    refine ends_bind.mpr ⟨(), second, ?_, ends_bind.mpr ⟨(), third, hthird, ?_⟩⟩
    · rw [fat16FatItemFree, hdata]
      exact ends_bind.mpr ⟨(), first, hfirst, hsecond⟩
    · rw [ends_modify_bind, hslot]
      exact hafter
  · rw [hsame, ← hsameFirst, ← hsameSecond, ← hsameThird]
    rfl

def rootFilePath : List UInt8 := [0x30, 0x3a, 0x2f, 0x61]

theorem rootFilePath_scanned : Splits.scanned slash (rootFilePath.drop 3) = [[0x61]] := by decide

def rootFileItem : FatDirectoryItem where
  fullRelativeFilename := [0x61]
  attributes := 0
  firstCluster := 2
  filesize := 1

def rootFileVolume : Volume where
  mounted := true
  rootDirectory := [rootFileItem]
  subdirectory := fun _ => []
  totalItems := fun _ => 0
  readInternal := fun _ _ total => some (0, List.replicate total.toNat 0)

theorem rootFile_rootFileVolume : RootFile rootFileVolume rootFilePath rootFileItem :=
  ⟨rfl, rfl, by decide, by decide, by decide, rfl, [0x61], rootFilePath_scanned, by decide⟩

end Kernel

end SlobOS
