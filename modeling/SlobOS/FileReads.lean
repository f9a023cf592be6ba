import SlobOS.Proof.FileReads
import SlobOS.Proof.RootFiles

/-!
# Reading a file in parts

A read does not move the position of the file. So what is read in two parts is what is read at once
only if the file repeats itself there.
-/

namespace SlobOS

namespace Kernel

open Faulting

/-- The size and the number of the members that a call of `fread` asks for. -/
structure Members where
  size : Nat
  nmemb : Nat

def Members.count (members : Members) : Nat := members.size * members.nmemb

/-- The steps leave the bytes at the address and the files as they are given, whatever the memory
held before. -/
def Delivers (steps : KernelM Int) (kernel : Kernel) (ptr count : Nat) (bytes : Nat → UInt8)
    (files : Nat → FileDescriptor) : Prop :=
  ∀ memory, ∃ res after, Ends steps { kernel with memory := memory } res after ∧
    after.files = files ∧ ∀ pages, ∀ i < count, after.memory pages (ptr + i) = bytes i

def freadTwice (ptr : Nat) (first second : Members) (fd : Int) : KernelM Int := do
  let _ ← fread ptr first.size first.nmemb fd
  fread (ptr + first.count) second.size second.nmemb fd

/-- The two reads deliver the bytes of the joint one, and leave the same position. -/
def ReadsPartition (kernel : Kernel) (fd : Int) (ptr : Nat) (first second joint : Members) : Prop :=
  ∃ bytes files,
    Delivers (freadTwice ptr first second fd) kernel ptr joint.count bytes files ∧
    Delivers (fread ptr joint.size joint.nmemb fd) kernel ptr joint.count bytes files

def Readable (fatPrivate : FatPrivate) (disk : Disk) (cluster offset : Int) (members : Members) :
    Prop :=
  members.size < 0x80000000 ∧
    ∀ i < members.count, 0 ≤ fatPrivate.readCluster disk cluster members.size offset i

/-- From the position on, the bytes that the file has for the two reads are those that it has for the
joint one: the second read begins at the same byte as the first. -/
structure FileRepeats (fatPrivate : FatPrivate) (disk : Disk) (cluster offset : Int)
    (first second joint : Members) : Prop where
  clusters : 0 < fatPrivate.sizeOfClusterBytes
  readsFirst : Readable fatPrivate disk cluster offset first
  readsSecond : Readable fatPrivate disk cluster offset second
  readsJoint : Readable fatPrivate disk cluster offset joint
  same : ∀ i < first.count, fatPrivate.readByte disk cluster first.size offset i =
    fatPrivate.readByte disk cluster joint.size offset i
  again : ∀ i < second.count, fatPrivate.readByte disk cluster second.size offset i =
    fatPrivate.readByte disk cluster joint.size offset (first.count + i)

variable {kernel after : Kernel} {fd : Int} {contents : FatDirectoryItem} {pos ptr : Nat}
  {members first second joint : Members} {fatPrivate : FatPrivate} {disk : Disk}

def readStored (fatPrivate : FatPrivate) (disk : Disk) (contents : FatDirectoryItem) (pos : Nat)
    (members : Members) : Nat → Option UInt8 :=
  fatPrivate.stored disk contents.firstCluster members.size members.nmemb (toInt32 pos)

def readResult (fatPrivate : FatPrivate) (disk : Disk) (contents : FatDirectoryItem) (pos : Nat)
    (members : Members) : Int :=
  let res := fatPrivate.readCode disk contents.firstCluster members.size members.nmemb (toInt32 pos)
  if res < 0 then res else toInt32 members.nmemb

theorem readable_of_stored (hpos : 0 < fatPrivate.sizeOfClusterBytes) (hsize : 0 < members.size)
    (hnmemb : 0 < members.nmemb)
    (h : ∀ i < members.count, (readStored fatPrivate disk contents pos members i).isSome) :
    Readable fatPrivate disk contents.firstCluster (toInt32 pos) members := by
  obtain ⟨nmemb, hsucc⟩ := Nat.exists_eq_add_of_lt hnmemb
  have hlt : members.size < 0x80000000 := by
    have hlast := h (members.size - 1) (by rw [Members.count, hsucc, Nat.mul_succ]; omega)
    rw [readStored, hsucc] at hlast
    exact FatPrivate.stored_size hpos (toInt32_toInt32 _) hsize hlast
  refine ⟨hlt, fun i hi => ?_⟩
  obtain ⟨v, hv⟩ := Option.isSome_iff_exists.mp (h i hi)
  exact (FatPrivate.stored_sound hpos (toInt32_toInt32 _) hsize hlt hv).1

theorem Readable.stored (hpos : 0 < fatPrivate.sizeOfClusterBytes) (hsize : 0 < members.size)
    (h : Readable fatPrivate disk contents.firstCluster (toInt32 pos) members) {i : Nat}
    (hi : i < members.count) : readStored fatPrivate disk contents pos members i =
      some (fatPrivate.readByte disk contents.firstCluster members.size (toInt32 pos) i) :=
  FatPrivate.stored_complete hpos (toInt32_toInt32 _) hsize h.1 h.2 hi

section Calls

variable (hopen : OpenFile kernel fd contents pos)
  (hvolume : kernel.volume.readInternal = fatPrivate.fat16ReadInternal disk)

include hopen hvolume

theorem ends_fread (hpos : 0 < fatPrivate.sizeOfClusterBytes) (hptr : ptr ≠ 0)
    (hsize : 0 < members.size) (hnmemb : 0 < members.nmemb) :
    Ends (fread ptr members.size members.nmemb fd) kernel
      (readResult fatPrivate disk contents pos members)
      (overlay ptr (readStored fatPrivate disk contents pos members) kernel) := by
  obtain ⟨item, hitem, hdata⟩ := hopen.data
  have hfd : ¬(members.size = 0 ∨ members.nmemb = 0 ∨ fd < 1) := by
    have hone := hopen.one_le
    omega
  have hread := @ends_fat16ReadMembers kernel ptr fatPrivate disk contents.firstCluster
    (toInt32 pos) members.size members.nmemb hvolume hpos hptr hsize (toInt32_toInt32 _)
  rw [fread, if_neg hfd, ends_get_bind, if_neg hopen.desc, hdata]
  change Ends (deref item >>= _) _ _ _
  rw [ends_deref_bind hitem, fat16Read, hopen.pos]
  refine ends_bind.mpr ⟨_, _, hread, ?_⟩
  rw [readResult]
  split
  · exact ends_pure.mpr ⟨rfl, rfl⟩
  · exact ends_pure.mpr ⟨rfl, rfl⟩

theorem not_ends_fread (hpos : fatPrivate.sizeOfClusterBytes = 0) (hsize : 0 < members.size)
    (hnmemb : 0 < members.nmemb) {res : Int} :
    ¬Ends (fread ptr members.size members.nmemb fd) kernel res after := by
  intro h
  obtain ⟨item, hitem, hdata⟩ := hopen.data
  obtain ⟨nmemb, hsucc⟩ := Nat.exists_eq_add_of_lt hnmemb
  rw [fread, ends_ite] at h
  rcases h with ⟨hbad, -⟩ | ⟨-, h⟩
  · have hone := hopen.one_le
    omega
  rw [ends_get_bind, if_neg hopen.desc, hdata] at h
  change Ends (deref item >>= _) _ _ _ at h
  rw [ends_deref_bind hitem, fat16Read, hsucc] at h
  -- The first member is read first.
  obtain ⟨_, _, h, -⟩ := ends_bind.mp h
  obtain ⟨_, _, h, -⟩ := ends_bind.mp h
  rw [fat16ReadInternal, ends_get_bind, hvolume, FatPrivate.fat16ReadInternal, if_pos hpos] at h
  exact ends_throw h

end Calls

/-! ### Two reads and the joint one -/

theorem delivers_iff {steps : KernelM Int} {count : Nat} {bytes : Nat → UInt8}
    {files : Nat → FileDescriptor} {stored : Nat → Option UInt8}
    (hsteps : ∀ memory, ∃ res, Ends steps { kernel with memory := memory } res
      (overlay ptr stored { kernel with memory := memory })) :
    Delivers steps kernel ptr count bytes files ↔
      kernel.files = files ∧ ∀ i < count, stored i = some (bytes i) := by
  have hcell : ∀ memory pages i, (overlay ptr stored { kernel with memory := memory }).memory pages
      (ptr + i) = (stored i).getD (memory pages (ptr + i)) := fun memory pages i => by
    simp only [overlay, if_neg (show ¬ptr + i < ptr by omega), Nat.add_sub_cancel_left]
  constructor
  · intro h
    have hall : ∀ value : UInt8, kernel.files = files ∧ ∀ pages : PageTables,
        ∀ i < count, (stored i).getD value = bytes i := by
      intro value
      obtain ⟨res, hend⟩ := hsteps fun _ _ => value
      obtain ⟨res', after, hend', hfiles, hbytes⟩ := h fun _ _ => value
      obtain ⟨-, rfl⟩ := hend.unique hend'
      refine ⟨hfiles, fun pages i hi => ?_⟩
      rw [← hbytes pages i hi, hcell]
    refine ⟨(hall 0).1, fun i hi => ?_⟩
    have hzero := (hall 0).2 kernel.pages i hi
    have hone := (hall 1).2 kernel.pages i hi
    cases hstored : stored i with
    | none =>
        rw [hstored] at hzero hone
        exact absurd (hzero.trans hone.symm) (by decide)
    | some v =>
        rw [hstored] at hzero
        exact congrArg some hzero
  · rintro ⟨rfl, hbytes⟩ memory
    obtain ⟨res, hend⟩ := hsteps memory
    refine ⟨res, _, hend, rfl, fun pages i hi => ?_⟩
    rw [hcell, hbytes i hi]
    rfl

section Partition

variable (hopen : OpenFile kernel fd contents pos)
  (hvolume : kernel.volume.readInternal = fatPrivate.fat16ReadInternal disk)

include hopen hvolume

theorem ends_freadTwice (hpos : 0 < fatPrivate.sizeOfClusterBytes) (hptr : ptr ≠ 0)
    (hfirst : 0 < first.size ∧ 0 < first.nmemb) (hsecond : 0 < second.size ∧ 0 < second.nmemb) :
    ∃ res, Ends (freadTwice ptr first second fd) kernel res (overlay ptr (fun i =>
      if i < first.count then readStored fatPrivate disk contents pos first i
      else readStored fatPrivate disk contents pos second (i - first.count)) kernel) := by
  have hend := ends_fread hopen hvolume hpos hptr hfirst.1 hfirst.2
  have hopen' : OpenFile (overlay ptr (readStored fatPrivate disk contents pos first) kernel) fd
      contents pos := ⟨hopen.desc, hopen.data, hopen.pos⟩
  have hend' := @ends_fread _ fd contents pos (ptr + first.count) second fatPrivate disk
    hopen' hvolume hpos (by omega) hsecond.1 hsecond.2
  have hnone : ∀ i, first.count ≤ i → readStored fatPrivate disk contents pos first i = none :=
    fun i hi => FatPrivate.stored_none hi
  rw [overlay_overlay hnone] at hend'
  exact ⟨_, ends_bind.mpr ⟨_, _, hend, hend'⟩⟩

/-- The reads partition the file exactly where it repeats itself. -/
theorem readsPartition_iff (hptr : ptr ≠ 0) (hfirst : 0 < first.size ∧ 0 < first.nmemb)
    (hsecond : 0 < second.size ∧ 0 < second.nmemb) (hjoint : 0 < joint.size ∧ 0 < joint.nmemb)
    (hcount : joint.count = first.count + second.count) :
    ReadsPartition kernel fd ptr first second joint ↔ FileRepeats fatPrivate disk
      contents.firstCluster (toInt32 pos) first second joint := by
  rcases Nat.eq_zero_or_pos fatPrivate.sizeOfClusterBytes with hzero | hpos
  · refine iff_of_false (fun h => ?_) (fun h => absurd hzero (Nat.ne_of_gt h.clusters))
    obtain ⟨bytes, files, -, h⟩ := h
    obtain ⟨res, after, hend, -⟩ := h kernel.memory
    exact not_ends_fread hopen hvolume hzero hjoint.1 hjoint.2 hend
  have hopen' : ∀ memory, OpenFile { kernel with memory := memory } fd contents pos :=
    fun memory => ⟨hopen.desc, hopen.data, hopen.pos⟩
  rw [ReadsPartition]
  simp only [
    delivers_iff fun memory => ends_freadTwice (hopen' memory) hvolume hpos hptr hfirst hsecond,
    delivers_iff fun memory => ⟨_, ends_fread (hopen' memory) hvolume hpos hptr hjoint.1 hjoint.2⟩]
  constructor
  · rintro ⟨bytes, files, ⟨-, htwice⟩, -, hbytes⟩
    have hone : ∀ i < first.count,
        readStored fatPrivate disk contents pos first i = some (bytes i) := fun i hi => by
      rw [← htwice i (by omega), if_pos hi]
    have htwo : ∀ i < second.count, readStored fatPrivate disk contents pos second i =
        some (bytes (first.count + i)) := fun i hi => by
      rw [← htwice _ (by omega), if_neg (by omega), Nat.add_sub_cancel_left]
    have hfirst' := readable_of_stored hpos hfirst.1 hfirst.2 fun i hi => by rw [hone i hi]; rfl
    have hsecond' := readable_of_stored hpos hsecond.1 hsecond.2 fun i hi => by
      rw [htwo i hi]; rfl
    have hjoint' := readable_of_stored hpos hjoint.1 hjoint.2 fun i hi => by rw [hbytes i hi]; rfl
    refine ⟨hpos, hfirst', hsecond', hjoint', fun i hi => Option.some.inj ?_,
      fun i hi => Option.some.inj ?_⟩
    · rw [← hfirst'.stored hpos hfirst.1 hi, ← hjoint'.stored hpos hjoint.1 (by omega), hone i hi,
        hbytes i (by omega)]
    · rw [← hsecond'.stored hpos hsecond.1 hi, ← hjoint'.stored hpos hjoint.1 (by omega),
        htwo i hi, hbytes _ (by omega)]
  · rintro ⟨-, hfirst', hsecond', hjoint', hsame, hagain⟩
    refine ⟨fatPrivate.readByte disk contents.firstCluster joint.size (toInt32 pos), kernel.files,
      ⟨rfl, fun i hi => ?_⟩, rfl, fun i hi => hjoint'.stored hpos hjoint.1 hi⟩
    by_cases hin : i < first.count
    · rw [if_pos hin, hfirst'.stored hpos hfirst.1 hin, hsame i hin]
    · rw [if_neg hin, hsecond'.stored hpos hsecond.1 (by omega), hagain _ (by omega),
        Nat.add_sub_cancel' (by omega)]

end Partition

def countedFat : FatPrivate where
  sectorsPerCluster := 1
  reservedSectors := 1
  endingSectorPos := 33

def countedDisk : Disk where
  sector := fun _ i => UInt8.ofNat i.toNat

def countedItem : FatDirectoryItem := { rootFileItem with filesize := 2 }

def countedVolume : Volume :=
  { rootFileVolume with
    rootDirectory := [countedItem]
    readInternal := countedFat.fat16ReadInternal countedDisk }

theorem countedVolume_reads :
    countedVolume.readInternal = countedFat.fat16ReadInternal countedDisk := by
  rw [countedVolume]

theorem rootFile_countedVolume : RootFile countedVolume rootFilePath countedItem :=
  ⟨rfl, rfl, by decide, by decide, by decide, rfl, [0x61], rootFilePath_scanned, by decide⟩

theorem fopen_countedVolume : ∃ kernel,
    Ends (fopen rootFilePath modeRead) (idleKernel bootBytes countedVolume) 1 kernel ∧
      OpenFile kernel 1 countedItem 0 ∧ kernel.volume = countedVolume := by
  obtain ⟨descriptor, address, clone, desc, alloc, hopen, htakes, -, hclone, hdesc⟩ :=
    @fopen_opens (idleKernel bootBytes countedVolume) rootFilePath countedItem 0
      FreeBlocks _ rootFile_countedVolume (idleKernel_freeBlocks _ (by decide)) 0
      (List.find?_range_eq_some.mpr ⟨by decide, List.mem_range.mpr (by decide),
        fun _ hlt => absurd hlt (Nat.not_lt_zero _)⟩)
  have hvolume := congrArg Kernel.volume htakes
  have hget : (enterFile 0 desc (rootFileDescriptor 0 descriptor address clone countedItem)
      alloc).fileGetDescriptor 1 = desc := rfl
  refine ⟨_, hopen, ⟨hget ▸ hdesc, ⟨clone, hclone, ?_⟩, ?_⟩, hvolume⟩
  · rw [hget]
    simp only [enterFile, setFile, if_true]
    rfl
  · rw [hget]
    simp only [enterFile, setFile, if_true]
    rfl

theorem readsPartition_iff_counted : ∃ kernel,
    Ends (fopen rootFilePath modeRead) (idleKernel bootBytes countedVolume) 1 kernel ∧
      (ReadsPartition kernel 1 0x10000 ⟨1, 1⟩ ⟨1, 1⟩ ⟨2, 1⟩ ↔
        FileRepeats countedFat countedDisk 2 0 ⟨1, 1⟩ ⟨1, 1⟩ ⟨2, 1⟩) := by
  obtain ⟨kernel, hend, hopen, hvolume⟩ := fopen_countedVolume
  exact ⟨kernel, hend, readsPartition_iff hopen (hvolume ▸ countedVolume_reads) (by decide) (by decide) (by decide)
    (by decide) rfl⟩

/-- The first byte of the file is read twice, and the second one not at all. -/
theorem not_readsPartition : ¬∀ kernel fd contents pos ptr first second joint fatPrivate disk,
    OpenFile kernel fd contents pos →
    kernel.volume.readInternal = FatPrivate.fat16ReadInternal fatPrivate disk → ptr ≠ 0 →
    0 < first.size ∧ 0 < first.nmemb → 0 < second.size ∧ 0 < second.nmemb →
    0 < joint.size ∧ 0 < joint.nmemb → joint.count = first.count + second.count →
    pos + joint.count ≤ contents.filesize → ReadsPartition kernel fd ptr first second joint := by
  intro hall
  obtain ⟨kernel, -, hopen, hvolume⟩ := fopen_countedVolume
  have hvolume' : kernel.volume.readInternal = countedFat.fat16ReadInternal countedDisk :=
    hvolume ▸ countedVolume_reads
  obtain ⟨bytes, files, htwice, hjoint⟩ := hall kernel 1 countedItem 0 0x10000 ⟨1, 1⟩ ⟨1, 1⟩ ⟨2, 1⟩
    countedFat countedDisk hopen hvolume' (by decide) (by decide) (by decide) (by decide) rfl
    (by decide)
  have hopen' : ∀ memory, OpenFile { kernel with memory := memory } 1 countedItem 0 :=
    fun memory => ⟨hopen.desc, hopen.data, hopen.pos⟩
  have hsecond := ((delivers_iff fun memory => ends_freadTwice (hopen' memory) hvolume' (by decide)
    (by decide) (by decide) (by decide)).mp htwice).2 1 (by decide)
  have hwhole := ((delivers_iff fun memory => ⟨_, @ends_fread _ 1 countedItem 0 0x10000 ⟨2, 1⟩ _ _
    (hopen' memory) hvolume' (by decide) (by decide) (by decide) (by decide)⟩).mp hjoint).2 1
    (by decide)
  exact absurd (hsecond.trans hwhole.symm) (by decide)

end Kernel

end SlobOS
