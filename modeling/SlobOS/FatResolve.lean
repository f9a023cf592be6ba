import SlobOS.Paths
import SlobOS.RootDirectories
import SlobOS.Proof.SingleBlocks

/-!
# Resolving a disk

The part of `fat16_resolve` around the disk itself: what it takes from the kernel heap, what it sets in
the disk, and what it gives back when it fails. The streams of the private data are never given back.
-/

namespace SlobOS

/-- The fields of `struct disk` that are read and set. -/
structure DiskFields where
  id : Int
  filesystem : Nat
  fsPrivate : Nat

def SameTable (heap after : Heap) : Prop :=
  after.table.total = heap.table.total ∧
    ∀ i < heap.table.total, after.table.entries i = heap.table.entries i

def fatPrivateSize : Nat := 92
def diskStreamSize : Nat := 8

namespace Kernel

open Faulting

/-! ### `streamer.c` -/

/-- `disk_get` knows the disk `0` only. -/
def diskstreamerNew (diskId : Int) : KernelM Nat := do
  if diskId ≠ 0 then pure 0
  else do
    let streamer ← kzalloc diskStreamSize
    storeTo streamer
    pure streamer

def diskstreamerClose (stream : Nat) : KernelM Unit := kfree stream

/-! ### `fat16.c` -/

/-- The streams for the clusters, for the table and for directories. -/
def fat16InitPrivate (diskId : Int) (fatPrivate : Nat) : KernelM Unit := do
  storeTo fatPrivate
  let _ ← diskstreamerNew diskId
  let _ ← diskstreamerNew diskId
  let _ ← diskstreamerNew diskId

/-- The items are counted before their memory is allocated; both orders are the same. -/
def fat16GetRootDirectory (disk : Disk) (left : Nat) (header : FatHeader) : KernelM Int := do
  let dir ← kzalloc header.rootDirSize
  let kernel ← get
  match header.fat16GetRootDirectory disk left dir fun i => kernel.memory kernel.pages (dir + i) with
  | none => throw .runaway
  | some (.error res) => pure res
  | some (.ok directory) => do
      modify (writeBytes dir header.rootDirSize directory.item)
      pure slobosAllOk

/-- The header is read and checked, and the root directory is loaded. -/
def fat16ReadVolume (disk : Disk) (left stream : Nat) : KernelM Int := do
  if stream = 0 then pure (-enomem)
  else
    let read := diskstreamerRead disk 0 fatHeaderSize
    if read.res ≠ slobosAllOk then pure (-eio)
    else
      let header := readFatHeader fun i => read.bytes.getD i 0
      if header.signature ≠ slobosFat16Signature then pure (-efsnotus)
      else do
        let res ← fat16GetRootDirectory disk left header
        if res ≠ slobosAllOk then pure (-eio) else pure 0

/-- `fat16_resolve`: the code, and the fields of the disk as they are left. `fat16Fs` is the address of
the filesystem. -/
def fat16Resolve (fat16Fs : Nat) (disk : Disk) (left : Nat) (fields : DiskFields) :
    KernelM (Int × DiskFields) := do
  let fatPrivate ← kzalloc fatPrivateSize
  fat16InitPrivate fields.id fatPrivate
  let fields := { fields with fsPrivate := fatPrivate, filesystem := fat16Fs }
  let stream ← diskstreamerNew fields.id
  let res ← fat16ReadVolume disk left stream
  let _ ← (if stream ≠ 0 then diskstreamerClose stream else pure () : KernelM Unit)
  if res < 0 then do
    kfree fatPrivate
    pure (res, { fields with fsPrivate := 0 })
  else pure (res, fields)

section Definitions

variable (fat16Fs : Nat) (kernel : Kernel) (disk : Disk) (fields : DiskFields)

/-- A call that fails leaves the disk and the table of the heap as they were. -/
def ResolveRestores : Prop :=
  ∀ left res fields' after, Ends (fat16Resolve fat16Fs disk left fields) kernel (res, fields') after →
    res < 0 → fields' = fields ∧ SameTable kernel.heap after.heap

/-- The items of the root directory can be counted, and behind the private data and the streams there is
no memory for it. -/
def RootDirectoryFails : Prop :=
  (∃ left total, fat16GetTotalItemsForDirectory disk left (diskHeader disk).rootDirSectorPos =
    some total) ∧ (heapMalloc (takeBlocks 5 kernel.heap) (diskHeader disk).rootDirSize).1 = 0

/-- The disk is another one than the streams know, the private data and the streams find no memory, or
the volume is not accepted. -/
def ResolveFails : Prop :=
  fields.id ≠ 0 ∨ ¬FreeBlocks kernel.heap 5 ∨
    (diskHeader disk).signature ≠ slobosFat16Signature ∨ RootDirectoryFails kernel disk

/-- No stream is allocated, on another disk or for want of memory, and the fields are set already. -/
def NothingToRestore : Prop :=
  (fields.id ≠ 0 ∨ ¬FreeBlocks kernel.heap 2) ∧ fields.filesystem = fat16Fs ∧ fields.fsPrivate = 0

end Definitions

variable {fat16Fs left stream fatPrivate : Nat} {kernel middle after : Kernel} {disk : Disk}
  {fields fields' : DiskFields} {diskId res : Int}

/-! ### The steps -/

/-- Loading the root directory fails without memory, if its items can be counted, and not otherwise. -/
theorem fat16GetRootDirectory_fails {header : FatHeader} (hsound : HeapSound kernel.heap) :
    Ends (fat16GetRootDirectory disk left header) kernel res after ∧ res ≠ slobosAllOk ↔
      res = -enomem ∧ after = kernel ∧
        (∃ total, fat16GetTotalItemsForDirectory disk left header.rootDirSectorPos = some total) ∧
          (heapMalloc kernel.heap header.rootDirSize).1 = 0 := by
  have hread := (diskstreamerRead_length disk (fat16SectorToAbsolute header.rootDirSectorPos)
    header.rootDirSize).1
  constructor
  · rintro ⟨h, hne⟩
    rw [fat16GetRootDirectory, ends_bind] at h
    obtain ⟨dir, middle, halloc, h⟩ := h
    rw [ends_get_bind, FatHeader.fat16GetRootDirectory] at h
    cases hcount : fat16GetTotalItemsForDirectory disk left header.rootDirSectorPos with
    | none =>
        rw [hcount] at h
        exact absurd h ends_throw
    | some total =>
        rw [hcount] at h
        by_cases hdir : dir = 0
        · subst hdir
          obtain ⟨hnull, rfl⟩ := (kzalloc_null hsound).mp halloc
          obtain ⟨rfl, rfl⟩ := ends_pure.mp h
          exact ⟨rfl, rfl, ⟨total, rfl⟩, hnull⟩
        · simp only [if_neg hdir, hread, slobosAllOk, ne_eq, not_true_eq_false, if_false] at h
          rw [ends_modify_bind] at h
          exact absurd (ends_pure.mp h).1 hne
  · rintro ⟨rfl, rfl, ⟨total, hcount⟩, hnull⟩
    refine ⟨?_, by decide⟩
    rw [fat16GetRootDirectory, ends_bind]
    refine ⟨0, after, (kzalloc_null hsound).mpr ⟨hnull, rfl⟩, ?_⟩
    rw [ends_get_bind, FatHeader.fat16GetRootDirectory, hcount]
    exact ends_pure.mpr ⟨rfl, rfl⟩

theorem fat16ReadVolume_fails (hsound : HeapSound kernel.heap) (hstream : stream ≠ 0) :
    Ends (fat16ReadVolume disk left stream) kernel res after ∧ res < 0 ↔ after = kernel ∧
      (((diskHeader disk).signature ≠ slobosFat16Signature ∧ res = -efsnotus) ∨
        ((diskHeader disk).signature = slobosFat16Signature ∧ res = -eio ∧
          (∃ total, fat16GetTotalItemsForDirectory disk left (diskHeader disk).rootDirSectorPos =
            some total) ∧ (heapMalloc kernel.heap (diskHeader disk).rootDirSize).1 = 0)) := by
  have hread : (diskstreamerRead disk 0 fatHeaderSize).res = slobosAllOk :=
    (diskstreamerRead_length disk 0 62).1
  have hheader : readFatHeader (fun i => (diskstreamerRead disk 0 fatHeaderSize).bytes.getD i 0) =
      diskHeader disk := rfl
  rw [fat16ReadVolume, if_neg hstream]
  simp only [hread, ne_eq, not_true_eq_false, if_false, hheader]
  by_cases hsignature : (diskHeader disk).signature = slobosFat16Signature
  · simp only [hsignature, not_true_eq_false, if_false, false_and, false_or, true_and]
    constructor
    · rintro ⟨h, hneg⟩
      rw [ends_bind] at h
      obtain ⟨code, middle, hroot, h⟩ := h
      rw [ends_ite] at h
      rcases h with ⟨hne, h⟩ | ⟨-, h⟩
      · obtain ⟨-, hsame, hcount, hnull⟩ := (fat16GetRootDirectory_fails hsound).mp ⟨hroot, hne⟩
        obtain ⟨hres, hafter⟩ := ends_pure.mp h
        exact ⟨hafter.trans hsame, hres, hcount, hnull⟩
      · obtain ⟨rfl, -⟩ := ends_pure.mp h
        exact absurd hneg (Int.lt_irrefl 0)
    · rintro ⟨rfl, rfl, hcount, hnull⟩
      obtain ⟨hroot, hne⟩ :=
        (fat16GetRootDirectory_fails hsound).mpr ⟨rfl, rfl, hcount, hnull⟩
      refine ⟨ends_bind.mpr ⟨_, _, hroot, ?_⟩, by decide⟩
      rw [if_pos hne]
      exact ends_pure.mpr ⟨rfl, rfl⟩
  · simp only [hsignature, not_false_eq_true, if_true, false_and, or_false, true_and, ends_pure]
    constructor
    · rintro ⟨⟨rfl, rfl⟩, -⟩
      exact ⟨rfl, rfl⟩
    · rintro ⟨rfl, rfl⟩
      exact ⟨⟨rfl, rfl⟩, by decide⟩

theorem ends_diskstreamerClose {stream : Nat} :
    Ends (if stream ≠ 0 then diskstreamerClose stream else pure ()) kernel () after ↔
      after = { kernel with heap := if stream ≠ 0 then heapFree kernel.heap stream else kernel.heap } := by
  by_cases hstream : stream ≠ 0
  · simp only [if_pos hstream, diskstreamerClose, kfree, ends_modify]
  · simp only [if_neg hstream, ends_pure, true_and]

theorem ends_fat16Resolve : Ends (fat16Resolve fat16Fs disk left fields) kernel (res, fields') after ↔
    ∃ fatPrivate first second stream third fourth,
      Ends (kzalloc fatPrivateSize) kernel fatPrivate first ∧
      Ends (fat16InitPrivate fields.id fatPrivate) first () second ∧
      Ends (diskstreamerNew fields.id) second stream third ∧
      Ends (fat16ReadVolume disk left stream) third res fourth ∧
      fields' = { fields with filesystem := fat16Fs
                              fsPrivate := if res < 0 then 0 else fatPrivate } ∧
      after = { fourth with heap :=
        let closed := if stream ≠ 0 then heapFree fourth.heap stream else fourth.heap
        if res < 0 then heapFree closed fatPrivate else closed } := by
  constructor
  · intro h
    obtain ⟨fatPrivate, first, halloc, h⟩ := ends_bind.mp h
    obtain ⟨_, second, hinit, h⟩ := ends_bind.mp h
    obtain ⟨stream, third, hstream, h⟩ := ends_bind.mp h
    obtain ⟨code, fourth, hread, h⟩ := ends_bind.mp h
    obtain ⟨_, closed, hclosed, h⟩ := ends_bind.mp h
    rw [ends_diskstreamerClose] at hclosed
    refine ⟨fatPrivate, first, second, stream, third, fourth, halloc, hinit, hstream, ?_⟩
    rw [ends_ite] at h
    rcases h with ⟨hneg, h⟩ | ⟨hnonneg, h⟩
    · obtain ⟨_, _, hfree, h⟩ := ends_bind.mp h
      obtain ⟨hresult, hafter⟩ := ends_pure.mp h
      cases hresult
      rw [kfree, ends_modify, hclosed] at hfree
      refine ⟨hread, ?_, ?_⟩
      · rw [if_pos hneg]
      · simp only [if_pos hneg]
        exact hafter.trans hfree
    · obtain ⟨hresult, hafter⟩ := ends_pure.mp h
      cases hresult
      refine ⟨hread, ?_, ?_⟩
      · rw [if_neg hnonneg]
      · simp only [if_neg hnonneg]
        exact hafter.trans hclosed
  · rintro ⟨fatPrivate, first, second, stream, third, fourth, halloc, hinit, hstream, hread, rfl, rfl⟩
    refine ends_bind.mpr ⟨fatPrivate, first, halloc, ?_⟩
    refine ends_bind.mpr ⟨(), second, hinit, ?_⟩
    refine ends_bind.mpr ⟨stream, third, hstream, ?_⟩
    refine ends_bind.mpr ⟨res, fourth, hread, ?_⟩
    refine ends_bind.mpr ⟨(), _, ends_diskstreamerClose.mpr rfl, ?_⟩
    by_cases hneg : res < 0
    · simp only [if_pos hneg, ends_bind, kfree, ends_modify, ends_pure, exists_const]
      exact ⟨_, rfl, trivial, rfl⟩
    · simp only [if_neg hneg, ends_pure, and_self]

/-! ### The private data and its streams -/

/-- These blocks hold the private data and its streams, as far as there was memory. -/
structure Prepared (heap : Heap) (diskId : Int) (fatPrivate : Nat) (own streams : List Nat)
    (after : Heap) : Prop where
  row : TakenRow heap (streams ++ own) after
  first : (fatPrivate = 0 ∧ own = [] ∧ ¬FreeBlocks heap 1) ∨
    ∃ block : Nat, own = [block] ∧ fatPrivate ≠ 0 ∧ fatPrivate = heapBlockToAddress heap block
  length : streams.length ≤ 3
  other : diskId ≠ 0 → streams = []
  full : diskId = 0 → streams.length = 3 ∨ ¬FreeBlocks heap (streams.length + own.length + 1)

theorem TakenRow.request {before : Heap} {blocks : List Nat} {size ptr : Nat}
    (h : TakenRow before blocks kernel.heap) (hpos : 0 < size) (hsize : size ≤ slobosHeapBlockSize)
    (halloc : Ends (Kernel.kzalloc size) kernel ptr after) :
    (ptr = 0 ∧ ¬FreeBlocks before (blocks.length + 1) ∧ after.heap = kernel.heap) ∨
      ∃ block : Nat, ptr ≠ 0 ∧ ptr = heapBlockToAddress before block ∧
        TakenRow before (block :: blocks) after.heap := by
  by_cases hne : ptr = 0
  · subst hne
    rcases kzalloc_oneBlock h.sound hpos hsize halloc with ⟨hnone, -, rfl⟩ | ⟨_, hne, -⟩
    · exact Or.inl ⟨rfl, mt (h.left 1).mp hnone, rfl⟩
    · exact absurd rfl hne
  · obtain ⟨block, hptr, hrow⟩ := h.kzalloc hpos hsize halloc hne
    exact Or.inr ⟨block, hne, hptr, hrow⟩

theorem diskstreamerNew_row {before : Heap} {blocks : List Nat} (h : TakenRow before blocks kernel.heap)
    (hnew : Ends (diskstreamerNew diskId) kernel stream after) :
    (stream = 0 ∧ after.heap = kernel.heap ∧
        (diskId = 0 → ¬FreeBlocks before (blocks.length + 1))) ∨
      (diskId = 0 ∧ ∃ block : Nat, stream ≠ 0 ∧ stream = heapBlockToAddress before block ∧
        TakenRow before (block :: blocks) after.heap) := by
  rw [diskstreamerNew, ends_ite] at hnew
  rcases hnew with ⟨hother, hnew⟩ | ⟨hid, hnew⟩
  · obtain ⟨rfl, rfl⟩ := ends_pure.mp hnew
    exact Or.inl ⟨rfl, rfl, fun hid => absurd hid hother⟩
  · rw [ends_bind] at hnew
    obtain ⟨streamer, middle, halloc, hnew⟩ := hnew
    rw [ends_storeTo_bind] at hnew
    obtain ⟨rfl, rfl⟩ := ends_pure.mp hnew
    rcases h.request (by decide) (by decide) halloc with ⟨hnull, hnone, hheap⟩ | htaken
    · exact Or.inl ⟨hnull, hheap, fun _ => hnone⟩
    · exact Or.inr ⟨not_not.mp hid, htaken⟩

structure Streams (heap : Heap) (diskId : Int) (own : List Nat) (count : Nat) (streams : List Nat)
    (after : Heap) : Prop where
  row : TakenRow heap (streams ++ own) after
  length : streams.length ≤ count
  other : diskId ≠ 0 → streams = []
  full : diskId = 0 → streams.length = count ∨ ¬FreeBlocks heap (streams.length + own.length + 1)

theorem Streams.new {heap : Heap} {own streams : List Nat} {count : Nat}
    (h : Streams heap diskId own count streams kernel.heap)
    (hnew : Ends (diskstreamerNew diskId) kernel stream after) :
    ∃ streams', Streams heap diskId own (count + 1) streams' after.heap := by
  rcases diskstreamerNew_row h.row hnew with ⟨-, hheap, hnone⟩ | ⟨hid, block, -, -, hrow⟩
  · refine ⟨streams, hheap ▸ h.row, Nat.le_succ_of_le h.length, h.other, fun hid => Or.inr ?_⟩
    rw [← List.length_append]
    exact hnone hid
  · refine ⟨block :: streams, hrow, Nat.succ_le_succ h.length, fun hother => absurd hid hother,
      fun _ => ?_⟩
    rcases h.full hid with hcount | hnone
    · exact Or.inl (congrArg (· + 1) hcount)
    · refine absurd hrow.freeBlocks ?_
      rwa [List.length_cons, List.length_append]

theorem fat16InitPrivate_prepared (hsound : HeapSound kernel.heap)
    (halloc : Ends (kzalloc fatPrivateSize) kernel fatPrivate middle)
    (hinit : Ends (fat16InitPrivate diskId fatPrivate) middle () after) :
    ∃ own streams, Prepared kernel.heap diskId fatPrivate own streams after.heap := by
  obtain ⟨own, hrow, hown⟩ : ∃ own, TakenRow kernel.heap own middle.heap ∧
      ((fatPrivate = 0 ∧ own = [] ∧ ¬FreeBlocks kernel.heap 1) ∨ ∃ block : Nat, own = [block] ∧
        fatPrivate ≠ 0 ∧ fatPrivate = heapBlockToAddress kernel.heap block) := by
    rcases (TakenRow.nil hsound).request (by decide) (by decide) halloc with
      ⟨hnull, hnone, hheap⟩ | ⟨block, hne, hptr, hrow⟩
    · rw [hheap]
      exact ⟨[], .nil hsound, Or.inl ⟨hnull, rfl, hnone⟩⟩
    · exact ⟨[block], hrow, Or.inr ⟨block, rfl, hne, hptr⟩⟩
  rw [fat16InitPrivate, ends_storeTo_bind] at hinit
  simp only [ends_bind, ends_pure, true_and] at hinit
  obtain ⟨_, first, hs, _, second, hs', _, third, hs'', rfl⟩ := hinit
  have hnone : Streams kernel.heap diskId own 0 [] (noteStore fatPrivate middle).heap :=
    ⟨hrow, Nat.le_refl 0, fun _ => rfl, fun _ => Or.inl rfl⟩
  obtain ⟨_, hone⟩ := hnone.new hs
  obtain ⟨_, htwo⟩ := hone.new hs'
  obtain ⟨streams, hthree⟩ := htwo.new hs''
  exact ⟨own, streams, hthree.row, hown, hthree.length, hthree.other, hthree.full⟩

namespace Prepared

variable {heap taken : Heap} {own streams : List Nat}

theorem own_length (h : Prepared heap diskId fatPrivate own streams taken) : own.length ≤ 1 := by
  rcases h.first with ⟨-, rfl, -⟩ | ⟨_, rfl, -⟩
  · exact Nat.zero_le 1
  · exact Nat.le_refl 1

theorem own_block (h : Prepared heap diskId fatPrivate own streams taken) (hne : streams ++ own ≠ []) :
    ∃ block : Nat, own = [block] ∧ fatPrivate = heapBlockToAddress heap block := by
  rcases h.first with ⟨-, -, hnone⟩ | ⟨block, hown, -, hptr⟩
  · exact absurd (h.row.freeBlocks.mono (List.length_pos_iff.mpr hne)) hnone
  · exact ⟨block, hown, hptr⟩

theorem streams_nil_iff (h : Prepared heap diskId fatPrivate own streams taken) :
    streams = [] ↔ diskId ≠ 0 ∨ ¬FreeBlocks heap 2 := by
  constructor
  · rintro rfl
    by_cases hid : diskId = 0
    · have hnone := (h.full hid).resolve_left (by decide)
      have hlength := h.own_length
      exact Or.inr fun hfree => hnone (hfree.mono (by rw [List.length_nil]; omega))
    · exact Or.inl hid
  · rintro (hid | hnone)
    · exact h.other hid
    · by_contra hne
      obtain ⟨block, rfl, -⟩ := h.own_block (List.append_ne_nil_of_left_ne_nil hne _)
      refine hnone (h.row.freeBlocks.mono ?_)
      have hpos := List.length_pos_iff.mpr hne
      rw [List.length_append, List.length_singleton]
      omega

theorem full_row (h : Prepared heap diskId fatPrivate own streams taken) (hid : diskId = 0) {last : Nat}
    {after : Heap} (hrow : TakenRow heap (last :: (streams ++ own)) after) :
    (last :: (streams ++ own)).length = 5 ∧ FreeBlocks heap 5 := by
  have hlength : streams.length = 3 := by
    refine (h.full hid).resolve_right fun hnone => hnone ?_
    rw [← List.length_append]
    exact hrow.freeBlocks
  obtain ⟨block, rfl, -⟩ := h.own_block (List.append_ne_nil_of_left_ne_nil
    (List.length_pos_iff.mp (by omega)) _)
  have hfive : (last :: (streams ++ [block])).length = 5 := by
    rw [List.length_cons, List.length_append, hlength, List.length_singleton]
  exact ⟨hfive, hfive ▸ hrow.freeBlocks⟩

theorem restores (h : Prepared heap diskId fatPrivate own [] taken) :
    SameTable heap (heapFree taken fatPrivate) := by
  refine ⟨(heapFree_total _ _).trans h.row.takes.total, fun i hi => ?_⟩
  have hsound := h.row.freeBlocks.toHeapSound
  rcases h.first with ⟨rfl, rfl, -⟩ | ⟨block, rfl, -, hptr⟩
  · rw [h.row.sound.release_null, h.row.takes.entries]
    exact if_neg (by simp)
  · have hfree := heapFree_single h.row.sound (h.row.takes.chained (List.mem_singleton_self block))
    rw [heapBlockToAddress_congr h.row.takes.saddr, ← hptr] at hfree
    rw [hfree, h.row.takes.entries]
    simp only [List.nil_append, List.mem_singleton, exists_eq_left]
    by_cases heq : (i : Int) = block
    · obtain rfl := Int.ofNat_inj.mp heq
      rw [if_pos rfl, hsound.clean i hi (h.row.takes.free i (List.mem_singleton_self i))]
    · rw [if_neg heq, if_neg heq]

end Prepared

/-! ### Calls that fail -/

theorem Prepared.leaks {heap taken closed : Heap} {own streams : List Nat}
    (h : Prepared heap diskId fatPrivate own streams taken) (hsound : HeapSound closed)
    (hsaddr : closed.saddr = heap.saddr)
    (hchained : ∀ block ∈ streams ++ own, Chained closed.table ⟨block, 1⟩) (hne : streams ≠ []) :
    ¬SameTable heap (heapFree closed fatPrivate) := by
  intro hsame
  obtain ⟨stream, hstream⟩ := List.exists_mem_of_ne_nil streams hne
  obtain ⟨block, rfl, hptr⟩ := h.own_block (List.append_ne_nil_of_left_ne_nil hne _)
  have hmem : stream ∈ streams ++ [block] := List.mem_append_left _ hstream
  have hdiff : stream ≠ block :=
    (List.nodup_append.mp h.row.takes.nodup).2.2 stream hstream block (List.mem_singleton_self block)
  have hkept := heapFree_single_keeps hsound (hchained block (by simp)) (hchained stream hmem) hdiff
  rw [heapBlockToAddress_congr hsaddr, ← hptr] at hkept
  have hentry := (chained_one_iff.mp hkept).2
  rw [hsame.2 stream (h.row.takes.lt stream hmem)] at hentry
  exact not_isFree_of_eq_chainEntry hentry (h.row.takes.free stream hmem)

/-- A call that fails sets both fields, and restores the table only if there are no streams. -/
theorem fat16Resolve_failed (hsound : HeapSound kernel.heap)
    (h : Ends (fat16Resolve fat16Fs disk left fields) kernel (res, fields') after) (hneg : res < 0) :
    ResolveFails kernel disk fields ∧
      fields' = { fields with filesystem := fat16Fs, fsPrivate := 0 } ∧
        (SameTable kernel.heap after.heap ↔ fields.id ≠ 0 ∨ ¬FreeBlocks kernel.heap 2) := by
  obtain ⟨fatPrivate, first, second, stream, third, fourth, halloc, hinit, hstream, hread, hfields,
    hafter⟩ := ends_fat16Resolve.mp h
  obtain ⟨own, streams, hprepared⟩ := fat16InitPrivate_prepared hsound halloc hinit
  rw [if_pos hneg] at hfields
  rw [← hprepared.streams_nil_iff]
  simp only [if_pos hneg] at hafter
  rcases diskstreamerNew_row hprepared.row hstream with ⟨rfl, hheap, hnone⟩ | ⟨hid, last, hne, hptr, hrow⟩
  · -- There is no stream to read the header with.
    rw [fat16ReadVolume, if_pos rfl] at hread
    obtain ⟨-, rfl⟩ := ends_pure.mp hread
    rw [if_neg (not_not.mpr rfl), hheap] at hafter
    have hheap' : after.heap = heapFree second.heap fatPrivate := by rw [hafter]
    rw [hheap']
    refine ⟨?_, hfields, fun hsame => ?_, ?_⟩
    · by_cases hid : fields.id = 0
      · refine Or.inr (Or.inl fun hfree => hnone hid (hfree.mono ?_))
        have hown := hprepared.own_length
        have hlength := hprepared.length
        rw [List.length_append]
        omega
      · exact Or.inl hid
    · by_contra hne
      exact hprepared.leaks hprepared.row.sound hprepared.row.takes.saddr
        (fun block => hprepared.row.takes.chained) hne hsame
    · rintro rfl
      exact hprepared.restores
  · obtain ⟨rfl, hfails⟩ := (fat16ReadVolume_fails hrow.sound hne).mp ⟨hread, hneg⟩
    obtain ⟨hlength, hfree⟩ := hprepared.full_row hid hrow
    have hnil : streams ≠ [] := by
      rintro rfl
      have hown := hprepared.own_length
      simp only [List.nil_append, List.length_cons] at hlength
      omega
    rw [if_pos hne] at hafter
    have hheap : after.heap = heapFree (heapFree fourth.heap stream) fatPrivate := by rw [hafter]
    refine ⟨?_, hfields, iff_of_false ?_ hnil⟩
    · refine Or.inr (Or.inr ?_)
      rcases hfails with ⟨hsignature, -⟩ | ⟨-, -, ⟨total, hcount⟩, hnull⟩
      · exact Or.inl hsignature
      · rw [hrow.same, hlength] at hnull
        exact Or.inr ⟨⟨left, total, hcount⟩, hnull⟩
    · rw [hheap]
      refine hprepared.leaks (hrow.sound.free stream) ((heapFree_saddr _ _).trans hrow.takes.saddr)
        (fun other hother => ?_) hnil
      have hdiff : other ≠ last := fun heq => (List.nodup_cons.mp hrow.takes.nodup).1 (heq ▸ hother)
      have hkept := heapFree_single_keeps hrow.sound (hrow.takes.chained List.mem_cons_self)
        (hrow.takes.chained (List.mem_cons_of_mem _ hother)) hdiff
      rwa [heapBlockToAddress_congr hrow.takes.saddr, ← hptr] at hkept

theorem diskstreamerNew_total (hsound : HeapSound kernel.heap) (diskId : Int) :
    ∃ stream after, Ends (diskstreamerNew diskId) kernel stream after := by
  by_cases hid : diskId = 0
  · obtain ⟨stream, after, halloc⟩ :=
      kzalloc_total hsound (show diskStreamSize ≤ slobosHeapBlockSize by decide)
    refine ⟨stream, noteStore stream after, ?_⟩
    rw [diskstreamerNew, if_neg (not_not.mpr hid)]
    refine ends_bind.mpr ⟨stream, after, halloc, ?_⟩
    rw [ends_storeTo_bind]
    exact ends_pure.mpr ⟨rfl, rfl⟩
  · refine ⟨0, kernel, ?_⟩
    rw [diskstreamerNew, if_pos hid]
    exact ends_pure.mpr ⟨rfl, rfl⟩

theorem diskstreamerNew_keeps {rel : Kernel → Kernel → Prop} [HeapFrame rel] (diskId : Int) :
    Keeps rel (diskstreamerNew diskId) :=
  .ite .pure (.bind (HeapFrame.kzalloc _) fun _ => .bind (storeTo_keeps _) fun _ => .pure)

theorem fat16InitPrivate_total (hsound : HeapSound kernel.heap) (diskId : Int) (fatPrivate : Nat) :
    ∃ after, Ends (fat16InitPrivate diskId fatPrivate) kernel () after := by
  have hkeeps : ∀ {kernel stream after}, Ends (diskstreamerNew diskId) kernel stream after →
      StaysSound kernel after := fun hnew => (diskstreamerNew_keeps diskId).of_ends hnew
  obtain ⟨_, first, hs⟩ := @diskstreamerNew_total (noteStore fatPrivate kernel) hsound diskId
  obtain ⟨_, second, hs'⟩ := diskstreamerNew_total (hkeeps hs hsound) diskId
  obtain ⟨_, third, hs''⟩ := diskstreamerNew_total (hkeeps hs' (hkeeps hs hsound)) diskId
  refine ⟨third, ?_⟩
  rw [fat16InitPrivate, ends_storeTo_bind]
  exact ends_bind.mpr ⟨_, first, hs, ends_bind.mpr ⟨_, second, hs', ends_bind.mpr ⟨_, third, hs'',
    ends_pure.mpr ⟨rfl, rfl⟩⟩⟩⟩

theorem fat16Resolve_fails_ends (hsound : HeapSound kernel.heap)
    (hfails : ResolveFails kernel disk fields) : ∃ left res fields' after, res < 0 ∧
      Ends (fat16Resolve fat16Fs disk left fields) kernel (res, fields') after := by
  obtain ⟨fatPrivate, first, halloc⟩ :=
    kzalloc_total hsound (show fatPrivateSize ≤ slobosHeapBlockSize by decide)
  have hfirst : HeapSound first.heap := (ends_kzalloc halloc).2.1 ▸ hsound.malloc _
  obtain ⟨second, hinit⟩ := fat16InitPrivate_total hfirst fields.id fatPrivate
  obtain ⟨own, streams, hprepared⟩ := fat16InitPrivate_prepared hsound halloc hinit
  obtain ⟨stream, third, hstream⟩ := diskstreamerNew_total hprepared.row.sound fields.id
  have hread : ∃ left res, Ends (fat16ReadVolume disk left stream) third res third ∧ res < 0 := by
    rcases diskstreamerNew_row hprepared.row hstream with ⟨rfl, -, -⟩ | ⟨hid, last, hne, -, hrow⟩
    · refine ⟨0, -enomem, ?_, by decide⟩
      rw [fat16ReadVolume, if_pos rfl]
      exact ends_pure.mpr ⟨rfl, rfl⟩
    · obtain ⟨hlength, hfree⟩ := hprepared.full_row hid hrow
      have hfails := (hfails.resolve_left (not_not.mpr hid)).resolve_left (not_not.mpr hfree)
      by_cases hsignature : (diskHeader disk).signature = slobosFat16Signature
      · obtain ⟨⟨left, total, hcount⟩, hnull⟩ := hfails.resolve_left (not_not.mpr hsignature)
        rw [← hlength, ← hrow.same] at hnull
        exact ⟨left, _, (fat16ReadVolume_fails hrow.sound hne).mpr
          ⟨rfl, Or.inr ⟨hsignature, rfl, ⟨total, hcount⟩, hnull⟩⟩⟩
      · exact ⟨0, _, (fat16ReadVolume_fails hrow.sound hne).mpr ⟨rfl, Or.inl ⟨hsignature, rfl⟩⟩⟩
  obtain ⟨left, res, hread, hneg⟩ := hread
  exact ⟨left, res, _, _, hneg, ends_fat16Resolve.mpr ⟨fatPrivate, first, second, stream, third, third,
    halloc, hinit, hstream, hread, rfl, rfl⟩⟩

/-- A call restores the disk and the heap exactly where it cannot fail, or where there is nothing to
restore. -/
theorem resolveRestores_iff (hsound : HeapSound kernel.heap) :
    ResolveRestores fat16Fs kernel disk fields ↔
      ¬ResolveFails kernel disk fields ∨ NothingToRestore fat16Fs kernel fields := by
  constructor
  · intro hrestores
    rw [or_iff_not_imp_left, not_not]
    intro hfails
    obtain ⟨left, res, fields', after, hneg, hend⟩ := fat16Resolve_fails_ends hsound hfails
    obtain ⟨hsame, htable⟩ := hrestores left res fields' after hend hneg
    obtain ⟨-, hfields, hkept⟩ := fat16Resolve_failed hsound hend hneg
    rw [hsame] at hfields
    exact ⟨hkept.mp htable, congrArg DiskFields.filesystem hfields, congrArg DiskFields.fsPrivate hfields⟩
  · intro hcondition left res fields' after hend hneg
    obtain ⟨hfails, hfields, hkept⟩ := fat16Resolve_failed hsound hend hneg
    obtain ⟨hstreams, hfilesystem, hprivate⟩ := hcondition.resolve_left (not_not.mpr hfails)
    exact ⟨by rw [hfields, ← hfilesystem, ← hprivate], hkept.mpr hstreams⟩

def blankDisk : Disk where
  sector := fun _ _ => 0

def unresolvedFields : DiskFields where
  id := 0
  filesystem := 0
  fsPrivate := 0

theorem blankDisk_fails :
    ResolveFails (idleKernel bootBytes unmountedVolume) blankDisk unresolvedFields :=
  Or.inr (Or.inr (Or.inl (by decide)))

theorem resolveRestores_iff_blank :
    ResolveRestores 0x100000 (idleKernel bootBytes unmountedVolume) blankDisk unresolvedFields ↔
      ¬ResolveFails (idleKernel bootBytes unmountedVolume) blankDisk unresolvedFields ∨
        NothingToRestore 0x100000 (idleKernel bootBytes unmountedVolume) unresolvedFields :=
  resolveRestores_iff (idleKernel_sound unmountedVolume)

/-- The signature of that disk is wrong, and three blocks stay taken. -/
theorem not_resolveRestores : ¬∀ fat16Fs (kernel : Kernel) disk fields, HeapSound kernel.heap →
    ResolveRestores fat16Fs kernel disk fields := by
  intro hall
  have hsound := idleKernel_sound unmountedVolume
  have hrestores := hall 0x100000 _ blankDisk unresolvedFields hsound
  obtain ⟨left, res, fields', after, hneg, hend⟩ := fat16Resolve_fails_ends hsound blankDisk_fails
  obtain ⟨-, -, hkept⟩ := fat16Resolve_failed hsound hend hneg
  rcases hkept.mp (hrestores left res fields' after hend hneg).2 with hid | hnone
  · exact hid rfl
  · exact hnone (idleKernel_freeBlocks unmountedVolume (by decide))

end Kernel

end SlobOS
