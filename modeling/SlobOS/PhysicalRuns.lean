import SlobOS.Lib.Runs
import SlobOS.Proof.StringCopies

/-!
# Runs on a page directory

Between its construction and its release a page directory is mapped, and strings are copied through it,
while the rest of the kernel allocates and releases. The entries of the directory keep naming the
tables as long as no string is copied over them, and then the release gives back the blocks that the
construction took, and no others.
-/

namespace SlobOS

namespace Physical

open Faulting Kernel Runs

structure PagingState where
  kernel : Kernel
  /-- Ghost: the addresses that have been handed out and not been given back, without those of the
  chunk. -/
  live : List Nat

inductive PagingAction where
  | set (virt val : UInt32)
  | map (virt phys flags : UInt32)
  | mapTo (virt phys physEnd flags : UInt32)
  | copyString (virtual phys : UInt32) (max : Int)
  | kmalloc (size : UInt32)
  | kzalloc (size : UInt32)
  | kfree (ptr : Nat)

/-- A call that comes back; what is released is live. -/
inductive PagingStep (chunk : Nat) : PagingState → PagingAction → PagingState → Prop
  | set {state : PagingState} {virt val : UInt32} {directory : Nat} {middle after : Kernel} {res : Int} :
      Ends (paging4gbChunkGetDirectory chunk) state.kernel directory middle →
      Ends (pagingSet directory virt.toNat val.toNat) middle res after →
      PagingStep chunk state (.set virt val) { state with kernel := after }
  | map {state : PagingState} {virt phys flags : UInt32} {after : Kernel} {res : Int} :
      Ends (pagingMap chunk virt.toNat phys.toNat flags.toNat) state.kernel res after →
      PagingStep chunk state (.map virt phys flags) { state with kernel := after }
  | mapTo {state : PagingState} {virt phys physEnd flags : UInt32} {after : Kernel} {res : Int} :
      Ends (pagingMapTo chunk virt.toNat phys.toNat physEnd.toNat flags.toNat) state.kernel res after →
      PagingStep chunk state (.mapTo virt phys physEnd flags) { state with kernel := after }
  | copyString {state : PagingState} {virtual phys : UInt32} {max res : Int} {after : Kernel} :
      Ends (copyStringFromTask chunk virtual.toNat phys.toNat max) state.kernel res after →
      PagingStep chunk state (.copyString virtual phys max) { state with kernel := after }
  | kmalloc {state : PagingState} {size : UInt32} {ptr : Nat} {after : Kernel} :
      Ends (kmalloc size.toNat) state.kernel ptr after →
      PagingStep chunk state (.kmalloc size) { kernel := after, live := ptr :: state.live }
  | kzalloc {state : PagingState} {size : UInt32} {ptr : Nat} {after : Kernel} :
      Ends (kzalloc size.toNat) state.kernel ptr after →
      PagingStep chunk state (.kzalloc size) { kernel := after, live := ptr :: state.live }
  | kfree {state : PagingState} {ptr : Nat} {after : Kernel} : ptr ∈ state.live →
      Ends (kfree ptr) state.kernel () after →
      PagingStep chunk state (.kfree ptr) { kernel := after, live := state.live.erase ptr }

/-- The address is none of the table of the heap, which is kept apart from memory. -/
def OutsideTable (address : Nat) : Prop :=
  ¬(slobosHeapTableAddress ≤ address ∧
    address < slobosHeapTableAddress + slobosHeapSizeBytes / slobosHeapBlockSize)

/-- A string is copied to a buffer that meets neither the directory nor the chunk structure nor the
table of the heap, and `max - 1` does not overflow. -/
def StoresOutside (chunk directory : Nat) : PagingAction → Prop
  | .copyString _ phys max => -0x80000000 < max ∧ (max < pagingPageSize →
      ∀ i ≤ (max - 1).toNat, OutsideChunk chunk directory (toUint32 (phys.toNat + i)) ∧
        OutsideTable (toUint32 (phys.toNat + i)))
  | _ => True

def LiveAddress (heap : Heap) (ptr : Nat) : Prop :=
  ∀ block < heap.table.total, Reaches heap.table (heapAddressToBlock heap ptr) block →
    ¬heap.table.IsFree block

/-- The directory names the tables, and the release of the chunk clears the entries of its blocks and no
others. -/
def ReleasesChunk (kernel : Kernel) (b : ChunkBlocks) : Prop :=
  (∀ i < pagingTotalEntriesPerTable,
    tableAddress (word kernel (blockAddress b.directory) i) = blockAddress (b.table i)) ∧
  ∃ after, Ends (pagingFree4gb (blockAddress b.chunk)) kernel () after ∧
    ∀ i : Int, after.heap.table.entries i =
      if ∃ block ∈ b.blocks, i = (block : Nat) then heapBlockTableEntryFree
      else kernel.heap.table.entries i

/-- The chunk is as it was built, and no live address leads the release to one of its blocks. -/
structure Kept (b : ChunkBlocks) (state : PagingState) : Prop where
  owned : Owned state.kernel b
  entries : ∀ block ∈ b.blocks, state.kernel.heap.table.entries block = chainEntry 1 0
  guards : ∀ ptr ∈ state.live, ∀ block ∈ b.blocks, Guards state.kernel.heap block ptr

variable {b : ChunkBlocks} {kernel after : Kernel} {ptr : Nat} {state state' : PagingState} {live : List Nat} {chunk : Nat}

theorem Kept.leaves (h : Kept b state) (hleaves : Leaves b state.kernel after) :
    Kept b { state with kernel := after } where
  owned := h.owned.leaves hleaves
  entries block hmem :=
    (hleaves.spares block hmem (h.owned.holds block hmem)).kept.trans (h.entries block hmem)
  guards ptr hptr := hleaves.guards h.owned (h.guards ptr hptr)

theorem Kept.handed (h : Kept b state) (hleaves : Leaves b state.kernel after)
    (hguards : ∀ block ∈ b.blocks, Guards after.heap block ptr) :
    Kept b { kernel := after, live := ptr :: state.live } := by
  refine ⟨(h.leaves hleaves).owned, (h.leaves hleaves).entries, fun other hother => ?_⟩
  rcases List.mem_cons.mp hother with rfl | hmem
  · exact hguards
  · exact (h.leaves hleaves).guards other hmem

theorem Kept.step_leaves {action : PagingAction} (h : Kept b state)
    (houtside : StoresOutside (blockAddress b.chunk) (blockAddress b.directory) action)
    (hstep : PagingStep (blockAddress b.chunk) state action state') :
    Leaves b state.kernel state'.kernel := by
  cases hstep with
  | @set virt val directory middle after res hget hset =>
      obtain ⟨rfl, rfl⟩ := h.owned.load.mp hget
      exact pagingSet_leaves h.owned virt.toNat_lt hset
  | @map virt _ _ _ _ hmap => exact pagingMap_leaves h.owned virt.toNat_lt hmap
  | @mapTo virt _ _ _ _ _ hmap => exact pagingMapTo_leaves h.owned virt.toNat_lt hmap
  | copyString hcopy =>
      exact copyStringFromTask_leaves h.owned (fun hmax i hi => (houtside.2 hmax i hi).1) hcopy
  | kmalloc halloc => exact kmalloc_leaves halloc
  | kzalloc halloc => exact kzalloc_leaves h.owned halloc
  | @kfree ptr after hptr hfree => exact kfree_leaves (h.guards ptr hptr) hfree

theorem Kept.step {action : PagingAction} (h : Kept b state)
    (houtside : StoresOutside (blockAddress b.chunk) (blockAddress b.directory) action)
    (hstep : PagingStep (blockAddress b.chunk) state action state') : Kept b state' := by
  have hleaves := h.step_leaves houtside hstep
  cases hstep with
  | set | map | mapTo | copyString => exact h.leaves hleaves
  | @kmalloc size ptr after halloc =>
      refine h.handed hleaves fun block hmem => ?_
      obtain ⟨rfl, rfl⟩ := ends_kmalloc.mp halloc
      exact (h.owned.holds block hmem).malloc_guards size.toNat
  | kzalloc halloc =>
      exact h.handed hleaves fun block hmem => (kzalloc_spares halloc (h.owned.holds block hmem)).2
  | kfree =>
      have hafter := h.leaves hleaves
      exact ⟨hafter.owned, hafter.entries, fun other hother =>
        hafter.guards other (List.mem_of_mem_erase hother)⟩

theorem LiveAddress.guards {heap heap' : Heap} {blocks : List Nat} (h : LiveAddress heap ptr)
    (htakes : TakesBlocks heap heap' blocks) {block : Nat} (hmem : block ∈ blocks) :
    Guards heap' block ptr := by
  by_contra hnot
  rw [Guards, Shields, heapAddressToBlock_congr htakes.saddr] at hnot
  obtain ⟨hge, hstops⟩ := not_or.mp hnot
  refine h block (htakes.lt block hmem)
    ⟨Int.not_lt.mp hge, Int.ofNat_lt.mpr (htakes.lt block hmem), fun k hk hlt => ?_⟩
    (htakes.free block hmem)
  by_contra hstop
  refine hstops ⟨k, hk, hlt, ?_⟩
  rw [htakes.entries]
  split
  case isTrue => decide
  case isFalse => exact hstop

theorem LiveAddress.of_chained {heap : Heap} {span : Tilings.Span} (hsized : heap.Sized)
    (h : Chained heap.table span) : LiveAddress heap (heapBlockToAddress heap span.start) := by
  intro block _ hreach
  rw [heapAddressToBlock_blockToAddress hsized h.start_lt, h.reaches_iff] at hreach
  exact h.not_isFree ⟨Int.ofNat_le.mp hreach.1, Int.ofNat_lt.mp hreach.2⟩

theorem kept_new {flags : UInt8} {start first : Kernel} (hsound : HeapSound start.heap)
    (hnew : Ends (pagingNew4gb flags) start chunk first)
    (hlive : ∀ ptr ∈ live, LiveAddress start.heap ptr) :
    ∃ b : ChunkBlocks, chunk = blockAddress b.chunk ∧ Built start first flags b ∧
      Kept b { kernel := first, live := live } := by
  obtain ⟨b, hchunk, hbuilt, hrow⟩ := pagingNew4gb_spec hsound hnew
  exact ⟨b, hchunk, hbuilt, hbuilt.owned hrow,
    fun block hmem => (chained_one_iff.mp (hbuilt.takes.chained hmem)).2,
    fun ptr hptr block hmem => (hlive ptr hptr).guards hbuilt.takes hmem⟩

theorem pagingFreeTables_ends {start : Kernel} {left count : Nat} (howned : Owned start b)
    (hentries : ∀ block ∈ b.blocks, start.heap.table.entries block = chainEntry 1 0)
    (hsame : bytes kernel = bytes start)
    (hreleases : Releases start.heap kernel.heap (tableRow b.table count))
    (hstop : count + left = pagingTotalEntriesPerTable) :
    ∃ after, Ends (pagingFreeTables (blockAddress b.chunk) left count) kernel () after ∧
      bytes after = bytes start ∧
        Releases start.heap after.heap (tableRow b.table pagingTotalEntriesPerTable) := by
  induction left generalizing kernel count with
  | zero => exact ⟨kernel, ends_pure.mpr ⟨rfl, rfl⟩, hsame, hstop ▸ hreleases⟩
  | succ left ih =>
      have hcount : count < pagingTotalEntriesPerTable := by omega
      have hmem := b.table_mem hcount
      have hholds := howned.holds _ hmem
      have hnew : b.table count ∉ tableRow b.table count := by
        intro hin
        obtain ⟨i, hi, heq⟩ := mem_tableRow.mp hin
        exact Nat.ne_of_lt hi (b.table_injective (Nat.lt_trans hi hcount) hcount heq)
      have hnext := hreleases.cons (chained_one_iff.mpr ⟨hholds.lt, hentries _ hmem⟩) hnew
      have haddress : heapBlockToAddress kernel.heap (b.table count) = blockAddress (b.table count) :=
        hreleases.sound.address (hreleases.total ▸ hholds.lt)
      rw [← tableRow_succ, haddress] at hnext
      obtain ⟨after, hrest, hafter⟩ := @ih
        { kernel with heap := heapFree kernel.heap (blockAddress (b.table count)) } (count + 1)
        hsame hnext (by omega)
      refine ⟨after, ?_, hafter⟩
      have hchunk := (word_congr_memory hsame (blockAddress b.chunk) 0).trans howned.chunk
      have hentry := word_congr_memory hsame (blockAddress b.directory) count
      rw [pagingFreeTables, ends_bind]
      refine ⟨_, kernel, ends_loadWord.mpr ⟨blockAddress_ne_zero _, rfl, rfl⟩, ends_bind.mpr ?_⟩
      rw [hchunk]
      refine ⟨_, kernel, ends_loadWord.mpr ⟨blockAddress_ne_zero _, rfl, rfl⟩, ends_bind.mpr ?_⟩
      rw [hentry, howned.names count hcount]
      exact ⟨(), _, ends_kfree.mpr rfl, hrest⟩

theorem Kept.releases (h : Kept b state) : ReleasesChunk state.kernel b := by
  have hchained : ∀ block ∈ b.blocks, Chained state.kernel.heap.table ⟨block, 1⟩ := fun block hmem =>
    chained_one_iff.mpr ⟨(h.owned.holds block hmem).lt, h.entries block hmem⟩
  have hsound := (h.owned.holds _ b.chunk_mem).toHeapSound
  refine ⟨h.owned.names, ?_⟩
  have hnone : Releases state.kernel.heap state.kernel.heap (tableRow b.table 0) := .nil hsound
  obtain ⟨freed, htables, hbytes, hreleases⟩ :=
    pagingFreeTables_ends h.owned h.entries rfl hnone (Nat.zero_add _)
  have hdirectory := hreleases.cons (hchained _ b.directory_mem) (by
    intro hin
    obtain ⟨i, hi, heq⟩ := mem_tableRow.mp hin
    exact b.directory_ne_table hi heq.symm)
  rw [hreleases.sound.address (hreleases.total ▸ (h.owned.holds _ b.directory_mem).lt)] at hdirectory
  have hchunk := hdirectory.cons (hchained _ b.chunk_mem) (by
    intro hin
    rcases List.mem_cons.mp hin with heq | hin
    · exact b.chunk_ne_directory heq
    · obtain ⟨i, hi, heq⟩ := mem_tableRow.mp hin
      exact b.chunk_ne_table hi heq.symm)
  rw [hdirectory.sound.address (hdirectory.total ▸ (h.owned.holds _ b.chunk_mem).lt)] at hchunk
  refine ⟨{ freed with
    heap := heapFree (heapFree freed.heap (blockAddress b.directory)) (blockAddress b.chunk) },
    ?_, fun i => ?_⟩
  · have hword := (word_congr_memory hbytes (blockAddress b.chunk) 0).trans h.owned.chunk
    rw [pagingFree4gb, ends_bind]
    refine ⟨(), freed, htables, ends_bind.mpr ?_⟩
    refine ⟨_, freed, ends_loadWord.mpr ⟨blockAddress_ne_zero _, rfl, rfl⟩, ends_bind.mpr ?_⟩
    rw [hword]
    exact ⟨(), _, ends_kfree.mpr rfl, ends_kfree.mpr rfl⟩
  · refine (hchunk.entries i).trans (if_congr ?_ rfl rfl)
    have hblocks : ∀ block, block ∈ b.chunk :: b.directory ::
        tableRow b.table pagingTotalEntriesPerTable ↔ block ∈ b.blocks := by
      intro block
      rw [b.mem_blocks, List.mem_cons, List.mem_cons, mem_tableRow]
    simp only [hblocks]

/-- Over any run in which no string is stored in the directory, in the chunk structure or in the table of
the heap, the directory names the tables that it was built with, and the release clears the blocks that
were taken and no others. -/
theorem pagingFree4gb_releases {flags : UInt8} {start first : Kernel} {actions : List PagingAction}
    (hsound : HeapSound start.heap) (hnew : Ends (pagingNew4gb flags) start chunk first)
    (hlive : ∀ ptr ∈ live, LiveAddress start.heap ptr)
    (hrun : Run (Guarded (fun _ => StoresOutside chunk (word first chunk 0)) (PagingStep chunk))
      { kernel := first, live := live } actions state) :
    ∃ b : ChunkBlocks, chunk = blockAddress b.chunk ∧ Built start first flags b ∧
      ReleasesChunk state.kernel b := by
  obtain ⟨b, rfl, hbuilt, hkept⟩ := kept_new hsound hnew hlive
  rw [hbuilt.chunk] at hrun
  refine ⟨b, rfl, hbuilt, Kept.releases (hrun.invariant (Kept b) ?_ hkept)⟩
  rintro before action next hbefore ⟨houtside, hstep⟩
  exact hbefore.step houtside hstep

theorem pagingFree4gb_releases_interleaved : ∃ start chunk first ptr state b,
    Ends (pagingNew4gb 0x05) start chunk first ∧
      Run (Guarded (fun _ => StoresOutside chunk (word first chunk 0)) (PagingStep chunk))
        { kernel := first, live := [ptr] } [.map 0x400000 0x500000 7, .kfree ptr, .kmalloc 8192]
        state ∧ ReleasesChunk state.kernel b := by
  obtain ⟨ptr, start, halloc, hne, hfree⟩ := kzalloc_block
    (idleKernel_freeBlocks unmountedVolume (show 1027 ≤ 25600 by decide)) (show 0 < 24 by decide)
    (by decide)
  have hsound := idleKernel_sound unmountedVolume
  have hsound' : HeapSound start.heap := Supply.sound hfree
  have hlive : ∀ other ∈ [ptr], LiveAddress start.heap other := by
    rcases kzalloc_oneBlock hsound (by decide) (by decide) halloc with
      ⟨-, hnull, -⟩ | ⟨block, -, hptr, htakes, -⟩
    · exact absurd hnull hne
    · intro other hmem
      obtain rfl := List.mem_singleton.mp hmem
      have hfirst := LiveAddress.of_chained hsound'.sized htakes.chained
      rwa [heapBlockToAddress_congr htakes.saddr, ← hptr] at hfirst
  obtain ⟨chunk, first, hnew⟩ := pagingNew4gb_ends hfree 0x05
  obtain ⟨b, rfl, -, hkept⟩ := kept_new hsound' hnew hlive
  obtain ⟨mapped, hmap, -⟩ := pagingMap_refines b (show 0x400000 < addressSpace by decide)
    (show 0x500000 ||| 7 < addressSpace by decide) first _ hkept.owned.represents
  have hmapped : PagingStep (blockAddress b.chunk) { kernel := first, live := [ptr] }
      (.map 0x400000 0x500000 7) { kernel := mapped, live := [ptr] } := .map hmap
  obtain ⟨freed, hfreed⟩ : ∃ freed, PagingStep (blockAddress b.chunk)
      { kernel := mapped, live := [ptr] } (.kfree ptr) freed :=
    ⟨_, .kfree (List.mem_singleton_self ptr) (ends_kfree.mpr rfl)⟩
  obtain ⟨taken, htaken⟩ : ∃ taken, PagingStep (blockAddress b.chunk) freed (.kmalloc 8192) taken :=
    ⟨_, .kmalloc (ends_kmalloc.mpr ⟨rfl, rfl⟩)⟩
  have hrun : Run (Guarded (fun _ => StoresOutside (blockAddress b.chunk)
      (word first (blockAddress b.chunk) 0)) (PagingStep (blockAddress b.chunk)))
        { kernel := first, live := [ptr] } [.map 0x400000 0x500000 7, .kfree ptr, .kmalloc 8192] taken :=
    .snoc (.snoc (.single ⟨trivial, hmapped⟩) ⟨trivial, hfreed⟩) ⟨trivial, htaken⟩
  obtain ⟨b', -, -, hreleases⟩ := pagingFree4gb_releases hsound' hnew hlive hrun
  exact ⟨start, _, first, ptr, _, b', hnew, hrun, hreleases⟩

/-- A string that ends with the last byte of an entry of the directory cuts the entry off. -/
theorem not_releasesChunk : ¬∀ (flags : UInt8) (start first : Kernel) (chunk : Nat) (live : List Nat)
    (actions : List PagingAction) (state : PagingState), HeapSound start.heap →
      Ends (pagingNew4gb flags) start chunk first → (∀ ptr ∈ live, LiveAddress start.heap ptr) →
      Run (PagingStep chunk) { kernel := first, live := live } actions state →
      ∃ b : ChunkBlocks, chunk = blockAddress b.chunk ∧ Built start first flags b ∧
        ReleasesChunk state.kernel b := by
  intro hall
  have hsound := idleKernel_sound unmountedVolume
  have hfree := idleKernel_freeBlocks unmountedVolume (show 1027 ≤ 25600 by decide)
  obtain ⟨chunk, first, hnew⟩ := pagingNew4gb_ends (hfree.mono (by decide)) 0x05
  obtain ⟨b, rfl, hbuilt, hrow⟩ := pagingNew4gb_spec hsound hnew
  have howned := hbuilt.owned hrow
  have hdirectory := b.blockAddress_below b.directory_mem
  have hplace : blockAddress b.directory + 3 < addressSpace := by
    simp only [slobosHeapBlockSize] at hdirectory
    omega
  obtain ⟨stored, after, hcopy, -, hbytes⟩ := copyStringFromTask_one howned
    (fun i => hbuilt.entry_lt (by decide)) (fun i => hbuilt.entry_odd (by decide))
    ((hrow.left 1).mp (b.blocks_length ▸ hfree)) hplace 0
  have hphys : (UInt32.ofNat (blockAddress b.directory + 3)).toNat = blockAddress b.directory + 3 :=
    UInt32.toNat_ofNat_of_lt hplace
  have hstep : PagingStep (blockAddress b.chunk) { kernel := first, live := [] }
      (.copyString 0 (UInt32.ofNat (blockAddress b.directory + 3)) 1)
      { kernel := after, live := [] } := .copyString (by rwa [hphys])
  obtain ⟨b', hchunk, hbuilt', hnames, -⟩ := hall _ _ _ _ _ _ _ hsound hnew (by simp) (.single hstep)
  have hsame : blockAddress b'.directory = blockAddress b.directory := by
    rw [← hbuilt.chunk, ← hbuilt'.chunk, hchunk]
  have hshort : word after (blockAddress b.directory) 0 < 0x1000000 := by
    apply readWord_short hplace
    rw [hbytes, bytes_putMemory]
    exact CStrings.putBytes_of_lt (i := 0) (by decide)
  have hname : tableAddress (word after (blockAddress b'.directory) 0) = blockAddress (b'.table 0) :=
    hnames 0 (by decide)
  rw [hsame] at hname
  have hge : slobosHeapAddress ≤ blockAddress (b'.table 0) := Nat.le_add_right _ _
  simp only [slobosHeapAddress] at hge
  have hle : tableAddress (word after (blockAddress b.directory) 0) ≤
      word after (blockAddress b.directory) 0 := Nat.div_mul_le_self _ _
  omega

end Physical

end SlobOS
