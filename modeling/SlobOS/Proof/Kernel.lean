import SlobOS.Kernel
import SlobOS.Proof.HeldBlocks
import SlobOS.Proof.Paging
import SlobOS.Proof.TaskLists

/-!
# What kernel memory is taken for

The kernel's allocator and the construction and release of page tables and tasks: each of them spares
the blocks in use, and what it returns can be released without reaching them. A page directory that
has been built maps every address to itself.
-/

namespace SlobOS

namespace Kernel

open Faulting

def TakesMemory (kernel after : Kernel) : Prop :=
  after = { kernel with
    heap := after.heap, memory := after.memory, nullStores := after.nullStores }

def TakesPages (kernel after : Kernel) : Prop :=
  after = { kernel with
    heap := after.heap, memory := after.memory, pages := after.pages, chunks := after.chunks
    nullStores := after.nullStores }

variable {kernel after : Kernel} {block ptr size : Nat}

instance : Frame TakesMemory where
  refl _ := rfl
  trans h h' := by
    unfold TakesMemory at h h' ⊢
    rw [h', h]

theorem TakesMemory.pages (h : TakesMemory kernel after) : after.pages = kernel.pages := by
  have hpages := congrArg Kernel.pages h
  exact hpages

theorem TakesMemory.fileDescriptors (h : TakesMemory kernel after) :
    after.fileDescriptors = kernel.fileDescriptors := by
  have hdescriptors := congrArg Kernel.fileDescriptors h
  exact hdescriptors

theorem TakesMemory.files (h : TakesMemory kernel after) : after.files = kernel.files := by
  have hfiles := congrArg Kernel.files h
  exact hfiles

theorem TakesMemory.takesPages (h : TakesMemory kernel after) : TakesPages kernel after := by
  unfold TakesMemory at h
  unfold TakesPages
  rw [h]

instance : Frame TakesPages where
  refl _ := rfl
  trans h h' := by
    unfold TakesPages at h h' ⊢
    rw [h', h]

theorem TakesPages.sched (h : TakesPages kernel after) : after.sched = kernel.sched := by
  have hsched := congrArg Kernel.sched h
  exact hsched

@[simp]
theorem ends_deref {result : Unit} :
    Ends (deref ptr) kernel result after ↔ ptr ≠ 0 ∧ after = kernel := by
  unfold deref
  by_cases hptr : ptr = 0 <;> simp [hptr]

theorem ends_deref_bind {ptr : Nat} {α : Type} {next : Unit → KernelM α} {result : α}
    {after : Kernel} (hne : ptr ≠ 0) :
    Ends (deref ptr >>= next) kernel result after ↔ Ends (next ()) kernel result after := by
  simp only [ends_bind, ends_deref, and_assoc, exists_and_left, exists_eq_left]
  constructor
  · rintro ⟨_, _, h⟩
    exact h
  · intro h
    exact ⟨hne, (), h⟩

@[simp]
theorem noteStore_heap (ptr : Nat) (kernel : Kernel) : (noteStore ptr kernel).heap = kernel.heap := rfl

theorem noteStore_eq (hne : ptr ≠ 0) : noteStore ptr kernel = kernel := by
  rw [noteStore, if_neg hne]
  rfl

@[simp]
theorem ends_storeTo {result : Unit} :
    Ends (storeTo ptr) kernel result after ↔ after = noteStore ptr kernel :=
  ends_modify

theorem ends_storeTo_bind {α : Type} {next : Unit → KernelM α} {result : α} :
    Ends (storeTo ptr >>= next) kernel result after ↔
      Ends (next ()) (noteStore ptr kernel) result after :=
  ends_modify_bind

@[simp]
theorem ends_kmalloc : Ends (kmalloc size) kernel ptr after ↔
    ptr = (heapMalloc kernel.heap size).1 ∧
      after = { kernel with heap := (heapMalloc kernel.heap size).2 } := by
  unfold Ends kmalloc
  constructor
  · intro h
    cases h
    exact ⟨rfl, rfl⟩
  · rintro ⟨rfl, rfl⟩
    rfl

theorem ends_kzalloc (h : Ends (kzalloc size) kernel ptr after) :
    ptr = (heapMalloc kernel.heap size).1 ∧ after.heap = (heapMalloc kernel.heap size).2 ∧
      TakesMemory kernel after ∧ (ptr ≠ 0 → ptr + size < addressSpace) := by
  simp only [kzalloc, ends_bind, ends_kmalloc] at h
  obtain ⟨_, _, ⟨rfl, rfl⟩, h⟩ := h
  rw [ends_ite, ends_ite] at h
  rcases h with ⟨hnull, h⟩ | ⟨hptr, ⟨-, h⟩ | ⟨hlt, h⟩⟩
  · obtain ⟨rfl, rfl⟩ := ends_pure.mp h
    exact ⟨hnull.symm, rfl, rfl, fun hne => absurd rfl hne⟩
  · exact absurd h ends_throw
  · simp only [ends_bind, ends_modify, ends_pure] at h
    obtain ⟨_, _, rfl, rfl, rfl⟩ := h
    exact ⟨rfl, rfl, rfl, fun _ => by omega⟩

/-- `kzalloc` comes back where the heap has an answer that does not reach around the address space. -/
theorem kzalloc_ends (hne : (heapMalloc kernel.heap size).1 ≠ 0)
    (hlt : (heapMalloc kernel.heap size).1 + size < addressSpace) :
    Ends (kzalloc size) kernel (heapMalloc kernel.heap size).1
      (writeBytes (heapMalloc kernel.heap size).1 size (fun _ => 0)
        { kernel with heap := (heapMalloc kernel.heap size).2 }) := by
  refine ends_bind.mpr ⟨_, _, ends_kmalloc.mpr ⟨rfl, rfl⟩, ?_⟩
  rw [if_neg hne, if_neg (by omega), ends_modify_bind]
  exact ends_pure.mpr ⟨rfl, rfl⟩

theorem heapMalloc_null {heap : Heap} (hsound : HeapSound heap)
    (hnull : (heapMalloc heap size).1 = 0) : (heapMalloc heap size).2 = heap := by
  have hshape := heapMalloc_shape heap size
  generalize heapMalloc heap size = result at hshape hnull
  cases hshape with
  | fail => rfl
  | marks hstart => exact absurd hnull (hsound.block_ne_null hstart)

theorem kzalloc_null (hsound : HeapSound kernel.heap) :
    Ends (kzalloc size) kernel 0 after ↔ (heapMalloc kernel.heap size).1 = 0 ∧ after = kernel := by
  simp only [kzalloc, ends_bind, ends_kmalloc]
  constructor
  · rintro ⟨_, _, ⟨rfl, rfl⟩, h⟩
    rw [ends_ite] at h
    rcases h with ⟨hnull, h⟩ | ⟨hptr, h⟩
    · obtain ⟨-, rfl⟩ := ends_pure.mp h
      exact ⟨hnull, by rw [heapMalloc_null hsound hnull]⟩
    · rw [ends_ite] at h
      rcases h with ⟨-, h⟩ | ⟨-, h⟩
      · exact absurd h ends_throw
      · rw [ends_modify_bind] at h
        exact absurd (ends_pure.mp h).1.symm hptr
  · rintro ⟨hnull, rfl⟩
    refine ⟨0, after, ⟨hnull.symm, by rw [heapMalloc_null hsound hnull]⟩, ?_⟩
    rw [if_pos rfl]
    exact ends_pure.mpr ⟨rfl, rfl⟩

theorem kzalloc_spares (h : Ends (kzalloc size) kernel ptr after) (hblock : Holds kernel.heap block) :
    Spares block kernel.heap after.heap ∧ Guards after.heap block ptr := by
  obtain ⟨rfl, hheap, -, -⟩ := ends_kzalloc h
  rw [hheap]
  exact ⟨hblock.malloc size, hblock.malloc_guards size⟩

@[simp]
theorem ends_kfree {result : Unit} : Ends (kfree ptr) kernel result after ↔
    after = { kernel with heap := heapFree kernel.heap ptr } :=
  ends_modify

/-! ### Page directories -/

/-- The release of the page directory reaches none of the blocks in use. -/
structure ChunkGuarded (kernel : Kernel) (block chunk : Nat) : Prop where
  self : Guards kernel.heap block chunk
  directory : Guards kernel.heap block (kernel.chunks chunk)
  tables : ∀ i < 1024, Guards kernel.heap block
    (tableAddress (kernel.pages.directories (kernel.chunks chunk) i))

theorem ChunkGuarded.spares {chunk : Nat} (h : ChunkGuarded kernel block chunk)
    (hspares : Spares block kernel.heap after.heap) (hchunks : after.chunks = kernel.chunks)
    (hdirectories : after.pages.directories = kernel.pages.directories) :
    ChunkGuarded after block chunk := by
  refine ⟨hspares.guards _ h.self, ?_, fun i hi => ?_⟩
  · rw [hchunks]
    exact hspares.guards _ h.directory
  · rw [hchunks, hdirectories]
    exact hspares.guards _ (h.tables i hi)

theorem tableAddress_or {entry flags : Nat} (haligned : entry % pagingPageSize = 0)
    (hflags : flags < pagingPageSize) : tableAddress (entry ||| flags) = entry := by
  obtain ⟨frame, rfl⟩ := Nat.dvd_of_mod_eq_zero haligned
  rw [Nat.mul_comm, page_or_flags hflags, tableAddress]
  simp only [pagingPageSize] at *
  omega

theorem kzalloc_aligned (hsound : HeapSound kernel.heap) (h : Ends (kzalloc size) kernel ptr after) :
    ptr % pagingPageSize = 0 := by
  obtain ⟨rfl, -, -, -⟩ := ends_kzalloc h
  have hshape := heapMalloc_shape kernel.heap size
  generalize heapMalloc kernel.heap size = result at hshape
  cases hshape with
  | fail => rfl
  | marks =>
      simp only [heapBlockToAddress, hsound.saddr, slobosHeapAddress, slobosHeapBlockSize,
        addressSpace, pagingPageSize]
      omega

theorem kzalloc_inside (hsound : HeapSound kernel.heap) (h : Ends (kzalloc size) kernel ptr after) :
    ptr < slobosHeapAddress + 0x80000000 := by
  obtain ⟨rfl, -, -, -⟩ := ends_kzalloc h
  have hpool := hsound.pool
  have hshape := heapMalloc_shape kernel.heap size
  generalize heapMalloc kernel.heap size = result at hshape
  cases hshape with
  | fail => exact Nat.zero_lt_succ _
  | marks hstart =>
      simp only [heapBlockToAddress, hsound.saddr, slobosHeapAddress, slobosHeapBlockSize,
        addressSpace] at *
      omega

def taskPageFlags : Nat := pagingIsPresent ||| pagingAccessFromAll

/-- The first entries of the page directory select tables of their own, which map their part of the
address space to itself. -/
structure BuiltTables (kernel : Kernel) (directory count : Nat) : Prop where
  held : ∀ i < count, ∃ block, Holds kernel.heap block ∧
    tableAddress (kernel.pages.directories directory i) = heapBlockToAddress kernel.heap block
  distinct : ∀ i < count, ∀ j < count, tableAddress (kernel.pages.directories directory i) =
    tableAddress (kernel.pages.directories directory j) → i = j
  flags : ∀ i < count, kernel.pages.directories directory i % 8 = 7
  entries : ∀ i < count, ∀ index < pagingTotalEntriesPerTable,
    kernel.pages.tables (tableAddress (kernel.pages.directories directory i)) index =
      (i * pagingTotalEntriesPerTable + index) * pagingPageSize ||| taskPageFlags

section NewTables

variable {directory entry count : Nat}

theorem BuiltTables.zero : BuiltTables kernel directory 0 := by
  constructor <;> intro i hi <;> omega

theorem BuiltTables.malloc (h : BuiltTables kernel directory count)
    (hend : Ends (kzalloc size) kernel ptr after) : BuiltTables after directory count := by
  obtain ⟨-, hheap, htakes, -⟩ := ends_kzalloc hend
  have hpages := htakes.pages
  have hsaddr : after.heap.saddr = kernel.heap.saddr := by
    rw [hheap]
    exact heapMallocBlocks_saddr _ _
  refine ⟨fun i hi => ?_, hpages ▸ h.distinct, hpages ▸ h.flags, hpages ▸ h.entries⟩
  obtain ⟨block, hblock, htable⟩ := h.held i hi
  refine ⟨block, (kzalloc_spares hend hblock).1.holds, ?_⟩
  rw [hpages, heapBlockToAddress_congr hsaddr, htable]

theorem BuiltTables.succ (h : BuiltTables kernel directory count)
    (haligned : entry % pagingPageSize = 0)
    (hheld : ∃ block, Holds kernel.heap block ∧ entry = heapBlockToAddress kernel.heap block)
    (hnew : ∀ i < count, tableAddress (kernel.pages.directories directory i) ≠ entry) :
    BuiltTables (setDirectoryEntry directory count (entry ||| taskPageFlags ||| pagingIsWriteable)
      (setPageTable entry count taskPageFlags kernel)) directory (count + 1) := by
  have hval : entry ||| taskPageFlags ||| pagingIsWriteable = entry + 7 := by
    obtain ⟨frame, rfl⟩ := Nat.dvd_of_mod_eq_zero haligned
    have hflags : taskPageFlags ||| pagingIsWriteable = 7 := by decide
    rw [Nat.or_assoc, hflags, Nat.mul_comm, page_or_flags (by decide)]
  have hself : tableAddress (entry + 7) = entry := by
    simp only [tableAddress, pagingPageSize] at haligned ⊢
    omega
  have hdirectory : ∀ i, (setDirectoryEntry directory count
      (entry ||| taskPageFlags ||| pagingIsWriteable)
      (setPageTable entry count taskPageFlags kernel)).pages.directories directory i =
        if i = count then entry + 7 else kernel.pages.directories directory i := by
    intro i
    simp only [setDirectoryEntry, setPageTable, hval, true_and]
  have hold : ∀ i < count + 1, i ≠ count → i < count := fun i hi hne => by omega
  constructor
  · intro i hi
    rw [hdirectory]
    split
    case isTrue =>
      obtain ⟨block, hblock, haddress⟩ := hheld
      exact ⟨block, hblock, by rw [hself, haddress]; rfl⟩
    case isFalse hne => exact h.held i (hold i hi hne)
  · intro i hi j hj
    rw [hdirectory, hdirectory]
    split <;> split
    case isTrue.isTrue heq heq' => exact fun _ => heq.trans heq'.symm
    case isTrue.isFalse hne =>
      rw [hself]
      exact fun heq => absurd heq.symm (hnew j (hold j hj hne))
    case isFalse.isTrue hne _ =>
      rw [hself]
      exact fun heq => absurd heq (hnew i (hold i hi hne))
    case isFalse.isFalse hne hne' => exact h.distinct i (hold i hi hne) j (hold j hj hne')
  · intro i hi
    rw [hdirectory]
    split
    case isTrue =>
      simp only [pagingPageSize] at haligned
      omega
    case isFalse hne => exact h.flags i (hold i hi hne)
  · intro i hi index hindex
    rw [hdirectory]
    simp only [setDirectoryEntry, setPageTable]
    split
    case isTrue heq =>
      rw [hself, if_pos ⟨rfl, hindex⟩, heq, Nat.add_mul, Nat.mul_assoc]
    case isFalse hne =>
      have hlt := hold i hi hne
      rw [if_neg fun hin => hnew i hlt hin.1]
      exact h.entries i hlt index hindex

theorem kzalloc_table (hsound : HeapSound kernel.heap)
    (h : Ends (kzalloc pageTableSize) kernel ptr after) (hne : ptr ≠ 0) :
    ∃ block, Holds after.heap block ∧ ptr = heapBlockToAddress after.heap block ∧
      ∀ other, Holds kernel.heap other → heapBlockToAddress kernel.heap other ≠ ptr := by
  obtain ⟨rfl, hheap, -, -⟩ := ends_kzalloc h
  obtain ⟨block, haddress, hfree, hblock⟩ :=
    hsound.malloc_holds (show 0 < blockCount pageTableSize by decide) hne
  have hsaddr : after.heap.saddr = kernel.heap.saddr := by
    rw [hheap]
    exact heapMallocBlocks_saddr _ _
  have htotal : after.heap.table.total = kernel.heap.table.total := by
    rw [hheap]
    exact heapMallocBlocks_total _ _
  rw [← hheap] at hblock
  rw [haddress]
  refine ⟨block, hblock, (heapBlockToAddress_congr hsaddr _).symm, fun other hother heq => ?_⟩
  have hsame := heapBlockToAddress_injective hsound.sized hother.lt (htotal ▸ hblock.lt) heq
  exact hother.taken (hsame ▸ hfree)

theorem pagingNewTables_spec {left i : Nat} {result : Unit}
    (h : Ends (pagingNewTables directory taskPageFlags left i) kernel result after)
    (hsound : HeapSound kernel.heap) (hbuilt : BuiltTables kernel directory i) :
    BuiltTables after directory (i + left) ∧ HeapSound after.heap := by
  induction left generalizing kernel i with
  | zero =>
      obtain ⟨-, rfl⟩ := ends_pure.mp h
      exact ⟨hbuilt, hsound⟩
  | succ left ih =>
      simp only [pagingNewTables, ends_bind, ends_deref, ends_modify, and_assoc, exists_eq_left,
        exists_and_left, exists_const] at h
      obtain ⟨entry, middle, halloc, hne, -, h⟩ := h
      obtain ⟨block, hblock, haddress, hother⟩ := kzalloc_table hsound halloc hne
      have haligned := kzalloc_aligned hsound halloc
      have hmiddle := hbuilt.malloc halloc
      have hnew : ∀ j < i, tableAddress (middle.pages.directories directory j) ≠ entry := by
        intro j hj
        obtain ⟨other, hheld, htable⟩ := hbuilt.held j hj
        rw [(ends_kzalloc halloc).2.2.1.pages, htable]
        exact hother other hheld
      rw [show i + (left + 1) = i + 1 + left by omega]
      exact ih h hblock.toHeapSound
        (hmiddle.succ haligned ⟨block, hblock, haddress⟩ hnew)

theorem pagingNewTables_keeps (directory flags left i : Nat) :
    Keeps TakesPages (pagingNewTables directory flags left i) := by
  induction left generalizing i with
  | zero => exact .pure
  | succ left ih =>
      exact .bind ⟨fun h => (ends_kzalloc h).2.2.1.takesPages⟩ fun _ => .bind (.ite .throw .pure)
        fun _ => .bind (.modify fun _ => rfl) fun _ => .bind (.ite .throw .pure) fun _ =>
          .bind (.modify fun _ => rfl) fun _ => ih _

theorem pagingNew4gb_keeps (flags : Nat) : Keeps TakesPages (pagingNew4gb flags) :=
  .bind ⟨fun h => (ends_kzalloc h).2.2.1.takesPages⟩ fun _ =>
    .bind (pagingNewTables_keeps _ _ _ _) fun _ =>
      .bind ⟨fun h => (ends_kzalloc h).2.2.1.takesPages⟩ fun _ => .bind (.ite .throw .pure) fun _ =>
        .bind (.modify fun _ => rfl) fun _ => .pure

@[simp]
theorem setChunk_chunks {chunk : Nat} : (setChunk chunk directory kernel).chunks chunk = directory :=
  if_pos rfl

theorem pagingNewTables_spares {left i : Nat} {result : Unit}
    (h : Ends (pagingNewTables directory taskPageFlags left i) kernel result after)
    (hblock : Holds kernel.heap block) (htables : ∀ j < i, Guards kernel.heap block
      (tableAddress (kernel.pages.directories directory j))) :
    Spares block kernel.heap after.heap ∧ ∀ j < i + left, Guards after.heap block
      (tableAddress (after.pages.directories directory j)) := by
  induction left generalizing kernel i with
  | zero =>
      obtain ⟨-, rfl⟩ := ends_pure.mp h
      exact ⟨.refl hblock, htables⟩
  | succ left ih =>
      simp only [pagingNewTables, ends_bind, ends_deref, ends_modify, and_assoc, exists_eq_left,
        exists_and_left, exists_const] at h
      obtain ⟨entry, middle, halloc, -, -, h⟩ := h
      obtain ⟨hspares, hguards⟩ := kzalloc_spares halloc hblock
      have htakes := (ends_kzalloc halloc).2.2.1
      have htable : tableAddress (entry ||| taskPageFlags ||| pagingIsWriteable) = entry := by
        rw [Nat.or_assoc]
        exact tableAddress_or (kzalloc_aligned hblock.toHeapSound halloc) (by decide)
      obtain ⟨hspares', htables'⟩ := ih h hspares.holds (fun j hj => by
        simp only [setDirectoryEntry, setPageTable, true_and]
        split
        · rwa [htable]
        · rw [htakes.pages]
          exact hspares.guards _ (htables j (by omega)))
      exact ⟨hspares.trans hspares', by rwa [show i + (left + 1) = i + 1 + left by omega]⟩

theorem pagingNew4gb_ne_null {flags chunk : Nat}
    (h : Ends (pagingNew4gb flags) kernel chunk after) : chunk ≠ 0 := by
  simp only [pagingNew4gb, ends_bind, ends_deref, ends_modify, ends_pure, and_assoc, exists_eq_left,
    exists_and_left, exists_const] at h
  obtain ⟨_, _, -, _, _, -, _, _, -, hne, rfl, -⟩ := h
  exact hne

theorem pagingNew4gb_spares {chunk : Nat}
    (h : Ends (pagingNew4gb taskPageFlags) kernel chunk after) (hblock : Holds kernel.heap block) :
    Spares block kernel.heap after.heap ∧ ChunkGuarded after block chunk := by
  simp only [pagingNew4gb, ends_bind, ends_deref, ends_modify, ends_pure, and_assoc, exists_eq_left,
    exists_and_left, exists_const] at h
  obtain ⟨directory, first, hdirectory, _, second, htables, _, third, hchunk, -, rfl, rfl⟩ := h
  obtain ⟨hspares, hguards⟩ := kzalloc_spares hdirectory hblock
  obtain ⟨hspares', hguards'⟩ := pagingNewTables_spares htables hspares.holds
    fun j hj => by omega
  obtain ⟨hspares'', hguards''⟩ := kzalloc_spares hchunk hspares'.holds
  refine ⟨(hspares.trans hspares').trans hspares'', hguards'', ?_, fun i hi => ?_⟩
  · rw [setChunk_chunks]
    exact hspares''.guards _ (hspares'.guards _ hguards)
  · rw [setChunk_chunks]
    change Guards third.heap block (tableAddress (third.pages.directories directory i))
    rw [(ends_kzalloc hchunk).2.2.1.pages]
    exact hspares''.guards _ (hguards' i (by simpa [pagingTotalEntriesPerTable] using hi))

structure IdentityDirectory (pages : PageTables) (directory : Nat) : Prop where
  distinct : DistinctTables pages directory
  flags : ∀ i < pagingTotalEntriesPerTable, pages.directories directory i % 8 = 7
  entry : ∀ page < pageCount,
    pageEntry pages directory page = page * pagingPageSize ||| taskPageFlags

theorem BuiltTables.identity (h : BuiltTables kernel directory pagingTotalEntriesPerTable) :
    IdentityDirectory kernel.pages directory where
  distinct := h.distinct
  flags := h.flags
  entry := by
    intro page hpage
    simp only [pageCount] at hpage
    have hentry := h.entries (page / pagingTotalEntriesPerTable)
      (by simp only [pagingTotalEntriesPerTable]; omega) (page % pagingTotalEntriesPerTable)
      (Nat.mod_lt _ (by decide))
    rw [pageEntry, hentry, Nat.mul_comm (page / _), Nat.div_add_mod]

theorem pagingNew4gb_identity {chunk : Nat}
    (h : Ends (pagingNew4gb taskPageFlags) kernel chunk after) (hsound : HeapSound kernel.heap) :
    IdentityDirectory after.pages (after.chunks chunk) := by
  simp only [pagingNew4gb, ends_bind, ends_deref, ends_modify, ends_pure, and_assoc, exists_eq_left,
    exists_and_left, exists_const] at h
  obtain ⟨directory, first, hdirectory, _, second, htables, _, third, hchunk, -, rfl, rfl⟩ := h
  have hfirst : HeapSound first.heap := by
    rw [(ends_kzalloc hdirectory).2.1]
    exact hsound.malloc _
  obtain ⟨hbuilt, -⟩ := pagingNewTables_spec htables hfirst .zero
  rw [Nat.zero_add] at hbuilt
  rw [setChunk_chunks]
  exact (hbuilt.malloc hchunk).identity

end NewTables

/-! ### Tasks -/

section Tasks

variable {process task directory : Nat}

structure TaskGuarded (kernel : Kernel) (block task : Nat) : Prop where
  self : Guards kernel.heap block task
  chunk : ChunkGuarded kernel block (kernel.sched.list.tasks task).pageDirectory

theorem linkTask_pageDirectory (task chunk process : Nat) (kernel : Kernel) :
    ((linkTask task chunk process kernel).sched.list.tasks task).pageDirectory = chunk := by
  simp only [linkTask, taskNew_pageDirectory, if_true]
  rfl

theorem ends_taskNew (h : Ends (taskNew process) kernel task after) :
    task ≠ 0 ∧ ∃ first chunk second, Ends (kzalloc taskSize) kernel task first ∧
      Ends (pagingNew4gb taskPageFlags) first chunk second ∧
      after = linkTask task chunk process second := by
  simp only [taskNew, ends_bind] at h
  obtain ⟨task', first, htask, h⟩ := h
  rw [ends_ite] at h
  rcases h with ⟨rfl, h⟩ | ⟨hne, h⟩
  · simp [taskFree] at h
  simp only [ends_bind] at h
  obtain ⟨chunk, second, hchunk, h⟩ := h
  rw [ends_ite] at h
  rcases h with ⟨rfl, h⟩ | ⟨-, h⟩
  · exact absurd rfl (pagingNew4gb_ne_null hchunk)
  simp only [ends_bind, ends_modify, ends_pure, exists_const, exists_eq_left] at h
  obtain ⟨rfl, rfl⟩ := h
  exact ⟨hne, first, chunk, second, htask, hchunk, rfl⟩

theorem taskNew_frame (h : Ends (taskNew process) kernel task after) :
    after.processMemory = kernel.processMemory ∧ after.elfFiles = kernel.elfFiles ∧
      after.sched.procs = kernel.sched.procs := by
  obtain ⟨-, first, chunk, second, htask, hchunk, rfl⟩ := ends_taskNew h
  have htakes : TakesPages kernel second :=
    Frame.trans (ends_kzalloc htask).2.2.1.takesPages ((pagingNew4gb_keeps _).of_ends hchunk)
  have hmemory := congrArg Kernel.processMemory htakes
  have helf := congrArg Kernel.elfFiles htakes
  have hprocs := congrArg Sched.procs htakes.sched
  exact ⟨hmemory, helf, hprocs⟩

theorem taskNew_spares (h : Ends (taskNew process) kernel task after)
    (hblock : Holds kernel.heap block) :
    Spares block kernel.heap after.heap ∧ TaskGuarded after block task := by
  obtain ⟨-, first, chunk, second, htask, hchunk, rfl⟩ := ends_taskNew h
  obtain ⟨hspares, hguards⟩ := kzalloc_spares htask hblock
  obtain ⟨hspares', hguards'⟩ := pagingNew4gb_spares hchunk hspares.holds
  refine ⟨hspares.trans hspares', hspares'.guards _ hguards, ?_⟩
  rw [linkTask_pageDirectory]
  exact ⟨hguards'.self, hguards'.directory, hguards'.tables⟩

theorem pagingFreeTables_spares {left i : Nat} {result : Unit}
    (h : Ends (pagingFreeTables directory left i) kernel result after)
    (hblock : Holds kernel.heap block) (htables : ∀ j < i + left, Guards kernel.heap block
      (tableAddress (kernel.pages.directories directory j))) :
    Spares block kernel.heap after.heap ∧ after = { kernel with heap := after.heap } := by
  induction left generalizing kernel i with
  | zero =>
      obtain ⟨-, rfl⟩ := ends_pure.mp h
      exact ⟨.refl hblock, rfl⟩
  | succ left ih =>
      simp only [pagingFreeTables, ends_bind, ends_get, ends_kfree, and_assoc, exists_eq_left,
        exists_and_left, exists_const] at h
      have hspares := hblock.free (htables i (by omega))
      obtain ⟨hspares', hafter⟩ := ih h hspares.holds fun j hj =>
        hspares.guards _ (htables j (by omega))
      exact ⟨hspares.trans hspares', hafter⟩

theorem pagingFree4gb_spares {chunk : Nat} {result : Unit}
    (h : Ends (pagingFree4gb chunk) kernel result after) (hblock : Holds kernel.heap block)
    (hguarded : ChunkGuarded kernel block chunk) :
    Spares block kernel.heap after.heap ∧ after = { kernel with heap := after.heap } := by
  simp only [pagingFree4gb, ends_bind, ends_deref, ends_get, ends_kfree, and_assoc, exists_eq_left,
    exists_and_left, exists_const] at h
  obtain ⟨-, _, middle, htables, rfl⟩ := h
  obtain ⟨hspares, hmiddle⟩ := pagingFreeTables_spares htables hblock fun j hj =>
    hguarded.tables j (by omega)
  have hspares' := hspares.holds.free (hspares.guards _ hguarded.directory)
  have hspares'' := hspares'.holds.free (hspares'.guards _ (hspares.guards _ hguarded.self))
  refine ⟨(hspares.trans hspares').trans hspares'', ?_⟩
  rw [hmiddle]

theorem taskFree_spares {result : Unit} (h : Ends (taskFree task) kernel result after)
    (hblock : Holds kernel.heap block) (hguarded : TaskGuarded kernel block task) :
    Spares block kernel.heap after.heap := by
  simp only [taskFree, ends_bind, ends_deref, ends_get, ends_modify, ends_kfree, and_assoc,
    exists_eq_left, exists_and_left, exists_const] at h
  obtain ⟨-, _, middle, hchunk, rfl⟩ := h
  obtain ⟨hspares, -⟩ := pagingFree4gb_spares hchunk hblock hguarded.chunk
  exact hspares.trans (hspares.holds.free (hspares.guards _ hguarded.self))

end Tasks

end Kernel

end SlobOS
