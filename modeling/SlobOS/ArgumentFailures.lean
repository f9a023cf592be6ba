import SlobOS.ArgumentWalks
import SlobOS.MallocFailures
import SlobOS.Paths

/-!
# Arguments that do not fit

`process_inject_arguments` asks for the array and then for one string after the other, and it leaves what
it has got when a request fails. So a failure changes nothing only where the array is refused.
-/

namespace SlobOS

namespace Kernel

open Faulting Orbits

def InUse (kernel : Kernel) (address : Nat) : Prop :=
  ∀ block : Nat, (block < kernel.heap.table.total → kernel.heap.table.IsFree block) →
    ¬(slobosHeapAddress + block * slobosHeapBlockSize ≤ address ∧
      address < slobosHeapAddress + block * slobosHeapBlockSize + slobosHeapBlockSize)

/-- A list of so many arguments. Its links stand in memory in use, and in no page table. -/
inductive ArgumentChain (kernel : Kernel) : Nat → Nat → Prop
  | nil : ArgumentChain kernel 0 0
  | cons {current next argc : Nat} : current ≠ 0 →
      (∀ i < 4, InUse kernel (toUint32 (current + argumentSize + i))) →
      (∀ pages, readWord (kernel.memory pages) (current + argumentSize) = next) →
      ArgumentChain kernel next argc → ArgumentChain kernel current (argc + 1)

/-- If the call fails, it has changed nothing; the arguments of the process are only set if it does not
fail. -/
def InjectClean (kernel : Kernel) (process root : Nat) : Prop :=
  ∀ code after, Ends (processInjectArguments processMalloc process root) kernel (.error code) after →
    Unserved kernel after process

/-- A request of the process is served: the heap has an answer, which does not reach around the address
space, there is an empty slot, and the mapping is accepted. -/
structure Grants (kernel : Kernel) (process size : Nat) : Prop where
  block : (heapMalloc kernel.heap size).1 ≠ 0
  below : (heapMalloc kernel.heap size).1 + size < addressSpace
  slot : (emptySlots kernel process).Nonempty
  maps : 0 ≤ (mapsAllocation kernel process (heapMalloc kernel.heap size).1 size 7).1

/-- A slot and a block for each string, once the array has got its own. -/
def StringsFit (kernel : Kernel) (process argc : Nat) : Prop :=
  argc < (emptySlots kernel process).card ∧
    FreeBlocks (heapMalloc kernel.heap (toUint32 (4 * argc))).2 argc

variable {kernel base middle alloc after : Kernel} {process ptr size root argv current next left argc i : Nat}

structure TakesRun (kernel after : Kernel) (process ptr size : Nat) : Prop where
  answer : ptr = (heapMalloc kernel.heap size).1
  heap : after.heap = (heapMalloc kernel.heap size).2
  recorded : ∃ index, Records kernel after process ptr size index
  memory : ∀ pages address, ¬(ptr ≤ address ∧ address < ptr + size) →
    after.memory pages address = kernel.memory pages address

theorem mapsAllocation_takes (htakes : TakesMemory kernel alloc) (process ptr size flags : Nat) :
    mapsAllocation alloc process ptr size flags = mapsAllocation kernel process ptr size flags := by
  have hchunks := congrArg Kernel.chunks htakes
  have hsched := congrArg Kernel.sched htakes
  have hdirectory : alloc.directoryOf process = kernel.directoryOf process := by
    rw [directoryOf, directoryOf, show alloc.chunks = kernel.chunks from hchunks,
      show alloc.sched = kernel.sched from hsched]
  rw [mapsAllocation, mapsAllocation, htakes.pages, hdirectory]

theorem processMalloc_run (h : Ends (processMalloc process size) kernel ptr after) (hne : ptr ≠ 0) :
    Grants kernel process size ∧ TakesRun kernel after process ptr size := by
  obtain ⟨index, alloc, halloc, hindex, hfree, hmapped, rfl⟩ := processMalloc_served h hne
  have hrecords := records_granted halloc hne hindex hfree
    (mapsAllocation alloc process ptr size 7).2
  obtain ⟨hptr, hheap, htakes, hbelow⟩ := ends_kzalloc halloc
  rw [mapsAllocation_takes htakes] at hmapped
  refine ⟨⟨hptr ▸ hne, hptr ▸ hbelow hne, ⟨index, hrecords.empty⟩, hptr ▸ hmapped⟩, ?_⟩
  exact ⟨hptr, hheap, ⟨index, hrecords⟩, fun pages address hout => kzalloc_memory halloc hne hout pages⟩

theorem Grants.ends (h : Grants kernel process size) : ∃ after,
    Ends (processMalloc process size) kernel (heapMalloc kernel.heap size).1 after := by
  have halloc := kzalloc_ends h.block h.below
  generalize writeBytes (heapMalloc kernel.heap size).1 size (fun _ => 0)
    { kernel with heap := (heapMalloc kernel.heap size).2 } = alloc at halloc
  have htakes := (ends_kzalloc halloc).2.2.1
  have hmemory := congrArg Kernel.processMemory htakes
  have hslot : (emptySlots alloc process).Nonempty := by
    rw [emptySlots_congr (congrArg (fun memory => (memory process).allocations) hmemory)]
    exact h.slot
  obtain ⟨index, -, hindex⟩ := exists_findFree hslot
  have hmaps := h.maps
  rw [← mapsAllocation_takes htakes] at hmaps
  exact ⟨_, processMalloc_granted halloc h.block hindex hmaps⟩

/-- Blocks may have been taken since, and something stored in them. -/
structure Grown (base kernel : Kernel) : Prop where
  total : kernel.heap.table.total = base.heap.table.total
  free : ∀ block < base.heap.table.total, kernel.heap.table.IsFree block → base.heap.table.IsFree block
  memory : ∀ address, InUse base address → ∀ pages, kernel.memory pages address = base.memory pages address

theorem InUse.grown {address : Nat} (h : InUse base address) (hgrown : Grown base kernel) :
    InUse kernel address := by
  intro block hfree hin
  exact h block (fun hlt => hgrown.free block hlt (hfree (hgrown.total ▸ hlt))) hin

instance : Frame Grown where
  refl _ := ⟨rfl, fun _ _ => id, fun _ _ _ => rfl⟩
  trans h h' := by
    refine ⟨h'.total.trans h.total, fun block hlt hfree => ?_, fun address hin pages => ?_⟩
    · exact h.free block hlt (h'.free block (h.total ▸ hlt) hfree)
    · exact (h'.memory address (hin.grown h) pages).trans (h.memory address hin pages)

def FreeAt (kernel : Kernel) (ptr : Nat) : Prop :=
  ∃ block < kernel.heap.table.total, kernel.heap.table.IsFree block ∧
    ptr = slobosHeapAddress + block * slobosHeapBlockSize

theorem Grown.putMemory (h : Grown base kernel) (hfree : FreeAt base ptr) {start : Nat}
    {bytes : List UInt8} (hge : ptr ≤ start)
    (hle : start + bytes.length ≤ ptr + slobosHeapBlockSize) :
    Grown base (putMemory start bytes kernel) := by
  obtain ⟨block, -, hblock, rfl⟩ := hfree
  refine ⟨h.total, h.free, fun address hin pages => ?_⟩
  rw [← h.memory address hin pages]
  apply CStrings.putBytes_of_not_mem
  intro hput
  exact hin block (fun _ => hblock) ⟨by omega, by omega⟩

theorem FreeAt.before (h : FreeAt kernel ptr) (hgrown : Grown base kernel) : FreeAt base ptr := by
  obtain ⟨block, hlt, hfree, hptr⟩ := h
  have hlt' := hgrown.total ▸ hlt
  exact ⟨block, hlt', hgrown.free block hlt' hfree, hptr⟩

theorem TakesRun.grown (h : TakesRun kernel after process ptr size) (hsound : HeapSound kernel.heap)
    (hbelow : ptr + size < addressSpace) (hne : ptr ≠ 0) : Grown kernel after ∧ FreeAt kernel ptr := by
  have hptr := h.answer
  have hheap := h.heap
  obtain ⟨start, count, hgiven⟩ := heapMalloc_given (hptr ▸ hne)
  have hstart := hgiven.lt
  have hwindow := hgiven.window
  have hmarked := hgiven.marked
  rw [hgiven.address, hsound.address hstart] at hptr
  have hsize := blockCount_covers (show slobosHeapAddress + size < addressSpace by omega)
  refine ⟨⟨?_, fun block hlt hblock => ?_, fun address hin pages => ?_⟩, start, hstart, hgiven.free, hptr⟩
  · rw [hheap]
    exact hmarked.total
  · rw [hheap] at hblock
    by_cases hmark : (start : Int) ≤ block ∧ (block : Int) < start + count
    · exact absurd hblock (not_isFree_of_eq_chainEntry (by rw [hmarked.entries, if_pos hmark]))
    · unfold HeapTable.IsFree at hblock ⊢
      rwa [hmarked.entries, if_neg hmark] at hblock
  · apply h.memory
    rintro ⟨hge, hlt⟩
    -- The block of the address is one of the run, or lies behind the heap.
    have hpos : 0 < slobosHeapBlockSize := by decide
    have hplace := Nat.div_add_mod (address - slobosHeapAddress) slobosHeapBlockSize
    have hoffset := Nat.mod_lt (address - slobosHeapAddress) hpos
    refine hin ((address - slobosHeapAddress) / slobosHeapBlockSize) (fun hinside => ?_) ?_
    · apply hwindow
      · rw [Nat.le_div_iff_mul_le hpos]
        omega
      · have hrun : (address - slobosHeapAddress) / slobosHeapBlockSize <
            start + blockCount size := by
          rw [Nat.div_lt_iff_lt_mul hpos, Nat.add_mul]
          omega
        omega
    · rw [Nat.mul_comm] at hplace
      omega

theorem readWord_same {bytes bytes' : Nat → UInt8} {address : Nat}
    (hsame : ∀ i < 4, bytes' (toUint32 (address + i)) = bytes (toUint32 (address + i))) :
    readWord bytes' address = readWord bytes address := by
  have hzero := hsame 0 (by decide)
  rw [Nat.add_zero] at hzero
  simp only [readWord, readHalf, Nat.add_assoc]
  rw [hzero, hsame 1 (by decide), hsame 2 (by decide), hsame 3 (by decide)]

theorem Grown.link (h : Grown base kernel)
    (hlink : ∀ i < 4, InUse base (toUint32 (current + argumentSize + i))) (pages : PageTables) :
    readWord (kernel.memory pages) (current + argumentSize) =
      readWord (base.memory pages) (current + argumentSize) :=
  readWord_same fun i hi => h.memory _ (hlink i hi) pages

theorem ArgumentChain.iterate (h : ArgumentChain kernel root argc) (pages : PageTables) :
    (nextArgument (kernel.memory pages))^[argc] root = 0 := by
  induction h with
  | nil => rfl
  | cons hne _ hnext _ ih =>
      rw [Function.iterate_succ_apply, nextArgument, if_neg hne, hnext]
      exact ih

theorem ArgumentChain.count_eq (h : ArgumentChain kernel current argc) {pages : PageTables}
    {count : Nat} (hcount : processCountCommandArguments (kernel.memory pages) left current i = some count) :
    count = i + argc := by
  induction h generalizing left i with
  | nil =>
      cases left with
      | zero => cases hcount
      | succ left => exact (Option.some.inj hcount).symm
  | cons hne _ hnext _ ih =>
      cases left with
      | zero => cases hcount
      | succ left =>
          rw [processCountCommandArguments, if_neg hne, hnext] at hcount
          have hrest := ih hcount
          omega

theorem ArgumentChain.count (h : ArgumentChain kernel root argc) (hroot : root < addressSpace)
    (pages : PageTables) :
    processCountCommandArguments (kernel.memory pages) addressSpace root 0 = some argc := by
  obtain ⟨count, hcount⟩ := processCountCommandArguments_acyclic hroot
    (not_loops nextArgument_null (h.iterate pages))
  have hargc := h.count_eq hcount
  rw [Nat.zero_add] at hargc
  rw [hcount, hargc]

theorem processCountCommandArguments_lt {bytes : Nat → UInt8} {count : Nat}
    (h : processCountCommandArguments bytes left current i = some count) : count < i + left := by
  induction left generalizing current i with
  | zero => cases h
  | succ left ih =>
      rw [processCountCommandArguments] at h
      split at h
      · obtain rfl := Option.some.inj h
        omega
      · have hrest := ih h
        omega

theorem strncpyBytes_length (bytes : Nat → UInt8) (src count : Nat) :
    (strncpyBytes bytes src count).length ≤ count + 1 := by
  induction count generalizing src with
  | zero => exact Nat.le_refl 1
  | succ count ih =>
      rw [strncpyBytes]
      split
      · simp
      · rw [List.length_cons]
        exact Nat.succ_le_succ (ih _)

inductive CopyOutcome (kernel : Kernel) (process argc : Nat) : Int → Kernel → Prop
  | copied {after : Kernel} : argc ≤ (emptySlots kernel process).card → FreeBlocks kernel.heap argc →
      CopyOutcome kernel process argc 0 after
  | stopped {after : Kernel} :
      ¬(argc ≤ (emptySlots kernel process).card ∧ FreeBlocks kernel.heap argc) →
      (∀ j, ((kernel.processMemory process).allocations j).ptr ≠ 0 →
        (after.processMemory process).allocations j = (kernel.processMemory process).allocations j) →
      CopyOutcome kernel process argc (-enomem) after

theorem CopyOutcome.cons {given stored : Kernel} {res : Int} (hsound : HeapSound kernel.heap)
    (htakes : TakesSlot kernel given process ptr argumentSize) (hstores : WritesMemory given stored)
    (h : CopyOutcome stored process argc res after) : CopyOutcome kernel process (argc + 1) res after := by
  have hheap := congrArg Kernel.heap hstores
  have hmemory := congrArg Kernel.processMemory hstores
  have hslots' := @emptySlots_congr given stored process
    (congrArg (fun memory => (memory process).allocations) hmemory)
  obtain ⟨index, hrecords⟩ := htakes.recorded
  obtain ⟨block, -, hblock⟩ := htakes.taken
  have hcard := hrecords.card
  have hfree := @TakesBlock.freeBlocks_iff _ _ _ argc hblock hsound htakes.sound
  rw [← hslots'] at hcard
  rw [← show stored.heap = given.heap from hheap] at hfree
  cases h with
  | copied hslots hblocks => exact .copied (by omega) (hfree.mpr hblocks)
  | stopped hshort hkept =>
      refine .stopped (fun hfit => hshort ⟨by omega, hfree.mp hfit.2⟩) fun j hused => ?_
      have hsame := hkept j
      rw [show stored.processMemory = given.processMemory from hmemory, hrecords.kept hused] at hsame
      exact hsame hused

theorem Grown.string {given : Kernel} (h : Grown base kernel) (hsound : HeapSound kernel.heap)
    (hmalloc : Ends (processMalloc process argumentSize) kernel ptr given) (hne : ptr ≠ 0)
    (hargv : FreeAt base argv) (hi : i < slobosMaxProgramAllocations) (current : Nat) :
    Grown base (Kernel.putMemory (argv + 4 * i) (wordBytes ptr) (Kernel.putMemory ptr
      (strncpyBytes (given.memory given.pages) current (argumentSize - 1)) given)) := by
  obtain ⟨hgrants, hrun⟩ := processMalloc_run hmalloc hne
  obtain ⟨hgiven, hfreeAt⟩ := hrun.grown hsound (hrun.answer ▸ hgrants.below) hne
  have hlength := strncpyBytes_length (given.memory given.pages) current (argumentSize - 1)
  have hbase : Grown base given := Frame.trans h hgiven
  have hcopied := hbase.putMemory (hfreeAt.before h) (Nat.le_refl ptr)
    (Nat.add_le_add_left (Nat.le_trans hlength (by decide)) ptr)
  apply hcopied.putMemory hargv (Nat.le_add_right _ _)
  rw [wordBytes_length]
  simp only [slobosMaxProgramAllocations, slobosHeapBlockSize] at hi ⊢
  omega

theorem processInjectLoop_outcome (hsound : HeapSound kernel.heap)
    (hchain : ArgumentChain base current argc) (hgrown : Grown base kernel) (hargv : FreeAt base argv)
    (hslots : i + (emptySlots kernel process).card ≤ slobosMaxProgramAllocations)
    (hleft : argc < left) : ∃ res after,
      Ends (processInjectLoop processMalloc process argv left current i) kernel res after ∧
        CopyOutcome kernel process argc res after := by
  induction hchain generalizing kernel left i with
  | nil =>
      cases left with
      | zero => omega
      | succ left =>
          exact ⟨0, kernel, processInjectLoop_done,
            .copied (Nat.zero_le _) (.zero hsound)⟩
  | @cons current next argc hne hlink hnext _ ih =>
      cases left with
      | zero => omega
      | succ left =>
          have hpage := @processMalloc_page kernel argumentSize hsound process (by decide) (by decide)
          rcases hpage with ⟨-, ptr, given, hmalloc, hptr, htakes⟩ | ⟨hnone, after, hmalloc⟩
          · obtain ⟨index, hrecords⟩ := htakes.recorded
            have hcard := hrecords.card
            have hstored := hgrown.string hsound hmalloc hptr hargv (show i < _ by omega) current
            have hslots' : i + 1 + (emptySlots given process).card ≤ slobosMaxProgramAllocations := by
              omega
            have hsound' : HeapSound (putMemory (argv + 4 * i) (wordBytes ptr) (putMemory ptr
                (strncpyBytes (given.memory given.pages) current (argumentSize - 1)) given)).heap :=
              htakes.sound
            obtain ⟨res, after, hends, houtcome⟩ :=
              ih hsound' hstored hslots' (Nat.lt_of_succ_lt_succ hleft)
            refine ⟨res, after, processInjectLoop_next hne hmalloc hptr rfl ?_, houtcome.cons hsound htakes
              (Frame.trans (putMemory_writes ptr _ given) (putMemory_writes _ _ _))⟩
            rw [hstored.link hlink, hnext]
            exact hends
          · refine ⟨-enomem, after, processInjectLoop_refused hne hmalloc, .stopped ?_ fun j _ => ?_⟩
            · rintro ⟨hslot, hblocks⟩
              exact hnone ⟨Finset.card_pos.mp (by omega), hblocks.mono (Nat.le_add_left 1 argc)⟩
            · rw [((processMalloc_cases hmalloc).unserved hsound).allocations]

/-! ### All arguments -/

theorem inject_served (hsound : HeapSound kernel.heap) (hchain : ArgumentChain kernel root argc)
    (hlt : argc < addressSpace) {given : Kernel}
    (hmalloc : Ends (processMalloc process (toUint32 (4 * argc))) kernel argv given) (hne : argv ≠ 0) :
    ∃ res after, Ends (processInjectLoop processMalloc process argv addressSpace root 0) given res after ∧
      CopyOutcome given process argc res after := by
  obtain ⟨hgrants, hrun⟩ := processMalloc_run hmalloc hne
  obtain ⟨hgrown, hfree⟩ := hrun.grown hsound (hrun.answer ▸ hgrants.below) hne
  refine processInjectLoop_outcome (hrun.heap ▸ hsound.malloc _) hchain hgrown hfree ?_ hlt
  have hcard := Finset.card_filter_le (Finset.range slobosMaxProgramAllocations) fun j =>
    ((given.processMemory process).allocations j).ptr = 0
  rw [Finset.card_range] at hcard
  rw [Nat.zero_add]
  exact hcard

theorem ends_injectArguments {result : Except Int ProcessArguments}
    (hcount : processCountCommandArguments (kernel.memory kernel.pages) addressSpace root 0 = some argc)
    (hargc : argc ≠ 0) :
    Ends (processInjectArguments processMalloc process root) kernel result after ↔
      ∃ argv given, Ends (processMalloc process (toUint32 (4 * argc))) kernel argv given ∧
        ((argv = 0 ∧ result = .error (-enomem) ∧ after = given) ∨
          (argv ≠ 0 ∧ ∃ res, ∃ copied,
            Ends (processInjectLoop processMalloc process argv addressSpace root 0) given res copied ∧
              result = (if res < 0 then .error res else .ok { argc := argc, argv := argv }) ∧
              after = copied)) := by
  rw [processInjectArguments, ends_get_bind, hcount]
  change Ends (if argc = 0 then _ else _) _ _ _ ↔ _
  rw [if_neg hargc, ends_bind]
  refine exists_congr fun argv => exists_congr fun given => and_congr_right fun _ => ?_
  rw [ends_ite, ends_pure, ends_bind]
  refine or_congr Iff.rfl (and_congr_right fun _ => exists_congr fun res => exists_congr fun copied =>
    and_congr_right fun _ => ?_)
  split <;> exact ends_pure

theorem injectClean_of (hsound : HeapSound kernel.heap) (hroot : root < addressSpace)
    (hchain : ArgumentChain kernel root argc)
    (hcond : argc = 0 ∨ ¬Grants kernel process (toUint32 (4 * argc)) ∨ StringsFit kernel process argc) :
    InjectClean kernel process root := by
  intro code after hends
  have hcount := hchain.count hroot kernel.pages
  have hlt := processCountCommandArguments_lt hcount
  by_cases hargc : argc = 0
  · rw [processInjectArguments, ends_get_bind, hcount] at hends
    change Ends (if argc = 0 then _ else _) _ _ _ at hends
    rw [if_pos hargc] at hends
    obtain ⟨-, rfl⟩ := ends_pure.mp hends
    exact ⟨rfl, rfl, fun _ _ => rfl⟩
  obtain ⟨argv, given, hmalloc, ⟨rfl, -, rfl⟩ | ⟨hne, res, copied, hloop, hresult, -⟩⟩ :=
    (ends_injectArguments hcount hargc).mp hends
  · exact (processMalloc_cases hmalloc).unserved hsound
  · obtain ⟨hgrants, hrun⟩ := processMalloc_run hmalloc hne
    obtain ⟨index, hrecords⟩ := hrun.recorded
    have hcard := hrecords.card
    obtain ⟨hslots, hblocks⟩ := (hcond.resolve_left hargc).resolve_left fun hrefused => hrefused hgrants
    obtain ⟨res', copied', hloop', houtcome⟩ := inject_served hsound hchain (by omega) hmalloc hne
    obtain ⟨rfl, rfl⟩ := hloop.unique hloop'
    cases houtcome with
    | copied => cases hresult
    | stopped hshort => exact absurd ⟨by omega, hrun.heap ▸ hblocks⟩ hshort

theorem InjectClean.condition (h : InjectClean kernel process root) (hsound : HeapSound kernel.heap)
    (hroot : root < addressSpace) (hchain : ArgumentChain kernel root argc) :
    argc = 0 ∨ ¬Grants kernel process (toUint32 (4 * argc)) ∨ StringsFit kernel process argc := by
  have hcount := hchain.count hroot kernel.pages
  have hlt := processCountCommandArguments_lt hcount
  by_contra hcond
  rw [not_or, not_or, not_not] at hcond
  obtain ⟨hargc, hgrants, hfit⟩ := hcond
  obtain ⟨given, hmalloc⟩ := hgrants.ends
  obtain ⟨-, hrun⟩ := processMalloc_run hmalloc hgrants.block
  obtain ⟨index, hrecords⟩ := hrun.recorded
  have hcard := hrecords.card
  obtain ⟨res, copied, hloop, houtcome⟩ := inject_served hsound hchain (by omega) hmalloc hgrants.block
  cases houtcome with
  | copied hslots hblocks => exact hfit ⟨by omega, hrun.heap ▸ hblocks⟩
  | stopped hshort hkept =>
      have hends := (ends_injectArguments hcount hargc).mpr ⟨_, given, hmalloc,
        Or.inr ⟨hgrants.block, -enomem, copied, hloop, rfl, rfl⟩⟩
      have hsame := congrFun (h _ _ hends).allocations index
      have hslot := hrecords.slots index
      rw [if_pos rfl] at hslot
      have hempty := (mem_emptySlots.mp hrecords.empty).2
      rw [← hsame, hkept index (by rw [hslot]; exact hrecords.ne_null), hslot] at hempty
      exact hrecords.ne_null hempty

/-- A call that fails has changed nothing exactly if there are no arguments, the array is refused, or
everything fits and the call does not fail. -/
theorem injectClean_iff (hsound : HeapSound kernel.heap) (hroot : root < addressSpace)
    (hchain : ArgumentChain kernel root argc) :
    InjectClean kernel process root ↔
      argc = 0 ∨ ¬Grants kernel process (toUint32 (4 * argc)) ∨ StringsFit kernel process argc :=
  ⟨fun h => h.condition hsound hroot hchain, injectClean_of hsound hroot hchain⟩

theorem exists_lastSlot : ∃ kernel : Kernel, HeapSound kernel.heap ∧ FreeBlocks kernel.heap 1 ∧
    emptySlots kernel 0 = {0} ∧ ArgumentChain kernel 0x1000 1 := by
  refine ⟨setAllocations 0 (fun i => if i = 0 then ⟨0, 0⟩ else ⟨1, 0⟩)
    (idleKernel bootBytes unmountedVolume), idleKernel_sound unmountedVolume,
    idleKernel_freeBlocks unmountedVolume (by decide), ?_, ?_⟩
  · ext i
    rw [mem_emptySlots, Finset.mem_singleton]
    simp only [setAllocations, setProcessMemory, if_true]
    by_cases hzero : i = 0
    · simp [hzero, slobosMaxProgramAllocations]
    · simp [hzero]
  · refine .cons (by decide) (fun i hi block _ hin => ?_) (fun _ => rfl) .nil
    have hbelow : toUint32 (0x1000 + argumentSize + i) < slobosHeapAddress := by
      simp only [toUint32, addressSpace, argumentSize, slobosHeapAddress]
      omega
    omega

theorem injectClean_iff_lastSlot : ∃ kernel : Kernel, ArgumentChain kernel 0x1000 1 ∧
    (InjectClean kernel 0 0x1000 ↔
      1 = 0 ∨ ¬Grants kernel 0 (toUint32 (4 * 1)) ∨ StringsFit kernel 0 1) := by
  obtain ⟨kernel, hsound, -, -, hchain⟩ := exists_lastSlot
  exact ⟨kernel, hchain, injectClean_iff hsound (by decide) hchain⟩

/-- The array takes the last slot, and keeps it when there is none for the string. -/
theorem not_injectClean : ¬∀ kernel process root argc, HeapSound kernel.heap → root < addressSpace →
    ArgumentChain kernel root argc → InjectClean kernel process root := by
  intro hall
  obtain ⟨kernel, hsound, hfree, hslots, hchain⟩ := exists_lastSlot
  have hclean := hall kernel 0 0x1000 1 hsound (by decide) hchain
  have hpage := @processMalloc_page kernel (toUint32 (4 * 1)) hsound 0 (by decide) (by decide)
  rcases hpage with ⟨-, ptr, given, hmalloc, hne, -⟩ | ⟨hnone, -⟩
  · rcases hclean.condition hsound (by decide) hchain with hzero | hrefused | ⟨hcard, -⟩
    · exact absurd hzero Nat.one_ne_zero
    · exact hrefused (processMalloc_run hmalloc hne).1
    · rw [hslots, Finset.card_singleton] at hcard
      exact Nat.lt_irrefl 1 hcard
  · exact hnone ⟨hslots ▸ Finset.singleton_nonempty 0, hfree⟩

end Kernel

end SlobOS
