import SlobOS.Proof.SpaceRequests

/-!
# The lives of the processes

Programs are loaded, ask for memory, give it back, write to it and end, in any order. Whatever they do,
the processes stay apart, and a process that does nothing finds its memory as it was.
-/

namespace SlobOS

open Runs Tilings

inductive ProcessEvent where
  | load (filename : List UInt8)
  | malloc (process size : Nat)
  | free (process ptr : Nat)
  | store (process virt : Nat) (value : UInt8)
  | terminate (process : Nat) (elfResult : Int)

def ProcessEvent.caller : ProcessEvent → Option Nat
  | .load _ => none
  | .malloc process _ => some process
  | .free process _ => some process
  | .store process _ _ => some process
  | .terminate process _ => some process

namespace Kernel

open Faulting

/-- The processor lets a program store a byte where its page directory does. -/
inductive EventStep : Kernel → ProcessEvent → Kernel → Prop
  | load {kernel after : Kernel} {filename : List UInt8} {res : Int} {process : Nat} :
      Ends (processLoad filename) kernel (res, process) after → EventStep kernel (.load filename) after
  | malloc {kernel after : Kernel} {process size ptr : Nat} : kernel.Registered process →
      Ends (processMalloc process size) kernel ptr after →
      EventStep kernel (.malloc process size) after
  | free {kernel after : Kernel} {process ptr : Nat} : kernel.Registered process →
      Ends (processFree process ptr) kernel () after → EventStep kernel (.free process ptr) after
  | store {kernel : Kernel} {process virt : Nat} {value : UInt8} : kernel.Registered process →
      virt < addressSpace →
      UserWriteable kernel.pages (kernel.directoryOf process) (virt / pagingPageSize) →
      EventStep kernel (.store process virt value)
        (writeBytes (translated kernel.pages (kernel.directoryOf process) virt) 1 (fun _ => value)
          kernel)
  | terminate {kernel after : Kernel} {process : Nat} {elfResult code : Int} :
      kernel.Registered process → Ends (processTerminate process elfResult) kernel code after →
      EventStep kernel (.terminate process elfResult) after

/-- A step that stays within its bounds. A request has to be one that the heap serves with enough
blocks, and the indeterminate result of a termination must not stop it half way. -/
def EventInside (kernel : Kernel) : ProcessEvent → Prop
  | .load filename => ∀ slot, processGetFreeSlot kernel.sched = some slot →
      LoadInside filename slot kernel
  | .malloc _ size => Serves kernel.heap size
  | .free _ _ => True
  | .store _ _ _ => True
  | .terminate process elfResult => (kernel.sched.procs process).filetype = .elf → 0 ≤ elfResult

variable {kernel middle after : Kernel} {process block : Nat} {event : ProcessEvent} {events : List ProcessEvent}

theorem writeBytes_space {start size : Nat} {bytes : Nat → UInt8} (h : kernel.Space process) :
    (writeBytes start size bytes kernel).Space process :=
  ⟨h.owns, h.distinct, h.held, fun page hpage hopen => by
    cases h.opened page hpage hopen with
    | allocated hblock hat hframe => exact .allocated hblock hat hframe
    | loaded hloaded hgiven hblock hframe => exact .loaded hloaded hgiven hblock hframe⟩

theorem store_untouched {other virt : Nat} {value : UInt8} (hsound : HeapSound kernel.heap)
    (hblock : block < kernel.heap.table.total) (hne : other ≠ block)
    (hframe : pageFrame kernel.pages (kernel.directoryOf process) (virt / pagingPageSize) =
      blockPage kernel.heap block) :
    Untouched other kernel (writeBytes (translated kernel.pages (kernel.directoryOf process) virt) 1
      (fun _ => value) kernel) := by
  intro pages i hi
  refine if_neg ?_
  rw [translated, hframe, hsound.blockPage hblock]
  simp only [slobosHeapAddress, slobosHeapBlockSize, pagingPageSize] at *
  omega

theorem store_actsFor {virt : Nat} {value : UInt8} (hpartitioned : Partitioned kernel)
    (hprocess : kernel.Registered process) (hvirt : virt < addressSpace)
    (hopen : UserWriteable kernel.pages (kernel.directoryOf process) (virt / pagingPageSize)) :
    ActsFor process kernel (writeBytes (translated kernel.pages (kernel.directoryOf process) virt) 1
      (fun _ => value) kernel) := by
  have hspace := hpartitioned.space process hprocess
  refine ⟨hpartitioned.sound, fun _ _ => Or.inl rfl, fun other hother hne resource block hblock => ?_,
    fun _ slot hslot heq => ?_, fun _ => writeBytes_space hspace,
    fun _ other hother hne resource resource' hhas hhas' => ?_⟩
  · have hheld := hblock.holds hpartitioned.sound
    obtain ⟨resource', own, -, hown, hframe⟩ :=
      hpartitioned.isolated.writeable process hprocess _ (page_lt hvirt) hopen
    have hheld' := hown.holds hpartitioned.sound
    refine ⟨.refl hheld, store_untouched hpartitioned.sound hheld'.lt (fun heq => ?_) hframe,
      ⟨rfl, rfl, rfl, rfl, rfl, rfl, rfl⟩⟩
    exact hne (hpartitioned.isolated.apart other process hother hprocess _ _ _ hblock (heq ▸ hown)).1
  · exact heq ▸ hpartitioned.slot slot hslot (heq ▸ hprocess.1)
  · exact hpartitioned.apart process other hprocess hother (Ne.symm hne) _ _ hhas hhas'

theorem processGetFreeSlot_some {sched : Sched} {slot : Nat} (h : processGetFreeSlot sched = some slot) :
    slot < slobosMaxProcesses ∧ sched.processes slot = 0 := by
  have hmem := List.mem_of_find?_eq_some h
  have hempty := List.find?_some h
  exact ⟨List.mem_range.mp hmem, by simpa using hempty⟩

theorem EventStep.actsFor (h : EventStep kernel event after) (hinside : EventInside kernel event)
    (hpartitioned : Partitioned kernel) : ∃ actor, ActsFor actor kernel after ∧
      ∀ other, kernel.Registered other → event.caller ≠ some other → other ≠ actor := by
  cases h with
  | @load _ _ _ process hload =>
      cases hslot : processGetFreeSlot kernel.sched with
      | none =>
          rw [processLoad, ends_get_bind, hslot] at hload
          obtain ⟨-, rfl⟩ := ends_pure.mp hload
          refine ⟨0, ⟨hpartitioned.sound, fun _ _ => Or.inl rfl, fun _ _ _ _ _ hblock =>
            .refl (hblock.holds hpartitioned.sound), fun h => absurd rfl h.1, fun h => absurd rfl h.1,
            fun h => absurd rfl h.1⟩, fun other hother _ => hother.1⟩
      | some slot =>
          rw [ends_processLoad hslot] at hload
          have hends := processLoadForSlot_cases hload
          refine ⟨process, hends.actsFor (hinside slot hslot) hpartitioned
            (processGetFreeSlot_some hslot).2, fun other hother _ heq => ?_⟩
          exact hends.not_registered hpartitioned (heq ▸ hother)
  | malloc hprocess hend =>
      exact ⟨_, processMalloc_actsFor hend hinside hpartitioned hprocess,
        fun other _ hne heq => hne (congrArg some heq.symm)⟩
  | free hprocess hend =>
      exact ⟨_, processFree_actsFor hend hpartitioned hprocess,
        fun other _ hne heq => hne (congrArg some heq.symm)⟩
  | store hprocess hvirt hopen =>
      exact ⟨_, store_actsFor hpartitioned hprocess hvirt hopen,
        fun other _ hne heq => hne (congrArg some heq.symm)⟩
  | terminate hprocess hend =>
      exact ⟨_, processTerminate_actsFor hend hinside hpartitioned hprocess,
        fun other _ hne heq => hne (congrArg some heq.symm)⟩

/-- No process has been loaded yet. -/
structure NoProcesses (kernel : Kernel) : Prop where
  sound : HeapSound kernel.heap
  empty : ∀ slot < slobosMaxProcesses, kernel.sched.processes slot = 0

theorem NoProcesses.partitioned (h : NoProcesses kernel) : Partitioned kernel := by
  have hnone : ∀ process, ¬kernel.Registered process := by
    rintro process ⟨hnull, slot, hslot, heq⟩
    exact hnull (heq.symm.trans (h.empty slot hslot))
  exact ⟨h.sound, fun slot hslot hne => absurd (h.empty slot hslot) hne,
    fun process hprocess => absurd hprocess (hnone process),
    fun process _ hprocess => absurd hprocess (hnone process)⟩

theorem partitioned_of_run (hstart : NoProcesses kernel)
    (hrun : Run (Guarded EventInside EventStep) kernel events after) : Partitioned after := by
  refine hrun.invariant Partitioned (fun before event last hbefore hstep => ?_) hstart.partitioned
  obtain ⟨actor, hacts, -⟩ := hstep.2.actsFor hstep.1 hbefore
  exact hacts.partitioned hbefore

/-- The processes are apart in every state that the events lead to. -/
theorem isolated_of_run (hstart : NoProcesses kernel)
    (hrun : Run (Guarded EventInside EventStep) kernel events after) : Isolated after :=
  (partitioned_of_run hstart hrun).isolated

/-- The process is still there, with the same resources in the same blocks, the same bytes in them and
the same pages open to it. -/
structure Unaffected (process : Nat) (kernel after : Kernel) : Prop where
  registered : after.Registered process
  address : ∀ resource, after.addressOf process resource = kernel.addressOf process resource
  occupies : ∀ resource block,
    after.Occupies process resource block ↔ kernel.Occupies process resource block
  bytes : ∀ resource block, kernel.Occupies process resource block → ∀ pages, ∀ i < slobosHeapBlockSize,
    after.memory pages (slobosHeapAddress + block * slobosHeapBlockSize + i) =
      kernel.memory pages (slobosHeapAddress + block * slobosHeapBlockSize + i)
  writeable : ∀ page < pageCount, UserWriteable after.pages (after.directoryOf process) page ↔
    UserWriteable kernel.pages (kernel.directoryOf process) page
  frame : ∀ page < pageCount, after.frameOf process page = kernel.frameOf process page

theorem Leaves.trans (h : Leaves process kernel middle) (h' : Leaves process middle after)
    (hspace : kernel.Space process) (hsound : HeapSound kernel.heap) : Leaves process kernel after :=
  fun resource block hblock => (h resource block hblock).trans
    (h' resource block ((hspace.occupies_iff h hsound resource block).mpr hblock))

theorem unaffected_of_run (hstart : NoProcesses kernel)
    (hrun : Run (Guarded EventInside EventStep) kernel events middle) (hprocess : middle.Registered process)
    {others : List ProcessEvent} (hrun' : Run (Guarded EventInside EventStep) middle others after)
    (hothers : ∀ event ∈ others, event.caller ≠ some process) : Unaffected process middle after := by
  have hmiddle := partitioned_of_run hstart hrun
  have hspace := hmiddle.space process hprocess
  have hleft : Partitioned after ∧ after.Registered process ∧ Leaves process middle after := by
    refine (hrun'.restricted hothers).invariant
      (fun state => Partitioned state ∧ state.Registered process ∧ Leaves process middle state)
      (fun before event last hbefore hstep => ?_)
      ⟨hmiddle, hprocess, fun _ _ hblock => .refl (hblock.holds hmiddle.sound)⟩
    obtain ⟨hpartitioned, hregistered, hleaves⟩ := hbefore
    obtain ⟨hother, hinside, hstep⟩ := hstep
    obtain ⟨actor, hacts, hne⟩ := hstep.actsFor hinside hpartitioned
    have hne := hne process hregistered hother
    exact ⟨hacts.partitioned hpartitioned, hacts.registered hregistered hne,
      hleaves.trans (hacts.leaves process hregistered hne) hspace hmiddle.sound⟩
  obtain ⟨-, hregistered, hleaves⟩ := hleft
  exact ⟨hregistered, hspace.addressOf_eq hleaves hmiddle.sound, hspace.occupies_iff hleaves hmiddle.sound,
    fun resource block hblock => (hleaves resource block hblock).untouched,
    fun _ hpage => hspace.userWriteable_iff hleaves hmiddle.sound hpage,
    fun _ hpage => hspace.frameOf_eq hleaves hmiddle.sound hpage⟩

/-! ### Programs of one byte -/

theorem not_fills_of_room {before heap : Heap} (h : Room heap 1)
    (htotal : heap.table.total = before.table.total) : ¬Fills before heap := by
  rintro ⟨last, hlast, -, hheld⟩
  refine hheld.taken (h.window last ?_ ?_) <;> omega

theorem Acquires.unique {filename : List UInt8} {slot process' : Nat} {acquired acquired' : Kernel}
    (h : Acquires filename slot kernel process acquired)
    (h' : Acquires filename slot kernel process' acquired') (hslot : kernel.processGet slot = 0) :
    process' = process ∧ acquired' = acquired := by
  obtain ⟨heq, hstate⟩ := (h'.ends hslot).unique (h.ends hslot)
  exact ⟨Except.ok.inj heq, hstate⟩

theorem readsWithin_programVolume (filesize : Nat) : ReadsWithin (programVolume filesize) := by
  intro cluster offset total res bytes h
  cases h
  exact Nat.le_of_eq (List.length_replicate ..)

theorem processGetFreeSlot_second {sched : Sched} (hfirst : sched.processes 0 ≠ 0)
    (hsecond : sched.processes 1 = 0) : processGetFreeSlot sched = some 1 := by
  rw [processGetFreeSlot, show List.range slobosMaxProcesses = 0 :: 1 :: List.range' 2 10 from rfl,
    List.find?_cons_of_neg (by simpa using hfirst), List.find?_cons_of_pos (by simpa using hsecond)]

/-- A program has been loaded into a slot, and has no allocations yet. -/
structure LoadedByte (kernel loaded : Kernel) (slot process : Nat) : Prop where
  step : EventStep kernel (.load rootFilePath) loaded
  inside : EventInside kernel (.load rootFilePath)
  nonnull : process ≠ 0
  slots : loaded.sched.processes = fun i => if i = slot then process else kernel.sched.processes i
  empty : ∀ i, ((loaded.processMemory process).allocations i).ptr = 0
  other : Partitioned kernel → ¬kernel.Registered process

theorem LoadedByte.registered {loaded : Kernel} {slot : Nat} (h : LoadedByte kernel loaded slot process)
    (hslot : slot < slobosMaxProcesses) : loaded.Registered process :=
  ⟨h.nonnull, slot, hslot, (congrFun h.slots slot).trans (if_pos rfl)⟩

theorem loads_byte {slot rest : Nat} (hready : Ready kernel (programVolume 1) (1053 + (rest + 1)))
    (hfree : processGetFreeSlot kernel.sched = some slot) :
    ∃ process loaded, LoadedByte kernel loaded slot process ∧ Ready loaded (programVolume 1) (rest + 1) := by
  obtain ⟨hlt, hempty⟩ := processGetFreeSlot_some hfree
  have hslot : kernel.processGet slot = 0 := (if_neg (Nat.not_le.mpr hlt)).trans hempty
  have hone : blockCount 1 = 1 := by decide
  have hroom : Ready kernel (programVolume 1)
      (3 + (1 + (blockCount 1 + (blockCount 1 + (1031 + (rest + 1)) + 8) + 8))) :=
    ⟨hready.volume, hready.slot, hready.room.mono (by omega)⟩
  obtain ⟨process, acquired, mapped, hacquires, hmap, hload, hready', hfiletype, -, hne⟩ :=
    (flatFile_programVolume Nat.one_pos (by decide)).loads hroom hslot
  have hreads : ReadsWithin kernel.volume := hready.volume ▸ readsWithin_programVolume 1
  have hsame := (hacquires.preserves hreads).2
  obtain ⟨pages, rfl, -⟩ := processMapMemory_pages hmap
  refine ⟨process, _, ⟨.load ((ends_processLoad hfree).mpr hload), fun slot' hslot' => ?_, hne, ?_,
    hacquires.empty, hacquires.not_registered⟩, hready'.volume, hready'.slot, hready'.room⟩
  · obtain rfl : slot = slot' := Option.some.inj (hfree.symm.trans hslot')
    refine ⟨hreads, fun process' acquired' h => ?_, fun process' acquired' h => ?_⟩
    · obtain ⟨rfl, rfl⟩ := hacquires.unique h hslot
      exact not_fills_of_room (hready'.room.mono (Nat.le_add_left 1 rest)) hsame.total
    · obtain ⟨rfl, rfl⟩ := hacquires.unique h hslot
      intro helf
      rw [hfiletype] at helf
      cases helf
  · funext i
    exact congrArg (fun processes => if i = slot then process else processes i)
      hacquires.keepsOrder.slots

theorem mallocs_byte {rest : Nat} (hready : Ready kernel (programVolume 1) (rest + 1))
    (hregistered : kernel.Registered process)
    (hempty : ∀ i, ((kernel.processMemory process).allocations i).ptr = 0) :
    ∃ after, EventStep kernel (.malloc process 1) after ∧ EventInside kernel (.malloc process 1) ∧
      Ready after (programVolume 1) rest ∧ after.sched = kernel.sched := by
  obtain ⟨ptr, alloc, pages, -, htakes, hroom, hmalloc⟩ := processMalloc_byte hready.room
    (processFindFreeAllocationIndex_first (by decide) (hempty 0)
      fun i hi => absurd hi (Nat.not_lt_zero i))
  have hvolume := congrArg Kernel.volume htakes
  exact ⟨_, .malloc hregistered hmalloc, room_serves hready.room,
    ⟨Eq.trans hvolume hready.volume, Eq.trans (congrFun htakes.fileDescriptors 0) hready.slot, hroom⟩,
    htakes.takesPages.sched⟩

theorem run_byte : ∃ process state,
    Run (Guarded EventInside EventStep) (idleKernel bootBytes (programVolume 1))
      [.load rootFilePath, .malloc process 1] state ∧ state.Registered process ∧
      Ready state (programVolume 1) 20000 ∧ processGetFreeSlot state.sched = some 1 := by
  have hready : Ready (idleKernel bootBytes (programVolume 1)) (programVolume 1)
      (1053 + (20000 + 1)) :=
    ⟨rfl, rfl, (idleKernel_room _).mono (by decide)⟩
  obtain ⟨process, loaded, hloaded, hready'⟩ := loads_byte hready rfl
  have hregistered := hloaded.registered (by decide)
  obtain ⟨state, hmalloc, hinside, hready'', hsched⟩ := mallocs_byte hready' hregistered hloaded.empty
  refine ⟨process, state, (Run.single ⟨hloaded.inside, hloaded.step⟩).snoc ⟨hinside, hmalloc⟩, ?_,
    hready'', ?_⟩
  · obtain ⟨hnull, slot, hlt, heq⟩ := hregistered
    exact ⟨hnull, slot, hlt, hsched ▸ heq⟩
  · rw [hsched]
    refine processGetFreeSlot_second ?_ ?_
    · rw [hloaded.slots]
      exact hloaded.nonnull
    · rw [hloaded.slots]
      rfl

theorem noProcesses_byte : NoProcesses (idleKernel bootBytes (programVolume 1)) :=
  ⟨idleKernel_sound _, fun _ _ => rfl⟩

theorem isolated_of_run_byte : ∃ process state, state.Registered process ∧
    Run (Guarded EventInside EventStep) (idleKernel bootBytes (programVolume 1))
      [.load rootFilePath, .malloc process 1] state ∧ Isolated state := by
  obtain ⟨process, state, hrun, hregistered, -⟩ := run_byte
  exact ⟨process, state, hregistered, hrun, isolated_of_run noProcesses_byte hrun⟩

theorem unaffected_of_run_byte : ∃ process other state after, state.Registered process ∧
    Run EventStep state [.load rootFilePath, .malloc other 1] after ∧ after.Registered other ∧
      Unaffected process state after := by
  obtain ⟨process, state, hrun, hregistered, hready, hslot⟩ := run_byte
  obtain ⟨other, loaded, hloaded, hready'⟩ := @loads_byte state 1 18946 hready hslot
  have hother := hloaded.registered (by decide)
  obtain ⟨after, hmalloc, hinside, -, hsched⟩ := mallocs_byte hready' hother hloaded.empty
  have hrun' : Run (Guarded EventInside EventStep) state [.load rootFilePath, .malloc other 1] after :=
    (Run.single ⟨hloaded.inside, hloaded.step⟩).snoc ⟨hinside, hmalloc⟩
  have hne : other ≠ process := fun heq =>
    hloaded.other (partitioned_of_run noProcesses_byte hrun) (heq ▸ hregistered)
  refine ⟨process, other, state, after, hregistered, hrun'.unguarded, ?_,
    unaffected_of_run noProcesses_byte hrun hregistered hrun' fun event hmem heq => ?_⟩
  · obtain ⟨hnull, slot, hlt, heq⟩ := hother
    exact ⟨hnull, slot, hlt, hsched ▸ heq⟩
  · rcases List.mem_pair.mp hmem with rfl | rfl
    · cases heq
    · exact hne (Option.some.inj heq)

end Kernel

end SlobOS
