import SlobOS.OpenRequests
import SlobOS.Lib.Runs

/-!
# Histories of open files

Any sequence of calls of `fopen` and `fclose` from an empty descriptor table on. The numbers reach
from one to the number of slots, but the last of them is refused by every function that takes one; as
long as another slot is free it is not handed out, and every number means its own descriptor until it
is closed.
-/

namespace SlobOS

namespace Kernel

open Faulting Runs

/-- A number that `fopen` returned, with the descriptor that it filled. -/
structure Handle where
  fd : Int
  desc : Nat
  file : FileDescriptor

structure FilesState where
  kernel : Kernel
  /-- Ghost: what has been returned and not been closed since, latest first. -/
  handles : List Handle

inductive FilesAction where
  | fopen (filename modeStr : List UInt8)
  | fclose (fd : Int)

def handleOf (fd : Int) (kernel : Kernel) : Handle where
  fd := fd
  desc := kernel.fileDescriptors (fd - 1).toNat
  file := kernel.files (kernel.fileDescriptors (fd - 1).toNat)

inductive FilesStep : FilesState → FilesAction → FilesState → Prop
  | fopen {state : FilesState} {filename modeStr : List UInt8} {fd : Int} {after : Kernel} :
      Ends (fopen filename modeStr) state.kernel fd after →
      FilesStep state (.fopen filename modeStr)
        { kernel := after
          handles := if fd = 0 then state.handles else handleOf fd after :: state.handles }
  | fclose {state : FilesState} {fd : Int} {after : Kernel} :
      Ends (fclose fd) state.kernel () after →
      FilesStep state (.fclose fd)
        { kernel := after, handles := state.handles.filter (·.fd ≠ fd) }

structure HandlesValid (state : FilesState) : Prop where
  distinct : (state.handles.map Handle.fd).Nodup
  accepted : ∀ handle ∈ state.handles, handle.desc ≠ 0 ∧
    state.kernel.fileGetDescriptor handle.fd = handle.desc ∧
    state.kernel.files handle.desc = handle.file ∧ handle.file.index = handle.fd
  rejected : ∀ fd, (∀ handle ∈ state.handles, handle.fd ≠ fd) →
    state.kernel.fileGetDescriptor fd = 0
  exhausted : state.kernel.fileFreeSlot = none →
    state.handles.length = slobosMaxFileDescriptors

/-- Where a file is opened, a slot other than the last is free, and there is a block left for the
descriptor. -/
def SlotSpare (state : FilesState) : FilesAction → Prop
  | .fopen filename modeStr => ∀ left,
      OpensItem state.kernel.volume filename modeStr state.kernel.heap left →
        (∃ slot, slot + 1 < slobosMaxFileDescriptors ∧ state.kernel.fileDescriptors slot = 0) ∧
          FreeBlocks left 1
  | .fclose _ => True

/-- The taken slots are those of the handles, and the last slot is free. -/
structure HandlesInv (state : FilesState) : Prop extends FilesInv state.kernel where
  distinct : (state.handles.map Handle.fd).Nodup
  handle : ∀ handle ∈ state.handles, ∃ slot : Nat, slot + 1 < slobosMaxFileDescriptors ∧
    handle.fd = slot + 1 ∧ handle.desc ≠ 0 ∧ state.kernel.fileDescriptors slot = handle.desc ∧
    state.kernel.files handle.desc = handle.file
  slot : ∀ slot < slobosMaxFileDescriptors, state.kernel.fileDescriptors slot ≠ 0 →
    slot + 1 < slobosMaxFileDescriptors ∧ ∃ handle ∈ state.handles, handle.fd = slot + 1

variable {state state' : FilesState} {kernel : Kernel}

theorem fileFreeSlot_none (h : kernel.fileFreeSlot = none) :
    ∀ slot < slobosMaxFileDescriptors, kernel.fileDescriptors slot ≠ 0 := fun slot hslot => by
  simpa using List.find?_range_eq_none.mp h slot hslot

theorem HandlesInv.valid (h : HandlesInv state) : HandlesValid state := by
  refine ⟨h.distinct, fun handle hmem => ?_, fun fd hfd => ?_, fun hnone => ?_⟩
  · obtain ⟨slot, hslot, heq, hne, hdesc, hfile⟩ := h.handle handle hmem
    refine ⟨hne, ?_, hfile, ?_⟩
    · rw [heq, fileGetDescriptor_eq hslot, hdesc]
    · have hindex := h.index slot (by omega) (hdesc ▸ hne)
      rw [← hfile, ← hdesc, hindex, heq]
      rfl
  · by_contra hopen
    obtain ⟨slot, rfl, hslot, hget⟩ := fileGetDescriptor_ne_zero hopen
    obtain ⟨-, handle, hmem, heq⟩ := h.slot slot (by omega) (hget ▸ hopen)
    exact hfd handle hmem heq
  · have hlast := fileFreeSlot_none hnone (slobosMaxFileDescriptors - 1) (by decide)
    exact absurd (h.slot _ (by decide) hlast).1 (by decide)

theorem HandlesInv.fopen (h : HandlesInv state) {filename modeStr : List UInt8} {fd : Int}
    {after : Kernel} (hend : Ends (fopen filename modeStr) state.kernel fd after)
    (hspare : SlotSpare state (.fopen filename modeStr)) :
    HandlesInv { kernel := after
                 handles := if fd = 0 then state.handles else handleOf fd after :: state.handles } := by
  obtain ⟨hinv, ⟨rfl, hsame⟩ | ⟨middle, hcomes, hresult⟩⟩ := h.toFilesInv.fopen hend
  · refine ⟨hinv, h.distinct, ?_, ?_⟩
    · rw [hsame.descriptors, hsame.files]
      exact h.handle
    · rw [hsame.descriptors]
      exact h.slot
  obtain ⟨⟨spare, hspare, hzero⟩, hmemory⟩ := hspare _ (hcomes.opensItem h.toHeapSound)
  cases hresult with
  | unfilled hnone => exact absurd hmemory hnone
  | @opened slot desc file _ _ hfree hne hindex hother hdescriptors hfiles =>
      obtain ⟨hlt, hempty, hbefore⟩ := fileFreeSlot_some hfree
      have hslot : slot + 1 < slobosMaxFileDescriptors := by
        by_contra hlast
        exact hbefore spare (by omega) hzero
      rw [if_neg (by omega)]
      have hself : after.fileDescriptors slot = desc := by
        rw [hdescriptors]
        exact if_pos rfl
      have hkept : ∀ slot' < slobosMaxFileDescriptors, slot' ≠ slot →
          after.fileDescriptors slot' = state.kernel.fileDescriptors slot' := by
        intro slot' _ hdiff
        rw [hdescriptors]
        exact if_neg hdiff
      have hdesc : (handleOf (slot + 1) after).desc = desc := by
        rw [← hself]
        exact congrArg after.fileDescriptors (by omega)
      refine ⟨hinv, List.nodup_cons.mpr ⟨fun hmem => ?_, h.distinct⟩, fun handle hmem => ?_,
        fun slot' hslot' hopen => ?_⟩
      · obtain ⟨handle, hmem, heq⟩ := List.mem_map.mp hmem
        obtain ⟨slot', -, heq', hne', hdesc', -⟩ := h.handle handle hmem
        have hsame : slot' = slot := by
          change handle.fd = (slot : Int) + 1 at heq
          omega
        exact hne' (by rw [← hdesc', hsame, hempty])
      · rcases List.mem_cons.mp hmem with rfl | hmem
        · refine ⟨slot, hslot, rfl, hdesc ▸ hne, hself.trans hdesc.symm, ?_⟩
          rfl
        · obtain ⟨slot', hslot', heq, hne', hdesc', hfile⟩ := h.handle handle hmem
          have hopen : state.kernel.fileDescriptors slot' ≠ 0 := hdesc' ▸ hne'
          have hdiff : slot' ≠ slot := fun hsame => hopen (hsame ▸ hempty)
          refine ⟨slot', hslot', heq, hne', (hkept slot' (by omega) hdiff).trans hdesc', ?_⟩
          rw [hfiles, ← hfile]
          exact if_neg (hdesc' ▸ hother slot' (by omega) hopen)
      · by_cases hsame : slot' = slot
        · exact ⟨by omega, _, List.mem_cons_self, by rw [hsame]; rfl⟩
        · rw [hkept slot' hslot' hsame] at hopen
          obtain ⟨hlt', handle, hmem, heq⟩ := h.slot slot' hslot' hopen
          exact ⟨hlt', handle, List.mem_cons_of_mem _ hmem, heq⟩

theorem HandlesInv.fclose (h : HandlesInv state) {fd : Int} {after : Kernel}
    (hend : Ends (fclose fd) state.kernel () after) :
    HandlesInv { kernel := after, handles := state.handles.filter (·.fd ≠ fd) } := by
  obtain ⟨hinv, hfiles, hslots⟩ := h.toFilesInv.fclose hend
  refine ⟨hinv, (List.filter_sublist.map _).nodup h.distinct, fun handle hmem => ?_,
    fun slot hslot hopen => ?_⟩
  · obtain ⟨hmem, hdiff⟩ := List.mem_filter.mp hmem
    have hdiff : handle.fd ≠ fd := of_decide_eq_true hdiff
    obtain ⟨slot, hslot, heq, hne, hdesc, hfile⟩ := h.handle handle hmem
    refine ⟨slot, hslot, heq, hne, ?_, by rw [hfiles, hfile]⟩
    rw [hslots slot (by omega), if_neg (fun hclosed => hdiff (heq.trans hclosed.1.symm)), hdesc]
  · have hcell := hslots slot hslot
    split at hcell
    case isTrue => exact absurd hcell hopen
    case isFalse hkept =>
      rw [hcell] at hopen
      obtain ⟨hlt, handle, hmem, heq⟩ := h.slot slot hslot hopen
      refine ⟨hlt, handle, List.mem_filter.mpr ⟨hmem, decide_eq_true fun hsame => ?_⟩, heq⟩
      exact hkept ⟨hsame.symm.trans heq, hlt⟩

theorem HandlesInv.step (h : HandlesInv state) {action : FilesAction}
    (hstep : Guarded SlotSpare FilesStep state action state') : HandlesInv state' := by
  obtain ⟨hguard, hstep⟩ := hstep
  cases hstep with
  | fopen hend => exact h.fopen hend hguard
  | fclose hend => exact h.fclose hend

/-- In every history in which no file is opened while only the last slot is free or without a block for
its descriptor, every number that is in use means its own descriptor, and every other is refused. -/
theorem handles_valid {actions : List FilesAction} (hsound : HeapSound kernel.heap)
    (hempty : ∀ slot < slobosMaxFileDescriptors, kernel.fileDescriptors slot = 0)
    (hrun : Run (Guarded SlotSpare FilesStep) { kernel := kernel, handles := [] } actions state) :
    HandlesValid state := by
  have hfirst : HandlesInv { kernel := kernel, handles := [] } := by
    refine ⟨⟨hsound, ?_, ?_, ?_⟩, List.nodup_nil, by simp, ?_⟩
    · exact fun slot hslot hopen => absurd (hempty slot hslot) hopen
    · exact fun slot hslot _ _ hopen => absurd (hempty slot hslot) hopen
    · exact fun slot hslot hopen => absurd (hempty slot hslot) hopen
    · exact fun slot hslot hopen => absurd (hempty slot hslot) hopen
  exact (hrun.invariant HandlesInv (fun _ _ _ h hstep => h.step hstep) hfirst).valid

/-- That many files are open, in the first slots, and there is memory for those that are still to
come. -/
structure FirstSlots (state : FilesState) (count : Nat) : Prop where
  volume : state.kernel.volume = rootFileVolume
  free : FreeBlocks state.kernel.heap (8 * (slobosMaxFileDescriptors - count))
  slots : ∀ slot, state.kernel.fileDescriptors slot ≠ 0 ↔ slot < count
  latest : 0 < count → ∃ handle ∈ state.handles, handle.fd = count

theorem FirstSlots.fopen {count : Nat} (h : FirstSlots state count)
    (hcount : count < slobosMaxFileDescriptors) :
    ∃ state', FilesStep state (.fopen rootFilePath modeRead) state' ∧ FirstSlots state' (count + 1) := by
  have hslot : state.kernel.fileFreeSlot = some count := by
    refine List.find?_range_eq_some.mpr ⟨decide_eq_true ?_, List.mem_range.mpr hcount, ?_⟩
    · by_contra hopen
      exact absurd ((h.slots count).mp hopen) (Nat.lt_irrefl _)
    · intro before hbefore
      simpa using (h.slots before).mpr hbefore
  obtain ⟨descriptor, address, clone, desc, alloc, hopen, htakes, hfree, -, hne⟩ :=
    @fopen_opens state.kernel rootFilePath rootFileItem
      (8 * (slobosMaxFileDescriptors - (count + 1))) FreeBlocks _ (h.volume ▸ rootFile_rootFileVolume)
      (h.free.mono (by omega)) count hslot
  refine ⟨_, .fopen hopen, ?_, hfree, fun slot => ?_, fun _ => ?_⟩
  · have hvolume := congrArg Kernel.volume htakes
    exact Eq.trans hvolume h.volume
  · change (if slot = count then desc else alloc.fileDescriptors slot) ≠ 0 ↔ _
    rw [htakes.fileDescriptors]
    by_cases hsame : slot = count
    · rw [if_pos hsame]
      exact iff_of_true hne (by omega)
    · rw [if_neg hsame, h.slots slot]
      omega
  · rw [if_neg (by omega)]
    exact ⟨_, List.mem_cons_self, rfl⟩

theorem FirstSlots.slotSpare {count : Nat} (h : FirstSlots state count)
    (hcount : count + 1 < slobosMaxFileDescriptors) :
    SlotSpare state (.fopen rootFilePath modeRead) := by
  intro left hopens
  have hitems : ∀ item ∈ namedItems state.kernel.volume [0x61], item = rootFileItem := by
    intro item hitem
    rw [h.volume] at hitem
    exact List.mem_singleton.mp (List.mem_filter.mp hitem).1
  have hlength : (namedItems state.kernel.volume [0x61]).length ≤ 1 := by
    rw [h.volume]
    exact List.length_filter_le _ _
  refine ⟨⟨count, hcount, ?_⟩, hopens.left_block rootFilePath_scanned ?_ (h.free.mono (by omega))⟩
  · by_contra hopen
    exact absurd ((h.slots count).mp hopen) (Nat.lt_irrefl _)
  · exact fun item hitem => hitems item hitem ▸ rootFile_rootFileVolume.plain

theorem firstSlots_idle :
    FirstSlots { kernel := idleKernel bootBytes rootFileVolume, handles := [] } 0 where
  volume := rfl
  free := idleKernel_freeBlocks rootFileVolume (by decide)
  slots := fun slot => iff_of_false (not_not.mpr rfl) (Nat.not_lt_zero slot)
  latest := fun hlt => absurd hlt (Nat.lt_irrefl 0)

theorem firstSlots_run {count : Nat} (hcount : count < slobosMaxFileDescriptors) :
    ∃ actions state, Run (Guarded SlotSpare FilesStep)
      { kernel := idleKernel bootBytes rootFileVolume, handles := [] } actions state ∧
      FirstSlots state count := by
  induction count with
  | zero => exact ⟨[], _, .nil _, firstSlots_idle⟩
  | succ count ih =>
      obtain ⟨actions, state, hrun, hfirst⟩ := ih (by omega)
      obtain ⟨state', hstep, hfirst'⟩ := hfirst.fopen (by omega)
      exact ⟨_, state', hrun.snoc ⟨hfirst.slotSpare hcount, hstep⟩, hfirst'⟩

theorem handles_valid_two : ∃ actions state, Run (Guarded SlotSpare FilesStep)
    { kernel := idleKernel bootBytes rootFileVolume, handles := [] } actions state ∧
      (∃ handle ∈ state.handles, handle.fd = 2) ∧ HandlesValid state := by
  obtain ⟨actions, state, hrun, hfirst⟩ := firstSlots_run (show 2 < slobosMaxFileDescriptors by decide)
  exact ⟨actions, state, hrun, hfirst.latest (by decide),
    handles_valid (idleKernel_sound _) (fun _ _ => rfl) hrun⟩

/-- The last number is handed out when all others are in use, and refused from then on. -/
theorem not_handles_valid : ¬∀ kernel actions state, HeapSound kernel.heap →
    (∀ slot < slobosMaxFileDescriptors, kernel.fileDescriptors slot = 0) →
    Run FilesStep { kernel := kernel, handles := [] } actions state → HandlesValid state := by
  intro hall
  obtain ⟨actions, state, hrun, hfirst⟩ :=
    firstSlots_run (show 511 < slobosMaxFileDescriptors by decide)
  obtain ⟨state', hstep, hfirst'⟩ := hfirst.fopen (by decide)
  have hvalid := hall _ _ _ (idleKernel_sound rootFileVolume) (fun _ _ => rfl)
    (hrun.unguarded.snoc hstep)
  obtain ⟨handle, hmem, hfd⟩ := hfirst'.latest (by decide)
  obtain ⟨hne, hget, -, -⟩ := hvalid.accepted handle hmem
  have hrefused : state'.kernel.fileGetDescriptor handle.fd = 0 := by
    rw [hfd]
    exact if_pos (by decide)
  exact hne (hget.symm.trans hrefused)

end Kernel

end SlobOS
