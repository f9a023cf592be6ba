import SlobOS.Lib.Orbits
import SlobOS.LoadFailures
import SlobOS.Proof.SlotRequests

/-!
# Walks along a list of arguments

`process_count_command_arguments` follows the list that a program has built until it finds a null
pointer, and so does the loop that copies the arguments. The first one has no other way to end. Each
round of the second one takes a slot of the process, so it ends on any list.
-/

namespace SlobOS

namespace Kernel

open Faulting Orbits

def nextArgument (bytes : Nat → UInt8) (current : Nat) : Nat :=
  if current = 0 then 0 else readWord bytes (current + argumentSize)

def Cyclic (bytes : Nat → UInt8) (root : Nat) : Prop := Loops (nextArgument bytes) 0 root

def CountEnds (bytes : Nat → UInt8) (root : Nat) : Prop :=
  ∃ left argc, processCountCommandArguments bytes left root 0 = some argc

def CopyEnds (kernel : Kernel) (process argv current i : Nat) : Prop :=
  ∃ bound res after, ∀ left > bound,
    Ends (processInjectLoop processMalloc process argv left current i) kernel res after

/-- Both loops end, the first one if it is run at all on such a list. -/
structure WalksEnd (kernel : Kernel) (process root : Nat) : Prop where
  count : CountEnds (kernel.memory kernel.pages) root ↔ ¬Cyclic (kernel.memory kernel.pages) root
  copy : ∀ argv i, CopyEnds kernel process argv root i

variable {kernel after : Kernel} {process argv current root left i : Nat} {bytes : Nat → UInt8}

theorem nextArgument_null : nextArgument bytes 0 = 0 := if_pos rfl

theorem nextArgument_lt : nextArgument bytes current < addressSpace := by
  unfold nextArgument
  split
  · decide
  · exact readWord_lt bytes _

theorem processCountCommandArguments_isSome :
    (∃ argc, processCountCommandArguments bytes left current i = some argc) ↔
      ∃ steps < left, (nextArgument bytes)^[steps] current = 0 := by
  induction left generalizing current i with
  | zero => simp [processCountCommandArguments]
  | succ left ih =>
      rw [processCountCommandArguments]
      by_cases hnull : current = 0
      · rw [if_pos hnull]
        exact iff_of_true ⟨i, rfl⟩ ⟨0, Nat.succ_pos left, hnull⟩
      · have hnext : readWord bytes (current + argumentSize) = nextArgument bytes current :=
          (if_neg hnull).symm
        rw [if_neg hnull, hnext, ih]
        constructor
        · rintro ⟨steps, hlt, hend⟩
          exact ⟨steps + 1, Nat.succ_lt_succ hlt, hend⟩
        · rintro ⟨steps, hlt, hend⟩
          cases steps with
          | zero => exact absurd hend hnull
          | succ steps => exact ⟨steps, Nat.lt_of_succ_lt_succ hlt, hend⟩

theorem processCountCommandArguments_acyclic (hroot : root < addressSpace)
    (hcyclic : ¬Cyclic bytes root) :
    ∃ argc, processCountCommandArguments bytes addressSpace root 0 = some argc := by
  rw [processCountCommandArguments_isSome]
  have hwalk := @exists_iterate_lt _ (nextArgument bytes) 0 root (Finset.range addressSpace)
    (fun _ _ => Finset.mem_range.mpr nextArgument_lt) (Finset.mem_range.mpr hroot) hcyclic
  rwa [Finset.card_range] at hwalk

theorem countEnds_iff (hroot : root < addressSpace) : CountEnds bytes root ↔ ¬Cyclic bytes root := by
  constructor
  · rintro ⟨left, hcount⟩
    obtain ⟨steps, -, hend⟩ := processCountCommandArguments_isSome.mp hcount
    exact not_loops nextArgument_null hend
  · intro hcyclic
    exact ⟨addressSpace, processCountCommandArguments_acyclic hroot hcyclic⟩

theorem processInjectLoop_ends (hsound : HeapSound kernel.heap) : ∃ res after,
    ∀ left > (emptySlots kernel process).card,
      Ends (processInjectLoop processMalloc process argv left current i) kernel res after := by
  induction hcard : (emptySlots kernel process).card using Nat.strongRecOn
    generalizing kernel current i with
  | ind slots ih =>
      by_cases hnull : current = 0
      · refine ⟨0, kernel, fun left hlt => ?_⟩
        cases left with
        | zero => omega
        | succ left => exact hnull ▸ processInjectLoop_done
      have hpage := @processMalloc_page kernel argumentSize hsound process (by decide) (by decide)
      rcases hpage with ⟨-, ptr, given, hmalloc, hne, htakes⟩ | ⟨-, after, hmalloc⟩
      · obtain ⟨index, hrecords⟩ := htakes.recorded
        have hfewer := hrecords.card
        generalize hstored : putMemory (argv + 4 * i) (wordBytes ptr) (putMemory ptr
          (strncpyBytes (given.memory given.pages) current (argumentSize - 1)) given) = stored
        have hsound' : HeapSound stored.heap := by
          rw [← hstored]
          exact htakes.sound
        have hcard' : (emptySlots stored process).card = (emptySlots given process).card := by
          rw [← hstored]
          rfl
        obtain ⟨res, after, hends⟩ := @ih _ (by omega) stored
          (readWord (stored.memory stored.pages) (current + argumentSize)) (i + 1) hsound' hcard'
        refine ⟨res, after, fun left hlt => ?_⟩
        cases left with
        | zero => omega
        | succ left => exact processInjectLoop_next hnull hmalloc hne hstored (hends left (by omega))
      · refine ⟨-enomem, after, fun left hlt => ?_⟩
        cases left with
        | zero => omega
        | succ left => exact processInjectLoop_refused hnull hmalloc

/-- The loop that counts ends on a list without a cycle, and the one that copies ends on every list. -/
theorem walksEnd (hsound : HeapSound kernel.heap) (process : Nat) (hroot : root < addressSpace) :
    WalksEnd kernel process root :=
  ⟨countEnds_iff hroot, fun _ _ => ⟨_, processInjectLoop_ends hsound⟩⟩

theorem walksEnd_idle : WalksEnd (idleKernel bootBytes unmountedVolume) 0 0x1000 :=
  walksEnd (idleKernel_sound unmountedVolume) 0 (by decide)

def selfLinked (address : Nat) : UInt8 := if address = 0x1201 then 0x10 else 0

/-- The loop that counts has no end on a list of one argument that is linked to itself. -/
theorem not_countEnds : ¬∀ kernel : Kernel, HeapSound kernel.heap → ∀ root < addressSpace,
    CountEnds (kernel.memory kernel.pages) root := by
  intro hall
  have hends := hall { idleKernel bootBytes unmountedVolume with memory := fun _ => selfLinked }
    (idleKernel_sound unmountedVolume) 0x1000 (by decide)
  apply (countEnds_iff (by decide)).mp hends
  exact ⟨0, 1, Nat.one_pos, by decide, by decide⟩

end Kernel

end SlobOS
