import SlobOS.Proof.Bystanders

/-!
# Loading a program beside the others

A load builds the space of the new process out of blocks that were free, as long as it does not use up
the heap to its last block. Whether it succeeds or fails, the blocks in use are left as they are.
-/

namespace SlobOS

open Tilings

namespace Kernel

open Faulting

variable {kernel middle after acquired mapped : Kernel} {block ptr size process task slot : Nat}
  {filename : List UInt8} {res : Int}

theorem Acquires.guarded (h : Acquires filename slot kernel process acquired)
    (hblock : Holds kernel.heap block) : Spares block kernel.heap acquired.heap ∧
      ProcessGuarded acquired block process ∧ Guards acquired.heap block process := by
  have hempty := h.empty
  cases h with
  | @intro first second third fourth res stack task hprocess hne hdata hres hstack hstackNe htask =>
      obtain ⟨hspares, hself⟩ := kzalloc_spares hprocess hblock
      obtain ⟨hspares', hguards⟩ := processLoadData_spares hdata hspares.holds
      obtain ⟨hspares'', hguards'⟩ := kzalloc_spares hstack hspares'.holds
      obtain ⟨hlast, hguards''⟩ := taskNew_spares htask hspares''.holds
      have hkept := acquired_program hstack htask
      have hall := hspares.trans (hspares'.trans (hspares''.trans hlast))
      refine ⟨hall, ⟨fun i => ?_, ?_, ?_, ?_⟩,
        hlast.guards _ (hspares''.guards _ (hspares'.guards _ hself))⟩
      · rw [hempty i]
        exact hlast.holds.guards_null
      · exact (hguards hres).spares (hspares''.trans hlast) hkept.filetype hkept.data hkept.elfFiles
      · have hstackPtr : ((setTask process task fourth).processMemory process).stack = stack := by
          simp only [setTask, setProcess, (taskNew_frame htask).1, setStack, setProcessMemory, if_true]
        rw [hstackPtr]
        exact hlast.guards _ hguards'
      · have htaskPtr : ((setTask process task fourth).sched.procs process).task = task := by
          simp only [setTask, setProcess, if_true]
        rw [htaskPtr]
        exact ⟨hguards''.self, hguards''.chunk.self, hguards''.chunk.directory,
          hguards''.chunk.tables⟩

theorem loadsData_leavesBlock {first : Kernel} (hprocess : Ends (kzalloc processSize) kernel process first)
    (hdata : Ends (processLoadData filename process) (processInit process first) res after)
    (hblock : Holds kernel.heap block) (hwithin : ReadsWithin kernel.volume) :
    LeavesBlock block kernel after := by
  have hown := kzalloc_ne hprocess hblock
  have hfirst := kzalloc_leavesBlock hprocess hblock
  have hinit : LeavesBlock block first (processInit process first) :=
    SameAt.leavesBlock (Frame.trans (sameAt_setProcessMemory hown _ _)
      (sameAt_setProcess hown _ _)) hfirst.spares.holds rfl rfl
  have hsame : SameMachine kernel (processInit process first) :=
    ⟨(kzalloc_sameMachine hprocess).volume, (kzalloc_sameMachine hprocess).total⟩
  exact hfirst.trans <| hinit.trans <|
    processLoadData_leavesBlock hdata hinit.spares.holds (hwithin.congr hsame) hown

theorem Acquires.leavesBlock (h : Acquires filename slot kernel process acquired)
    (hblock : Holds kernel.heap block) (hwithin : ReadsWithin kernel.volume) :
    LeavesBlock block kernel acquired := by
  cases h with
  | @intro first second third fourth res stack task hprocess hne hdata hres hstack hstackNe htask =>
      have hown := kzalloc_ne hprocess hblock
      have hloaded := loadsData_leavesBlock hprocess hdata hblock hwithin
      have hthird := kzalloc_leavesBlock hstack hloaded.spares.holds
      have hset : LeavesBlock block third (setStack process slot stack third) :=
        SameAt.leavesBlock (Frame.trans (sameAt_setProcessMemory hown _ _)
          (sameAt_setProcess hown _ _)) hthird.spares.holds rfl rfl
      have hfourth := taskNew_leavesBlock htask hset.spares.holds
      exact hloaded.trans <| hthird.trans <| hset.trans <|
        hfourth.trans (SameAt.leavesBlock (sameAt_setProcess hown _ _) hfourth.spares.holds rfl rfl)

theorem AcquireOutcome.leavesBlock {result : Except Int Nat}
    (h : AcquireOutcome filename slot kernel result after) (hblock : Holds kernel.heap block)
    (hwithin : ReadsWithin kernel.volume) : LeavesBlock block kernel after := by
  cases h with
  | noProcess hprocess => exact kzalloc_leavesBlock hprocess hblock
  | noData hprocess _ hdata _ => exact loadsData_leavesBlock hprocess hdata hblock hwithin
  | noStack hprocess _ hdata _ hstack =>
      have hloaded := loadsData_leavesBlock hprocess hdata hblock hwithin
      exact hloaded.trans (kzalloc_leavesBlock hstack hloaded.spares.holds)
  | acquired hacquires => exact hacquires.leavesBlock hblock hwithin

theorem Acquires.mapped_leavesBlock (h : Acquires filename slot kernel process acquired)
    (hmap : Ends (processMapMemory process) acquired res mapped)
    (hblock : Holds kernel.heap block) (hwithin : ReadsWithin kernel.volume) :
    LeavesBlock block kernel mapped := by
  have hacquired := h.leavesBlock hblock hwithin
  obtain ⟨pages, hpages, -⟩ := processMapMemory_pages hmap
  have hsame : SameAt (slobosHeapAddress + block * slobosHeapBlockSize) acquired mapped :=
    processMapMemory_sameAt hmap fun i hi =>
      ((h.guarded hblock).2.1.task.chunk.tables i hi).ne hacquired.spares.holds
  exact hacquired.trans (hsame.leavesBlock hacquired.spares.holds (by rw [hpages]; rfl)
    (by rw [hpages]; rfl))

theorem LoadEnds.leavesBlock (h : LoadEnds filename slot kernel res process after)
    (hblock : Holds kernel.heap block) (hwithin : ReadsWithin kernel.volume) :
    LeavesBlock block kernel after := by
  cases h with
  | refused houtcome => exact houtcome.leavesBlock hblock hwithin
  | unmapped hacquires hmap _ hfree =>
      have hmapped := hacquires.mapped_leavesBlock hmap hblock hwithin
      obtain ⟨pages, rfl, hdirectories⟩ := processMapMemory_pages hmap
      have hguarded := (hacquires.guarded hblock).2.1.setPages hdirectories
      exact hmapped.trans (taskFree_leavesBlock hfree hmapped.spares.holds hguarded.task)
  | loaded hacquires hmap _ =>
      have hmapped := hacquires.mapped_leavesBlock hmap hblock hwithin
      exact hmapped.trans (SameAt.leavesBlock ⟨rfl, rfl, rfl, rfl, rfl, rfl, rfl⟩
        hmapped.spares.holds rfl rfl)

end Kernel

end SlobOS
