import SlobOS.Proof.InterruptRoutines
import SlobOS.Lib.Runs

/-!
# Interrupts of a program in user mode

A program is resumed where it was interrupted exactly when the processor pushed no error code: the
routines have no place for one. A system call changes its result register only. The divide error is the
exception: its gate leads to a function in C, which returns to the program with the privileges of the
kernel.
-/

namespace SlobOS

open X86

section Returning

variable {flags : BitVec 32 → BitVec 32 → BitVec 32} {m : Machine} {stack : Machine.InnerStack}
  {gate : Gate} {errorCode : Option (BitVec 32)} {argument returnAddress : BitVec 32}
  {run : Machine → Machine}

theorem InUserMode.outer (huser : InUserMode m) : Machine.level (m.seg .cs) ≠ 0 := by
  rw [huser.level]
  decide

theorem handler_frame
    (hreturns : Returns run (calledMachine m stack gate errorCode argument returnAddress))
    (hkeeps : KeepsFrame run (calledMachine m stack gate errorCode argument returnAddress)) :
    (run (calledMachine m stack gate errorCode argument returnAddress)).reg .esp =
        frameAddress stack errorCode - 8 ∧
      frameAt (run (calledMachine m stack gate errorCode argument returnAddress)).mem
          (frameAddress stack errorCode) =
        frameAt (calledMachine m stack gate errorCode argument returnAddress).mem
          (frameAddress stack errorCode) := by
  have hcalls := @calledMachine_calls m stack gate errorCode argument returnAddress
  have haddress : (calledMachine m stack gate errorCode argument returnAddress).reg .esp + 12 =
      frameAddress stack errorCode := by
    rw [hcalls.esp]
    bv_omega
  constructor
  · rw [hreturns.esp, hcalls.esp]
    bv_omega
  · rw [KeepsFrame, haddress] at hkeeps
    exact frameAt_congr hkeeps

theorem resumes_of_left {m' : Machine} {reserved : BitVec 32}
    (hregisters : HasRegisters m' (interruptedFrame m reserved))
    (hleft : Left m' (interruptedFrame m reserved))
    (houter : Machine.level (m.seg .cs) ≠ 0) : Resumes m m' := by
  have hcs : (interruptedFrame m reserved).cs.setWidth 16 = m.seg .cs := by simp [interruptedFrame]
  have hss : (interruptedFrame m reserved).ss.setWidth 16 = m.seg .ss := by simp [interruptedFrame]
  obtain ⟨hesp, hss'⟩ := hleft.outer (hcs ▸ houter)
  obtain ⟨heax, hebx, hecx, hedx, hesi, hedi, hebp⟩ := hregisters
  refine ⟨?_, hleft.eip, hleft.eflags, hleft.cs.trans hcs, hss'.trans hss⟩
  funext r
  cases r <;> assumption

theorem exec_interruptRoutine (number : BitVec 32) (houter : Machine.level (m.seg .cs) ≠ 0) :
    (m.enter stack gate errorCode).stubExec flags (interruptRoutine number returnAddress run) =
      (run (calledMachine m stack gate errorCode number returnAddress)).stubExec flags
        [.plain (.addValue .esp 8), .popad, .plain .iretd] := by
  have hsplit : interruptRoutine number returnAddress run =
      [.pushad, .plain (.push .esp), .pushValue number, .plain (.call returnAddress)] ++
        [.body run] ++ [.plain (.addValue .esp 8), .popad, .plain .iretd] := rfl
  rw [hsplit, Machine.stubExec_append, Machine.stubExec_append, interruptRoutine_call flags _ _ houter]
  rfl

def userRegisters (m : Machine) : Registers where
  edi := m.reg .edi
  esi := m.reg .esi
  ebp := m.reg .ebp
  ebx := m.reg .ebx
  edx := m.reg .edx
  ecx := m.reg .ecx
  eax := m.reg .eax
  ip := m.eip
  cs := (m.seg .cs).setWidth 32
  flags := m.eflags
  esp := m.reg .esp
  ss := (m.seg .ss).setWidth 32

/-- What the handler saves are the registers of the program exactly when there is no error code. -/
theorem taskSaveState_userRegisters_iff (huser : InUserMode m) (task : Task) :
    (taskSaveState task (frameAt (calledMachine m stack gate errorCode argument returnAddress).mem
      (frameAddress stack errorCode))).registers = userRegisters m ↔ errorCode = none := by
  constructor
  · intro hsaved
    rcases errorCode with - | code
    · rfl
    · rw [calledMachine_frame_errorCode] at hsaved
      simp only [taskSaveState, interruptedFrame, userRegisters, Registers.mk.injEq] at hsaved
      obtain ⟨-, -, -, -, -, -, -, -, -, hflags, hesp, hss⟩ := hsaved
      have hsame : (m.seg .cs).setWidth 32 = (m.seg .ss).setWidth 32 :=
        hflags.trans (hesp.trans hss)
      have hback := congrArg (BitVec.setWidth 16) hsame
      simp only [BitVec.setWidth_setWidth_of_le _ (show 16 ≤ 32 by decide), BitVec.setWidth_eq] at hback
      exact absurd hback huser.segments
  · rintro rfl
    rw [calledMachine_frame]
    rfl

theorem interruptRoutine_resumes_iff (huser : InUserMode m) (number : BitVec 32)
    (hreturns : Returns run (calledMachine m stack gate errorCode number returnAddress))
    (hkeeps : KeepsFrame run (calledMachine m stack gate errorCode number returnAddress)) :
    Resumes m ((m.enter stack gate errorCode).stubExec flags
      (interruptRoutine number returnAddress run)) ↔ errorCode = none := by
  obtain ⟨hesp, hframe⟩ := handler_frame hreturns hkeeps
  obtain ⟨hregisters, hleft⟩ := popFrame_spec flags hesp
  rw [exec_interruptRoutine _ huser.outer]
  rw [hframe] at hregisters hleft
  constructor
  · intro hresumes
    rcases errorCode with - | code
    · rfl
    · rw [calledMachine_frame_errorCode] at hleft
      -- The selector that is popped is the instruction pointer, and so on up to the stack's.
      have hcs := hleft.cs.symm.trans hresumes.cs
      obtain ⟨hesp', hss⟩ := hleft.outer (hcs ▸ huser.outer)
      have hflags := hleft.eflags.symm.trans hresumes.eflags
      have hpointer := (congrFun hresumes.reg .esp).symm.trans hesp'
      have hstack := hresumes.ss.symm.trans hss
      simp only at hflags hpointer hstack
      rw [hpointer, ← hflags, BitVec.setWidth_setWidth_of_le _ (show 16 ≤ 32 by decide),
        BitVec.setWidth_eq] at hstack
      exact absurd hstack.symm huser.segments
  · rintro rfl
    rw [calledMachine_frame] at hregisters hleft
    exact resumes_of_left hregisters hleft huser.outer

/-- The routines serve interrupts without an error code, and no others: only then is the context of the
program what is saved, and only then is it what is returned to. -/
theorem interruptRoutine_context_iff (huser : InUserMode m) (task : Task)
    (hreturns : Returns run (calledMachine m stack gate errorCode argument returnAddress))
    (hkeeps : KeepsFrame run (calledMachine m stack gate errorCode argument returnAddress)) :
    ((taskSaveState task (frameAt (calledMachine m stack gate errorCode argument returnAddress).mem
        (frameAddress stack errorCode))).registers = userRegisters m ↔ errorCode = none) ∧
      (Resumes m ((m.enter stack gate errorCode).stubExec flags
        (interruptRoutine argument returnAddress run)) ↔ errorCode = none) :=
  ⟨taskSaveState_userRegisters_iff huser task,
    interruptRoutine_resumes_iff huser argument hreturns hkeeps⟩

def startedMachine : Machine where
  reg := fun r => if r = .esp then 0x3FF000 else 0
  seg := fun s => if s = .cs then 0x1b else 0x23
  eip := 0x400000
  eflags := 0x202
  mem := fun _ => 0

def kernelStack : Machine.InnerStack where
  esp := 0x600000
  ss := 0x10

def returnToUser (m : Machine) : Machine :=
  { m.drop with
    eip := m.top
    seg := fun s => if s = .cs ∨ s = .ss then m.seg s else 0x23 }

theorem startedMachine_mode : InUserMode startedMachine :=
  ⟨by decide, by decide⟩

theorem returnToUser_returns (m : Machine) : Returns returnToUser m :=
  ⟨rfl, rfl, rfl⟩

theorem returnToUser_keeps (m : Machine) : KeepsFrame returnToUser m :=
  fun _ _ => rfl

theorem interruptRoutine_context_pageFault : ¬Resumes startedMachine
    ((startedMachine.enter kernelStack (userGate 0x100000) (some 4)).stubExec (fun old _ => old)
      (interruptRoutine 14 0x100010 returnToUser)) := fun hresumes =>
  absurd ((interruptRoutine_context_iff startedMachine_mode (taskInit 0 0 0)
    (returnToUser_returns _) (returnToUser_keeps _)).2.mp hresumes) (by decide)

theorem exec_isr80hWrapper (tmpRes : BitVec 32) (houter : Machine.level (m.seg .cs) ≠ 0) :
    (m.enter stack gate errorCode).stubExec flags (isr80hWrapper tmpRes returnAddress run) =
      (run (calledMachine m stack gate errorCode (m.reg .eax) returnAddress)).stubExec flags
        [.storeAt tmpRes .eax, .plain (.addValue .esp 8), .popad, .loadAt .eax tmpRes,
          .plain .iretd] := by
  have hsplit : isr80hWrapper tmpRes returnAddress run =
      [.pushad, .plain (.push .esp), .plain (.push .eax), .plain (.call returnAddress)] ++
        [.body run] ++ [.storeAt tmpRes .eax, .plain (.addValue .esp 8), .popad,
          .loadAt .eax tmpRes, .plain .iretd] := rfl
  rw [hsplit, Machine.stubExec_append, Machine.stubExec_append, isr80hWrapper_call flags _ houter]
  rfl

theorem popFetch_spec (tmpRes : BitVec 32) :
    HasRegisters (m.stubExec flags [.popad, .loadAt .eax tmpRes, .plain .iretd])
        { frameAt m.mem (m.reg .esp) with eax := load32 m.mem tmpRes } ∧
      Left (m.stubExec flags [.popad, .loadAt .eax tmpRes, .plain .iretd])
        (frameAt m.mem (m.reg .esp)) := by
  let fetched := m.popad.setReg .eax (load32 m.mem tmpRes)
  have hregisters : HasRegisters fetched
      { frameAt m.mem (m.reg .esp) with eax := load32 m.mem tmpRes } := by
    obtain ⟨-, hebx, hecx, hedx, hesi, hedi, hebp⟩ := popad_registers m
    exact ⟨by simp [fetched], by simpa [fetched], by simpa [fetched], by simpa [fetched],
      by simpa [fetched], by simpa [fetched], by simpa [fetched]⟩
  have hesp : fetched.reg .esp = m.reg .esp + 32 := by simp [fetched, popad_esp]
  exact ⟨interruptReturn_registers hregisters, interruptReturn_left hesp⟩

theorem popResult_spec {address tmpRes : BitVec 32} (hesp : m.reg .esp = address - 8)
    (hapart : Disjoint tmpRes 4 address 52) :
    HasRegisters (m.stubExec flags [.storeAt tmpRes .eax, .plain (.addValue .esp 8), .popad,
        .loadAt .eax tmpRes, .plain .iretd]) { frameAt m.mem address with eax := m.reg .eax } ∧
      Left (m.stubExec flags [.storeAt tmpRes .eax, .plain (.addValue .esp 8), .popad,
        .loadAt .eax tmpRes, .plain .iretd]) (frameAt m.mem address) := by
  let top := m.stubExec flags [.storeAt tmpRes .eax, .plain (.addValue .esp 8)]
  have htop : top.reg .esp = address := by simp [top, Machine.stubExec, Machine.stubStep, hesp]
  have hmem : top.mem = store32 m.mem tmpRes (m.reg .eax) := by
    simp [top, Machine.stubExec, Machine.stubStep]
  have hframe : frameAt top.mem address = frameAt m.mem address := by
    rw [hmem]
    refine frameAt_congr fun i hi => store32_of_ne fun j hj => ?_
    exact (hapart j hj i hi).symm
  have hspec := @popFetch_spec flags top tmpRes
  rw [htop, hframe, hmem, load32_store32_self] at hspec
  have hsplit : m.stubExec flags [.storeAt tmpRes .eax, .plain (.addValue .esp 8), .popad,
      .loadAt .eax tmpRes, .plain .iretd] =
      top.stubExec flags [.popad, .loadAt .eax tmpRes, .plain .iretd] := rfl
  rw [hsplit]
  exact hspec

theorem isr80hWrapper_resumes {tmpRes : BitVec 32} (huser : InUserMode m)
    (hreturns : Returns run (calledMachine m stack gate none (m.reg .eax) returnAddress))
    (hkeeps : KeepsFrame run (calledMachine m stack gate none (m.reg .eax) returnAddress))
    (hapart : Disjoint tmpRes 4 (frameAddress stack none) 52) :
    Resumes (m.setReg .eax
        ((run (calledMachine m stack gate none (m.reg .eax) returnAddress)).reg .eax))
      ((m.enter stack gate none).stubExec flags (isr80hWrapper tmpRes returnAddress run)) := by
  obtain ⟨hesp, hframe⟩ := handler_frame hreturns hkeeps
  obtain ⟨hregisters, hleft⟩ := @popResult_spec flags _ _ _ hesp hapart
  rw [exec_isr80hWrapper _ huser.outer]
  rw [hframe, calledMachine_frame] at hregisters hleft
  have hleft' := hleft.outer (by simpa [interruptedFrame] using huser.outer)
  have hresult : HasRegisters _ (interruptedFrame (m.setReg .eax _) 0) :=
    ⟨hregisters.eax, hregisters.ebx, hregisters.ecx, hregisters.edx, hregisters.esi,
      hregisters.edi, hregisters.ebp⟩
  exact resumes_of_left hresult ⟨hleft.eip, hleft.cs, hleft.eflags, fun _ => hleft'⟩ huser.outer

end Returning

/-! ### The level that a program returns to -/

section Levels

variable {flags : BitVec 32 → BitVec 32 → BitVec 32} {m : Machine} {stack : Machine.InnerStack}
  {gate : Gate} {handlers : InterruptHandlers} {tmpRes : BitVec 32} {back : Nat → BitVec 32}
  {vector : Nat}

theorem routineOf_resumes (huser : InUserMode m) (hzero : vector ≠ 0) (hsystem : vector ≠ 0x80)
    (hback : ComesBack handlers tmpRes back stack gate m vector) :
    Resumes m ((m.enter stack gate none).stubExec flags
      (routineOf handlers tmpRes back vector)) := by
  rw [ComesBack, if_neg hsystem, if_neg hzero] at hback
  rw [routineOf, if_neg hsystem, if_neg hzero]
  exact (interruptRoutine_resumes_iff huser _ hback.1 hback.2).mpr rfl

theorem idtZero_returns (huser : InUserMode m)
    (hback : ComesBack handlers tmpRes back stack gate m 0) :
    ((m.enter stack gate none).stubExec flags (routineOf handlers tmpRes back 0)).eip = m.eip ∧
      ((m.enter stack gate none).stubExec flags (routineOf handlers tmpRes back 0)).seg .cs =
        gate.selector := by
  have hreturns : Returns handlers.idtZero (m.enter stack gate none) := by
    simpa [ComesBack] using hback
  have hexec : (m.enter stack gate none).stubExec flags (routineOf handlers tmpRes back 0) =
      handlers.idtZero (m.enter stack gate none) := rfl
  have hentered := @enter_eq m stack gate none huser.outer
  have htop : (m.enter stack gate none).top = m.eip := by
    have hword := (innerMachine m stack).load32_pushWords (processorWords m none) (i := 0)
      (by rw [length_processorWords]; decide) (by rw [length_processorWords]; decide)
    rw [hentered]
    simpa [processorWords, Machine.returnWords] using hword
  rw [hexec, hreturns.eip, hreturns.cs, htop, hentered]
  exact ⟨rfl, rfl⟩

variable (idt : Idt) (addresses : IdtAddresses)

theorem userGate_usable (routine : BitVec 32) (m : Machine)
    (hlevel : Machine.level (m.seg .cs) = 3) :
    m.softwareInterrupt stack (userGate routine) = some (m.enter stack (userGate routine) none) := by
  have hpresent : (userGate routine).Present := (by decide : (0xEE#8 &&& 0x80) = 0x80)
  have hgate : 3 ≤ (userGate routine).level :=
    (by decide : 3 ≤ (0xEE#8 >>> 5 &&& 3).setWidth 16)
  rw [Machine.softwareInterrupt, hlevel]
  exact if_pos ⟨hpresent, hgate⟩

/-- A program may use every vector. If the handler comes back, it goes on behind the instruction; it
is in user mode again unless the vector is that of the divide error, which makes it go on as part of
the kernel. -/
theorem softwareInterrupt_level_iff (huser : InUserMode m) (hvector : vector < 256) :
    ∃ entered, m.softwareInterrupt stack
        (Gate.ofBytes ((idtInit addresses idt).descriptors vector).bytes) = some entered ∧
      (ComesBack handlers tmpRes back stack (userGate (addresses.routine vector)) m vector →
        (entered.stubExec flags (routineOf handlers tmpRes back vector)).eip = m.eip ∧
        (Machine.level
            ((entered.stubExec flags (routineOf handlers tmpRes back vector)).seg .cs) = 3 ↔
          vector ≠ 0) ∧
        (Machine.level
            ((entered.stubExec flags (routineOf handlers tmpRes back vector)).seg .cs) = 0 ↔
          vector = 0) ∧
        (vector = 0 →
          (entered.stubExec flags (routineOf handlers tmpRes back vector)).seg .cs =
            kernelCodeSelector)) := by
  rw [idtInit_gate _ _ (Nat.lt_trans hvector (by decide)), userGate_usable _ _ huser.level]
  refine ⟨_, rfl, fun hback => ?_⟩
  by_cases hzero : vector = 0
  · subst hzero
    obtain ⟨heip, hcs⟩ := @idtZero_returns flags _ _ _ _ _ _ huser hback
    have hkernel : Machine.level (userGate (addresses.routine 0)).selector = 0 :=
      (by decide : Machine.level kernelCodeSelector = 0)
    rw [heip, hcs, hkernel]
    exact ⟨rfl, by decide, by decide, fun _ => rfl⟩
  have hresumed : ∃ word, Resumes (m.setReg .eax word)
      ((m.enter stack (userGate (addresses.routine vector)) none).stubExec flags
        (routineOf handlers tmpRes back vector)) := by
    by_cases hsystem : vector = 0x80
    · subst hsystem
      obtain ⟨hreturns, hkeeps, hapart⟩ :
          Returns handlers.isr80hHandler _ ∧ KeepsFrame handlers.isr80hHandler _ ∧ _ := hback
      exact ⟨_, isr80hWrapper_resumes huser hreturns hkeeps hapart⟩
    · refine ⟨m.reg .eax, ?_⟩
      have hsame : m.setReg .eax (m.reg .eax) = m := by
        simp only [Machine.setReg]
        congr 1
        funext r
        split <;> simp_all
      rw [hsame]
      exact routineOf_resumes huser hzero hsystem hback
  obtain ⟨word, hresumes⟩ := hresumed
  have hcs : Machine.level _ = 3 := (congrArg Machine.level hresumes.cs).trans huser.level
  rw [hcs]
  exact ⟨hresumes.eip, by simp [hzero], by simp [hzero], fun h => absurd h hzero⟩

def idleHandlers : InterruptHandlers where
  interruptHandler := returnToUser
  isr80hHandler := returnToUser
  idtZero := returnToUser

theorem softwareInterrupt_level_zero : ∃ entered, startedMachine.softwareInterrupt kernelStack
      (Gate.ofBytes ((idtInit kernelAddresses blankIdt).descriptors
        0).bytes) = some entered ∧
    (entered.stubExec (fun old _ => old) (routineOf idleHandlers 0x120000 (fun _ => 0x100020)
      0)).eip = 0x400000 ∧
    Machine.level ((entered.stubExec (fun old _ => old)
      (routineOf idleHandlers 0x120000 (fun _ => 0x100020) 0)).seg .cs) = 0 := by
  have hback : ComesBack idleHandlers 0x120000 (fun _ => 0x100020) kernelStack
      (userGate (kernelAddresses.routine 0)) startedMachine 0 := returnToUser_returns _
  obtain ⟨entered, hentered, hgoes⟩ := softwareInterrupt_level_iff
    blankIdt kernelAddresses startedMachine_mode (show 0 < 256 by decide)
  obtain ⟨heip, -, hlevel, -⟩ := hgoes hback
  exact ⟨entered, hentered, heip, hlevel.mpr rfl⟩

end Levels

end SlobOS
