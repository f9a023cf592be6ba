import SlobOS.InterruptRoutines

/-!
# The stack of an interrupt routine

Everything that the processor and the routine push is one list of words, which the frame and the
arguments of the handler are read off from. On the way back the frame is all that matters.
-/

namespace SlobOS

open X86

theorem frameAt_congr {mem mem' : X86.Memory} {address : BitVec 32}
    (hsame : ∀ i < 52, mem' (address + BitVec.ofNat 32 i) = mem (address + BitVec.ofNat 32 i)) :
    frameAt mem' address = frameAt mem address := by
  have hword (j : Nat) (hj : j + 4 ≤ 52) : load32 mem' (address + BitVec.ofNat 32 j) =
      load32 mem (address + BitVec.ofNat 32 j) := by
    refine load32_congr fun i hi => ?_
    rw [BitVec.add_assoc, ← BitVec.ofNat_add]
    exact hsame (j + i) (by omega)
  have hfirst : load32 mem' address = load32 mem address := by
    simpa using hword 0 (by decide)
  simp only [frameAt, InterruptFrame.mk.injEq]
  exact ⟨hfirst, hword 4 (by decide), hword 8 (by decide), hword 12 (by decide),
    hword 16 (by decide), hword 20 (by decide), hword 24 (by decide), hword 28 (by decide),
    hword 32 (by decide), hword 36 (by decide), hword 40 (by decide), hword 44 (by decide),
    hword 48 (by decide)⟩

/-- The general registers of the frame, but for the stack pointer. -/
structure HasRegisters (m : Machine) (frame : InterruptFrame) : Prop where
  eax : m.reg .eax = frame.eax
  ebx : m.reg .ebx = frame.ebx
  ecx : m.reg .ecx = frame.ecx
  edx : m.reg .edx = frame.edx
  esi : m.reg .esi = frame.esi
  edi : m.reg .edi = frame.edi
  ebp : m.reg .ebp = frame.ebp

theorem popad_registers (m : Machine) : HasRegisters m.popad (frameAt m.mem (m.reg .esp)) := by
  constructor <;> simp [Machine.popad, frameAt]

theorem popad_esp (m : Machine) : m.popad.reg .esp = m.reg .esp + 32 := rfl

/-- What the interrupt return makes of a frame whose general registers have been popped. -/
structure Left (m : Machine) (frame : InterruptFrame) : Prop where
  eip : m.eip = frame.ip
  cs : m.seg .cs = frame.cs.setWidth 16
  eflags : m.eflags = frame.flags
  outer : Machine.level (frame.cs.setWidth 16) ≠ 0 →
    m.reg .esp = frame.esp ∧ m.seg .ss = frame.ss.setWidth 16

theorem interruptReturn_left {m : Machine} {address : BitVec 32} (hesp : m.reg .esp = address + 32) :
    Left m.interruptReturn (frameAt m.mem address) := by
  by_cases hlevel : Machine.level ((load32 m.mem (address + 36)).setWidth 16) = 0
  · constructor
    case outer => exact fun houter => absurd hlevel houter
    all_goals
      simp only [BitVec.ofNat_eq_ofNat] at hesp hlevel
      simp [Machine.interruptReturn, frameAt, hesp, BitVec.add_assoc, hlevel]
  · simp only [BitVec.ofNat_eq_ofNat] at hesp hlevel
    constructor <;> simp [Machine.interruptReturn, frameAt, hesp, BitVec.add_assoc, hlevel]

theorem interruptReturn_registers {m : Machine} {frame : InterruptFrame}
    (hregisters : HasRegisters m frame) : HasRegisters m.interruptReturn frame := by
  obtain ⟨heax, hebx, hecx, hedx, hesi, hedi, hebp⟩ := hregisters
  constructor <;> simp only [Machine.interruptReturn] <;> split <;> simpa

theorem popFrame_spec (flags : BitVec 32 → BitVec 32 → BitVec 32) {m : Machine} {address : BitVec 32}
    (hesp : m.reg .esp = address - 8) :
    HasRegisters (m.stubExec flags [.plain (.addValue .esp 8), .popad, .plain .iretd])
        (frameAt m.mem address) ∧
      Left (m.stubExec flags [.plain (.addValue .esp 8), .popad, .plain .iretd])
        (frameAt m.mem address) := by
  let top := m.stubStep flags (.plain (.addValue .esp 8))
  have htop : top.reg .esp = address := by
    simp [top, Machine.stubStep, hesp]
  have hregisters := popad_registers top
  rw [htop] at hregisters
  have hpopped : top.popad.reg .esp = address + 32 := by rw [popad_esp, htop]
  exact ⟨interruptReturn_registers hregisters, interruptReturn_left hpopped⟩

section Entry

variable {m : Machine} {stack : Machine.InnerStack} {gate : Gate} {errorCode : Option (BitVec 32)}

theorem enter_eq (houter : Machine.level (m.seg .cs) ≠ 0) :
    m.enter stack gate errorCode =
      { (innerMachine m stack).pushWords (processorWords m errorCode) with
        seg := fun s => if s = .cs then gate.selector else (innerMachine m stack).seg s
        eip := gate.offset
        eflags := m.eflags &&& ~~~Machine.gateFlags } := by
  have hseg := (Machine.pushWords_rest (innerMachine m stack) (processorWords m errorCode)).1
  rw [Machine.enter, if_neg houter, ← Machine.pushWords_append, ← hseg]
  rfl

theorem innerMachine_reg {r : Reg} (hr : r ≠ .esp) : (innerMachine m stack).reg r = m.reg r := by
  simp [innerMachine, hr]

theorem innerMachine_esp : (innerMachine m stack).reg .esp = stack.esp := by
  simp [innerMachine]

theorem length_processorWords :
    (processorWords m errorCode).length = 5 + errorCode.toList.length := by
  simp only [processorWords, Machine.returnWords, List.length_append, List.length_cons,
    List.length_nil]
  omega

theorem enter_pushad (houter : Machine.level (m.seg .cs) ≠ 0) :
    (m.enter stack gate errorCode).pushad =
      { (innerMachine m stack).pushWords
          (frameWords m errorCode (frameAddress stack errorCode + 32)) with
        seg := fun s => if s = .cs then gate.selector else (innerMachine m stack).seg s
        eip := gate.offset
        eflags := m.eflags &&& ~~~Machine.gateFlags } := by
  have hesp : ((innerMachine m stack).pushWords (processorWords m errorCode)).reg .esp =
      frameAddress stack errorCode + 32 := by
    rw [Machine.pushWords_esp, innerMachine_esp, length_processorWords, frameAddress]
    simp only [Nat.mul_add, BitVec.ofNat_add]
    bv_omega
  have hreg (r : Reg) (hr : r ≠ .esp) :
      ((innerMachine m stack).pushWords (processorWords m errorCode)).reg r = m.reg r := by
    rw [Machine.pushWords_reg _ _ hr, innerMachine_reg hr]
  rw [enter_eq houter, Machine.pushad, Machine.pushWords_context, frameWords,
    Machine.pushWords_append, hesp, hreg .eax (by decide), hreg .ecx (by decide),
    hreg .edx (by decide), hreg .ebx (by decide), hreg .ebp (by decide), hreg .esi (by decide),
    hreg .edi (by decide)]

theorem length_frameWords {reserved : BitVec 32} :
    (frameWords m errorCode reserved).length = 13 + errorCode.toList.length := by
  rw [frameWords, List.length_append, length_processorWords]
  simp only [List.length_cons, List.length_nil]
  omega

theorem frameWords_esp {reserved : BitVec 32} :
    ((innerMachine m stack).pushWords (frameWords m errorCode reserved)).reg .esp =
      frameAddress stack errorCode := by
  rw [Machine.pushWords_esp, innerMachine_esp, length_frameWords, frameAddress]
  simp only [Nat.mul_add, Nat.reduceMul]

theorem interruptRoutine_call (flags : BitVec 32 → BitVec 32 → BitVec 32)
    (number returnAddress : BitVec 32) (houter : Machine.level (m.seg .cs) ≠ 0) :
    (m.enter stack gate errorCode).stubExec flags
        [.pushad, .plain (.push .esp), .pushValue number, .plain (.call returnAddress)] =
      calledMachine m stack gate errorCode number returnAddress := by
  have hpushes (m : Machine) : m.stubExec flags
      [.pushad, .plain (.push .esp), .pushValue number, .plain (.call returnAddress)] =
      m.pushad.pushWords [m.pushad.reg .esp, number, returnAddress] := rfl
  rw [hpushes, enter_pushad houter, Machine.pushWords_context, frameWords_esp,
    ← Machine.pushWords_append]
  rfl

theorem isr80hWrapper_call (flags : BitVec 32 → BitVec 32 → BitVec 32) (returnAddress : BitVec 32)
    (houter : Machine.level (m.seg .cs) ≠ 0) :
    (m.enter stack gate errorCode).stubExec flags
        [.pushad, .plain (.push .esp), .plain (.push .eax), .plain (.call returnAddress)] =
      calledMachine m stack gate errorCode (m.reg .eax) returnAddress := by
  have hpushes (m : Machine) : m.stubExec flags
      [.pushad, .plain (.push .esp), .plain (.push .eax), .plain (.call returnAddress)] =
      m.pushad.pushWords [m.pushad.reg .esp, m.pushad.reg .eax, returnAddress] := rfl
  have heax : ((innerMachine m stack).pushWords
      (frameWords m errorCode (frameAddress stack errorCode + 32))).reg .eax = m.reg .eax := by
    rw [Machine.pushWords_reg _ _ (by decide), innerMachine_reg (by decide)]
  rw [hpushes, enter_pushad houter, Machine.pushWords_context, frameWords_esp, heax,
    ← Machine.pushWords_append]
  rfl

/-- What the handler finds: its arguments above the return address, and the frame above them. -/
structure Calls (m : Machine) (returnAddress argument address : BitVec 32) : Prop where
  back : m.top = returnAddress
  argument : load32 m.mem (m.reg .esp + 4) = argument
  pointer : load32 m.mem (m.reg .esp + 8) = address
  esp : m.reg .esp = address - 12

theorem calledMachine_calls (argument returnAddress : BitVec 32) :
    Calls (calledMachine m stack gate errorCode argument returnAddress) returnAddress argument
      (frameAddress stack errorCode) := by
  have hcode : errorCode.toList.length ≤ 1 := by cases errorCode <;> simp
  have hlength : (frameWords m errorCode (frameAddress stack errorCode + 32) ++
      [frameAddress stack errorCode, argument, returnAddress]).length =
      16 + errorCode.toList.length := by
    rw [List.length_append, length_frameWords]
    simp only [List.length_cons, List.length_nil]
    omega
  have hword (i : Nat) (hi : i < 3) := (innerMachine m stack).load32_pushWords
    (frameWords m errorCode (frameAddress stack errorCode + 32) ++
      [frameAddress stack errorCode, argument, returnAddress]) (i := i) (by omega) (by omega)
  constructor
  case esp =>
      change ((innerMachine m stack).pushWords (_ ++ _)).reg .esp = _
      rw [Machine.pushWords_append, Machine.pushWords_esp, frameWords_esp]
      rfl
  case back => simpa [calledMachine] using hword 0 (by decide)
  case argument => simpa [calledMachine] using hword 1 (by decide)
  case pointer => simpa [calledMachine] using hword 2 (by decide)

theorem calledMachine_word (argument returnAddress : BitVec 32) {i : Nat}
    (hi : i < 13 + errorCode.toList.length) :
    load32 (calledMachine m stack gate errorCode argument returnAddress).mem
        (frameAddress stack errorCode + BitVec.ofNat 32 (4 * i)) =
      (frameWords m errorCode (frameAddress stack errorCode + 32)).reverse.get
        ⟨i, by rwa [List.length_reverse, length_frameWords]⟩ := by
  have hcode : errorCode.toList.length ≤ 1 := by cases errorCode <;> simp
  have hlength := @length_frameWords m errorCode (frameAddress stack errorCode + 32)
  have hword := (innerMachine m stack).load32_pushWords
    (frameWords m errorCode (frameAddress stack errorCode + 32) ++
      [frameAddress stack errorCode, argument, returnAddress]) (i := i + 3)
    (by simp only [List.length_append, hlength, List.length_cons, List.length_nil]; omega)
    (by simp only [List.length_append, hlength, List.length_cons, List.length_nil]; omega)
  have hesp := (@calledMachine_calls m stack gate errorCode argument returnAddress).esp
  have haddress : (calledMachine m stack gate errorCode argument returnAddress).reg .esp +
      BitVec.ofNat 32 (4 * (i + 3)) = frameAddress stack errorCode + BitVec.ofNat 32 (4 * i) := by
    rw [hesp, Nat.mul_add, BitVec.ofNat_add]
    bv_omega
  rw [← haddress]
  simpa [calledMachine] using hword

theorem calledMachine_frame (argument returnAddress : BitVec 32) :
    frameAt (calledMachine m stack gate none argument returnAddress).mem (frameAddress stack none) =
      interruptedFrame m (frameAddress stack none + 32) := by
  have hword {i : Nat} (hi : i < 13) :=
    @calledMachine_word m stack gate none argument returnAddress i hi
  have hfirst := hword (i := 0) (by decide)
  rw [Nat.mul_zero, BitVec.add_zero] at hfirst
  simp only [frameAt, interruptedFrame, InterruptFrame.mk.injEq]
  exact ⟨hfirst, hword (i := 1) (by decide), hword (i := 2) (by decide), hword (i := 3) (by decide),
    hword (i := 4) (by decide), hword (i := 5) (by decide), hword (i := 6) (by decide),
    hword (i := 7) (by decide), hword (i := 8) (by decide), hword (i := 9) (by decide),
    hword (i := 10) (by decide), hword (i := 11) (by decide), hword (i := 12) (by decide)⟩

/-- An error code takes the place of the instruction pointer and moves what is above it by a word. -/
theorem calledMachine_frame_errorCode (code argument returnAddress : BitVec 32) :
    frameAt (calledMachine m stack gate (some code) argument returnAddress).mem
        (frameAddress stack (some code)) =
      { interruptedFrame m (frameAddress stack (some code) + 32) with
        ip := code
        cs := m.eip
        flags := (m.seg .cs).setWidth 32
        esp := m.eflags
        ss := m.reg .esp } := by
  have hword {i : Nat} (hi : i < 14) :=
    @calledMachine_word m stack gate (some code) argument returnAddress i hi
  have hfirst := hword (i := 0) (by decide)
  rw [Nat.mul_zero, BitVec.add_zero] at hfirst
  simp only [frameAt, interruptedFrame, InterruptFrame.mk.injEq]
  exact ⟨hfirst, hword (i := 1) (by decide), hword (i := 2) (by decide), hword (i := 3) (by decide),
    hword (i := 4) (by decide), hword (i := 5) (by decide), hword (i := 6) (by decide),
    hword (i := 7) (by decide), hword (i := 8) (by decide), hword (i := 9) (by decide),
    hword (i := 10) (by decide), hword (i := 11) (by decide), hword (i := 12) (by decide)⟩

end Entry

end SlobOS
