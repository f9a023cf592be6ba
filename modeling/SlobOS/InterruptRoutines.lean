import SlobOS.Idt
import SlobOS.Task

/-!
# Interrupt routines

`idt/idt.asm`: the routines between the processor and the handlers in C. A handler is a parameter that
keeps to the calling convention.
-/

namespace SlobOS

open X86

def interruptRoutine (number returnAddress : BitVec 32) (interruptHandler : Machine → Machine) :
    List StubInstr :=
  [.pushad,
    .plain (.push .esp),
    .pushValue number,
    .plain (.call returnAddress),
    .body interruptHandler,
    .plain (.addValue .esp 8),
    .popad,
    .plain .iretd]

def isr80hWrapper (tmpRes returnAddress : BitVec 32) (isr80hHandler : Machine → Machine) :
    List StubInstr :=
  [.pushad,
    .plain (.push .esp),
    .plain (.push .eax),
    .plain (.call returnAddress),
    .body isr80hHandler,
    .storeAt tmpRes .eax,
    .plain (.addValue .esp 8),
    .popad,
    .loadAt .eax tmpRes,
    .plain .iretd]

def frameAt (mem : X86.Memory) (address : BitVec 32) : InterruptFrame where
  edi := load32 mem address
  esi := load32 mem (address + 4)
  ebp := load32 mem (address + 8)
  reserved := load32 mem (address + 12)
  ebx := load32 mem (address + 16)
  edx := load32 mem (address + 20)
  ecx := load32 mem (address + 24)
  eax := load32 mem (address + 28)
  ip := load32 mem (address + 32)
  cs := load32 mem (address + 36)
  flags := load32 mem (address + 40)
  esp := load32 mem (address + 44)
  ss := load32 mem (address + 48)

def interruptedFrame (m : Machine) (reserved : BitVec 32) : InterruptFrame where
  edi := m.reg .edi
  esi := m.reg .esi
  ebp := m.reg .ebp
  reserved := reserved
  ebx := m.reg .ebx
  edx := m.reg .edx
  ecx := m.reg .ecx
  eax := m.reg .eax
  ip := m.eip
  cs := (m.seg .cs).setWidth 32
  flags := m.eflags
  esp := m.reg .esp
  ss := (m.seg .ss).setWidth 32

/-- The functions in C that the routines call. -/
structure InterruptHandlers where
  interruptHandler : Machine → Machine
  isr80hHandler : Machine → Machine
  idtZero : Machine → Machine

/-- What lies at `IdtAddresses.routine`; `back` gives the return address within a routine. -/
def routineOf (handlers : InterruptHandlers) (tmpRes : BitVec 32) (back : Nat → BitVec 32)
    (vector : Nat) : List StubInstr :=
  if vector = 0x80 then isr80hWrapper tmpRes (back vector) handlers.isr80hHandler
  else if vector = 0 then [.body handlers.idtZero]
  else interruptRoutine (BitVec.ofNat 32 vector) (back vector) handlers.interruptHandler

def innerMachine (m : Machine) (stack : Machine.InnerStack) : Machine :=
  (m.setReg .esp stack.esp).setSegment .ss stack.ss

def processorWords (m : Machine) (errorCode : Option (BitVec 32)) : List (BitVec 32) :=
  [(m.seg .ss).setWidth 32, m.reg .esp] ++ m.returnWords errorCode

def frameWords (m : Machine) (errorCode : Option (BitVec 32)) (reserved : BitVec 32) :
    List (BitVec 32) :=
  processorWords m errorCode ++ [m.reg .eax, m.reg .ecx, m.reg .edx, m.reg .ebx, reserved, m.reg .ebp,
    m.reg .esi, m.reg .edi]

def frameAddress (stack : Machine.InnerStack) (errorCode : Option (BitVec 32)) : BitVec 32 :=
  stack.esp - BitVec.ofNat 32 (52 + 4 * errorCode.toList.length)

/-- The machine when a handler is called with its first argument and the address of the frame. -/
def calledMachine (m : Machine) (stack : Machine.InnerStack) (gate : Gate)
    (errorCode : Option (BitVec 32)) (argument returnAddress : BitVec 32) : Machine :=
  { (innerMachine m stack).pushWords
      (frameWords m errorCode (frameAddress stack errorCode + 32) ++
        [frameAddress stack errorCode, argument, returnAddress]) with
    seg := fun s => if s = .cs then gate.selector else (innerMachine m stack).seg s
    eip := gate.offset
    eflags := m.eflags &&& ~~~Machine.gateFlags }

/-- A function that is called returns to its caller in the segment of the kernel. -/
structure Returns (run : Machine → Machine) (m : Machine) : Prop where
  eip : (run m).eip = m.top
  esp : (run m).reg .esp = m.reg .esp + 4
  cs : (run m).seg .cs = m.seg .cs

def KeepsFrame (run : Machine → Machine) (m : Machine) : Prop :=
  ∀ i < 52, (run m).mem (m.reg .esp + 12 + BitVec.ofNat 32 i) =
    m.mem (m.reg .esp + 12 + BitVec.ofNat 32 i)

/-- The handler of the vector returns, and what it is handed is kept for the way back. -/
def ComesBack (handlers : InterruptHandlers) (tmpRes : BitVec 32) (back : Nat → BitVec 32)
    (stack : Machine.InnerStack) (gate : Gate) (m : Machine) (vector : Nat) : Prop :=
  if vector = 0x80 then
    Returns handlers.isr80hHandler (calledMachine m stack gate none (m.reg .eax) (back vector)) ∧
      KeepsFrame handlers.isr80hHandler
        (calledMachine m stack gate none (m.reg .eax) (back vector)) ∧
      Disjoint tmpRes 4 (frameAddress stack none) 52
  else if vector = 0 then Returns handlers.idtZero (m.enter stack gate none)
  else
    Returns handlers.interruptHandler
        (calledMachine m stack gate none (BitVec.ofNat 32 vector) (back vector)) ∧
      KeepsFrame handlers.interruptHandler
        (calledMachine m stack gate none (BitVec.ofNat 32 vector) (back vector))

/-- The context of the interrupted program, but for the data segments. -/
structure Resumes (m m' : Machine) : Prop where
  reg : m'.reg = m.reg
  eip : m'.eip = m.eip
  eflags : m'.eflags = m.eflags
  cs : m'.seg .cs = m.seg .cs
  ss : m'.seg .ss = m.seg .ss

/-- A machine in user mode; no selector is both one of code and one of a stack. -/
structure InUserMode (m : Machine) : Prop where
  level : Machine.level (m.seg .cs) = 3
  segments : m.seg .cs ≠ m.seg .ss

end SlobOS
