import SlobOS.Task
import SlobOS.Lib.X86

/-!
# Leaving the kernel

`task/task.asm`: the return to user mode with the saved registers of a task.
-/

namespace SlobOS

open X86

def Registers.words (registers : Registers) : List (BitVec 32) :=
  [registers.edi, registers.esi, registers.ebp, registers.ebx, registers.edx, registers.ecx,
    registers.eax, registers.ip, registers.cs, registers.flags, registers.esp, registers.ss]

def HoldsRegisters (mem : X86.Memory) (address : BitVec 32) (registers : Registers) : Prop :=
  ∀ i (h : i < 12), load32 mem (address + BitVec.ofNat 32 (4 * i)) = registers.words.get ⟨i, h⟩

def restoreGeneralPurposeRegisters : List Instr :=
  [.push .ebp,
    .mov .ebp .esp,
    .load .ebx .ebp 8,
    .load .edi .ebx 0,
    .load .esi .ebx 4,
    .load .ebp .ebx 8,
    .load .edx .ebx 16,
    .load .ecx .ebx 20,
    .load .eax .ebx 24,
    .load .ebx .ebx 12,
    .pop .ebp,
    .ret]

def taskReturnCall (returnAddress : BitVec 32) : List Instr :=
  [.mov .ebp .esp,
    .load .ebx .ebp 4,
    .pushLoad .ebx 44,
    .pushLoad .ebx 40,
    .pushf,
    .pop .eax,
    .orValue .eax 0x200,
    .push .eax,
    .pushLoad .ebx 32,
    .pushLoad .ebx 28,
    .loadAx .ebx 44,
    .movSegment .ds,
    .movSegment .es,
    .movSegment .fs,
    .movSegment .gs,
    .pushLoad .ebp 4,
    .call returnAddress]

def taskReturn (returnAddress : BitVec 32) : List Instr :=
  taskReturnCall returnAddress ++ restoreGeneralPurposeRegisters ++ [.addValue .esp 4, .iretd]

/-- The machine at the entry of `task_return`: its argument is the address of the saved registers,
which lie apart from the words of the stack that it uses. -/
structure Returning (m : Machine) (address : BitVec 32) (registers : Registers) : Prop where
  holds : HoldsRegisters m.mem address registers
  argument : load32 m.mem (m.reg .esp + 4) = address
  apart : Disjoint (m.reg .esp - 32) 40 address 48

/-- In user mode with the registers of the frame; the interrupt flag is left out. -/
structure EntersWith (frame : InterruptFrame) (m : Machine) : Prop where
  level : Machine.level (m.seg .cs) = 3
  eax : m.reg .eax = frame.eax
  ebx : m.reg .ebx = frame.ebx
  ecx : m.reg .ecx = frame.ecx
  edx : m.reg .edx = frame.edx
  esi : m.reg .esi = frame.esi
  edi : m.reg .edi = frame.edi
  ebp : m.reg .ebp = frame.ebp
  eip : m.eip = frame.ip
  cs : m.seg .cs = frame.cs.setWidth 16
  esp : m.reg .esp = frame.esp
  ss : m.seg .ss = frame.ss.setWidth 16
  eflags : m.eflags ||| 0x200 = frame.flags ||| 0x200

/-- The frame selects user mode, its frame pointer is the stack pointer on entry of `task_return`,
and its flags are those of the kernel. -/
def Survives (frame : InterruptFrame) (m : Machine) : Prop :=
  Machine.level (frame.cs.setWidth 16) = 3 ∧ frame.ebp = m.reg .esp ∧
    frame.flags ||| 0x200 = m.flagsImage ||| 0x200

end SlobOS
