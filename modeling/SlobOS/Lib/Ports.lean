import SlobOS.Lib.X86

/-!
# Port output and the controller of an ATA disk

The instructions of a driver that writes bytes to I/O ports, and what the writes tell the controller
of the primary channel in LBA28 mode.
-/

namespace Ports

open X86

structure PortWrite where
  port : BitVec 16
  value : BitVec 8
  deriving DecidableEq

/-- A machine with the bytes that it has written to ports, the oldest first. -/
structure PortMachine where
  core : Machine
  written : List PortWrite

inductive PortInstr where
  | core (instr : Instr)
  /-- `shr dst, count` -/
  | shiftRight (dst : Reg) (count : Nat)
  /-- `mov dx, port` -/
  | movDx (port : BitVec 16)
  /-- `mov al, value` -/
  | movAl (value : BitVec 8)
  /-- `out dx, al` -/
  | outDxAl

@[simp] theorem setWidth_dx (upper port : BitVec 16) :
    @BitVec.setWidth 32 16 (upper ++ port) = port := by
  apply BitVec.eq_of_getLsbD_eq
  intro bit hbit
  rw [BitVec.getLsbD_setWidth]
  simp only [hbit, decide_true, Bool.true_and]
  exact BitVec.getLsbD_append.trans (if_pos hbit)

@[simp] theorem setWidth_al (upper : BitVec 24) (value : BitVec 8) :
    @BitVec.setWidth 32 8 (upper ++ value) = value := by
  apply BitVec.eq_of_getLsbD_eq
  intro bit hbit
  rw [BitVec.getLsbD_setWidth]
  simp only [hbit, decide_true, Bool.true_and]
  exact BitVec.getLsbD_append.trans (if_pos hbit)

namespace PortMachine

@[simp] def step (flags : BitVec 32 → BitVec 32 → BitVec 32) (m : PortMachine) :
    PortInstr → PortMachine
  | .core instr => { m with core := m.core.step flags instr }
  | .shiftRight dst count =>
      { m with core :=
        { m.core.setReg dst (m.core.reg dst >>> count) with
          eflags := flags m.core.eflags (m.core.reg dst >>> count) } }
  | .movDx port =>
      { m with core := m.core.setReg .edx ((m.core.reg .edx).extractLsb' 16 16 ++ port) }
  | .movAl value =>
      { m with core := m.core.setReg .eax ((m.core.reg .eax).extractLsb' 8 24 ++ value) }
  | .outDxAl =>
      { m with written :=
        m.written ++ [⟨(m.core.reg .edx).setWidth 16, (m.core.reg .eax).setWidth 8⟩] }

@[simp] def exec (flags : BitVec 32 → BitVec 32 → BitVec 32) (m : PortMachine)
    (program : List PortInstr) : PortMachine :=
  program.foldl (step flags) m

end PortMachine

structure AtaCommand where
  opcode : BitVec 8
  lbaMode : Bool
  slave : Bool
  sector : BitVec 28
  count : BitVec 8
  deriving DecidableEq

/-- The registers that a driver writes, and the command that was given last. -/
structure AtaController where
  sectorCount : BitVec 8
  lbaLow : BitVec 8
  lbaMid : BitVec 8
  lbaHigh : BitVec 8
  device : BitVec 8
  command : Option AtaCommand

namespace AtaController

def sector (controller : AtaController) : BitVec 28 :=
  controller.device.extractLsb' 0 4 ++ controller.lbaHigh ++ controller.lbaMid ++ controller.lbaLow

def commandOf (controller : AtaController) (opcode : BitVec 8) : AtaCommand where
  opcode := opcode
  lbaMode := controller.device.getLsbD 6
  slave := controller.device.getLsbD 4
  sector := controller.sector
  count := controller.sectorCount

def write (controller : AtaController) (out : PortWrite) : AtaController :=
  if out.port = 0x1F2 then { controller with sectorCount := out.value }
  else if out.port = 0x1F3 then { controller with lbaLow := out.value }
  else if out.port = 0x1F4 then { controller with lbaMid := out.value }
  else if out.port = 0x1F5 then { controller with lbaHigh := out.value }
  else if out.port = 0x1F6 then { controller with device := out.value }
  else if out.port = 0x1F7 then
    { controller with command := some (controller.commandOf out.value) }
  else controller

def writes (controller : AtaController) (outs : List PortWrite) : AtaController :=
  outs.foldl write controller

structure Addresses (controller : AtaController) (lba : BitVec 28) : Prop where
  lbaLow : controller.lbaLow = lba.extractLsb' 0 8
  lbaMid : controller.lbaMid = lba.extractLsb' 8 8
  lbaHigh : controller.lbaHigh = lba.extractLsb' 16 8
  device : controller.device.extractLsb' 0 4 = lba.extractLsb' 24 4

theorem addresses_iff {controller : AtaController} {lba : BitVec 28} :
    controller.Addresses lba ↔ controller.sector = lba := by
  constructor
  · intro h
    rw [sector, h.lbaLow, h.lbaMid, h.lbaHigh, h.device,
      BitVec.extractLsb'_append_extractLsb'_eq_extractLsb' (by rfl),
      BitVec.extractLsb'_append_extractLsb'_eq_extractLsb' (by rfl),
      BitVec.extractLsb'_append_extractLsb'_eq_extractLsb' (by rfl)]
    exact BitVec.extractLsb'_eq_self
  · rintro rfl
    constructor
    all_goals
      apply BitVec.eq_of_getLsbD_eq
      intro bit hbit
      simp only [sector, BitVec.getLsbD_extractLsb', BitVec.getLsbD_append]
      grind

end AtaController

end Ports
