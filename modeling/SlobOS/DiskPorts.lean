import SlobOS.Lib.Ports

/-!
# The sector that a read command addresses

`disk_read_sector` of `disk/disk.c` and `ata_lba_read` of `boot/boot.asm`, up to the read command. The
controller then delivers the sectors from the one of the command on. The boot loader shifts the number
by 16 bits for the third of its bytes, the kernel by 24 bits, so that the kernel sends the uppermost
bits twice and never those below them.
-/

namespace SlobOS

open X86 Ports

/-- Both arguments are cut to the width of their parameter. -/
def outb (port val : BitVec 32) : PortWrite := ⟨port.setWidth 16, val.setWidth 8⟩

/-- What `disk_read_sector` writes before it waits for the controller. -/
def diskReadSector (lba total : BitVec 32) : List PortWrite :=
  [outb 0x1F6 (lba.sshiftRight 24 ||| 0xE0),
    outb 0x1F2 total,
    outb 0x1F3 (lba &&& 0xff),
    outb 0x1F4 (lba.sshiftRight 8),
    outb 0x1F5 (lba.sshiftRight 24),
    outb 0x1F7 0x20]

/-- `ata_lba_read` up to the command: the sector number is in `eax`, and the count in `ecx`. -/
def ataLbaRead : List PortInstr :=
  [.core (.mov .ebx .eax),
    .shiftRight .eax 24,
    .core (.orValue .eax 0xE0),
    .movDx 0x1F6,
    .outDxAl,
    .core (.mov .eax .ecx),
    .movDx 0x1F2,
    .outDxAl,
    .core (.mov .eax .ebx),
    .movDx 0x1F3,
    .outDxAl,
    .movDx 0x1F4,
    .core (.mov .eax .ebx),
    .shiftRight .eax 8,
    .outDxAl,
    .movDx 0x1F5,
    .core (.mov .eax .ebx),
    .shiftRight .eax 16,
    .outDxAl,
    .movDx 0x1F7,
    .movAl 0x20,
    .outDxAl]

def ataLbaReadWrites (flags : BitVec 32 → BitVec 32 → BitVec 32) (m : Machine)
    (lba total : BitVec 32) : List PortWrite :=
  (PortMachine.exec flags ⟨(m.setReg .eax lba).setReg .ecx total, []⟩ ataLbaRead).written

variable {flags : BitVec 32 → BitVec 32 → BitVec 32} {m : Machine} {lba total : BitVec 32}
  {number : BitVec 28} {controller : AtaController}

theorem ataLbaReadWrites_eq : ataLbaReadWrites flags m lba total =
    [⟨0x1F6, (lba >>> 24 ||| 0xE0).setWidth 8⟩,
      ⟨0x1F2, total.setWidth 8⟩,
      ⟨0x1F3, lba.setWidth 8⟩,
      ⟨0x1F4, (lba >>> 8).setWidth 8⟩,
      ⟨0x1F5, (lba >>> 16).setWidth 8⟩,
      ⟨0x1F7, 0x20⟩] := by
  simp [ataLbaReadWrites, ataLbaRead]

theorem diskReadSector_eq : diskReadSector (number.setWidth 32) total =
    [⟨0x1F6, (number.setWidth 32 >>> 24 ||| 0xE0).setWidth 8⟩,
      ⟨0x1F2, total.setWidth 8⟩,
      ⟨0x1F3, (number.setWidth 32).setWidth 8⟩,
      ⟨0x1F4, (number.setWidth 32 >>> 8).setWidth 8⟩,
      ⟨0x1F5, (number.setWidth 32 >>> 24).setWidth 8⟩,
      ⟨0x1F7, 0x20⟩] := by
  have hmsb : (number.setWidth 32).msb = false := by
    rw [BitVec.msb_setWidth, BitVec.getLsbD_of_ge number _ (by decide), Bool.and_false]
  have hlow : (number.setWidth 32 &&& 0xff).setWidth 8 = (number.setWidth 32).setWidth 8 := by
    rw [BitVec.setWidth_and]
    exact BitVec.and_allOnes
  rw [diskReadSector, BitVec.sshiftRight_eq_of_msb_false hmsb,
    BitVec.sshiftRight_eq_of_msb_false hmsb]
  simp only [outb, hlow]
  rfl

theorem shifted_byte (shift : Nat) :
    (number.setWidth 32 >>> shift).setWidth 8 = number.extractLsb' shift 8 := by
  apply BitVec.eq_of_getLsbD_eq
  intro bit hbit
  have hbound : number.getLsbD (shift + bit) = true → shift + bit < 32 := by
    intro hset
    have hlt := BitVec.lt_of_getLsbD hset
    omega
  simpa [hbit] using hbound

theorem device_sector : ((number.setWidth 32 >>> 24 ||| 0xE0).setWidth 8).extractLsb' 0 4 =
    number.extractLsb' 24 4 := by
  have hselect : (BitVec.setWidth 8 (0xE0 : BitVec 32)).extractLsb' 0 4 = 0#4 := by decide
  rw [BitVec.setWidth_or, shifted_byte, BitVec.extractLsb'_or, hselect, BitVec.or_zero]
  apply BitVec.eq_of_getLsbD_eq
  intro bit hbit
  have hbit' : bit < 8 := by omega
  simp [hbit, hbit']

theorem device_lbaMode : ((number.setWidth 32 >>> 24 ||| 0xE0).setWidth 8).getLsbD 6 = true := by
  simp

theorem device_slave : ((number.setWidth 32 >>> 24 ||| 0xE0).setWidth 8).getLsbD 4 = false := by
  simp

def readCommand (number : BitVec 28) (total : BitVec 32) : AtaCommand where
  opcode := 0x20
  lbaMode := true
  slave := false
  sector := number
  count := total.setWidth 8

/-- The controller after a driver's writes. Only the byte for bits 16 to 23 differs between the two. -/
def afterRead (number : BitVec 28) (total : BitVec 32) (high : BitVec 8) : AtaController where
  sectorCount := total.setWidth 8
  lbaLow := number.extractLsb' 0 8
  lbaMid := number.extractLsb' 8 8
  lbaHigh := high
  device := (number.setWidth 32 >>> 24 ||| 0xE0).setWidth 8
  command := some (readCommand
    (number.extractLsb' 24 4 ++ high ++ number.extractLsb' 8 8 ++ number.extractLsb' 0 8) total)

theorem writes_read (high : BitVec 8) : controller.writes
    [⟨0x1F6, (number.setWidth 32 >>> 24 ||| 0xE0).setWidth 8⟩,
      ⟨0x1F2, total.setWidth 8⟩,
      ⟨0x1F3, (number.setWidth 32).setWidth 8⟩,
      ⟨0x1F4, (number.setWidth 32 >>> 8).setWidth 8⟩,
      ⟨0x1F5, high⟩,
      ⟨0x1F7, 0x20⟩] = afterRead number total high := by
  have hlow : (number.setWidth 32).setWidth 8 = number.extractLsb' 0 8 := by
    rw [← shifted_byte 0, BitVec.ushiftRight_zero]
  simp only [AtaController.writes, List.foldl_cons, List.foldl_nil, AtaController.write,
    BitVec.reduceEq, if_true, if_false, AtaController.commandOf, AtaController.sector,
    device_sector, device_lbaMode, device_slave, shifted_byte 8, hlow]
  rfl

theorem diskReadSector_writes : controller.writes (diskReadSector (number.setWidth 32) total) =
    afterRead number total (number.extractLsb' 24 8) := by
  rw [diskReadSector_eq, writes_read, shifted_byte]

theorem ataLbaRead_writes :
    controller.writes (ataLbaReadWrites flags m (number.setWidth 32) total) =
      afterRead number total (number.extractLsb' 16 8) := by
  rw [ataLbaReadWrites_eq, writes_read, shifted_byte]

theorem afterRead_addresses_iff (number : BitVec 28) (total : BitVec 32) (high : BitVec 8) :
    (afterRead number total high).Addresses number ↔ high = number.extractLsb' 16 8 :=
  ⟨fun h => h.lbaHigh, fun h => ⟨rfl, rfl, h, device_sector⟩⟩

theorem afterRead_command (number : BitVec 28) (total : BitVec 32) (high : BitVec 8) :
    (afterRead number total high).command =
      some (readCommand (afterRead number total high).sector total) := by
  rw [AtaController.sector, show (afterRead number total high).device.extractLsb' 0 4 =
    number.extractLsb' 24 4 from device_sector]
  rfl

/-- The registers hold the number, the controller is told to read from there, and the boot loader would
tell it the same. -/
structure SectorAddressed (flags : BitVec 32 → BitVec 32 → BitVec 32) (m : Machine)
    (controller : AtaController) (number : BitVec 28) (total : BitVec 32) : Prop where
  registers : (controller.writes (diskReadSector (number.setWidth 32) total)).Addresses number
  command : (controller.writes (diskReadSector (number.setWidth 32) total)).command =
    some (readCommand number total)
  bootLoader : (controller.writes (ataLbaReadWrites flags m (number.setWidth 32) total)).command =
    (controller.writes (diskReadSector (number.setWidth 32) total)).command

theorem ataLbaRead_addresses :
    (controller.writes (ataLbaReadWrites flags m (number.setWidth 32) total)).Addresses number ∧
      (controller.writes (ataLbaReadWrites flags m (number.setWidth 32) total)).command =
        some (readCommand number total) := by
  rw [ataLbaRead_writes]
  have haddresses := (afterRead_addresses_iff number total _).mpr rfl
  rw [afterRead_command, AtaController.addresses_iff.mp haddresses]
  exact ⟨haddresses, rfl⟩

/-- The kernel addresses the sectors in whose numbers bits 16 to 23 repeat those from bit 24 on, which
are zero above bit 27: those below 0x10000, and as many in each of the other ranges of 24 bits. -/
theorem diskReadSector_addresses_iff : SectorAddressed flags m controller number total ↔
    number.extractLsb' 16 8 = number.extractLsb' 24 8 := by
  have haddresses := afterRead_addresses_iff number total (number.extractLsb' 24 8)
  constructor
  · intro h
    have hregisters := h.registers
    rw [diskReadSector_writes] at hregisters
    exact (haddresses.mp hregisters).symm
  · intro h
    have hregisters := haddresses.mpr h.symm
    have hcommand := afterRead_command number total (number.extractLsb' 24 8)
    rw [AtaController.addresses_iff.mp hregisters] at hcommand
    constructor
    · rwa [diskReadSector_writes]
    · rwa [diskReadSector_writes]
    · rw [ataLbaRead_addresses.2, diskReadSector_writes, hcommand]

def freshController : AtaController where
  sectorCount := 0
  lbaLow := 0
  lbaMid := 0
  lbaHigh := 0
  device := 0
  command := none

/-- Sector 0x10000 is read from sector 0. -/
theorem not_diskReadSector_addresses : ¬∀ (number : BitVec 28) (total : BitVec 32),
    (freshController.writes (diskReadSector (number.setWidth 32) total)).Addresses number ∧
      (freshController.writes (diskReadSector (number.setWidth 32) total)).sector = number := by
  intro hall
  have hsector := (hall 0x10000 1).2
  rw [diskReadSector_writes] at hsector
  exact absurd hsector (by decide)

end SlobOS
