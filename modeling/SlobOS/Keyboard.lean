import SlobOS.Idt
import SlobOS.Process
import SlobOS.DiskPorts

/-!
# The keyboard driver

`keyboard/ps2.c`, and the list of drivers of `keyboard/keyboard.c`. A key is pushed to the process
that is current when its interrupt comes. The check of the scancode is off by one, so that the byte
behind the table is read for one key: it is a parameter.
-/

namespace SlobOS

open Ports

def ps2Port : BitVec 32 := 0x64
def ps2CommandEnableFirstPort : BitVec 32 := 0xAE
def ps2KeyboardKeyReleased : UInt8 := 0x80
def isrKeyboardInterrupt : Int := 0x21

def keyboardScanSet1 : List UInt8 :=
  [ '\x00', '\x1B', '1', '2', '3', '4', '5',
    '6', '7', '8', '9', '0', '-', '=',
    '\x08', '\t', 'Q', 'W', 'E', 'R', 'T',
    'Y', 'U', 'I', 'O', 'P', '[', ']',
    '\x0d', '\x00', 'A', 'S', 'D', 'F', 'G',
    'H', 'J', 'K', 'L', ';', '\x27', '\x60',
    '\x00', '\x5c', 'Z', 'X', 'C', 'V', 'B',
    'N', 'M', ',', '.', '/', '\x00', '*',
    '\x00', '\x20', '\x00', '\x00', '\x00', '\x00',
    '\x00', '\x00', '\x00', '\x00', '\x00', '\x00',
    '\x00', '7', '8', '9', '-', '4', '5',
    '6', '+', '1', '2', '3', '0', '.'].map Char.toUInt8

/-- `behind` is the byte that follows the table in memory. -/
def ps2KeyboardScancodeToChar (behind scancode : UInt8) : UInt8 :=
  if scancode.toNat > keyboardScanSet1.length then 0
  else keyboardScanSet1.getD scancode.toNat behind

/-- `scancode` is the first of the two bytes that are read from the port. -/
def ps2KeyboardHandleInterrupt (behind scancode : UInt8) (sched : Sched) : Sched :=
  if scancode &&& ps2KeyboardKeyReleased ≠ 0 then sched
  else
    let c := ps2KeyboardScancodeToChar behind scancode
    if c ≠ 0 then keyboardPush sched c else sched

/-- `struct keyboard`; an initialization yields its result, the table with its callback, and what it
writes to ports. -/
structure Keyboard where
  init : Option (Idt → Int × Idt × List PortWrite)
  name : String

/-- The result of `init` is that of the driver, which has been linked in before. -/
def keyboardInsert (keyboards : List Keyboard) (idt : Idt) (keyboard : Keyboard) :
    Int × List Keyboard × Idt × List PortWrite :=
  match keyboard.init with
  | none => (-einvarg, keyboards, idt, [])
  | some init =>
      let (res, idt, written) := init idt
      (res, keyboards ++ [keyboard], idt, written)

def ps2KeyboardInit (idt : Idt) : Int × Idt × List PortWrite :=
  let (_, idt) :=
    idtRegisterInterruptCallback idt isrKeyboardInterrupt .ps2KeyboardHandleInterrupt
  (0, idt, [outb ps2Port ps2CommandEnableFirstPort])

def ps2Keyboard : Keyboard where
  init := some ps2KeyboardInit
  name := "PS2"

def keyboardInit (idt : Idt) : Int × List Keyboard × Idt × List PortWrite :=
  keyboardInsert [] idt ps2Keyboard

def taskCurrentSaveState (sched : Sched) (frame : InterruptFrame) : Sched :=
  { sched with list := sched.list.update sched.list.currentTask fun task => taskSaveState task frame }

/-- `interrupt_handler`, which ends with the page directory of the current task. An exception ends the
process and does not come back; `none` is a panic. -/
def interruptHandler (idt : Idt) (behind scancode : UInt8) (elfResult : Int) (interrupt : Nat)
    (frame : InterruptFrame) (sched : Sched) : Option Sched :=
  match idt.callbacks interrupt with
  | none => some sched
  | some callback =>
      let sched := taskCurrentSaveState sched frame
      match callback with
      | .idtHandleException => irh80hCommand9Exit sched elfResult
      | .ps2KeyboardHandleInterrupt => some (ps2KeyboardHandleInterrupt behind scancode sched)

def bootIdt (addresses : IdtAddresses) (idt : Idt) : Idt :=
  (keyboardInit (idtInit addresses idt)).2.2.1

theorem bootIdt_callbacks (addresses : IdtAddresses) (idt : Idt)
    (hblank : ∀ vector, idt.callbacks vector = none) (vector : Nat) :
    (bootIdt addresses idt).callbacks vector =
      if vector < 0x20 then some .idtHandleException
      else if vector = 0x21 then some .ps2KeyboardHandleInterrupt
      else none := by
  have hregister := idtRegisterInterruptCallback_callbacks (idtInit addresses idt)
    (show 0x21 < slobosTotalInterrupts by decide) .ps2KeyboardHandleInterrupt vector
  change (idtRegisterInterruptCallback (idtInit addresses idt) (0x21 : Nat) _).2.callbacks vector = _
  rw [hregister, idtInit_callbacks, hblank]
  by_cases hkeyboard : vector = 0x21
  · subst hkeyboard
    rfl
  · rw [if_neg hkeyboard, if_neg hkeyboard]

theorem bootIdt_descriptors (addresses : IdtAddresses) (idt : Idt) :
    (bootIdt addresses idt).descriptors = (idtInit addresses idt).descriptors :=
  (idtRegisterInterruptCallback_rest _ _ _).1

end SlobOS
