import SlobOS.Task

/-!
# Processes and what is current

`task/process.c`, `isr80h/process.c` and `keyboard/keyboard.c`, as far as they decide which process
and which task run next. The memory that a load acquires comes from outside: an outcome says how far
a load gets, and at which addresses its process and its task lie.
-/

namespace SlobOS

inductive ProcessFiletype where
  | elf
  | binary
  deriving DecidableEq

structure KeyboardBuffer where
  buffer : Nat → UInt8
  tail : Int
  head : Int

/-- The fields of `struct process` that are read when processes are switched. -/
structure Process where
  id : Nat
  task : Nat
  filetype : ProcessFiletype
  keyboard : KeyboardBuffer

/-- The processes by address, and the globals of the two files. -/
structure Sched where
  list : TaskList
  procs : Nat → Process
  processes : Nat → Nat
  currentProcess : Nat

/-- How far `process_load_for_slot` gets: not to the creation of a task, not past the mapping of the
program, or to its end. -/
inductive LoadOutcome where
  | refused
  | unmapped (process task : Nat) (filetype : ProcessFiletype) (contents : Task)
  | loaded (process task : Nat) (filetype : ProcessFiletype) (contents : Task)

def Sched.owner (sched : Sched) (task : Nat) : Nat := (sched.list.tasks task).process

def emptyKeyboard : KeyboardBuffer := { buffer := fun _ => 0, tail := 0, head := 0 }

def Sched.create (sched : Sched) (slot process task : Nat) (filetype : ProcessFiletype)
    (contents : Task) : Sched :=
  { sched with
    list := taskNew sched.list task contents
    procs := fun address =>
      if address = process then
        { id := slot, task := task, filetype := filetype, keyboard := emptyKeyboard }
      else sched.procs address }

/-- The process that is loaded, if the result code is not negative. -/
def processLoadForSlot (sched : Sched) (slot : Nat) : LoadOutcome → Option Nat × Sched
  | .refused => (none, sched)
  | .unmapped process task filetype contents =>
      let sched := sched.create slot process task filetype contents
      (none, { sched with list := taskFree sched.list task })
  | .loaded process task filetype contents =>
      let sched := sched.create slot process task filetype contents
      (some process, { sched with
        processes := fun i => if i = slot then process else sched.processes i })

def processGetFreeSlot (sched : Sched) : Option Nat :=
  (List.range slobosMaxProcesses).find? fun i => sched.processes i = 0

def processLoad (sched : Sched) (outcome : LoadOutcome) : Option Nat × Sched :=
  match processGetFreeSlot sched with
  | none => (none, sched)
  | some slot => processLoadForSlot sched slot outcome

def processSwitch (sched : Sched) (process : Nat) : Sched :=
  { sched with currentProcess := process }

def processLoadSwitch (sched : Sched) (outcome : LoadOutcome) : Option Nat × Sched :=
  match processLoad sched outcome with
  | (none, sched) => (none, sched)
  | (some process, sched) => (some process, processSwitch sched process)

def enterProcess (sched : Sched) (process : Nat) : Sched :=
  { sched with list := taskSwitch sched.list (sched.procs process).task }

def isr80hCommand6ProcessLoadFromShell (sched : Sched) (outcome : LoadOutcome) : Sched :=
  match processLoadSwitch sched outcome with
  | (none, sched) => sched
  | (some process, sched) => enterProcess sched process

/-- `injected` tells whether `process_inject_arguments` succeeds. -/
def isr80hCommand7InvokeSystemCommand (sched : Sched) (outcome : LoadOutcome) (injected : Bool) :
    Sched :=
  match processLoadSwitch sched outcome with
  | (none, sched) => sched
  | (some process, sched) => if injected then enterProcess sched process else sched

/-- `none` is the panic. -/
def processSwitchToAny (sched : Sched) : Option Sched :=
  match (List.range slobosMaxProcesses).find? fun i => sched.processes i ≠ 0 with
  | none => none
  | some i => some (processSwitch sched (sched.processes i))

def processUnlink (sched : Sched) (process : Nat) : Option Sched :=
  let slot := (sched.procs process).id
  let sched := { sched with processes := fun i => if i = slot then 0 else sched.processes i }
  if sched.currentProcess = process then processSwitchToAny sched else some sched

/-- `process_free_elf_data` has no return statement, so the result of an ELF program is any value. -/
def processFreeProgramData (process : Process) (elfResult : Int) : Int :=
  match process.filetype with
  | .elf => elfResult
  | .binary => 0

def processTerminate (sched : Sched) (process : Nat) (elfResult : Int) : Option Sched :=
  if processFreeProgramData (sched.procs process) elfResult < 0 then some sched
  else
    processUnlink { sched with list := taskFree sched.list (sched.procs process).task } process

def taskNext (sched : Sched) : Option Sched :=
  let next := taskGetNext sched.list
  if next = 0 then none else some { sched with list := taskSwitch sched.list next }

/-- Also `idt_handle_exception`. -/
def irh80hCommand9Exit (sched : Sched) (elfResult : Int) : Option Sched :=
  match processTerminate sched (sched.owner sched.list.currentTask) elfResult with
  | none => none
  | some sched => taskNext sched

/-- `kernel_main`: the shell is loaded into an empty system, and the first task is run. -/
def bootSched (tasks : Nat → Task) (procs : Nat → Process) (process task : Nat)
    (filetype : ProcessFiletype) (contents : Task) : Sched :=
  let sched : Sched :=
    { list := emptyTaskList tasks, procs := procs, processes := fun _ => 0, currentProcess := 0 }
  let sched := (processLoadSwitch sched (.loaded process task filetype contents)).2
  { sched with list := taskSwitch sched.list sched.list.taskHead }

/-! ### The keyboard -/

def keyboardIndex (position : Int) : Nat := (position % addressSpace).toNat % 1024

def Sched.setKeyboard (sched : Sched) (process : Nat) (keyboard : KeyboardBuffer) : Sched :=
  { sched with procs := fun address =>
      if address = process then { sched.procs process with keyboard := keyboard }
      else sched.procs address }

def KeyboardBuffer.setKey (keyboard : KeyboardBuffer) (index : Nat) (c : UInt8) : Nat → UInt8 :=
  fun i => if i = index then c else keyboard.buffer i

def keyboardPush (sched : Sched) (c : UInt8) : Sched :=
  let process := sched.currentProcess
  if process = 0 then sched
  else if c = 0 then sched
  else
    let keyboard := (sched.procs process).keyboard
    sched.setKeyboard process
      { keyboard with
        buffer := keyboard.setKey (keyboardIndex keyboard.tail) c
        tail := toInt32 (keyboard.tail + 1) }

def keyboardBackspace (sched : Sched) (process : Nat) : Sched :=
  let keyboard := (sched.procs process).keyboard
  let tail := toInt32 (keyboard.tail - 1)
  sched.setKeyboard process
    { keyboard with buffer := keyboard.setKey (keyboardIndex tail) 0, tail := tail }

/-- The null check of `keyboard_pop` is on the function `task_current`, so it never fails. -/
def keyboardPop (sched : Sched) : UInt8 × Sched :=
  let process := sched.owner sched.list.currentTask
  let keyboard := (sched.procs process).keyboard
  let c := keyboard.buffer (keyboardIndex keyboard.head)
  if c = 0 then (0, sched)
  else
    (c, sched.setKeyboard process
      { keyboard with
        buffer := keyboard.setKey (keyboardIndex keyboard.head) 0
        head := toInt32 (keyboard.head + 1) })

end SlobOS
