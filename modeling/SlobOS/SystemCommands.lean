import SlobOS.ProcessLoad
import SlobOS.ProgramArguments
import SlobOS.Strings

/-!
# Programs started by programs

`slobos_system_run` of the library: the command line is taken apart into a list of arguments in memory
from the kernel, and system call 7 loads the program that the first one names and copies all of them
into its memory. The new program asks for them by system call 8.

The functions take the allocator, so that a run in which no allocation fails can be told.
-/

namespace SlobOS

namespace Kernel

open Faulting CStrings Stores

instance (pages : PageTables) (directory page : Nat) : Decidable (UserWriteable pages directory page) :=
  inferInstanceAs (Decidable (_ ∧ _))

def putMemory (ptr : Nat) (bytes : List UInt8) (kernel : Kernel) : Kernel :=
  { kernel with memory := fun pages => putBytes (kernel.memory pages) ptr bytes }

/-- Bytes that a program stores; each of them goes where the processor finds its address. -/
def storeBytes (process : Nat) : Nat → List UInt8 → KernelM Unit
  | _, [] => pure ()
  | virt, byte :: bytes => do
      let kernel ← get
      if UserWriteable kernel.pages (kernel.directoryOf process) (virt / pagingPageSize) then do
        modify (putMemory (translated kernel.pages (kernel.directoryOf process) virt) [byte])
        storeBytes process (virt + 1) bytes
      else throw .wildPointer

def wordBytes (word : Nat) : List UInt8 :=
  (List.range 4).map fun i => UInt8.ofNat (word >>> (8 * i))

/-- An allocator that faults where the other one returns a null pointer. -/
def granted (malloc : Nat → Nat → KernelM Nat) (process size : Nat) : KernelM Nat := do
  let ptr ← malloc process size
  if ptr = 0 then throw .panic else pure ptr

variable (malloc : Nat → Nat → KernelM Nat)

/-! ### `slobos.c` -/

def argumentSize : Nat := 512
def commandArgumentSize : Nat := 516

def scommandSize : Nat := 1025
def bufSize : Nat := 1024

def callStrtok (program : ProgramMemory) (str : Nat) : KernelM (Nat × ProgramMemory) :=
  match strtok program str [space] with
  | none => throw .runaway
  | some result => pure result

def storeArgument (process command token : Nat) (program : ProgramMemory) : KernelM Unit := do
  storeBytes process command (strncpyBytes program.bytes token (argumentSize - 1))
  storeBytes process (command + argumentSize) (wordBytes 0)

/-- The loop over the tokens behind the first one. Each of them shortens the line. -/
def slobosParseTokens (process : Nat) : Nat → Nat → ProgramMemory → KernelM ProgramMemory
  | 0, _, _ => throw .runaway
  | left + 1, current, program => do
      let (token, program) ← callStrtok program 0
      if token = 0 then pure program
      else do
        let newCommand ← malloc process commandArgumentSize
        if newCommand = 0 then pure program
        else do
          storeArgument process newCommand token program
          storeBytes process (current + argumentSize) (wordBytes newCommand)
          slobosParseTokens process left newCommand program

/-- `scommand` is where the local buffer lies. -/
def slobosParseCommand (process scommand command max : Nat) (program : ProgramMemory) :
    KernelM (Nat × ProgramMemory) := do
  if max ≥ scommandSize then pure (0, program)
  else do
    let bytes := strncpy program.bytes scommand command scommandSize
    let (token, program) ← callStrtok { program with bytes := bytes } scommand
    if token = 0 then pure (0, program)
    else do
      let rootCommand ← malloc process commandArgumentSize
      if rootCommand = 0 then pure (0, program)
      else do
        storeArgument process rootCommand token program
        let program ← slobosParseTokens malloc process addressSpace rootCommand program
        pure (rootCommand, program)

/-! ### `process.c` -/

def processCountCommandArguments (bytes : Nat → UInt8) : Nat → Nat → Nat → Option Nat
  | 0, _, _ => none
  | left + 1, current, i =>
      if current = 0 then some i
      else processCountCommandArguments bytes left (readWord bytes (current + argumentSize)) (i + 1)

def processInjectLoop (process argv : Nat) : Nat → Nat → Nat → KernelM Int
  | 0, _, _ => throw .runaway
  | left + 1, current, i =>
      if current = 0 then pure 0
      else do
        let argumentStr ← malloc process argumentSize
        if argumentStr = 0 then pure (-enomem)
        else do
          modify fun kernel => putMemory argumentStr
            (strncpyBytes (kernel.memory kernel.pages) current (argumentSize - 1)) kernel
          modify (putMemory (argv + 4 * i) (wordBytes argumentStr))
          let kernel ← get
          processInjectLoop process argv left
            (readWord (kernel.memory kernel.pages) (current + argumentSize)) (i + 1)

/-- The code, or the arguments that are assigned to the process. -/
def processInjectArguments (process rootArgument : Nat) :
    KernelM (Except Int ProcessArguments) := do
  let kernel ← get
  match processCountCommandArguments (kernel.memory kernel.pages) addressSpace rootArgument 0 with
  | none => throw .runaway
  | some argc =>
      if argc = 0 then pure (.error (-eio))
      else do
        let argv ← malloc process (toUint32 (4 * argc))
        if argv = 0 then pure (.error (-enomem))
        else do
          let res ← processInjectLoop malloc process argv addressSpace rootArgument 0
          if res < 0 then pure (.error res) else pure (.ok { argc := argc, argv := argv })

def processLoadSwitch (filename : List UInt8) : KernelM (Int × Nat) := do
  let (res, process) ← processLoad filename
  if res = 0 then do
    modify fun kernel => { kernel with sched := processSwitch kernel.sched process }
    pure (res, process)
  else pure (res, process)

/-! ### System call 7 -/

def drivePath : List UInt8 := [0x30, 0x3a, 0x2f]

/-- The path is put together in a buffer; a name that does not fit into it is a fault. -/
def loadNamed (programName : List UInt8) : KernelM (Int × Nat) := do
  if slobosMaxPath ≤ drivePath.length + programName.length then throw .wildPointer
  else processLoadSwitch (drivePath ++ programName)

inductive CommandResult where
  | returned (value : Nat)
  | started (process : Nat) (arguments : ProcessArguments)

def switchTask (process : Nat) (kernel : Kernel) : Kernel :=
  { kernel with sched := { kernel.sched with
      list := taskSwitch kernel.sched.list (kernel.sched.procs process).task } }

/-- `process` is the one that calls, and `ptr` the word on its stack. -/
def isr80hCommand7InvokeSystemCommand (process ptr : Nat) : KernelM CommandResult := do
  let kernel ← get
  let arguments := taskVirtualAddressToPhysical kernel.pages (kernel.directoryOf process) ptr
  if arguments = 0 ∨ kernel.memory kernel.pages arguments = 0 then
    pure (.returned (errorPointer (-einvarg)))
  else do
    let programName :=
      (strncpyBytes (kernel.memory kernel.pages) arguments (slobosMaxPath - 1)).dropLast
    let (res, started) ← loadNamed programName
    if res < 0 then pure (.returned (errorPointer res))
    else do
      let injected ← processInjectArguments malloc started arguments
      match injected with
      | .error res => pure (.returned (errorPointer res))
      | .ok processArguments => do
          modify (switchTask started)
          pure (.started started processArguments)

/-- `buf` and `scommand` are where the local buffers lie. -/
def slobosSystemRun (process buf scommand command : Nat) (program : ProgramMemory) :
    KernelM (CommandResult × ProgramMemory) := do
  let bytes := strncpy program.bytes buf command bufSize
  let (rootCommandArgument, program) ←
    slobosParseCommand malloc process scommand buf bufSize { program with bytes := bytes }
  if rootCommandArgument = 0 then pure (.returned (errorPointer (-1)), program)
  else do
    let result ← isr80hCommand7InvokeSystemCommand malloc process rootCommandArgument
    pure (result, program)

/-! ### `start.c` -/

def argumentsStored (kernel : Kernel) (process ptr : Nat) (processArguments : ProcessArguments) :
    Nat → UInt8 :=
  applyStores (kernel.memory kernel.pages)
    (isr80hCommand8GetProgramArguments kernel.pages (kernel.directoryOf process) ptr processArguments)

def programReads (kernel : Kernel) (process : Nat) (memory : Nat → UInt8) : Nat → UInt8 :=
  fun virt => memory (translated kernel.pages (kernel.directoryOf process) virt)

def programFinds (kernel : Kernel) (process ptr : Nat) (processArguments : ProcessArguments) :
    Nat → UInt8 :=
  programReads kernel process (argumentsStored kernel process ptr processArguments)

def cStart (kernel : Kernel) (process ptr : Nat) (processArguments : ProcessArguments) :
    ProcessArguments where
  argc := readWord (programFinds kernel process ptr processArguments) ptr
  argv := readWord (programFinds kernel process ptr processArguments) (ptr + 4)

end Kernel

end SlobOS
