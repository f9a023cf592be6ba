import SlobOS.Config

/-!
# Tasks and the task list

`task/task.c`: the saved registers of a task, and the list of tasks with its three anchors. Tasks are
found by address in a memory of tasks. Two ghost fields of the list tell which addresses hold a live
task, in the order of their creation, and which accesses went to an address that holds none.
-/

namespace SlobOS

structure Registers where
  edi : BitVec 32
  esi : BitVec 32
  ebp : BitVec 32
  ebx : BitVec 32
  edx : BitVec 32
  ecx : BitVec 32
  eax : BitVec 32
  ip : BitVec 32
  cs : BitVec 32
  flags : BitVec 32
  esp : BitVec 32
  ss : BitVec 32

structure InterruptFrame where
  edi : BitVec 32
  esi : BitVec 32
  ebp : BitVec 32
  reserved : BitVec 32
  ebx : BitVec 32
  edx : BitVec 32
  ecx : BitVec 32
  eax : BitVec 32
  ip : BitVec 32
  cs : BitVec 32
  flags : BitVec 32
  esp : BitVec 32
  ss : BitVec 32

structure Task where
  pageDirectory : Nat
  registers : Registers
  process : Nat
  next : Nat
  prev : Nat

structure TaskList where
  tasks : Nat → Task
  taskHead : Nat
  taskTail : Nat
  currentTask : Nat
  live : List Nat
  strays : List Nat

def emptyTaskList (tasks : Nat → Task) : TaskList where
  tasks := tasks
  taskHead := 0
  taskTail := 0
  currentTask := 0
  live := []
  strays := []

/-- Ghost: an access to the task at the address. -/
def TaskList.touch (list : TaskList) (task : Nat) : TaskList :=
  if task ∈ list.live then list else { list with strays := task :: list.strays }

def TaskList.update (list : TaskList) (task : Nat) (change : Task → Task) : TaskList :=
  { list.touch task with
    tasks := fun address =>
      if address = task then change (list.tasks address) else list.tasks address }

def taskGetNext (list : TaskList) : Nat :=
  if (list.tasks list.currentTask).next = 0 then list.taskHead
  else (list.tasks list.currentTask).next

/-- What `task_init` leaves in the zeroed memory of a task with the given page directory and entry
point. -/
def taskInit (pageDirectory : Nat) (ip : BitVec 32) (process : Nat) : Task where
  pageDirectory := pageDirectory
  registers :=
    { edi := 0, esi := 0, ebp := 0, ebx := 0, edx := 0, ecx := 0, eax := 0, ip := ip,
      cs := BitVec.ofNat 32 userCodeSegment, flags := 0,
      esp := BitVec.ofNat 32 slobosProgramVirtualStackAddressStart,
      ss := BitVec.ofNat 32 userDataSegment }
  process := process
  next := 0
  prev := 0

/-- `task_new` when `kzalloc` and `task_init` succeed: the task is stored in the memory handed out
and linked in behind the tail. -/
def taskNew (list : TaskList) (task : Nat) (contents : Task) : TaskList :=
  let list := { list with live := list.live ++ [task] }
  let list := list.update task fun _ => contents
  if list.taskHead = 0 then
    { list with taskHead := task, taskTail := task, currentTask := task }
  else
    let tail := list.taskTail
    let list := list.update tail fun old => { old with next := task }
    let list := list.update task fun old => { old with prev := tail }
    { list with taskTail := task }

def taskListRemove (list : TaskList) (task : Nat) : TaskList :=
  let list := list.touch task
  let list :=
    if (list.tasks task).prev ≠ 0 then
      list.update (list.tasks task).prev fun old => { old with next := (list.tasks task).next }
    else list
  let list :=
    if task = list.taskHead then { list with taskHead := (list.tasks task).next } else list
  let list :=
    if task = list.taskTail then { list with taskTail := (list.tasks task).prev } else list
  if task = list.currentTask then { list with currentTask := taskGetNext list } else list

/-- `task_free`, which also releases the page directory of the task; `kfree` leaves the contents of
the task in place. -/
def taskFree (list : TaskList) (task : Nat) : TaskList :=
  let list := taskListRemove list task
  { list with live := list.live.erase task }

def taskSwitch (list : TaskList) (task : Nat) : TaskList :=
  { list with currentTask := task }

def taskSaveState (task : Task) (frame : InterruptFrame) : Task :=
  { task with
    registers :=
      { ip := frame.ip, cs := frame.cs, flags := frame.flags, esp := frame.esp, ss := frame.ss
        eax := frame.eax, ebp := frame.ebp, ebx := frame.ebx, ecx := frame.ecx, edi := frame.edi
        edx := frame.edx, esi := frame.esi } }

end SlobOS
