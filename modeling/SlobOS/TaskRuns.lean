import SlobOS.Proof.TaskLists
import SlobOS.Lib.Runs

/-!
# Histories of the task list

Creations, releases and switches of tasks in any order. The memory for a new task is handed out by
the heap: it is not null and holds no live task, but it may have held one before. The list stays in
order as long as no task with a successor is released.
-/

namespace SlobOS

open Runs LinkedLists

inductive TaskAction where
  | new (task : Nat)
  | free (task : Nat)
  | switch (task : Nat)

inductive TaskStep : TaskList → TaskAction → TaskList → Prop
  | new {list : TaskList} {task : Nat} (pageDirectory : Nat) (ip : BitVec 32) (process : Nat) :
      task ≠ 0 → task ∉ list.live →
        TaskStep list (.new task) (taskNew list task (taskInit pageDirectory ip process))
  | free {list : TaskList} {task : Nat} : task ∈ list.live →
      TaskStep list (.free task) (taskFree list task)
  | switch {list : TaskList} {task : Nat} : task ∈ list.live →
      TaskStep list (.switch task) (taskSwitch list task)

def FreesTail (list : TaskList) : TaskAction → Prop
  | .free task => (list.tasks task).next = 0
  | _ => True

theorem TaskListOk.step {list list' : TaskList} {action : TaskAction} (hok : TaskListOk list)
    (htail : FreesTail list action) (hstep : TaskStep list action list') : TaskListOk list' := by
  cases hstep with
  | new pageDirectory ip process hnull hnew =>
      exact hok.taskNew hnull hnew (taskInit_unlinked pageDirectory ip process)
  | free hlive => exact hok.taskFree_tail hlive htail
  | switch hlive => exact hok.taskSwitch hlive

theorem taskListOk_of_run {tasks : Nat → Task} {actions : List TaskAction} {list : TaskList}
    (hrun : Run (Guarded FreesTail TaskStep) (emptyTaskList tasks) actions list) :
    TaskListOk list :=
  hrun.invariant TaskListOk (fun _ _ _ hok hstep => hok.step hstep.1 hstep.2)
    (emptyTaskList_ok tasks)

/-- In a history that releases only tasks without a successor the list is in order, and the next
release keeps it so exactly when it is of such a task. -/
theorem task_history_ok {tasks : Nat → Task} {actions : List TaskAction} {list : TaskList}
    (hrun : Run (Guarded FreesTail TaskStep) (emptyTaskList tasks) actions list) :
    TaskListOk list ∧ ∀ task ∈ list.live,
      TaskListOk (taskFree list task) ↔ FreesTail list (.free task) := by
  have hok := taskListOk_of_run hrun
  exact ⟨hok, fun task hlive => taskListOk_taskFree_iff hok hlive⟩

def twoTaskList : TaskList :=
  let blank := taskInit 0 0 0
  taskNew (taskNew (emptyTaskList fun _ => blank) 0x2000000 blank) 0x2001000 blank

theorem twoTaskList_run : Run (Guarded FreesTail TaskStep) (emptyTaskList fun _ => taskInit 0 0 0)
    [.new 0x2000000, .new 0x2001000] twoTaskList := by
  have hfirst : Run (Guarded FreesTail TaskStep) (emptyTaskList fun _ => taskInit 0 0 0)
      [.new 0x2000000] (taskNew (emptyTaskList fun _ => taskInit 0 0 0) 0x2000000
        (taskInit 0 0 0)) :=
    .single ⟨trivial, .new 0 0 0 (by decide) (by decide)⟩
  exact hfirst.snoc ⟨trivial, .new 0 0 0 (by decide) (by decide)⟩

theorem task_history_ok_freed : TaskListOk (taskFree twoTaskList 0x2001000) := by
  have hlive : 0x2001000 ∈ twoTaskList.live := by decide
  have htail : FreesTail twoTaskList (.free 0x2001000) :=
    (by decide : (twoTaskList.tasks 0x2001000).next = 0)
  exact (task_history_ok (twoTaskList_run.snoc ⟨htail, .free hlive⟩)).1

/-- Released first, the older of two tasks is still the predecessor of the other one. -/
theorem task_history_not_ok : ¬∀ tasks actions list,
    Run TaskStep (emptyTaskList tasks) actions list → TaskListOk list := by
  intro hall
  have hlive : 0x2000000 ∈ twoTaskList.live := by decide
  have hnext : (twoTaskList.tasks 0x2000000).next ≠ 0 := by decide
  exact not_taskListOk_taskFree (taskListOk_of_run twoTaskList_run) hlive hnext
    (hall _ _ _ (twoTaskList_run.unguarded.snoc (.free hlive)))

end SlobOS
