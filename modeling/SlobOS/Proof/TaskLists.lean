import SlobOS.Task
import SlobOS.Lib.LinkedLists

/-!
# The task list as a doubly linked list

What insertion and removal do to the two link functions, and which removals keep the list in order:
the removal does not set the back link of the successor, so it has to be the removal of the tail.
-/

namespace SlobOS

open LinkedLists

section Access

variable (list : TaskList) (task : Nat) (change : Task → Task)

@[simp] theorem touch_tasks : (list.touch task).tasks = list.tasks := by
  unfold TaskList.touch
  split <;> rfl

@[simp] theorem touch_taskHead : (list.touch task).taskHead = list.taskHead := by
  unfold TaskList.touch
  split <;> rfl

@[simp] theorem touch_taskTail : (list.touch task).taskTail = list.taskTail := by
  unfold TaskList.touch
  split <;> rfl

@[simp] theorem touch_currentTask : (list.touch task).currentTask = list.currentTask := by
  unfold TaskList.touch
  split <;> rfl

@[simp] theorem touch_live : (list.touch task).live = list.live := by
  unfold TaskList.touch
  split <;> rfl

theorem touch_of_mem {list : TaskList} {task : Nat} (hlive : task ∈ list.live) :
    list.touch task = list :=
  if_pos hlive

@[simp] theorem update_taskHead : (list.update task change).taskHead = list.taskHead := by
  simp [TaskList.update]

@[simp] theorem update_taskTail : (list.update task change).taskTail = list.taskTail := by
  simp [TaskList.update]

@[simp] theorem update_currentTask : (list.update task change).currentTask = list.currentTask := by
  simp [TaskList.update]

@[simp] theorem update_live : (list.update task change).live = list.live := by
  simp [TaskList.update]

@[simp] theorem update_tasks_self :
    (list.update task change).tasks task = change (list.tasks task) := by
  simp [TaskList.update]

theorem update_tasks_of_ne {address : Nat} (hne : address ≠ task) :
    (list.update task change).tasks address = list.tasks address := by
  simp [TaskList.update, hne]

theorem update_strays {list : TaskList} {task : Nat} (hlive : task ∈ list.live)
    (change : Task → Task) : (list.update task change).strays = list.strays := by
  rw [TaskList.update, touch_of_mem hlive]

end Access

def TaskList.nextOf (list : TaskList) (task : Nat) : Nat := (list.tasks task).next

def TaskList.prevOf (list : TaskList) (task : Nat) : Nat := (list.tasks task).prev

/-- The links, the anchors and the current task agree with the live tasks, and no access has missed
them. -/
structure TaskListOk (list : TaskList) : Prop where
  linked : TwoWay list.nextOf list.prevOf 0 list.taskHead list.taskTail list.live
  anchors : (list.taskHead = 0 ∧ list.taskTail = 0) ↔ list.live = []
  current : list.live ≠ [] → list.currentTask ∈ list.live
  strays : list.strays = []

theorem TaskListOk.of_linked {list : TaskList}
    (hlinked : TwoWay list.nextOf list.prevOf 0 list.taskHead list.taskTail list.live)
    (hcurrent : list.live ≠ [] → list.currentTask ∈ list.live) (hstrays : list.strays = []) :
    TaskListOk list :=
  ⟨hlinked, ⟨fun h => hlinked.head_eq_null_iff.mp h.1,
    fun h => ⟨hlinked.head_eq_null_iff.mpr h, hlinked.tail_eq_null_iff.mpr h⟩⟩, hcurrent, hstrays⟩

theorem emptyTaskList_ok (tasks : Nat → Task) : TaskListOk (emptyTaskList tasks) :=
  .of_linked .nil (fun hne => absurd rfl hne) rfl

theorem TaskListOk.taskSwitch {list : TaskList} {task : Nat} (hok : TaskListOk list)
    (hlive : task ∈ list.live) : TaskListOk (taskSwitch list task) :=
  .of_linked hok.linked (fun _ => hlive) hok.strays

/-! ### Insertion -/

/-- What `task_new` leaves in the links of the new task before it is linked in. -/
structure Unlinked (task : Task) : Prop where
  next : task.next = 0
  prev : task.prev = 0

theorem taskInit_unlinked (pageDirectory : Nat) (ip : BitVec 32) (process : Nat) :
    Unlinked (taskInit pageDirectory ip process) :=
  ⟨rfl, rfl⟩

section Insertion

variable {list : TaskList} {task : Nat} {contents : Task}

@[simp] theorem taskNew_live : (taskNew list task contents).live = list.live ++ [task] := by
  unfold taskNew
  dsimp only
  split <;> simp

theorem taskNew_of_empty (hhead : list.taskHead = 0) : taskNew list task contents =
    { ({ list with live := list.live ++ [task] } : TaskList).update task fun _ => contents with
      taskHead := task, taskTail := task, currentTask := task } := by
  unfold taskNew
  exact if_pos (by simpa using hhead)

theorem taskNew_taskHead (hhead : list.taskHead ≠ 0) :
    (taskNew list task contents).taskHead = list.taskHead := by
  simp [taskNew, hhead]

theorem taskNew_taskTail (hhead : list.taskHead ≠ 0) :
    (taskNew list task contents).taskTail = task := by
  simp [taskNew, hhead]

theorem taskNew_currentTask (hhead : list.taskHead ≠ 0) :
    (taskNew list task contents).currentTask = list.currentTask := by
  simp [taskNew, hhead]

theorem taskNew_tasks_self (hhead : list.taskHead ≠ 0) (htail : task ≠ list.taskTail) :
    (taskNew list task contents).tasks task = { contents with prev := list.taskTail } := by
  simp [taskNew, hhead, TaskList.update, htail]

theorem taskNew_tasks_tail (hhead : list.taskHead ≠ 0) (htail : task ≠ list.taskTail) :
    (taskNew list task contents).tasks list.taskTail =
      { list.tasks list.taskTail with next := task } := by
  simp [taskNew, hhead, TaskList.update, htail.symm]

theorem taskNew_tasks_of_ne (hhead : list.taskHead ≠ 0) {address : Nat} (htask : address ≠ task)
    (htail : address ≠ list.taskTail) :
    (taskNew list task contents).tasks address = list.tasks address := by
  simp [taskNew, hhead, TaskList.update, htask, htail]

theorem taskNew_pageDirectory (address : Nat) :
    ((taskNew list task contents).tasks address).pageDirectory =
      if address = task then contents.pageDirectory else (list.tasks address).pageDirectory := by
  by_cases hhead : list.taskHead = 0
  · rw [taskNew_of_empty hhead]
    by_cases htask : address = task
    · simp [htask]
    · simp [TaskList.update, htask]
  · by_cases htask : address = task <;> by_cases htail : address = list.taskTail <;>
      simp_all [taskNew, TaskList.update]

theorem taskNew_strays (hok : TaskListOk list) :
    (taskNew list task contents).strays = [] := by
  by_cases hhead : list.taskHead = 0
  · rw [taskNew_of_empty hhead]
    exact (update_strays (by simp) fun _ => contents).trans hok.strays
  · have hne : list.live ≠ [] := fun hnil => hhead (hok.linked.head_eq_null_iff.mpr hnil)
    have htail := hok.linked.tail_mem hne
    simp only [taskNew, update_taskHead, update_taskTail, if_neg hhead]
    rw [update_strays (by simp), update_strays (by simp [htail]), update_strays (by simp)]
    exact hok.strays

theorem TaskListOk.taskNew (hok : TaskListOk list) (hnull : task ≠ 0) (hnew : task ∉ list.live)
    (hcontents : Unlinked contents) : TaskListOk (taskNew list task contents) := by
  by_cases hhead : list.taskHead = 0
  · have hnil : list.live = [] := hok.linked.head_eq_null_iff.mp hhead
    refine .of_linked ?_ (fun _ => ?_) (taskNew_strays hok)
    · rw [taskNew_live, hnil, taskNew_of_empty hhead]
      exact .single hnull (by simp [TaskList.nextOf, hcontents.next])
        (by simp [TaskList.prevOf, hcontents.prev])
    · rw [taskNew_of_empty hhead]
      simp
  · have hne : list.live ≠ [] := fun hnil => hhead (hok.linked.head_eq_null_iff.mpr hnil)
    have htail : task ≠ list.taskTail := fun heq => hnew (heq ▸ hok.linked.tail_mem hne)
    refine .of_linked ?_ (fun _ => ?_) (taskNew_strays hok)
    · rw [taskNew_live, taskNew_taskHead hhead, taskNew_taskTail hhead]
      refine hok.linked.snoc hne hnull hnew ?_ ?_ (fun a ha hlast => ?_) ?_ (fun a ha => ?_)
      · simp [TaskList.nextOf, taskNew_tasks_tail hhead htail]
      · simp [TaskList.nextOf, taskNew_tasks_self hhead htail, hcontents.next]
      · have hold : a ≠ task := fun heq => hnew (heq ▸ ha)
        simp [TaskList.nextOf, taskNew_tasks_of_ne hhead hold hlast]
      · simp [TaskList.prevOf, taskNew_tasks_self hhead htail]
      · have hold : a ≠ task := fun heq => hnew (heq ▸ ha)
        by_cases hlast : a = list.taskTail
        · rw [hlast]
          simp [TaskList.prevOf, taskNew_tasks_tail hhead htail]
        · simp [TaskList.prevOf, taskNew_tasks_of_ne hhead hold hlast]
    · rw [taskNew_live, taskNew_currentTask hhead]
      exact List.mem_append_left _ (hok.current hne)

end Insertion

/-! ### Removal -/

section Removal

variable {list : TaskList} {task : Nat}

@[simp] theorem taskListRemove_live : (taskListRemove list task).live = list.live := by
  unfold taskListRemove
  dsimp only
  split_ifs <;> simp

def unlinkPrev (list : TaskList) (task : Nat) : TaskList :=
  if (list.tasks task).prev ≠ 0 then
    (list.touch task).update (list.tasks task).prev fun old =>
      { old with next := (list.tasks task).next }
  else list.touch task

theorem unlinkPrev_tasks_prev (hprev : (list.tasks task).prev ≠ 0) :
    (unlinkPrev list task).tasks (list.tasks task).prev =
      { list.tasks (list.tasks task).prev with next := (list.tasks task).next } := by
  simp [unlinkPrev, hprev]

theorem unlinkPrev_tasks_of_ne {address : Nat} (hne : address ≠ (list.tasks task).prev) :
    (unlinkPrev list task).tasks address = list.tasks address := by
  unfold unlinkPrev
  split
  · rw [update_tasks_of_ne _ _ _ hne, touch_tasks]
  · rw [touch_tasks]

@[simp] theorem unlinkPrev_next_self :
    ((unlinkPrev list task).tasks task).next = (list.tasks task).next := by
  by_cases hself : task = (list.tasks task).prev
  · by_cases hprev : (list.tasks task).prev = 0
    · simp [unlinkPrev, hprev]
    · have hchanged := unlinkPrev_tasks_prev hprev
      rw [← hself] at hchanged
      rw [hchanged]
  · rw [unlinkPrev_tasks_of_ne hself]

@[simp] theorem unlinkPrev_taskHead : (unlinkPrev list task).taskHead = list.taskHead := by
  unfold unlinkPrev
  split <;> simp

@[simp] theorem unlinkPrev_taskTail : (unlinkPrev list task).taskTail = list.taskTail := by
  unfold unlinkPrev
  split <;> simp

@[simp] theorem unlinkPrev_currentTask :
    (unlinkPrev list task).currentTask = list.currentTask := by
  unfold unlinkPrev
  split <;> simp

theorem unlinkPrev_kept (address : Nat) :
    ((unlinkPrev list task).tasks address).prev = (list.tasks address).prev ∧
      ((unlinkPrev list task).tasks address).process = (list.tasks address).process := by
  by_cases heq : address = (list.tasks task).prev
  · by_cases hprev : (list.tasks task).prev = 0
    · simp [unlinkPrev, hprev]
    · rw [heq, unlinkPrev_tasks_prev hprev]
      exact ⟨rfl, rfl⟩
  · rw [unlinkPrev_tasks_of_ne heq]
    exact ⟨rfl, rfl⟩

theorem taskListRemove_eq : taskListRemove list task =
    { unlinkPrev list task with
      taskHead := if task = list.taskHead then (list.tasks task).next else list.taskHead
      taskTail := if task = list.taskTail then (list.tasks task).prev else list.taskTail
      currentTask :=
        if task = list.currentTask then
          if (list.tasks task).next = 0 then
            if task = list.taskHead then (list.tasks task).next else list.taskHead
          else (list.tasks task).next
        else list.currentTask } := by
  have hprev := (@unlinkPrev_kept list task task).1
  have hnext := @unlinkPrev_next_self list task
  have hhead := @unlinkPrev_taskHead list task
  have htail := @unlinkPrev_taskTail list task
  have hcurrent := @unlinkPrev_currentTask list task
  unfold taskListRemove
  simp only [touch_tasks]
  generalize hmiddle : (if (list.tasks task).prev ≠ 0 then
    (list.touch task).update (list.tasks task).prev fun old =>
      { old with next := (list.tasks task).next }
    else list.touch task) = middle
  rw [show unlinkPrev list task = middle from hmiddle] at *
  clear hmiddle
  obtain ⟨tasks, head, tail, current, live, strays⟩ := middle
  simp only at hprev hnext hhead htail hcurrent
  subst head tail current
  by_cases hisHead : task = list.taskHead <;> by_cases hisTail : task = list.taskTail <;>
    by_cases hisCurrent : task = list.currentTask <;> simp_all [taskGetNext]

theorem TaskListOk.prev_mem (hok : TaskListOk list) (hlive : task ∈ list.live)
    (hprev : (list.tasks task).prev ≠ 0) : (list.tasks task).prev ∈ list.live := by
  have hmem := hok.linked.backward.link_mem task (List.mem_reverse.mpr hlive)
  exact List.mem_reverse.mp (hmem.resolve_left hprev)

theorem unlinkPrev_strays (hok : TaskListOk list) (hlive : task ∈ list.live) :
    (unlinkPrev list task).strays = [] := by
  unfold unlinkPrev
  rw [touch_of_mem hlive]
  split
  · rename_i hprev
    rw [update_strays (hok.prev_mem hlive hprev)]
    exact hok.strays
  · exact hok.strays

@[simp] theorem unlinkPrev_live : (unlinkPrev list task).live = list.live := by
  unfold unlinkPrev
  split <;> simp

theorem taskFree_live : (taskFree list task).live = list.live.erase task := by
  simp [taskFree]

theorem taskFree_prevOf : (taskFree list task).prevOf = list.prevOf := by
  funext address
  simp only [TaskList.prevOf, taskFree, taskListRemove_eq]
  exact (unlinkPrev_kept address).1

theorem TaskListOk.taskFree_tail (hok : TaskListOk list) (hlive : task ∈ list.live)
    (hnext : (list.tasks task).next = 0) : TaskListOk (taskFree list task) := by
  have htail : task = list.taskTail := (hok.linked.next_eq_null_iff hlive).mp hnext
  have hstrays : (taskFree list task).strays = [] := by
    simp only [taskFree, taskListRemove_eq]
    exact unlinkPrev_strays hok hlive
  obtain ⟨rest, last, hsplit⟩ :=
    (List.eq_nil_or_concat' list.live).resolve_left (List.ne_nil_of_mem hlive)
  have hlinked := hok.linked
  rw [hsplit] at hlinked
  obtain rfl : task = last := htail.trans hlinked.tail_eq
  have hnew : task ∉ rest := by
    have hdisjoint := (List.nodup_append.mp hlinked.nodup).2.2
    exact fun hmem => hdisjoint task hmem task (by simp) rfl
  have hrest : (taskFree list task).live = rest := by
    rw [taskFree_live, hsplit, List.erase_append_right _ hnew, List.erase_cons_head,
      List.append_nil]
  have hkept : (taskFree list task).nextOf = (unlinkPrev list task).nextOf := by
    funext address
    simp only [TaskList.nextOf, taskFree, taskListRemove_eq]
  by_cases hnil : rest = []
  · -- The only task: all three anchors become null.
    subst hnil
    obtain ⟨hhead, -, -⟩ := hlinked.forward
    obtain ⟨-, -, hprev⟩ := hlinked.backward
    refine .of_linked ?_ (fun hne => absurd hrest hne) hstrays
    rw [hrest]
    have hprev' : (list.tasks task).prev = 0 := hprev
    simp only [taskFree, taskListRemove_eq, ← htail, hhead, if_true, hnext, hprev']
    exact .nil
  · -- The tail of several: its predecessor becomes the tail.
    have hprevMem : (list.tasks task).prev ∈ rest := hlinked.prev_mem_of_snoc hnil
    have hprevNe : (list.tasks task).prev ≠ 0 :=
      hok.linked.forward.ne_null _ (by rw [hsplit]; simp [hprevMem])
    have hheadMem : list.taskHead ∈ rest := hlinked.head_mem_of_snoc hnil
    have hhead : task ≠ list.taskHead := fun heq => hnew (heq ▸ hheadMem)
    refine .of_linked ?_ (fun _ => ?_) hstrays
    · have hheadKept : (taskFree list task).taskHead = list.taskHead := by
        simp [taskFree, taskListRemove_eq, hhead]
      have htailPrev : (taskFree list task).taskTail = (list.tasks task).prev := by
        simp [taskFree, taskListRemove_eq, ← htail]
      rw [hrest, hheadKept, htailPrev]
      refine hlinked.dropLast hnil ?_ (fun a _ hne => ?_) fun a _ => ?_
      · rw [hkept]
        simp [TaskList.nextOf, TaskList.prevOf, unlinkPrev_tasks_prev hprevNe, hnext]
      · rw [hkept]
        simp only [TaskList.nextOf]
        rw [unlinkPrev_tasks_of_ne hne]
      · rw [taskFree_prevOf]
    · rw [hrest]
      simp only [taskFree, taskListRemove_eq]
      by_cases hcurrent : task = list.currentTask
      · rw [if_pos hcurrent, if_pos hnext, if_neg hhead]
        exact hheadMem
      · rw [if_neg hcurrent]
        have hmem := hok.current (List.ne_nil_of_mem hlive)
        rw [hsplit, List.mem_append, List.mem_singleton] at hmem
        exact hmem.resolve_right (Ne.symm hcurrent)

theorem not_taskListOk_taskFree (hok : TaskListOk list) (hlive : task ∈ list.live)
    (hnext : (list.tasks task).next ≠ 0) : ¬TaskListOk (taskFree list task) := by
  intro hok'
  obtain ⟨hmem, hne, hback⟩ := hok.linked.prev_next hlive hnext
  have hmem' : list.nextOf task ∈ (taskFree list task).live := by
    rw [taskFree_live]
    exact (List.mem_erase_of_ne hne).mpr hmem
  have hlink := hok'.linked.backward.link_mem _ (List.mem_reverse.mpr hmem')
  rw [taskFree_prevOf, hback, List.mem_reverse, taskFree_live] at hlink
  rcases hlink with hnull | hstale
  · exact hok.linked.forward.ne_null task hlive hnull
  · exact hok.linked.nodup.not_mem_erase hstale

theorem taskListOk_taskFree_iff (hok : TaskListOk list) (hlive : task ∈ list.live) :
    TaskListOk (taskFree list task) ↔ (list.tasks task).next = 0 :=
  ⟨fun hok' => by_contra fun hnext => not_taskListOk_taskFree hok hlive hnext hok',
    hok.taskFree_tail hlive⟩

end Removal

end SlobOS
