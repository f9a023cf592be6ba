import SlobOS.Process
import SlobOS.Proof.TaskLists

/-!
# The processes behind the tasks

While the newest task is the current one, the registered processes are those of the live tasks in
the order of the slots. A load keeps it so, and so does the end of the newest task, as long as one
task at most is left: of two or more tasks, the list and the array of processes choose differently.
-/

namespace SlobOS

open LinkedLists

section Owners

variable {list : TaskList} {task : Nat} {contents : Task}

theorem taskNew_process (address : Nat) :
    ((taskNew list task contents).tasks address).process =
      if address = task then contents.process else (list.tasks address).process := by
  by_cases hhead : list.taskHead = 0
  · rw [taskNew_of_empty hhead]
    by_cases htask : address = task
    · simp [htask]
    · simp [TaskList.update, htask]
  · by_cases htask : address = task <;> by_cases htail : address = list.taskTail <;>
      simp_all [taskNew, TaskList.update]

theorem taskFree_process (address : Nat) :
    ((taskFree list task).tasks address).process = (list.tasks address).process := by
  simp only [taskFree, taskListRemove_eq]
  exact (unlinkPrev_kept address).2

end Owners

structure TakenBy (sched : Sched) (slot task : Nat) : Prop where
  registered : sched.processes slot = sched.owner task
  nonnull : sched.owner task ≠ 0
  id : (sched.procs (sched.owner task)).id = slot
  task : (sched.procs (sched.owner task)).task = task

theorem TakenBy.congr {sched sched' : Sched} {slot task : Nat} (htaken : TakenBy sched slot task)
    (hregistered : sched'.processes slot = sched.processes slot)
    (howner : sched'.owner task = sched.owner task)
    (hproc : sched'.procs (sched.owner task) = sched.procs (sched.owner task)) :
    TakenBy sched' slot task := by
  obtain ⟨heq, hne, hid, htask⟩ := htaken
  constructor <;> rw [howner]
  case registered => exact hregistered.trans heq
  case nonnull => exact hne
  case id => rw [hproc, hid]
  case task => rw [hproc, htask]

theorem TakenBy.owner_ne {sched : Sched} {i j first second : Nat} (hfirst : TakenBy sched i first)
    (hsecond : TakenBy sched j second) (hne : i ≠ j) : sched.owner first ≠ sched.owner second := by
  intro heq
  have hid := hfirst.id
  rw [heq, hsecond.id] at hid
  exact hne hid.symm

/-- The registered processes are those of the live tasks, slot by slot, and the newest task is the
current one. -/
structure SchedInv (sched : Sched) : Prop where
  list : TaskListOk sched.list
  nonempty : sched.list.live ≠ []
  length : sched.list.live.length ≤ slobosMaxProcesses
  current : sched.list.currentTask = sched.list.taskTail
  taken : ∀ i task : Nat, sched.list.live[i]? = some task → TakenBy sched i task
  free : ∀ i, sched.list.live.length ≤ i → i < slobosMaxProcesses → sched.processes i = 0
  process : sched.currentProcess = sched.owner sched.list.currentTask

section Inv

variable {sched : Sched}

theorem SchedInv.freeSlot (hinv : SchedInv sched) : processGetFreeSlot sched =
    if sched.list.live.length < slobosMaxProcesses then some sched.list.live.length else none := by
  have htaken (i : Nat) (hi : i < sched.list.live.length) : sched.processes i ≠ 0 := by
    have htaken := hinv.taken i _ (List.getElem?_eq_getElem hi)
    rw [htaken.registered]
    exact htaken.nonnull
  unfold processGetFreeSlot
  split
  · rename_i hlength
    rw [List.find?_range_eq_some]
    refine ⟨by simpa using hinv.free _ (Nat.le_refl _) hlength, by simpa using hlength, ?_⟩
    intro j hj
    simpa using htaken j hj
  · rename_i hlength
    rw [List.find?_range_eq_none]
    intro i hi
    simpa using htaken i (by omega)

/-- What the heap and `task_init` hand to a load: the process and the task lie where no registered
process and no live task lies. -/
structure FreshFor (sched : Sched) (process task : Nat) (contents : Task) : Prop where
  processNull : process ≠ 0
  processNew : ∀ i < slobosMaxProcesses, sched.processes i ≠ process
  taskNull : task ≠ 0
  taskNew : task ∉ sched.list.live
  unlinked : Unlinked contents
  owned : contents.process = process

def Fresh (sched : Sched) : LoadOutcome → Prop
  | .refused => True
  | .unmapped process task _ contents => FreshFor sched process task contents
  | .loaded process task _ contents => FreshFor sched process task contents

variable {process task slot : Nat} {filetype : ProcessFiletype} {contents : Task}

theorem create_owner_self (hfresh : FreshFor sched process task contents) :
    (sched.create slot process task filetype contents).owner task = process := by
  simp [Sched.owner, Sched.create, taskNew_process, hfresh.owned]

theorem create_owner_of_mem (hfresh : FreshFor sched process task contents) {old : Nat}
    (hold : old ∈ sched.list.live) :
    (sched.create slot process task filetype contents).owner old = sched.owner old := by
  have hne : old ≠ task := fun heq => hfresh.taskNew (heq ▸ hold)
  simp [Sched.owner, Sched.create, taskNew_process, hne]

theorem SchedInv.owner_ne (hinv : SchedInv sched) (hfresh : FreshFor sched process task contents)
    {i old : Nat} (hold : sched.list.live[i]? = some old) : sched.owner old ≠ process := by
  have hi : i < sched.list.live.length := (List.getElem?_eq_some_iff.mp hold).1
  have hnew := hfresh.processNew i (Nat.lt_of_lt_of_le hi hinv.length)
  rwa [(hinv.taken i old hold).registered] at hnew

theorem SchedInv.unmapped (hinv : SchedInv sched) (hfresh : FreshFor sched process task contents) :
    SchedInv (processLoadForSlot sched slot (.unmapped process task filetype contents)).2 := by
  have hne := hinv.nonempty
  have hhead : sched.list.taskHead ≠ 0 := fun heq => hne (hinv.list.linked.head_eq_null_iff.mp heq)
  have htail : task ≠ sched.list.taskTail :=
    fun heq => hfresh.taskNew (heq ▸ hinv.list.linked.tail_mem hne)
  have hok : TaskListOk (taskNew sched.list task contents) :=
    hinv.list.taskNew hfresh.taskNull hfresh.taskNew hfresh.unlinked
  have hmem : task ∈ (taskNew sched.list task contents).live := by simp
  have hnext : ((taskNew sched.list task contents).tasks task).next = 0 := by
    rw [taskNew_tasks_self hhead htail]
    exact hfresh.unlinked.next
  have hlive : (taskFree (taskNew sched.list task contents) task).live = sched.list.live := by
    rw [taskFree_live, taskNew_live, List.erase_append_right _ hfresh.taskNew]
    simp
  have hcurrentMem := hinv.list.current hne
  have hcurrentNe : task ≠ sched.list.currentTask := fun heq => hfresh.taskNew (heq ▸ hcurrentMem)
  have hcurrent : (taskFree (taskNew sched.list task contents) task).currentTask =
      sched.list.currentTask := by
    simp only [taskFree, taskListRemove_eq, taskNew_currentTask hhead, if_neg hcurrentNe]
  have howner (old : Nat) (hold : old ∈ sched.list.live) :
      ((taskFree (taskNew sched.list task contents) task).tasks old).process =
        sched.owner old := by
    have holdNe : old ≠ task := fun heq => hfresh.taskNew (heq ▸ hold)
    rw [taskFree_process, taskNew_process, if_neg holdNe]
    rfl
  constructor
  case list => exact hok.taskFree_tail hmem hnext
  case nonempty => exact fun hnil => hne (hlive.symm.trans hnil)
  case length => exact hlive ▸ hinv.length
  case current =>
      simp only [processLoadForSlot, Sched.create, hcurrent, hinv.current]
      simp only [taskFree, taskListRemove_eq, taskNew_taskTail hhead, if_true,
        taskNew_tasks_self hhead htail]
  case taken =>
      intro i old hold
      simp only [processLoadForSlot, Sched.create, hlive] at hold
      refine (hinv.taken i old hold).congr rfl (howner old (List.mem_of_getElem? hold)) ?_
      exact if_neg (hinv.owner_ne hfresh hold)
  case free =>
      intro i hi
      simp only [processLoadForSlot, Sched.create, hlive] at hi ⊢
      exact hinv.free i hi
  case process =>
      simp only [processLoadForSlot, Sched.create, Sched.owner, hcurrent, howner _ hcurrentMem]
      exact hinv.process

theorem entered_eq : enterProcess (processSwitch (processLoadForSlot sched slot
      (.loaded process task filetype contents)).2 process) process =
    { list := taskSwitch (taskNew sched.list task contents) task
      procs := (sched.create slot process task filetype contents).procs
      processes := fun i => if i = slot then process else sched.processes i
      currentProcess := process } := by
  simp [enterProcess, processSwitch, processLoadForSlot, Sched.create]

theorem SchedInv.loaded (hinv : SchedInv sched) (hfresh : FreshFor sched process task contents)
    (hslot : sched.list.live.length < slobosMaxProcesses) :
    SchedInv (enterProcess (processSwitch (processLoadForSlot sched sched.list.live.length
      (.loaded process task filetype contents)).2 process) process) := by
  have hok : TaskListOk (taskNew sched.list task contents) :=
    hinv.list.taskNew hfresh.taskNull hfresh.taskNew hfresh.unlinked
  have hhead : sched.list.taskHead ≠ 0 :=
    fun heq => hinv.nonempty (hinv.list.linked.head_eq_null_iff.mp heq)
  have hself := @create_owner_self sched process task sched.list.live.length filetype contents hfresh
  rw [entered_eq]
  constructor
  case list => exact hok.taskSwitch (by simp)
  case nonempty => simp [taskSwitch]
  case length =>
      simp only [taskSwitch, taskNew_live, List.length_append, List.length_singleton]
      omega
  case current => simp [taskSwitch, taskNew_taskTail hhead]
  case taken =>
      intro i old hold
      simp only [taskSwitch, taskNew_live] at hold
      by_cases hi : i < sched.list.live.length
      · rw [List.getElem?_append_left hi] at hold
        refine (hinv.taken i old hold).congr (if_neg (by omega)) ?_
          (if_neg (hinv.owner_ne hfresh hold))
        exact @create_owner_of_mem sched process task sched.list.live.length filetype contents
          hfresh old (List.mem_of_getElem? hold)
      · rw [List.getElem?_append_right (by omega), List.getElem?_singleton] at hold
        split at hold
        · rename_i hzero
          obtain rfl : i = sched.list.live.length := by omega
          obtain rfl : task = old := Option.some.inj hold
          exact ⟨(if_pos rfl).trans hself.symm, fun hnull => hfresh.processNull (hself.symm.trans hnull),
            congrArg Process.id (if_pos hself), congrArg Process.task (if_pos hself)⟩
        · exact absurd hold (by simp)
  case free =>
      intro i hi hmax
      simp only [taskSwitch, taskNew_live, List.length_append, List.length_singleton] at hi
      exact (if_neg (by omega)).trans (hinv.free i (by omega) hmax)
  case process => exact hself.symm

/-! ### Exits -/

theorem SchedInv.split (hinv : SchedInv sched) :
    ∃ rest, sched.list.live = rest ++ [sched.list.currentTask] := by
  obtain ⟨rest, last, hsplit⟩ := (List.eq_nil_or_concat' sched.list.live).resolve_left hinv.nonempty
  have hlinked := hinv.list.linked
  rw [hsplit] at hlinked
  exact ⟨rest, by rw [hsplit, hinv.current, hlinked.tail_eq]⟩

/-- The scheduler when the newest of several tasks has ended: the oldest process is the current one,
and the task that follows the oldest task. -/
theorem SchedInv.exit_eq (hinv : SchedInv sched) {first : Nat} {rest : List Nat} {elfResult : Int}
    (hlive : sched.list.live = first :: rest ++ [sched.list.currentTask])
    (hresult : ¬processFreeProgramData (sched.procs sched.currentProcess) elfResult < 0) :
    irh80hCommand9Exit sched elfResult =
      taskNext
        { list := taskFree sched.list sched.list.currentTask
          procs := sched.procs
          processes := fun i => if i = rest.length + 1 then 0 else sched.processes i
          currentProcess := sched.owner first } := by
  have hlast : TakenBy sched (rest.length + 1) sched.list.currentTask :=
    hinv.taken _ _ (by rw [hlive]; simp)
  have hfirst : TakenBy sched 0 first := hinv.taken _ _ (by rw [hlive]; rfl)
  have hany : (List.range slobosMaxProcesses).find? (fun i =>
      (if i = rest.length + 1 then 0 else sched.processes i) ≠ 0) = some 0 := by
    rw [List.find?_range_eq_some]
    refine ⟨?_, by decide, fun j hj => absurd hj (Nat.not_lt_zero j)⟩
    simp [hfirst.registered, hfirst.nonnull]
  have hprocess := hinv.process
  unfold irh80hCommand9Exit processTerminate
  rw [← hprocess, if_neg hresult]
  have hid := hlast.id
  have htask := hlast.task
  rw [← hprocess] at hid htask
  simp only [processUnlink, hid, htask, if_true, processSwitchToAny, hany, processSwitch]
  simp [hfirst.registered]

theorem SchedInv.exit_single (hinv : SchedInv sched) {elfResult : Int}
    (hlive : sched.list.live = [sched.list.currentTask])
    (hresult : ¬processFreeProgramData (sched.procs sched.currentProcess) elfResult < 0) :
    irh80hCommand9Exit sched elfResult = none := by
  have hlast : TakenBy sched 0 sched.list.currentTask := hinv.taken _ _ (by rw [hlive]; rfl)
  have hany : (List.range slobosMaxProcesses).find? (fun i =>
      (if i = 0 then 0 else sched.processes i) ≠ 0) = none := by
    rw [List.find?_range_eq_none]
    intro i hi
    by_cases hzero : i = 0
    · simp [hzero]
    · have hfree := hinv.free i (by rw [hlive, List.length_singleton]; omega) hi
      simp [hzero, hfree]
  have hprocess := hinv.process
  unfold irh80hCommand9Exit processTerminate
  rw [← hprocess, if_neg hresult]
  have hid := hlast.id
  rw [← hprocess] at hid
  simp only [processUnlink, hid, if_true, processSwitchToAny, hany]

theorem SchedInv.exit_negative (hinv : SchedInv sched) {elfResult : Int}
    (hresult : processFreeProgramData (sched.procs sched.currentProcess) elfResult < 0) :
    irh80hCommand9Exit sched elfResult =
      some { sched with list := taskSwitch sched.list sched.list.taskHead } := by
  have hnext : (sched.list.tasks sched.list.taskTail).next = 0 :=
    hinv.list.linked.next_tail hinv.nonempty
  have hhead : sched.list.taskHead ≠ 0 :=
    fun heq => hinv.nonempty (hinv.list.linked.head_eq_null_iff.mp heq)
  unfold irh80hCommand9Exit processTerminate
  rw [← hinv.process, if_pos hresult]
  simp [taskNext, taskGetNext, hinv.current, hnext, hhead]

theorem SchedInv.freed (hinv : SchedInv sched) {first : Nat} {rest : List Nat}
    (hlive : sched.list.live = first :: rest ++ [sched.list.currentTask]) :
    TaskListOk (taskFree sched.list sched.list.currentTask) ∧
      (taskFree sched.list sched.list.currentTask).live = first :: rest ∧
      taskGetNext (taskFree sched.list sched.list.currentTask) = (rest.head?).getD first := by
  have hcurrent := hinv.list.current hinv.nonempty
  have hnext : (sched.list.tasks sched.list.currentTask).next = 0 := by
    rw [hinv.current]
    exact hinv.list.linked.next_tail hinv.nonempty
  have hok := hinv.list.taskFree_tail hcurrent hnext
  have hnodup := hinv.list.linked.nodup
  rw [hlive] at hnodup
  have hnew : sched.list.currentTask ∉ first :: rest := by
    have hdisjoint := (List.nodup_append.mp hnodup).2.2
    exact fun hmem => hdisjoint _ hmem _ (by simp) rfl
  have hlive' : (taskFree sched.list sched.list.currentTask).live = first :: rest := by
    rw [taskFree_live, hlive, List.erase_append_right _ hnew, List.erase_cons_head,
      List.append_nil]
  refine ⟨hok, hlive', ?_⟩
  have hforward := hinv.list.linked.forward
  rw [hlive] at hforward
  have hforward' := hok.linked.forward
  rw [hlive'] at hforward'
  have hne : sched.list.currentTask ≠ first := fun heq => hnew (heq ▸ List.mem_cons_self)
  have hcurrent' : (taskFree sched.list sched.list.currentTask).currentTask = first := by
    simp only [taskFree, taskListRemove_eq, if_true, hnext]
    rw [if_neg fun heq => hne (heq.trans hforward.1), hforward.1]
  unfold taskGetNext
  rw [hcurrent', hforward'.1]
  obtain ⟨-, -, hrest⟩ := hforward'
  cases rest with
  | nil =>
      have hnil : (((taskFree sched.list sched.list.currentTask).tasks first).next) = 0 := hrest
      simp [hnil]
  | cons second rest =>
      have hsecond : (((taskFree sched.list sched.list.currentTask).tasks first).next) = second :=
        hrest.1
      rw [hsecond, if_neg hrest.2.1]
      rfl

end Inv

end SlobOS
