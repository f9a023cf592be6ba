import SlobOS.Proof.Processes
import SlobOS.Lib.Runs

/-!
# Histories of loads and exits

The system calls that load and end programs, and the exceptions that end them, in any order from the
boot on. The two notions of what is current are moved by different functions; they stay together as
long as no load stops between its two switches and no exit leaves a choice of the next task.
-/

namespace SlobOS

open Runs LinkedLists

inductive SchedAction where
  | command6 (outcome : LoadOutcome)
  | command7 (outcome : LoadOutcome) (injected : Bool)
  | exit (elfResult : Int)
  | exception (elfResult : Int)

/-- The states in which control returns to user mode; a panic is no step. -/
inductive SchedStep : Sched → SchedAction → Sched → Prop
  | command6 {sched : Sched} {outcome : LoadOutcome} : Fresh sched outcome →
      SchedStep sched (.command6 outcome) (isr80hCommand6ProcessLoadFromShell sched outcome)
  | command7 {sched : Sched} {outcome : LoadOutcome} {injected : Bool} : Fresh sched outcome →
      SchedStep sched (.command7 outcome injected)
        (isr80hCommand7InvokeSystemCommand sched outcome injected)
  | exit {sched sched' : Sched} {elfResult : Int} :
      irh80hCommand9Exit sched elfResult = some sched' → SchedStep sched (.exit elfResult) sched'
  | exception {sched sched' : Sched} {elfResult : Int} :
      irh80hCommand9Exit sched elfResult = some sched' →
        SchedStep sched (.exception elfResult) sched'

def LoadOutcome.Loads : LoadOutcome → Prop
  | .loaded _ _ _ _ => True
  | _ => False

/-- The current process ends while at most one other task is live, or, if the termination stops at
its indeterminate result, while none is. -/
def EndsSteady (sched : Sched) (elfResult : Int) : Prop :=
  if processFreeProgramData (sched.procs sched.currentProcess) elfResult < 0 then
    sched.list.live.length ≤ 1
  else sched.list.live.length ≤ 2

/-- The arguments of a program that is loaded can be injected, and a process ends while the next task
is determined. -/
def Steady (sched : Sched) : SchedAction → Prop
  | .command6 _ => True
  | .command7 outcome injected =>
      injected = true ∨ ¬outcome.Loads ∨ ∀ i < slobosMaxProcesses, sched.processes i ≠ 0
  | .exit elfResult => EndsSteady sched elfResult
  | .exception elfResult => EndsSteady sched elfResult

/-- What is current is one task and its process, registered under its id, and a key that is pushed
reaches no other process than the one that keys are popped for. -/
structure UserInv (sched : Sched) : Prop where
  task : sched.list.currentTask ≠ 0
  process : sched.owner sched.list.currentTask = sched.currentProcess
  nonnull : sched.currentProcess ≠ 0
  slot : (sched.procs sched.currentProcess).id < slobosMaxProcesses
  registered : sched.processes (sched.procs sched.currentProcess).id = sched.currentProcess
  keyboard : ∀ (c : UInt8) (process : Nat), process ≠ sched.owner sched.list.currentTask →
    (keyboardPush sched c).procs process = sched.procs process

theorem keyboardPush_procs_of_ne {sched : Sched} {process : Nat}
    (hne : process ≠ sched.currentProcess) (c : UInt8) :
    (keyboardPush sched c).procs process = sched.procs process := by
  unfold keyboardPush
  dsimp only
  split_ifs
  · rfl
  · rfl
  · exact if_neg hne

theorem SchedInv.user {sched : Sched} (hinv : SchedInv sched) : UserInv sched := by
  obtain ⟨rest, hsplit⟩ := hinv.split
  have hlast : TakenBy sched rest.length sched.list.currentTask :=
    hinv.taken _ _ (by rw [hsplit]; simp)
  have hlength := hinv.length
  rw [hsplit, List.length_append, List.length_singleton] at hlength
  have hmem := hinv.list.current hinv.nonempty
  have hprocess := hinv.process
  constructor
  case task => exact hinv.list.linked.forward.ne_null _ hmem
  case process => exact hprocess.symm
  case nonnull => exact hprocess ▸ hlast.nonnull
  case slot =>
      rw [hprocess, hlast.id]
      omega
  case registered => rw [hprocess, hlast.id, hlast.registered]
  case keyboard =>
      intro c process hne
      exact keyboardPush_procs_of_ne (by rwa [hprocess]) c

section Steps

variable {sched : Sched} {outcome : LoadOutcome}

theorem SchedInv.processLoadSwitch (hinv : SchedInv sched) (hfresh : Fresh sched outcome) :
    (∃ sched', processLoadSwitch sched outcome = (none, sched') ∧ SchedInv sched' ∧
      (¬outcome.Loads ∨ ∀ i < slobosMaxProcesses, sched.processes i ≠ 0)) ∨
    ∃ process task filetype contents, outcome = .loaded process task filetype contents ∧
      sched.list.live.length < slobosMaxProcesses ∧
      processLoadSwitch sched outcome = (some process,
        processSwitch (processLoadForSlot sched sched.list.live.length outcome).2 process) := by
  have hslot := hinv.freeSlot
  by_cases hlength : sched.list.live.length < slobosMaxProcesses
  · rw [if_pos hlength] at hslot
    cases outcome with
    | refused =>
        refine Or.inl ⟨sched, ?_, hinv, Or.inl id⟩
        simp [SlobOS.processLoadSwitch, processLoad, hslot, processLoadForSlot]
    | unmapped process task filetype contents =>
        refine Or.inl ⟨(processLoadForSlot sched sched.list.live.length
          (.unmapped process task filetype contents)).2, ?_, hinv.unmapped hfresh, Or.inl id⟩
        simp only [SlobOS.processLoadSwitch, processLoad, hslot]
        rfl
    | loaded process task filetype contents =>
        refine Or.inr ⟨process, task, filetype, contents, rfl, hlength, ?_⟩
        simp only [SlobOS.processLoadSwitch, processLoad, hslot]
        rfl
  · rw [if_neg hlength] at hslot
    refine Or.inl ⟨sched, ?_, hinv, Or.inr fun i hi => ?_⟩
    · simp [SlobOS.processLoadSwitch, processLoad, hslot]
    · have hfull := List.find?_range_eq_none.mp hslot i hi
      simpa using hfull

theorem SchedInv.command6 (hinv : SchedInv sched) (hfresh : Fresh sched outcome) :
    SchedInv (isr80hCommand6ProcessLoadFromShell sched outcome) := by
  unfold isr80hCommand6ProcessLoadFromShell
  rcases hinv.processLoadSwitch hfresh with
    ⟨sched', heq, hinv', -⟩ | ⟨process, task, filetype, contents, rfl, hlength, heq⟩
  · rw [heq]
    exact hinv'
  · rw [heq]
    exact hinv.loaded hfresh hlength

theorem SchedInv.not_user_of_not_injected {process task : Nat} {filetype : ProcessFiletype}
    {contents : Task} (hinv : SchedInv sched) (hfresh : FreshFor sched process task contents) :
    ¬UserInv (processSwitch (processLoadForSlot sched sched.list.live.length
      (.loaded process task filetype contents)).2 process) := by
  intro huser
  obtain ⟨rest, hsplit⟩ := hinv.split
  have hmem := hinv.list.current hinv.nonempty
  have hhead : sched.list.taskHead ≠ 0 :=
    fun heq => hinv.nonempty (hinv.list.linked.head_eq_null_iff.mp heq)
  have hold : sched.list.live[rest.length]? = some sched.list.currentTask := by
    rw [hsplit]
    simp
  have howner := @create_owner_of_mem sched process task sched.list.live.length filetype contents
    hfresh _ hmem
  have hprocess := huser.process
  simp only [processSwitch, processLoadForSlot, Sched.create, Sched.owner,
    taskNew_currentTask hhead] at hprocess howner
  exact hinv.owner_ne hfresh hold (howner.symm.trans hprocess)

theorem SchedInv.command7 (hinv : SchedInv sched) (hfresh : Fresh sched outcome)
    (injected : Bool) :
    let sched' := isr80hCommand7InvokeSystemCommand sched outcome injected
    (UserInv sched' ↔ Steady sched (.command7 outcome injected)) ∧
      (Steady sched (.command7 outcome injected) → SchedInv sched') := by
  unfold isr80hCommand7InvokeSystemCommand
  rcases hinv.processLoadSwitch hfresh with
    ⟨sched', heq, hinv', hfails⟩ | ⟨process, task, filetype, contents, rfl, hlength, heq⟩
  · rw [heq]
    exact ⟨⟨fun _ => Or.inr hfails, fun _ => hinv'.user⟩, fun _ => hinv'⟩
  · rw [heq]
    have hfree := hinv.free _ (Nat.le_refl _) hlength
    cases injected with
    | true =>
        have hinv' := @SchedInv.loaded _ _ _ filetype _ hinv hfresh hlength
        exact ⟨⟨fun _ => Or.inl rfl, fun _ => hinv'.user⟩, fun _ => hinv'⟩
    | false =>
        have hunsteady : ¬Steady sched (.command7 (.loaded process task filetype contents) false) := by
          rintro (hinjected | hloads | hfull)
          · cases hinjected
          · exact hloads trivial
          · exact hfull _ hlength hfree
        exact ⟨⟨fun huser => absurd huser (hinv.not_user_of_not_injected hfresh),
          fun hsteady => absurd hsteady hunsteady⟩, fun hsteady => absurd hsteady hunsteady⟩

theorem SchedInv.exit_negative_single (hinv : SchedInv sched)
    (hlive : sched.list.live = [sched.list.currentTask]) :
    SchedInv { sched with list := taskSwitch sched.list sched.list.taskHead } := by
  have hforward := hinv.list.linked.forward
  rw [hlive] at hforward
  have hswitch : taskSwitch sched.list sched.list.currentTask = sched.list := rfl
  rw [hforward.1, hswitch]
  exact hinv

theorem SchedInv.not_user_of_exit_negative (hinv : SchedInv sched) {first : Nat} {rest : List Nat}
    (hlive : sched.list.live = first :: rest ++ [sched.list.currentTask]) :
    ¬UserInv { sched with list := taskSwitch sched.list sched.list.taskHead } := by
  intro huser
  have hfirst : TakenBy sched 0 first := hinv.taken _ _ (by rw [hlive]; rfl)
  have hlast : TakenBy sched (rest.length + 1) sched.list.currentTask :=
    hinv.taken _ _ (by rw [hlive]; simp)
  have hforward := hinv.list.linked.forward
  rw [hlive] at hforward
  have hprocess : sched.owner sched.list.taskHead = sched.currentProcess := huser.process
  rw [hforward.1, hinv.process] at hprocess
  exact hfirst.owner_ne hlast (by omega) hprocess

theorem SchedInv.exit_two (hinv : SchedInv sched) {first : Nat}
    (hlive : sched.list.live = [first] ++ [sched.list.currentTask]) :
    SchedInv
      { list := taskSwitch (taskFree sched.list sched.list.currentTask) first
        procs := sched.procs
        processes := fun i => if i = 1 then 0 else sched.processes i
        currentProcess := sched.owner first } := by
  obtain ⟨hok, hlive', -⟩ := hinv.freed hlive
  have hfirst : TakenBy sched 0 first := hinv.taken _ _ (by rw [hlive]; rfl)
  have howner : ((taskFree sched.list sched.list.currentTask).tasks first).process =
      sched.owner first :=
    taskFree_process first
  constructor
  case list => exact hok.taskSwitch (by simp [hlive'])
  case nonempty => simp [taskSwitch, hlive']
  case length =>
      simp only [taskSwitch, hlive', List.length_singleton]
      decide
  case current =>
      have hlinked := hok.linked
      rw [hlive'] at hlinked
      exact hlinked.tail_eq_of_single.symm
  case taken =>
      intro i task htask
      simp only [taskSwitch, hlive', List.getElem?_singleton] at htask
      split at htask
      · rename_i hzero
        obtain rfl := Option.some.inj htask
        subst hzero
        exact hfirst.congr rfl howner rfl
      · cases htask
  case free =>
      intro i hi hmax
      simp only [taskSwitch, hlive', List.length_singleton] at hi
      by_cases hone : i = 1
      · exact if_pos hone
      · have hfree := hinv.free i (by rw [hlive]; simp; omega) hmax
        exact (if_neg hone).trans hfree
  case process => exact howner.symm

theorem SchedInv.not_user_of_exit (hinv : SchedInv sched) {first second : Nat} {rest : List Nat}
    (hlive : sched.list.live = first :: second :: rest ++ [sched.list.currentTask])
    (processes : Nat → Nat) :
    ¬UserInv
      { list := taskSwitch (taskFree sched.list sched.list.currentTask) second
        procs := sched.procs
        processes := processes
        currentProcess := sched.owner first } := by
  intro huser
  have hfirst : TakenBy sched 0 first := hinv.taken _ _ (by rw [hlive]; rfl)
  have hsecond : TakenBy sched 1 second := hinv.taken _ _ (by rw [hlive]; rfl)
  have howner : ((taskFree sched.list sched.list.currentTask).tasks second).process =
      sched.owner second :=
    taskFree_process second
  exact hfirst.owner_ne hsecond (by omega) (howner.symm.trans huser.process).symm

theorem SchedInv.exit (hinv : SchedInv sched) {sched' : Sched} {elfResult : Int}
    (hexit : irh80hCommand9Exit sched elfResult = some sched') :
    (UserInv sched' ↔ EndsSteady sched elfResult) ∧
      (EndsSteady sched elfResult → SchedInv sched') := by
  obtain ⟨tasks, hsplit⟩ := hinv.split
  have hlength : sched.list.live.length = tasks.length + 1 := by rw [hsplit]; simp
  unfold EndsSteady
  rw [hlength]
  split
  · rename_i hresult
    rw [hinv.exit_negative hresult] at hexit
    obtain rfl := Option.some.inj hexit
    cases tasks with
    | nil =>
        have hinv' := hinv.exit_negative_single hsplit
        exact ⟨⟨fun _ => by decide, fun _ => hinv'.user⟩, fun _ => hinv'⟩
    | cons first rest =>
        have huser := hinv.not_user_of_exit_negative hsplit
        have hends : ¬(first :: rest).length + 1 ≤ 1 := by simp
        exact ⟨⟨fun h => absurd h huser, fun h => absurd h hends⟩, fun h => absurd h hends⟩
  · rename_i hresult
    cases tasks with
    | nil =>
        rw [hinv.exit_single (by simpa using hsplit) hresult] at hexit
        cases hexit
    | cons first rest =>
        rw [hinv.exit_eq hsplit hresult] at hexit
        obtain ⟨hok, hlive', hnext⟩ := hinv.freed hsplit
        unfold taskNext at hexit
        simp only [hnext] at hexit
        split at hexit
        · cases hexit
        obtain rfl := Option.some.inj hexit
        cases rest with
        | nil =>
            have hinv' := hinv.exit_two hsplit
            exact ⟨⟨fun _ => Nat.le_refl 2, fun _ => hinv'.user⟩, fun _ => hinv'⟩
        | cons second rest =>
            have huser := hinv.not_user_of_exit hsplit
              fun i => if i = (second :: rest).length + 1 then 0 else sched.processes i
            have hends : ¬(first :: second :: rest).length + 1 ≤ 2 := by simp
            exact ⟨⟨fun h => absurd h huser, fun h => absurd h hends⟩, fun h => absurd h hends⟩

theorem SchedInv.step (hinv : SchedInv sched) {action : SchedAction} {sched' : Sched}
    (hstep : SchedStep sched action sched') :
    (UserInv sched' ↔ Steady sched action) ∧ (Steady sched action → SchedInv sched') := by
  cases hstep with
  | command6 hfresh =>
      have hinv' := hinv.command6 hfresh
      exact ⟨⟨fun _ => trivial, fun _ => hinv'.user⟩, fun _ => hinv'⟩
  | command7 hfresh => exact hinv.command7 hfresh _
  | exit hexit => exact hinv.exit hexit
  | exception hexit => exact hinv.exit hexit

end Steps

/-! ### Histories -/

section Boot

variable {tasks : Nat → Task} {procs : Nat → Process} {process task : Nat}
  {filetype : ProcessFiletype} {contents : Task}

/-- What the heap hands to the load of the shell. -/
structure FreshBoot (process task : Nat) (contents : Task) : Prop where
  processNull : process ≠ 0
  taskNull : task ≠ 0
  unlinked : Unlinked contents
  owned : contents.process = process

theorem bootSched_eq : bootSched tasks procs process task filetype contents =
    { list := taskSwitch (taskNew (emptyTaskList tasks) task contents) task
      procs := fun address =>
        if address = process then
          { id := 0, task := task, filetype := filetype, keyboard := emptyKeyboard }
        else procs address
      processes := fun i => if i = 0 then process else 0
      currentProcess := process } := by
  have hhead : (taskNew (emptyTaskList tasks) task contents).taskHead = task := by
    rw [taskNew_of_empty rfl]
  have hslot (list : TaskList) : processGetFreeSlot
      { list := list, procs := procs, processes := fun _ => 0, currentProcess := 0 } = some 0 := by
    unfold processGetFreeSlot
    rw [List.find?_range_eq_some]
    simp [slobosMaxProcesses]
  simp only [bootSched, processLoadSwitch, processLoad, hslot, processLoadForSlot, Sched.create,
    processSwitch, hhead]

theorem bootSched_inv (hfresh : FreshBoot process task contents) :
    SchedInv (bootSched tasks procs process task filetype contents) := by
  have hok : TaskListOk (taskNew (emptyTaskList tasks) task contents) :=
    (emptyTaskList_ok tasks).taskNew hfresh.taskNull (by simp [emptyTaskList]) hfresh.unlinked
  have hlive : (taskNew (emptyTaskList tasks) task contents).live = [task] := by
    simp [emptyTaskList]
  have howner : ((taskNew (emptyTaskList tasks) task contents).tasks task).process = process := by
    rw [taskNew_process, if_pos rfl, hfresh.owned]
  rw [bootSched_eq]
  constructor
  case list => exact hok.taskSwitch (by simp)
  case nonempty => simp [taskSwitch]
  case length =>
      simp only [taskSwitch, hlive, List.length_singleton]
      decide
  case current =>
      have hlinked := hok.linked
      rw [hlive] at hlinked
      exact hlinked.tail_eq_of_single.symm
  case taken =>
      intro i old hold
      simp only [taskSwitch, hlive, List.getElem?_singleton] at hold
      split at hold
      · rename_i hzero
        obtain rfl := Option.some.inj hold
        subst hzero
        exact ⟨howner.symm, fun hnull => hfresh.processNull (howner.symm.trans hnull),
          congrArg Process.id (if_pos howner), congrArg Process.task (if_pos howner)⟩
      · cases hold
  case free =>
      intro i hi _
      simp only [taskSwitch, hlive, List.length_singleton] at hi
      exact if_neg (by omega)
  case process => exact howner.symm

theorem schedInv_of_run {actions : List SchedAction} {sched : Sched}
    (hfresh : FreshBoot process task contents)
    (hrun : Run (Guarded Steady SchedStep) (bootSched tasks procs process task filetype contents)
      actions sched) : SchedInv sched :=
  hrun.invariant SchedInv (fun _ _ _ hinv hstep => (hinv.step hstep.2).2 hstep.1)
    (bootSched_inv hfresh)

/-- In a history of steady steps the current task belongs to the current process whenever control
returns to user mode, and the next step keeps it so exactly when it is steady too. -/
theorem sched_history_user {actions : List SchedAction} {sched : Sched}
    (hfresh : FreshBoot process task contents)
    (hrun : Run (Guarded Steady SchedStep) (bootSched tasks procs process task filetype contents)
      actions sched) :
    UserInv sched ∧ ∀ action sched', SchedStep sched action sched' →
      (UserInv sched' ↔ Steady sched action) := by
  have hinv := schedInv_of_run hfresh hrun
  exact ⟨hinv.user, fun _ _ hstep => (hinv.step hstep).1⟩

end Boot

def loadedAt (process task : Nat) : LoadOutcome :=
  .loaded process task .elf (taskInit 0 0x400000 process)

def shellSched : Sched :=
  bootSched (fun _ => taskInit 0 0 0)
    (fun _ => { id := 0, task := 0, filetype := .elf, keyboard := emptyKeyboard })
    0x2000000 0x2001000 .elf (taskInit 0 0x400000 0x2000000)

theorem shellSched_fresh : FreshBoot 0x2000000 0x2001000 (taskInit 0 0x400000 0x2000000) :=
  ⟨by decide, by decide, taskInit_unlinked _ _ _, rfl⟩

def twoSched : Sched :=
  isr80hCommand6ProcessLoadFromShell shellSched (loadedAt 0x2002000 0x2003000)

def threeSched : Sched :=
  isr80hCommand6ProcessLoadFromShell twoSched (loadedAt 0x2004000 0x2005000)

theorem twoSched_run : Run (Guarded Steady SchedStep) shellSched
    [.command6 (loadedAt 0x2002000 0x2003000)] twoSched := by
  have hfresh : Fresh shellSched (loadedAt 0x2002000 0x2003000) :=
    ⟨by decide, by decide, by decide, by decide, taskInit_unlinked _ _ _, rfl⟩
  exact .single ⟨trivial, .command6 hfresh⟩

theorem threeSched_run : Run (Guarded Steady SchedStep) shellSched
    [.command6 (loadedAt 0x2002000 0x2003000), .command6 (loadedAt 0x2004000 0x2005000)]
    threeSched := by
  have hfresh : Fresh twoSched (loadedAt 0x2004000 0x2005000) :=
    ⟨by decide, by decide, by decide, by decide, taskInit_unlinked _ _ _, rfl⟩
  exact twoSched_run.snoc ⟨trivial, .command6 hfresh⟩

theorem sched_history_user_ended : ∃ ended, irh80hCommand9Exit twoSched 0 = some ended ∧
    ended.list.live = [0x2001000] ∧ UserInv ended := by
  have hexit : (irh80hCommand9Exit twoSched 0).isSome = true := by rfl
  obtain ⟨ended, hended⟩ := Option.isSome_iff_exists.mp hexit
  have hsteady : Steady twoSched (.exit 0) := by
    unfold Steady EndsSteady
    decide
  have hrun := twoSched_run.snoc ⟨hsteady, .exit hended⟩
  refine ⟨ended, hended, ?_, (sched_history_user shellSched_fresh hrun).1⟩
  have hlive : (irh80hCommand9Exit twoSched 0).map (fun sched => sched.list.live) =
      some [0x2001000] := by rfl
  rw [hended] at hlive
  exact Option.some.inj hlive

/-- When the third of three programs ends, the second task runs and the first process is current. -/
theorem sched_history_not_user : ¬∀ tasks procs process task filetype contents actions sched,
    FreshBoot process task contents →
      Run SchedStep (bootSched tasks procs process task filetype contents) actions sched →
        UserInv sched := by
  intro hall
  have hexit : (irh80hCommand9Exit threeSched 0).isSome = true := by rfl
  obtain ⟨sched, hsched⟩ := Option.isSome_iff_exists.mp hexit
  have huser := hall _ _ _ _ _ _ _ _ shellSched_fresh (threeSched_run.unguarded.snoc (.exit hsched))
  have hinv := schedInv_of_run shellSched_fresh threeSched_run
  have hends := (hinv.exit hsched).1.mp huser
  revert hends
  unfold EndsSteady
  decide

end SlobOS
