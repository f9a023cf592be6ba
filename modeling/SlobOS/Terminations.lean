import Mathlib.Data.List.Cycle
import SlobOS.ProcessRuns

/-!
# The task that runs after a termination

Taking the current task out of the list makes its successor the current one, and the scheduler then
takes the successor of that. With two tasks both are the same.
-/

namespace SlobOS

open Runs LinkedLists

/-- The next task is the successor of the one that was current, in the order of the list and from the
tail to the head. -/
def RunsSuccessor (before after : Sched) : Prop :=
  ∃ hmem, after.list.currentTask = before.list.live.next before.list.currentTask hmem

/-- The process of the current task ends, and the successor runs. -/
def ResumesSuccessor (sched : Sched) (elfResult : Int) : Prop :=
  ∃ sched', irh80hCommand9Exit sched elfResult = some sched' ∧ RunsSuccessor sched sched'

/-- At most two tasks are left, or the termination stops at its indeterminate result. -/
def EndsOfTwo (sched : Sched) (elfResult : Int) : Prop :=
  sched.list.live.length ≤ 2 ∨
    processFreeProgramData (sched.procs (sched.owner sched.list.currentTask)) elfResult < 0

def TerminatesOfTwo (sched : Sched) : SchedAction → Prop
  | .exit elfResult => EndsOfTwo sched elfResult
  | .exception elfResult => EndsOfTwo sched elfResult
  | _ => False

def SuccessorStep (before : Sched) (action : SchedAction) (after : Sched) : Prop :=
  SchedStep before action after ∧ (2 ≤ before.list.live.length → RunsSuccessor before after)

/-- The list is in order, and each live task belongs to a registered process. -/
structure Ready (sched : Sched) : Prop where
  list : TaskListOk sched.list
  taken : ∀ task ∈ sched.list.live, ∃ slot < slobosMaxProcesses, TakenBy sched slot task

theorem SchedInv.ready {sched : Sched} (hinv : SchedInv sched) : Ready sched := by
  refine ⟨hinv.list, fun task hlive => ?_⟩
  obtain ⟨slot, hslot⟩ := List.getElem?_of_mem hlive
  have hlt : slot < sched.list.live.length := (List.getElem?_eq_some_iff.mp hslot).1
  exact ⟨slot, Nat.lt_of_lt_of_le hlt hinv.length, hinv.taken slot task hslot⟩

section Successor

variable {list : TaskList} {before after : List Nat} {task : Nat}

theorem next_append (hnodup : (before ++ task :: after).Nodup) (hmem : task ∈ before ++ task :: after) :
    (before ++ task :: after).next task hmem = (after ++ before).headD task := by
  have hrotated : (before ++ task :: after).IsRotated (task :: after ++ before) :=
    List.isRotated_append
  rw [List.isRotated_next_eq hrotated hnodup hmem]
  cases hothers : after ++ before with
  | nil => simp [hothers]
  | cons other others => simp [hothers]

theorem ring_nodup (hnodup : (before ++ task :: after).Nodup) {next : Nat} {others : List Nat}
    (hothers : after ++ before = next :: others) : (task :: next :: others).Nodup := by
  have hrotated : (before ++ task :: after).IsRotated (task :: after ++ before) :=
    List.isRotated_append
  rw [hrotated.nodup_iff, List.cons_append, hothers] at hnodup
  exact hnodup

theorem taskGetNext_eq (hforward : Leads list.nextOf 0 list.taskHead list.live 0)
    (hlive : list.live = before ++ list.currentTask :: after) :
    taskGetNext list = (after ++ before).headD list.currentTask := by
  rw [hlive] at hforward
  exact hforward.successor

theorem TaskListOk.taskGetNext_eq_next (hok : TaskListOk list) (hmem : list.currentTask ∈ list.live) :
    taskGetNext list = list.live.next list.currentTask hmem := by
  obtain ⟨before, after, hlive⟩ := List.append_of_mem hmem
  have hnodup := hok.linked.nodup
  have hnext := taskGetNext_eq hok.linked.forward hlive
  rw [hlive] at hnodup
  rw [hnext, ← next_append hnodup (by simp)]
  congr 1
  exact hlive.symm

end Successor

section Freed

variable {list : TaskList} {before after : List Nat}

theorem taskFree_nextOf {task freed : Nat} (hnull : task ≠ 0) :
    (taskFree list freed).nextOf task =
      if task = list.prevOf freed then list.nextOf freed else list.nextOf task := by
  have hnext : (taskFree list freed).nextOf task = (unlinkPrev list freed).nextOf task := by
    simp only [TaskList.nextOf, taskFree, taskListRemove_eq]
  rw [hnext]
  by_cases hprev : task = list.prevOf freed
  · rw [if_pos hprev]
    rw [hprev] at hnull ⊢
    have hchanged := congrArg Task.next (unlinkPrev_tasks_prev hnull)
    exact hchanged
  · rw [if_neg hprev]
    exact congrArg Task.next (unlinkPrev_tasks_of_ne hprev)

theorem TaskListOk.freed_forward (hok : TaskListOk list)
    (hlive : list.live = before ++ list.currentTask :: after) :
    Leads (taskFree list list.currentTask).nextOf 0 (taskFree list list.currentTask).taskHead
      (before ++ after) 0 := by
  have hlinked := hok.linked
  rw [hlive] at hlinked
  apply hlinked.removed
  · intro task htask
    apply taskFree_nextOf
    apply hlinked.forward.ne_null
    rw [List.mem_append] at htask
    rw [List.mem_append, List.mem_cons]
    exact htask.imp id .inr
  · simp only [taskFree, taskListRemove_eq]
    rfl

theorem TaskListOk.freed_currentTask (hok : TaskListOk list)
    (hlive : list.live = before ++ list.currentTask :: after) {next : Nat} {others : List Nat}
    (hothers : after ++ before = next :: others) :
    (taskFree list list.currentTask).currentTask = next := by
  have hnodup := hok.linked.nodup
  have hsuccessor := taskGetNext_eq hok.linked.forward hlive
  have hhead : list.currentTask = list.taskHead → (list.tasks list.currentTask).next ≠ 0 := by
    intro hfirst hlast
    have hlinked := hok.linked
    rw [hlive] at hlinked hnodup
    have hlink : list.nextOf list.currentTask = after.headD 0 := hlinked.forward.link_eq
    cases after with
    | nil =>
        cases before with
        | nil => cases hothers
        | cons first before =>
            have hforward := hlinked.forward.1
            rw [← hfirst] at hforward
            rw [← hforward] at hnodup
            simp at hnodup
    | cons first after =>
        exact hlinked.forward.ne_null first (by simp) (hlink.symm.trans hlast)
  rw [hothers, List.headD_cons, taskGetNext] at hsuccessor
  simp only [taskFree, taskListRemove_eq, if_true]
  rw [← hsuccessor]
  by_cases hlast : (list.tasks list.currentTask).next = 0
  · rw [if_pos hlast, if_pos hlast, if_neg fun hfirst => hhead hfirst hlast]
  · rw [if_neg hlast, if_neg hlast]

theorem TaskListOk.freed_getNext (hok : TaskListOk list)
    (hlive : list.live = before ++ list.currentTask :: after) {next : Nat} {others : List Nat}
    (hothers : after ++ before = next :: others) :
    taskGetNext (taskFree list list.currentTask) = others.headD next := by
  have hforward := hok.freed_forward hlive
  have hcurrent := hok.freed_currentTask hlive hothers
  change (if (taskFree list list.currentTask).nextOf (taskFree list list.currentTask).currentTask = 0
    then _ else _) = _
  rw [hcurrent]
  cases after with
  | nil =>
      rw [List.nil_append] at hothers
      rw [hothers, List.append_nil] at hforward
      have hsuccessor := @Leads.successor Nat 0 _ _ _ [] others next hforward
      rwa [List.append_nil] at hsuccessor
  | cons first after =>
      rw [List.cons_append, List.cons.injEq] at hothers
      obtain ⟨rfl, rfl⟩ := hothers
      exact hforward.successor

end Freed

section Exit

variable {sched : Sched} {elfResult : Int} {before after : List Nat}

theorem processSwitchToAny_eq {slot : Nat} (hslot : slot < slobosMaxProcesses)
    (hregistered : sched.processes slot ≠ 0) :
    ∃ process, processSwitchToAny sched = some (processSwitch sched process) := by
  have hsome : ((List.range slobosMaxProcesses).find? fun i => sched.processes i ≠ 0).isSome := by
    rw [List.find?_isSome]
    exact ⟨slot, List.mem_range.mpr hslot, by simpa using hregistered⟩
  obtain ⟨i, hi⟩ := Option.isSome_iff_exists.mp hsome
  refine ⟨sched.processes i, ?_⟩
  rw [processSwitchToAny, hi]

theorem processUnlink_list {process slot : Nat} (hslot : slot < slobosMaxProcesses)
    (hother : slot ≠ (sched.procs process).id) (hregistered : sched.processes slot ≠ 0) :
    ∃ sched', processUnlink sched process = some sched' ∧ sched'.list = sched.list := by
  rw [processUnlink]
  by_cases hcurrent : sched.currentProcess = process
  · obtain ⟨next, heq⟩ := @processSwitchToAny_eq { sched with processes := fun i =>
      if i = (sched.procs process).id then 0 else sched.processes i } slot hslot
        (by simpa [hother] using hregistered)
    exact ⟨_, (if_pos hcurrent).trans heq, rfl⟩
  · exact ⟨_, if_neg hcurrent, rfl⟩

theorem Ready.processTerminate (hready : Ready sched)
    (hmem : sched.list.currentTask ∈ sched.list.live) {other : Nat} (hother : other ∈ sched.list.live)
    (hne : other ≠ sched.list.currentTask)
    (hresult : ¬processFreeProgramData (sched.procs (sched.owner sched.list.currentTask)) elfResult < 0) :
    ∃ sched', processTerminate sched (sched.owner sched.list.currentTask) elfResult = some sched' ∧
      sched'.list = taskFree sched.list sched.list.currentTask := by
  obtain ⟨slot, -, htaken⟩ := hready.taken _ hmem
  obtain ⟨slot', hslot', htaken'⟩ := hready.taken _ hother
  have hslots : slot' ≠ slot := by
    rintro rfl
    have howner := htaken'.registered.symm.trans htaken.registered
    have htask := htaken'.task
    rw [howner, htaken.task] at htask
    exact hne htask.symm
  rw [SlobOS.processTerminate, if_neg hresult, htaken.task]
  apply processUnlink_list hslot'
  · rwa [htaken.id]
  · change sched.processes slot' ≠ 0
    rw [htaken'.registered]
    exact htaken'.nonnull

theorem Ready.exit (hready : Ready sched)
    (hlive : sched.list.live = before ++ sched.list.currentTask :: after) {next : Nat}
    {others : List Nat} (hothers : after ++ before = next :: others)
    (hresult : ¬processFreeProgramData (sched.procs (sched.owner sched.list.currentTask)) elfResult < 0) :
    ∃ sched', irh80hCommand9Exit sched elfResult = some sched' ∧
      sched'.list = taskSwitch (taskFree sched.list sched.list.currentTask) (others.headD next) := by
  have hmem : sched.list.currentTask ∈ sched.list.live := by
    rw [hlive]
    simp
  have hperm : next :: others ⊆ sched.list.live := by
    intro task htask
    rw [← hothers, List.mem_append] at htask
    rw [hlive, List.mem_append, List.mem_cons]
    exact htask.elim (fun hafter => .inr (.inr hafter)) .inl
  have hnext : next ∈ sched.list.live := hperm List.mem_cons_self
  have hne : next ≠ sched.list.currentTask := by
    have hnodup := hready.list.linked.nodup
    rw [hlive] at hnodup
    have hfirst := (List.nodup_cons.mp (ring_nodup hnodup hothers)).1
    exact fun heq => hfirst (heq ▸ List.mem_cons_self)
  have hresumed : others.headD next ≠ 0 := by
    apply hready.list.linked.forward.ne_null
    cases others with
    | nil => exact hnext
    | cons other others => exact hperm (List.mem_cons_of_mem _ List.mem_cons_self)
  obtain ⟨sched', hterminate, hlist⟩ := hready.processTerminate hmem hnext hne hresult
  refine ⟨{ sched' with list := taskSwitch sched'.list (others.headD next) }, ?_, ?_⟩
  · rw [irh80hCommand9Exit, hterminate]
    simp only [taskNext, hlist, hready.list.freed_getNext hlive hothers, if_neg hresumed]
  · rw [hlist]

theorem Ready.exit_negative (hready : Ready sched) (hmem : sched.list.currentTask ∈ sched.list.live)
    (hresult : processFreeProgramData (sched.procs (sched.owner sched.list.currentTask)) elfResult < 0) :
    irh80hCommand9Exit sched elfResult = some { sched with
      list := taskSwitch sched.list (sched.list.live.next sched.list.currentTask hmem) } := by
  have hnext := hready.list.taskGetNext_eq_next hmem
  have hnull : sched.list.live.next sched.list.currentTask hmem ≠ 0 :=
    hready.list.linked.forward.ne_null _ (List.next_mem _ _ hmem)
  rw [irh80hCommand9Exit, SlobOS.processTerminate, if_pos hresult]
  simp only [taskNext, hnext, if_neg hnull]

theorem Ready.resumesSuccessor_iff (hready : Ready sched) (htwo : 2 ≤ sched.list.live.length) :
    ResumesSuccessor sched elfResult ↔ EndsOfTwo sched elfResult := by
  have hne : sched.list.live ≠ [] := List.ne_nil_of_length_pos (by omega)
  have hmem := hready.list.current hne
  by_cases hresult :
      processFreeProgramData (sched.procs (sched.owner sched.list.currentTask)) elfResult < 0
  · exact ⟨fun _ => .inr hresult, fun _ => ⟨_, hready.exit_negative hmem hresult, hmem, rfl⟩⟩
  · obtain ⟨before, after, hlive⟩ := List.append_of_mem hmem
    have hnodup := hready.list.linked.nodup
    rw [hlive] at hnodup
    have hlength : sched.list.live.length = (after ++ before).length + 1 := by
      rw [hlive, List.length_append, List.length_append, List.length_cons]
      omega
    obtain ⟨next, others, hothers⟩ := List.exists_cons_of_length_pos (l := after ++ before) (by omega)
    obtain ⟨sched', hexit, hlist⟩ := hready.exit hlive hothers hresult
    -- The task that runs is the one behind the successor, so it is the successor if there is no other.
    have hsuccessor : RunsSuccessor sched sched' ↔ others.headD next = next := by
      have hnext := next_append hnodup (by simp)
      rw [hothers, List.headD_cons] at hnext
      have hlive' : sched.list.live.next sched.list.currentTask hmem = next := by
        rw [← hnext]
        congr 1
      rw [RunsSuccessor, hlist]
      constructor
      · rintro ⟨_, heq⟩
        rwa [hlive'] at heq
      · intro heq
        exact ⟨hmem, heq.trans hlive'.symm⟩
    constructor
    · rintro ⟨sched'', hexit', hruns⟩
      rw [hexit] at hexit'
      cases hexit'
      have hsame := hsuccessor.mp hruns
      left
      cases others with
      | nil => rw [hlength, hothers, List.length_singleton]
      | cons other others =>
          have hring := (List.nodup_cons.mp (ring_nodup hnodup hothers)).2
          rw [List.headD_cons] at hsame
          rw [hsame] at hring
          simp at hring
    · rintro (hlive' | hnegative)
      · rw [hlength, hothers, List.length_cons] at hlive'
        have hnil : others = [] := List.eq_nil_of_length_eq_zero (by omega)
        refine ⟨sched', hexit, hsuccessor.mpr ?_⟩
        rw [hnil, List.headD_nil]
      · exact absurd hnegative hresult

end Exit

/-! ### Histories of terminations -/

section Histories

variable {sched sched' last : Sched} {action : SchedAction} {actions : List SchedAction}
  {elfResult : Int}

theorem processUnlink_sameList {process : Nat} (h : processUnlink sched process = some sched') :
    sched'.list = sched.list := by
  unfold processUnlink processSwitchToAny at h
  dsimp only at h
  split at h
  · split at h
    · cases h
    · cases h
      rfl
  · cases h
    rfl

theorem taskNext_live (h : taskNext sched = some sched') : sched'.list.live = sched.list.live := by
  unfold taskNext at h
  dsimp only at h
  split at h
  · cases h
  · cases h
    rfl

theorem exit_live (hexit : irh80hCommand9Exit sched elfResult = some sched') :
    sched'.list.live =
      let process := sched.procs (sched.owner sched.list.currentTask)
      if processFreeProgramData process elfResult < 0 then sched.list.live
      else sched.list.live.erase process.task := by
  unfold irh80hCommand9Exit at hexit
  cases hterminate : processTerminate sched (sched.owner sched.list.currentTask) elfResult with
  | none =>
      rw [hterminate] at hexit
      cases hexit
  | some middle =>
      rw [hterminate] at hexit
      rw [taskNext_live hexit]
      rw [processTerminate] at hterminate
      dsimp only
      split at hterminate
      · rename_i hresult
        cases hterminate
        rw [if_pos hresult]
      · rename_i hresult
        rw [if_neg hresult, processUnlink_sameList hterminate, taskFree_live]

theorem exit_live_length (hexit : irh80hCommand9Exit sched elfResult = some sched') :
    sched'.list.live.length ≤ sched.list.live.length := by
  rw [exit_live hexit]
  dsimp only
  split
  · exact Nat.le_refl _
  · exact List.length_erase_le

theorem Ready.taskSwitch (hready : Ready sched) {task : Nat} (hlive : task ∈ sched.list.live) :
    Ready { sched with list := taskSwitch sched.list task } := by
  refine ⟨hready.list.taskSwitch hlive, fun old hold => ?_⟩
  obtain ⟨slot, hslot, htaken⟩ := hready.taken old hold
  exact ⟨slot, hslot, htaken.congr rfl rfl rfl⟩

def ReadyWhileSeveral (sched : Sched) : Prop := 2 ≤ sched.list.live.length → Ready sched

theorem Ready.exit_step (hready : Ready sched) (htwo : 2 ≤ sched.list.live.length)
    (hends : EndsOfTwo sched elfResult)
    (hexit : irh80hCommand9Exit sched elfResult = some sched') :
    RunsSuccessor sched sched' ∧ ReadyWhileSeveral sched' := by
  have hmem := hready.list.current (List.ne_nil_of_length_pos (by omega))
  obtain ⟨sched'', hexit', hruns⟩ := (hready.resumesSuccessor_iff htwo).mpr hends
  rw [hexit] at hexit'
  cases hexit'
  refine ⟨hruns, ?_⟩
  by_cases hresult :
      processFreeProgramData (sched.procs (sched.owner sched.list.currentTask)) elfResult < 0
  · rw [hready.exit_negative hmem hresult] at hexit
    cases hexit
    exact fun _ => hready.taskSwitch (List.next_mem _ _ hmem)
  · have hlength : sched.list.live.length = 2 := by
      have hle := hends.resolve_right hresult
      omega
    obtain ⟨_, _, htaken⟩ := hready.taken _ hmem
    have hlive := exit_live hexit
    dsimp only at hlive
    rw [if_neg hresult, htaken.task] at hlive
    intro htwo'
    rw [hlive, List.length_erase_of_mem hmem, hlength] at htwo'
    omega

theorem terminates_step (hkept : ReadyWhileSeveral sched) (hends : TerminatesOfTwo sched action)
    (hstep : SchedStep sched action sched') :
    SuccessorStep sched action sched' ∧ ReadyWhileSeveral sched' := by
  have hexits : ∀ elfResult, EndsOfTwo sched elfResult →
      irh80hCommand9Exit sched elfResult = some sched' →
        (2 ≤ sched.list.live.length → RunsSuccessor sched sched') ∧ ReadyWhileSeveral sched' := by
    intro elfResult hends hexit
    by_cases htwo : 2 ≤ sched.list.live.length
    · obtain ⟨hruns, hkept'⟩ := (hkept htwo).exit_step htwo hends hexit
      exact ⟨fun _ => hruns, hkept'⟩
    · have hlength := exit_live_length hexit
      exact ⟨fun hle => absurd hle htwo, fun hle => absurd (Nat.le_trans hle hlength) htwo⟩
  cases hstep with
  | command6 hfresh => exact hends.elim
  | command7 hfresh => exact hends.elim
  | exit hexit =>
      obtain ⟨hruns, hkept'⟩ := hexits _ hends hexit
      exact ⟨⟨.exit hexit, hruns⟩, hkept'⟩
  | exception hexit =>
      obtain ⟨hruns, hkept'⟩ := hexits _ hends hexit
      exact ⟨⟨.exception hexit, hruns⟩, hkept'⟩

/-- In a sequence of terminations of one of two tasks the successor runs each time, and with several
tasks left it runs after the next termination exactly if that is one of two tasks, too. -/
theorem terminations_successor (hready : Ready sched)
    (hrun : Run (Guarded TerminatesOfTwo SchedStep) sched actions last) :
    Run SuccessorStep sched actions last ∧ (2 ≤ last.list.live.length →
      ∀ elfResult, ResumesSuccessor last elfResult ↔ EndsOfTwo last elfResult) := by
  have hkept : Run SuccessorStep sched actions last ∧ ReadyWhileSeveral last := by
    induction hrun with
    | nil => exact ⟨.nil _, fun _ => hready⟩
    | snoc _ hlast ih =>
        obtain ⟨hrun', hkept⟩ := ih
        obtain ⟨hstep, hkept'⟩ := terminates_step hkept hlast.1 hlast.2
        exact ⟨hrun'.snoc hstep, hkept'⟩
  exact ⟨hkept.1, fun htwo elfResult => (hkept.2 htwo).resumesSuccessor_iff htwo⟩

end Histories

theorem threeSched_ready : Ready threeSched :=
  (schedInv_of_run shellSched_fresh threeSched_run).ready

/-- The termination of the second of two programs has stopped at its result, and the first one runs. -/
def stoppedSched : Sched := { twoSched with list := taskSwitch twoSched.list 0x2001000 }

theorem stoppedSched_exit : irh80hCommand9Exit twoSched (-1) = some stoppedSched := rfl

theorem terminations_successor_two : ∃ last, irh80hCommand9Exit stoppedSched 0 = some last ∧
    Run SuccessorStep twoSched [.exit (-1), .exit 0] last := by
  have hexit : (irh80hCommand9Exit stoppedSched 0).isSome = true := by rfl
  obtain ⟨last, hlast⟩ := Option.isSome_iff_exists.mp hexit
  have hready := (schedInv_of_run shellSched_fresh twoSched_run).ready
  have hfirst : TerminatesOfTwo twoSched (.exit (-1)) :=
    Or.inl (by decide : twoSched.list.live.length ≤ 2)
  have hsecond : TerminatesOfTwo stoppedSched (.exit 0) :=
    Or.inl (by decide : stoppedSched.list.live.length ≤ 2)
  have hrun : Run (Guarded TerminatesOfTwo SchedStep) twoSched [.exit (-1), .exit 0] last :=
    (Run.single ⟨hfirst, .exit stoppedSched_exit⟩).snoc ⟨hsecond, .exit hlast⟩
  exact ⟨last, hlast, (terminations_successor hready hrun).1⟩

/-- When the third of three programs ends, the second one runs, and not the first one. -/
theorem not_resumesSuccessor : ¬∀ sched elfResult, Ready sched → 2 ≤ sched.list.live.length →
    ResumesSuccessor sched elfResult := by
  intro hall
  have hresumes := hall threeSched 0 threeSched_ready (by decide)
  have hends := (threeSched_ready.resumesSuccessor_iff (by decide)).mp hresumes
  revert hends
  unfold EndsOfTwo
  decide

end SlobOS
