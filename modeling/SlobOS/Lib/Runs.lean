import Mathlib.Tactic.Common

/-!
# Runs of a labelled transition relation

A run is a sequence of actions together with the states it leads through. A property of every
reachable state is proved from one step lemma; a side condition on the steps is carried by the
relation, so that a property that needs it is a property of the guarded runs.
-/

namespace Runs

variable {State Action : Type*}

/-- The actions lead from the first state to the last, one step each. -/
inductive Run (step : State → Action → State → Prop) : State → List Action → State → Prop
  | nil (state : State) : Run step state [] state
  | snoc {first middle last : State} {actions : List Action} {action : Action} :
      Run step first actions middle → step middle action last →
        Run step first (actions ++ [action]) last

def Guarded (guard : State → Action → Prop) (step : State → Action → State → Prop) :
    State → Action → State → Prop :=
  fun before action after => guard before action ∧ step before action after

variable {step : State → Action → State → Prop} {first last : State} {actions : List Action}

theorem Run.invariant (inv : State → Prop)
    (hstep : ∀ before action after, inv before → step before action after → inv after)
    (hrun : Run step first actions last) (hfirst : inv first) : inv last := by
  induction hrun with
  | nil => exact hfirst
  | snoc _ hlast ih => exact hstep _ _ _ ih hlast

theorem Run.mono {step' : State → Action → State → Prop}
    (hstep : ∀ before action after, step before action after → step' before action after)
    (hrun : Run step first actions last) : Run step' first actions last := by
  induction hrun with
  | nil => exact .nil _
  | snoc _ hlast ih => exact ih.snoc (hstep _ _ _ hlast)

theorem Run.unguarded {guard : State → Action → Prop}
    (hrun : Run (Guarded guard step) first actions last) : Run step first actions last :=
  hrun.mono fun _ _ _ h => h.2

theorem Run.restricted {allowed : Action → Prop} (hrun : Run step first actions last)
    (hall : ∀ action ∈ actions, allowed action) :
    Run (Guarded (fun _ action => allowed action) step) first actions last := by
  induction hrun with
  | nil => exact .nil _
  | snoc _ hlast ih =>
      exact (ih fun action hmem => hall action (List.mem_append_left _ hmem)).snoc
        ⟨hall _ (List.mem_append_right _ List.mem_cons_self), hlast⟩

theorem Run.simulates {Abstract : Type*} {abstractStep : Abstract → Action → Abstract → Prop}
    (rel : State → Abstract → Prop)
    (hstep : ∀ before abstract action after, rel before abstract → step before action after →
      ∃ abstract', abstractStep abstract action abstract' ∧ rel after abstract')
    (hrun : Run step first actions last) {abstract : Abstract} (hfirst : rel first abstract) :
    ∃ abstract', Run abstractStep abstract actions abstract' ∧ rel last abstract' := by
  induction hrun with
  | nil => exact ⟨abstract, .nil _, hfirst⟩
  | snoc _ hlast ih =>
      obtain ⟨middle, hrun, hrel⟩ := ih
      obtain ⟨abstract', habstract, hrel'⟩ := hstep _ _ _ _ hrel hlast
      exact ⟨abstract', hrun.snoc habstract, hrel'⟩

/-- Steps that another system does not show leave its state related, so that the shown ones alone make
a run of it. -/
theorem Run.stutters {Abstract Event : Type*} {abstractStep : Abstract → Event → Abstract → Prop}
    (shown : Action → Option Event) (rel : State → Abstract → Prop)
    (hhidden : ∀ before abstract action after, shown action = none → rel before abstract →
      step before action after → rel after abstract)
    (hshown : ∀ before abstract action event after, shown action = some event →
      rel before abstract → step before action after →
      ∃ abstract', abstractStep abstract event abstract' ∧ rel after abstract')
    (hrun : Run step first actions last) {abstract : Abstract} (hfirst : rel first abstract) :
    ∃ abstract', Run abstractStep abstract (actions.filterMap shown) abstract' ∧
      rel last abstract' := by
  induction hrun with
  | nil => exact ⟨abstract, .nil _, hfirst⟩
  | @snoc _ _ actions action _ hlast ih =>
      obtain ⟨middle, hrun, hrel⟩ := ih
      rw [List.filterMap_append]
      cases hevent : shown action with
      | none =>
          refine ⟨middle, ?_, hhidden _ _ _ _ hevent hrel hlast⟩
          simpa [List.filterMap_cons, hevent] using hrun
      | some event =>
          obtain ⟨abstract', habstract, hrel'⟩ := hshown _ _ _ _ _ hevent hrel hlast
          refine ⟨abstract', ?_, hrel'⟩
          simpa [List.filterMap_cons, hevent] using hrun.snoc habstract

theorem Run.single {action : Action} (hstep : step first action last) :
    Run step first [action] last :=
  .snoc (.nil first) hstep

end Runs
