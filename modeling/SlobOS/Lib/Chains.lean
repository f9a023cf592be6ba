import Mathlib.Logic.Function.Iterate
import Mathlib.Tactic.Common

/-!
# Chains in a table

A table names the next place for each place, or holds a value that ends the chain. Readers that take
other values for an end reach the same places as long as they stop together, and a chain is the same in
two tables that agree on it.
-/

namespace Chains

variable {α : Type*}

section Definitions

variable (table : α → α) (stop : α → Prop)

/-- The place after that many links, unless one of them is an end. -/
def follow [DecidablePred stop] : Nat → α → Option α
  | 0, place => some place
  | count + 1, place => if stop (table place) then none else follow count (table place)

def Stops (count : Nat) (place : α) : Prop := ∃ i < count, stop (table^[i + 1] place)

end Definitions

variable {table table' : α → α} {stop : α → Prop} {count : Nat} {place : α}

theorem stops_succ : Stops table stop (count + 1) place ↔
    stop (table place) ∨ Stops table stop count (table place) := by
  constructor
  · rintro ⟨i, hi, hstop⟩
    cases i with
    | zero => exact Or.inl hstop
    | succ i =>
        rw [Function.iterate_succ_apply] at hstop
        exact Or.inr ⟨i, by omega, hstop⟩
  · rintro (hstop | ⟨i, hi, hstop⟩)
    · exact ⟨0, by omega, hstop⟩
    · refine ⟨i + 1, by omega, ?_⟩
      rwa [Function.iterate_succ_apply]

theorem follow_eq_none [DecidablePred stop] (h : Stops table stop count place) :
    follow table stop count place = none := by
  induction count generalizing place with
  | zero =>
      obtain ⟨i, hi, -⟩ := h
      omega
  | succ count ih =>
      rw [follow]
      split
      · rfl
      · rename_i hstop
        exact ih ((stops_succ.mp h).resolve_left hstop)

theorem follow_eq_some [DecidablePred stop] (h : ¬Stops table stop count place) :
    follow table stop count place = some (table^[count] place) := by
  induction count generalizing place with
  | zero => rfl
  | succ count ih =>
      rw [stops_succ, not_or] at h
      rw [follow, if_neg h.1, ih h.2, Function.iterate_succ_apply]

theorem follow_congr [DecidablePred stop]
    (h : ∀ i < count, table' (table^[i] place) = table (table^[i] place)) :
    follow table' stop count place = follow table stop count place := by
  induction count generalizing place with
  | zero => rfl
  | succ count ih =>
      have hfirst : table' place = table place := h 0 (by omega)
      rw [follow, follow, hfirst]
      apply if_congr Iff.rfl rfl
      apply ih
      intro i hi
      rw [← Function.iterate_succ_apply]
      exact h (i + 1) (by omega)

end Chains
