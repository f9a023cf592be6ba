import Mathlib.Combinatorics.Pigeonhole
import Mathlib.Logic.Function.Iterate

/-!
# Where a walk ends

A walk goes from place to place, over finitely many places, and stays at its end once it is there. It
gets there exactly if no other place comes back to itself, and then in fewer steps than there are places.
-/

namespace Orbits

variable {Place : Type*} {next : Place → Place} {stop start : Place} {places : Finset Place}
  {steps back : Nat}

/-- The walk comes to a place for the second time, which is not the end. -/
def Loops (next : Place → Place) (stop start : Place) : Prop :=
  ∃ steps back, 0 < back ∧ next^[steps + back] start = next^[steps] start ∧
    next^[steps] start ≠ stop

theorem iterate_stop (hstop : next stop = stop) (hend : next^[steps] start = stop) (more : Nat) :
    next^[more + steps] start = stop := by
  rw [Function.iterate_add_apply, hend]
  exact Function.iterate_fixed hstop more

theorem iterate_back (hback : next^[steps + back] start = next^[steps] start) (times : Nat) :
    next^[times * back + steps] start = next^[steps] start := by
  induction times with
  | zero => rw [Nat.zero_mul, Nat.zero_add]
  | succ times ih =>
      calc
        next^[(times + 1) * back + steps] start = next^[back] (next^[times * back + steps] start) := by
          rw [← Function.iterate_add_apply]
          congr 1
          ring
        _ = next^[steps] start := by
          rw [ih, ← Function.iterate_add_apply, Nat.add_comm, hback]

theorem not_loops (hstop : next stop = stop) (hend : next^[steps] start = stop) :
    ¬Loops next stop start := by
  rintro ⟨place, back, hpos, hback, hne⟩
  apply hne
  have hlate : steps ≤ steps * back + place :=
    Nat.le_add_right_of_le (Nat.le_mul_of_pos_right steps hpos)
  calc
    next^[place] start = next^[steps * back + place] start := (iterate_back hback steps).symm
    _ = next^[steps * back + place - steps + steps] start := by rw [Nat.sub_add_cancel hlate]
    _ = stop := iterate_stop hstop hend _

theorem exists_iterate_eq (hmaps : ∀ place ∈ places, next place ∈ places) (hstart : start ∈ places) :
    ∃ steps < places.card, ∃ back > 0, next^[steps + back] start = next^[steps] start := by
  have hinside : ∀ count, next^[count] start ∈ places := by
    intro count
    induction count with
    | zero => exact hstart
    | succ count ih =>
        rw [Function.iterate_succ_apply']
        exact hmaps _ ih
  have hcard : places.card < (Finset.range (places.card + 1)).card := by
    rw [Finset.card_range]
    exact Nat.lt_succ_self _
  obtain ⟨i, hi, j, hj, hne, heq⟩ := Finset.exists_ne_map_eq_of_card_lt_of_maps_to hcard
    fun count _ => hinside count
  rw [Finset.mem_range] at hi hj
  rcases Nat.lt_or_gt_of_ne hne with hlt | hlt
  · exact ⟨i, by omega, j - i, by omega, by rw [Nat.add_sub_cancel' (Nat.le_of_lt hlt), heq]⟩
  · exact ⟨j, by omega, i - j, by omega, by rw [Nat.add_sub_cancel' (Nat.le_of_lt hlt), heq]⟩

theorem exists_iterate_lt (hmaps : ∀ place ∈ places, next place ∈ places) (hstart : start ∈ places)
    (hloops : ¬Loops next stop start) : ∃ steps < places.card, next^[steps] start = stop := by
  obtain ⟨steps, hlt, back, hpos, hback⟩ := exists_iterate_eq hmaps hstart
  refine ⟨steps, hlt, ?_⟩
  by_contra hne
  exact hloops ⟨steps, back, hpos, hback, hne⟩

end Orbits
