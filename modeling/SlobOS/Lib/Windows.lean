import Mathlib.Order.Basic
import Mathlib.Tactic.Common

/-!
# Windows of free positions

First fit hands out the leftmost window that is long enough. Because it is leftmost, what it takes
out of any other window is at most a beginning of it: free room in one piece is a budget that every
request draws on by no more than its own length.
-/

namespace Windows

def Window (free : Nat → Prop) (start len : Nat) : Prop :=
  ∀ i, start ≤ i → i < start + len → free i

def Fits (free : Nat → Prop) (total len : Nat) : Prop :=
  ∃ start, start + len ≤ total ∧ Window free start len

structure IsFirst (free : Nat → Prop) (total len start : Nat) : Prop where
  inside : start + len ≤ total
  window : Window free start len
  least : ∀ other < start, ¬Window free other len

variable {free free' : Nat → Prop} {total len start : Nat}

theorem Window.sub (h : Window free start len) {start' len' : Nat} (hstart : start ≤ start')
    (hstop : start' + len' ≤ start + len) : Window free start' len' :=
  fun i hi hi' => h i (by omega) (by omega)

theorem Window.snoc (h : Window free start len) (hfree : free (start + len)) :
    Window free start (len + 1) := by
  intro i hi hi'
  obtain hlt | rfl : i < start + len ∨ i = start + len := by omega
  · exact h i hi hlt
  · exact hfree

theorem Fits.of_succ (h : Fits free (total + 1) len) :
    Fits free total len ∨ len ≤ total + 1 ∧ Window free (total + 1 - len) len := by
  obtain ⟨start, hinside, hwindow⟩ := h
  obtain hlt | rfl : start + len ≤ total ∨ start = total + 1 - len := by omega
  · exact Or.inl ⟨start, hlt, hwindow⟩
  · exact Or.inr ⟨by omega, hwindow⟩

theorem IsFirst.fits (h : IsFirst free total len start) : Fits free total len :=
  ⟨start, h.inside, h.window⟩

theorem IsFirst.leaves (h : IsFirst free total len start) {rest : Nat} (hle : len + rest ≤ total)
    (hroom : Window free (total - (len + rest)) (len + rest))
    (hframe : ∀ i, i < start ∨ start + len ≤ i → free i → free' i) :
    Window free' (total - rest) rest := by
  have hleft : start ≤ total - (len + rest) := by
    by_contra hlt
    exact h.least _ (by omega) (hroom.sub (Nat.le_refl _) (by omega))
  intro i hi hi'
  exact hframe i (Or.inr (by omega)) (hroom i (by omega) (by omega))

end Windows
