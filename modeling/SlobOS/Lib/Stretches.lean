import Mathlib.Order.Interval.Basic
import Mathlib.Order.Minimal
import Mathlib.Tactic.Common

/-!
# Stretches of a set of numbers

A stretch of a set of natural numbers is a non-empty interval in it that no other one contains. A scanner
that goes upwards lists the stretches one after the other: it skips numbers that are not in the set, and
goes over the next stretch to the first number behind it.
-/

namespace Stretches

variable (S : Set Nat)

def Stretch : NonemptyInterval Nat → Prop := Maximal fun t => (t : Set Nat) ⊆ S

structure Listed (start : Nat) (ts : List (NonemptyInterval Nat)) : Prop where
  mem : ∀ t, t ∈ ts ↔ Stretch S t ∧ start ≤ t.fst
  ordered : ts.Pairwise fun t t' => t.snd < t'.fst

variable {S} {t t' : NonemptyInterval Nat} {start stop : Nat} {ts : List (NonemptyInterval Nat)}

theorem Stretch.fst_mem (h : Stretch S t) : t.fst ∈ S := h.prop ⟨le_rfl, t.fst_le_snd⟩

theorem stretch_of_ends (h : (t : Set Nat) ⊆ S) (hbefore : ∀ i, i + 1 = t.fst → i ∉ S)
    (hafter : t.snd + 1 ∉ S) : Stretch S t := by
  refine ⟨h, fun u hu hle => ?_⟩
  obtain ⟨hfst, hsnd⟩ := NonemptyInterval.le_def.mp hle
  have hmem := t.fst_le_snd
  refine NonemptyInterval.le_def.mpr ⟨?_, ?_⟩
  · by_contra hlt
    exact hbefore (t.fst - 1) (by omega) (hu ⟨by omega, by omega⟩)
  · by_contra hlt
    exact hafter (hu ⟨by omega, by omega⟩)

theorem Stretch.eq_of_le (h : Stretch S t) (h' : Stretch S t') (hfst : t.fst ≤ t'.fst)
    (hsnd : t'.fst ≤ t.snd + 1) : t' = t := by
  have hsup : ((t ⊔ t' : NonemptyInterval Nat) : Set Nat) ⊆ S := by
    rintro i ⟨hge, hle⟩
    rw [NonemptyInterval.fst_sup] at hge
    rw [NonemptyInterval.snd_sup] at hle
    by_cases hi : i ≤ t.snd
    · exact h.prop ⟨by omega, hi⟩
    · exact h'.prop ⟨by omega, by omega⟩
  have hright : t' = t ⊔ t' := Maximal.eq_of_le h' hsup le_sup_right
  have hleft : t = t ⊔ t' := Maximal.eq_of_le h hsup le_sup_left
  exact hright.trans hleft.symm

theorem Listed.nil (h : ∀ i, start ≤ i → i ∉ S) : Listed S start [] := by
  refine ⟨fun t => iff_of_false List.not_mem_nil ?_, List.Pairwise.nil⟩
  rintro ⟨ht, hstart⟩
  exact h _ hstart ht.fst_mem

theorem Listed.skip (h : Listed S stop ts) (hle : start ≤ stop)
    (hskip : ∀ i, start ≤ i → i < stop → i ∉ S) : Listed S start ts := by
  refine ⟨fun t => (h.mem t).trans (and_congr_right fun ht => ?_), h.ordered⟩
  refine ⟨hle.trans, fun hstart => ?_⟩
  by_contra hlt
  exact hskip _ hstart (Nat.lt_of_not_le hlt) ht.fst_mem

theorem Listed.cons (ht : Stretch S t) (h : Listed S (t.snd + 1) ts) : Listed S t.fst (t :: ts) := by
  have hlater : ∀ u ∈ ts, t.snd < u.fst := fun u hu => ((h.mem u).mp hu).2
  refine ⟨fun u => List.mem_cons.trans ⟨?_, ?_⟩, h.ordered.cons hlater⟩
  · rintro (rfl | hu)
    · exact ⟨ht, le_rfl⟩
    · exact ⟨((h.mem u).mp hu).1, t.fst_le_snd.trans (hlater u hu).le⟩
  · rintro ⟨hu, hfst⟩
    by_cases hsnd : u.fst ≤ t.snd + 1
    · exact Or.inl (ht.eq_of_le hu hfst hsnd)
    · exact Or.inr ((h.mem u).mpr ⟨hu, by omega⟩)

end Stretches
