import Mathlib.Data.List.Basic
import Mathlib.Data.Nat.ModEq
import Mathlib.Tactic.Common

/-!
# Rings of cells

A queue in a ring of cells without a count: a blank cell says that there is nothing. The items lie in
consecutive cells from the first one on, around the end of the ring, and the rest of the ring is
blank.
-/

namespace Rings

variable {α : Type*} {cells : Nat → α} {blank : α} {size first : Nat} {items : List α}

structure Carries (cells : Nat → α) (blank : α) (size first : Nat) (items : List α) : Prop where
  fits : items.length ≤ size
  item : ∀ j (hj : j < items.length), cells ((first + j) % size) = items[j]
  rest : ∀ j, items.length ≤ j → j < size → cells ((first + j) % size) = blank
  nonblank : ∀ x ∈ items, x ≠ blank

def store (cells : Nat → α) (index : Nat) (x : α) : Nat → α :=
  fun i => if i = index then x else cells i

theorem store_self (index : Nat) (x : α) : store cells index x index = x := if_pos rfl

theorem add_mod_injective {i j : Nat} (hi : i < size) (hj : j < size)
    (h : (first + i) % size = (first + j) % size) : i = j := by
  have hmod : i ≡ j [MOD size] := Nat.ModEq.add_left_cancel' first h
  exact Nat.ModEq.eq_of_lt_of_lt hmod hi hj

theorem store_other {i j : Nat} {x : α} (hi : i < size) (hj : j < size) (hne : i ≠ j) :
    store cells ((first + j) % size) x ((first + i) % size) = cells ((first + i) % size) :=
  if_neg fun h => hne (add_mod_injective hi hj h)

namespace Carries

theorem empty (h : ∀ i < size, cells i = blank) (hpos : 0 < size) (first : Nat) :
    Carries cells blank size first [] where
  fits := Nat.zero_le _
  item _ hj := absurd hj (by simp)
  rest j _ _ := h _ (Nat.mod_lt _ hpos)
  nonblank := by simp

theorem push (h : Carries cells blank size first items) (hroom : items.length < size) {x : α}
    (hx : x ≠ blank) :
    Carries (store cells ((first + items.length) % size) x) blank size first (items ++ [x]) where
  fits := by
    rw [List.length_append, List.length_singleton]
    exact hroom
  item j hj := by
    rw [List.length_append, List.length_singleton] at hj
    by_cases hlast : j = items.length
    · subst hlast
      rw [store_self, List.getElem_append_right (Nat.le_refl _)]
      simp
    · have hlt : j < items.length := by omega
      rw [store_other (by omega) hroom hlast, h.item j hlt, List.getElem_append_left hlt]
  rest j hj hsize := by
    rw [List.length_append, List.length_singleton] at hj
    rw [store_other hsize hroom (by omega)]
    exact h.rest j (by omega) hsize
  nonblank y hy := by
    rcases List.mem_append.mp hy with hold | hnew
    · exact h.nonblank y hold
    · rwa [List.mem_singleton.mp hnew]

theorem first_eq (h : Carries cells blank size first items) (hpos : 0 < size) :
    cells (first % size) = items.headD blank := by
  cases items with
  | nil => exact h.rest 0 (Nat.le_refl _) hpos
  | cons x rest => exact h.item 0 (by simp)

theorem pop {x : α} (h : Carries cells blank size first (x :: items)) :
    Carries (store cells (first % size) blank) blank size (first + 1) items := by
  have hfits := h.fits
  rw [List.length_cons] at hfits
  have hshift : ∀ j, (first + 1 + j) % size = (first + (j + 1)) % size := fun j => by
    rw [Nat.add_assoc, Nat.add_comm 1]
  have hother : ∀ j, j + 1 < size →
      store cells (first % size) blank ((first + (j + 1)) % size) =
        cells ((first + (j + 1)) % size) := fun j hj =>
    @store_other _ _ _ first (j + 1) 0 _ hj (by omega) (by omega)
  refine ⟨by omega, fun j hj => ?_, fun j hj hsize => ?_, fun y hy =>
    h.nonblank y (List.mem_cons_of_mem _ hy)⟩
  · rw [hshift, hother j (by omega), h.item (j + 1) (by simpa using hj)]
    rfl
  · rw [hshift]
    by_cases hlast : j + 1 = size
    · rw [hlast, Nat.add_mod_right]
      exact store_self _ _
    · rw [hother j (by omega)]
      exact h.rest (j + 1) (by simpa using hj) (by omega)

theorem unpush {x : α} (h : Carries cells blank size first (items ++ [x])) :
    Carries (store cells ((first + items.length) % size) blank) blank size first items := by
  have hfits := h.fits
  rw [List.length_append, List.length_singleton] at hfits
  refine ⟨by omega, fun j hj => ?_, fun j hj hsize => ?_, fun y hy =>
    h.nonblank y (List.mem_append_left _ hy)⟩
  · rw [store_other (by omega) (by omega) (by omega), h.item j (by simp; omega),
      List.getElem_append_left hj]
  · by_cases hlast : j = items.length
    · subst hlast
      exact store_self _ _
    · rw [store_other hsize (by omega) hlast]
      exact h.rest j (by simp; omega) hsize

theorem ne_blank_iff (h : Carries cells blank size first items) {i : Nat} (hi : i < size) :
    cells i ≠ blank ↔ ∃ j < items.length, (first + j) % size = i := by
  constructor
  · intro hne
    by_contra hnone
    -- Every cell is less than a round away from the first one.
    obtain ⟨j, hj, heq⟩ : ∃ j < size, (first + j) % size = i := by
      refine ⟨(i + (size - first % size)) % size, Nat.mod_lt _ (by omega), ?_⟩
      have hlt := Nat.mod_lt first (show 0 < size by omega)
      rw [Nat.add_mod, Nat.mod_mod, ← Nat.add_mod]
      have hsplit := Nat.div_add_mod first size
      rw [show first + (i + (size - first % size)) = i + size * (first / size + 1) by
        rw [Nat.mul_add, Nat.mul_one]; omega]
      rw [Nat.add_mul_mod_self_left, Nat.mod_eq_of_lt hi]
    by_cases hin : j < items.length
    · exact hnone ⟨j, hin, heq⟩
    · exact hne (heq ▸ h.rest j (by omega) hj)
  · rintro ⟨j, hj, rfl⟩
    rw [h.item j hj]
    exact h.nonblank _ (List.getElem_mem hj)

end Carries

end Rings
