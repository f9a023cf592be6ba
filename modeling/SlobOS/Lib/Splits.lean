import Mathlib.Data.List.TakeWhile
import Mathlib.Tactic.Common

/-!
# Lists cut at a separator

A scanner that cuts off one part after the other and stops at the first empty part finds the parts of
the whole list up to there. They are all of the non-empty parts only if none follows an empty one.
-/

namespace Splits

variable {α : Type} [DecidableEq α] (sep : α) (xs : List α)

def part : List α := xs.takeWhile (· != sep)

def rest : List α := (xs.dropWhile (· != sep)).drop 1

def scanned : List (List α) := (xs.splitOn sep).takeWhile (· ≠ [])

def components : List (List α) := (xs.splitOn sep).filter (· ≠ [])

variable {sep xs}

theorem part_of_not_mem (h : sep ∉ xs) : part sep xs = xs := by
  apply List.takeWhile_eq_self_iff.mpr
  intro x hx
  exact bne_iff_ne.mpr fun heq => h (heq ▸ hx)

theorem rest_of_not_mem (h : sep ∉ xs) : rest sep xs = [] := by
  have hdrop : xs.dropWhile (· != sep) = [] := by
    apply List.dropWhile_eq_nil_iff.mpr
    intro x hx
    exact bne_iff_ne.mpr fun heq => h (heq ▸ hx)
  rw [rest, hdrop]
  rfl

section Append

variable {left right : List α}

theorem part_append (h : sep ∉ left) : part sep (left ++ sep :: right) = left := by
  have hleft := part_of_not_mem h
  have hall : ∀ x ∈ left, (x != sep) = true := List.takeWhile_eq_self_iff.mp hleft
  rw [part, List.takeWhile_append_of_pos hall]
  simp

theorem rest_append (h : sep ∉ left) : rest sep (left ++ sep :: right) = right := by
  have hall : ∀ x ∈ left, (x != sep) = true := List.takeWhile_eq_self_iff.mp (part_of_not_mem h)
  rw [rest, List.dropWhile_append_of_pos hall]
  simp

end Append

variable (sep xs)

theorem scanned_eq :
    scanned sep xs = if part sep xs = [] then [] else part sep xs :: scanned sep (rest sep xs) := by
  by_cases hmem : sep ∈ xs
  · obtain ⟨left, right, rfl, hleft⟩ := List.eq_append_cons_of_mem hmem
    rw [part_append hleft, rest_append hleft, scanned,
      List.splitOn_append_cons_self_of_not_mem hleft, List.takeWhile_cons]
    by_cases hnil : left = [] <;> simp [hnil, scanned]
  · rw [part_of_not_mem hmem, rest_of_not_mem hmem, scanned, List.splitOn_eq_singleton hmem,
      List.takeWhile_cons]
    by_cases hnil : xs = [] <;> simp [hnil, scanned]

theorem rest_length (h : part sep xs ≠ []) : (rest sep xs).length < xs.length := by
  by_cases hmem : sep ∈ xs
  · obtain ⟨left, right, rfl, hleft⟩ := List.eq_append_cons_of_mem hmem
    rw [rest_append hleft, List.length_append, List.length_cons]
    omega
  · rw [part_of_not_mem hmem] at h
    rw [rest_of_not_mem hmem]
    exact List.length_pos_iff.mpr h

theorem part_length : (part sep xs).length ≤ xs.length := (List.takeWhile_sublist _).length_le

theorem takeWhile_eq_filter_iff {β : Type} (p : β → Bool) (ys : List β) :
    ys.takeWhile p = ys.filter p ↔ ys.Pairwise fun first later => p later → p first := by
  induction ys with
  | nil => simp
  | cons y ys ih =>
      rw [List.takeWhile_cons, List.filter_cons, List.pairwise_cons, ← ih]
      cases hy : p y with
      | true => simp
      | false =>
          simp only [Bool.false_eq_true, if_false]
          constructor
          · intro hnil
            have hnone := List.filter_eq_nil_iff.mp hnil.symm
            refine ⟨fun later hlater hp => absurd hp (hnone later hlater), ?_⟩
            rw [← hnil]
            cases ys with
            | nil => rfl
            | cons y' ys => simp [hnone y' List.mem_cons_self]
          · rintro ⟨hnone, -⟩
            exact (List.filter_eq_nil_iff.mpr fun later hlater => hnone later hlater).symm

theorem scanned_eq_components_iff : scanned sep xs = components sep xs ↔
    (xs.splitOn sep).Pairwise fun first later => first = [] → later = [] := by
  rw [scanned, components, takeWhile_eq_filter_iff]
  refine iff_of_eq (congrArg (List.Pairwise · _) ?_)
  funext first later
  simp only [decide_eq_true_eq, not_imp_not]

theorem scanned_prefix_components : scanned sep xs <+: components sep xs := by
  rw [scanned, components]
  generalize xs.splitOn sep = ys
  induction ys with
  | nil => exact List.prefix_rfl
  | cons y ys ih =>
      rw [List.takeWhile_cons, List.filter_cons]
      split
      · exact List.cons_prefix_cons.mpr ⟨rfl, ih⟩
      · exact List.nil_prefix

theorem components_eq : components sep xs = if part sep xs = [] then components sep (rest sep xs)
    else part sep xs :: components sep (rest sep xs) := by
  by_cases hmem : sep ∈ xs
  · obtain ⟨left, right, rfl, hleft⟩ := List.eq_append_cons_of_mem hmem
    rw [part_append hleft, rest_append hleft, components,
      List.splitOn_append_cons_self_of_not_mem hleft, List.filter_cons]
    by_cases hnil : left = [] <;> simp [hnil, components]
  · rw [part_of_not_mem hmem, rest_of_not_mem hmem, components, List.splitOn_eq_singleton hmem,
      List.filter_cons]
    by_cases hnil : xs = [] <;> simp [hnil, components]

theorem components_dropWhile : components sep (xs.dropWhile (· == sep)) = components sep xs := by
  induction xs with
  | nil => rfl
  | cons x xs ih =>
      by_cases hx : x = sep
      · subst hx
        have hpart : part x (x :: xs) = [] := by simp [part]
        have hrest : rest x (x :: xs) = xs := by simp [rest]
        rw [List.dropWhile_cons, if_pos (beq_self_eq_true x), ih, components_eq x (x :: xs),
          if_pos hpart, hrest]
      · rw [List.dropWhile_cons, if_neg (by simpa using hx)]

theorem components_nil (h : xs.dropWhile (· == sep) = []) : components sep xs = [] := by
  rw [← components_dropWhile, h]
  rfl

theorem part_dropWhile_ne_nil (h : xs.dropWhile (· == sep) ≠ []) :
    part sep (xs.dropWhile (· == sep)) ≠ [] := by
  intro hpart
  have hhead := List.head_dropWhile_not (· == sep) h
  cases hdrop : xs.dropWhile (· == sep) with
  | nil => exact h hdrop
  | cons x ys =>
      simp only [hdrop, List.head_cons, beq_eq_false_iff_ne] at hhead
      rw [hdrop, part, List.takeWhile_cons, if_pos (bne_iff_ne.mpr hhead)] at hpart
      cases hpart

theorem components_cons (h : xs.dropWhile (· == sep) ≠ []) :
    components sep xs = part sep (xs.dropWhile (· == sep)) ::
      components sep (rest sep (xs.dropWhile (· == sep))) := by
  rw [← components_dropWhile, components_eq, if_neg (part_dropWhile_ne_nil sep xs h)]

theorem ne_nil_of_mem_components {xs : List α} {found : List α} (h : found ∈ components sep xs) :
    found ≠ [] :=
  of_decide_eq_true (List.mem_filter.mp h).2

theorem components_length : (components sep xs).length ≤ xs.length := by
  induction hlength : xs.length using Nat.strong_induction_on generalizing xs with
  | _ length ih =>
      subst hlength
      by_cases h : xs.dropWhile (· == sep) = []
      · rw [components_nil sep xs h]
        exact Nat.zero_le _
      · have hlt := Nat.lt_of_lt_of_le (rest_length sep _ (part_dropWhile_ne_nil sep xs h))
          (List.dropWhile_sublist (· == sep)).length_le
        rw [components_cons sep xs h, List.length_cons]
        exact Nat.lt_of_le_of_lt (ih _ hlt _ rfl) hlt

theorem components_ne_nil_iff : components sep xs ≠ [] ↔ ∃ x ∈ xs, x ≠ sep := by
  have hdrop : xs.dropWhile (· == sep) = [] ↔ ¬∃ x ∈ xs, x ≠ sep := by
    rw [List.dropWhile_eq_nil_iff]
    simp
  by_cases h : xs.dropWhile (· == sep) = []
  · rw [components_nil sep xs h]
    exact iff_of_false (fun hne => hne rfl) (hdrop.mp h)
  · rw [components_cons sep xs h]
    exact iff_of_true (List.cons_ne_nil _ _) (not_not.mp (mt hdrop.mpr h))

variable {sep} {parts : List (List α)}

theorem scanned_intercalate (hne : parts ≠ []) (hparts : ∀ p ∈ parts, p ≠ [] ∧ sep ∉ p) :
    scanned sep ([sep].intercalate parts) = parts := by
  rw [scanned, List.splitOn_intercalate sep (fun p hp => (hparts p hp).2) hne]
  exact List.takeWhile_eq_self_iff.mpr fun p hp => decide_eq_true (hparts p hp).1

theorem scanned_intercalate_append (hne : parts ≠ []) (hparts : ∀ p ∈ parts, p ≠ [] ∧ sep ∉ p) :
    scanned sep ([sep].intercalate parts ++ [sep]) = parts := by
  have hall : ∀ p ∈ parts, decide (p ≠ []) = true := fun p hp => decide_eq_true (hparts p hp).1
  rw [scanned, List.splitOn_append_cons_self,
    List.splitOn_intercalate sep (fun p hp => (hparts p hp).2) hne,
    List.takeWhile_append_of_pos hall]
  simp

end Splits
