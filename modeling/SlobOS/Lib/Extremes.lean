import Mathlib.Order.Lattice
import Mathlib.Order.BoundedOrder.Basic
import Mathlib.Data.List.Basic

/-!
# Keeping an extreme entry

One entry is kept while a list is gone through, and the entries that may replace it do so. With an order
the last extreme entry is kept. Where a bottom element also stands for "nothing kept yet", an entry that
has it is forgotten again.
-/

namespace Extremes

section Keep

variable {Entry : Type*} (replaces : Entry → Entry → Prop) [DecidableRel replaces]

def keep (kept entry : Entry) : Entry := if replaces kept entry then entry else kept

def keepAll (kept : Entry) (entries : List Entry) : Entry := entries.foldl (keep replaces) kept

variable {replaces} {kept entry : Entry} {entries : List Entry}

theorem keep_mem (hkept : kept ∈ entries) (hentry : entry ∈ entries) :
    keep replaces kept entry ∈ entries := by
  rw [keep]
  split
  · exact hentry
  · exact hkept

theorem keepAll_mem : keepAll replaces kept entries ∈ kept :: entries := by
  induction entries generalizing kept with
  | nil => exact List.mem_cons_self
  | cons entry entries ih =>
      rcases List.mem_cons.mp (@ih (keep replaces kept entry)) with hkeep | hmem
      · change keepAll replaces (keep replaces kept entry) entries ∈ _
        rw [hkeep]
        exact keep_mem List.mem_cons_self (List.mem_cons_of_mem _ List.mem_cons_self)
      · exact List.mem_cons_of_mem _ (List.mem_cons_of_mem _ hmem)

theorem keepAll_extreme {order : Entry → Entry → Prop} {allowed : Entry → Prop}
    (htotal : ∀ first second, order first second ∨ order second first)
    (htrans : ∀ {first second third}, order first second → order second third → order first third)
    (hreplaces : ∀ {first second}, allowed first → allowed second →
      (replaces first second ↔ order first second))
    (hallowed : ∀ entry ∈ kept :: entries, allowed entry) :
    ∀ entry ∈ kept :: entries, order entry (keepAll replaces kept entries) := by
  have hrefl : ∀ entry, order entry entry := fun entry => (htotal entry entry).elim id id
  induction entries generalizing kept with
  | nil =>
      intro entry hmem
      rw [List.mem_singleton.mp hmem]
      exact hrefl kept
  | cons next entries ih =>
      have hkept := hallowed kept List.mem_cons_self
      have hnext := hallowed next (List.mem_cons_of_mem _ List.mem_cons_self)
      have hchosen : allowed (keep replaces kept next) ∧ order kept (keep replaces kept next) ∧
          order next (keep replaces kept next) := by
        rw [keep]
        split
        · next hrep => exact ⟨hnext, (hreplaces hkept hnext).mp hrep, hrefl next⟩
        · next hrep =>
            exact ⟨hkept, hrefl kept, (htotal kept next).resolve_left fun hle =>
              hrep ((hreplaces hkept hnext).mpr hle)⟩
      obtain ⟨hallowedNext, hkeptLe, hnextLe⟩ := hchosen
      have hrest := @ih (keep replaces kept next) fun entry hmem => by
        rcases List.mem_cons.mp hmem with rfl | hmem
        · exact hallowedNext
        · exact hallowed entry (List.mem_cons_of_mem _ (List.mem_cons_of_mem _ hmem))
      intro entry hmem
      rcases List.mem_cons.mp hmem with rfl | hmem
      · exact htrans hkeptLe (hrest _ List.mem_cons_self)
      rcases List.mem_cons.mp hmem with rfl | hmem
      · exact htrans hnextLe (hrest _ List.mem_cons_self)
      · exact hrest entry (List.mem_cons_of_mem _ hmem)

end Keep

section Bottom

variable {Entry Key : Type*} [LinearOrder Key] [OrderBot Key] {key : Entry → Key} {kept : Entry}
  {entries : List Entry}

/-- The smaller entry is kept, and the bottom element counts as none. -/
def Resets (key : Entry → Key) (kept entry : Entry) : Prop := key entry ≤ key kept ∨ key kept = ⊥

instance : DecidableRel (Resets key) := fun _ _ => inferInstanceAs (Decidable (_ ∨ _))

theorem keepAll_eq_bot_iff :
    key (keepAll (Resets key) kept entries) = ⊥ ↔ key (entries.getLast?.getD kept) = ⊥ := by
  induction entries generalizing kept with
  | nil => rfl
  | cons next entries ih =>
      change key (keepAll (Resets key) (keep (Resets key) kept next) entries) = ⊥ ↔ _
      rw [ih, List.getLast?_cons, Option.getD_some, keep]
      split
      · rfl
      · next hrep =>
          rw [Resets, not_or] at hrep
          cases entries with
          | nil =>
              have hnext : key next ≠ ⊥ := fun hbot => hrep.1 (hbot ▸ bot_le)
              exact iff_of_false hrep.2 hnext
          | cons entry entries => rw [List.getLast?_cons, Option.getD_some, Option.getD_some]

theorem keepAll_least_iff :
    (∀ entry ∈ kept :: entries, key (keepAll (Resets key) kept entries) ≤ key entry) ↔
      ((∃ entry ∈ kept :: entries, key entry = ⊥) → key (entries.getLast?.getD kept) = ⊥) := by
  rw [← keepAll_eq_bot_iff]
  constructor
  · rintro hleast ⟨entry, hmem, hbot⟩
    exact le_bot_iff.mp ((hleast entry hmem).trans_eq hbot)
  · intro hlast
    by_cases hex : ∃ entry ∈ kept :: entries, key entry = ⊥
    · intro entry _
      rw [hlast hex]
      exact bot_le
    · have hreplaces : ∀ {first second : Entry}, key first ≠ ⊥ → key second ≠ ⊥ →
          (Resets key first second ↔ key second ≤ key first) :=
        fun hfirst _ => or_iff_left hfirst
      exact keepAll_extreme (fun first second => le_total (key second) (key first))
        (fun hfirst hsecond => hsecond.trans hfirst) hreplaces
        fun entry hmem hbot => hex ⟨entry, hmem, hbot⟩

end Bottom

end Extremes
