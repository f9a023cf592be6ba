import Mathlib.Tactic.Common
import Mathlib.Data.List.Basic

/-!
# Stores

A memory is a function from places to values, and a list of stores changes it, one after the other.
-/

namespace Stores

variable {Place Value : Type*} [DecidableEq Place]

def applyStores (memory : Place → Value) : List (Place × Value) → Place → Value
  | [] => memory
  | (pos, value) :: stores =>
      applyStores (fun i => if i = pos then value else memory i) stores

variable {memory : Place → Value} {stores stores' : List (Place × Value)} {pos : Place}
  {value : Value}

theorem applyStores_append (memory : Place → Value) (stores stores' : List (Place × Value)) :
    applyStores memory (stores ++ stores') = applyStores (applyStores memory stores) stores' := by
  induction stores generalizing memory with
  | nil => rfl
  | cons store stores ih => exact ih _

theorem applyStores_same (hmemory : memory pos = value)
    (hstores : ∀ store ∈ stores, store.1 = pos → store.2 = value) :
    applyStores memory stores pos = value := by
  induction stores generalizing memory with
  | nil => exact hmemory
  | cons store stores ih =>
      apply ih
      · by_cases heq : pos = store.1
        · rw [if_pos heq]
          exact hstores store List.mem_cons_self heq.symm
        · rw [if_neg heq, hmemory]
      · intro store' hstore'
        exact hstores store' (List.mem_cons_of_mem store hstore')

theorem applyStores_mem (hmem : (pos, value) ∈ stores)
    (hstores : ∀ store ∈ stores, store.1 = pos → store.2 = value) (memory : Place → Value) :
    applyStores memory stores pos = value := by
  obtain ⟨first, rest, rfl⟩ := List.append_of_mem hmem
  rw [applyStores_append]
  change applyStores (fun i => if i = pos then value else applyStores memory first i) rest pos = value
  apply applyStores_same
  · exact if_pos rfl
  · intro store hstore
    exact hstores store (by simp [hstore])

end Stores
