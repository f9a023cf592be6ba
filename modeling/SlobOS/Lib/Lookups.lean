import Mathlib.Data.Set.Function

/-!
# Readers and writers of slots

Two functions lead from a key to a slot, one for a writer and one for a reader. If the writer's slots are
distinct, a store is seen under its key and under no other exactly where the two functions agree, apart
from slots that hold the right value by chance.
-/

namespace Lookups

variable {Key Slot Value : Type*} [DecidableEq Key] [DecidableEq Slot]

/-- After a value is stored under one key, the reader finds it there, and under another key what the
writer's slot held. -/
def Finds (read write : Key → Slot) (cells : Slot → Value) (stored key : Key) (value : Value) : Prop :=
  Function.update cells (write stored) value (read key) =
    if key = stored then value else cells (write key)

variable {read write : Key → Slot} {cells : Slot → Value} {keys : Set Key} {values : Set Value}
  {stored key : Key}

theorem finds_of_eq (hwrite : Set.InjOn write keys) (hstored : stored ∈ keys) (hkey : key ∈ keys)
    (hread : read key = write key) (value : Value) : Finds read write cells stored key value := by
  rw [Finds, hread]
  by_cases heq : key = stored
  · rw [heq, if_pos rfl, Function.update_self]
  · have hne : write key ≠ write stored := fun hslot => heq (hwrite hkey hstored hslot)
    rw [if_neg heq, Function.update_of_ne hne]

/-- For all values the reader is right if it resolves the key to the writer's slot. Else the slot has to be
another one than that of the store, with the value of the writer's slot in it. -/
theorem forall_finds_iff (hvalues : values.Nontrivial) (hwrite : Set.InjOn write keys)
    (hstored : stored ∈ keys) (hkey : key ∈ keys) :
    (∀ value ∈ values, Finds read write cells stored key value) ↔
      read key = write key ∨
        key ≠ stored ∧ read key ≠ write stored ∧ cells (read key) = cells (write key) := by
  constructor
  · intro hall
    by_cases hslot : read key = write stored
    · by_cases heq : key = stored
      · exact Or.inl (by rw [hslot, heq])
      · obtain ⟨value, hvalue, hne⟩ := hvalues.exists_ne (cells (write key))
        have hfound := hall value hvalue
        rw [Finds, hslot, Function.update_self, if_neg heq] at hfound
        exact absurd hfound hne
    · by_cases heq : key = stored
      · obtain ⟨value, hvalue, hne⟩ := hvalues.exists_ne (cells (read key))
        have hfound := hall value hvalue
        rw [Finds, Function.update_of_ne hslot, if_pos heq] at hfound
        exact absurd hfound.symm hne
      · obtain ⟨value, hvalue⟩ := hvalues.nonempty
        have hfound := hall value hvalue
        rw [Finds, Function.update_of_ne hslot, if_neg heq] at hfound
        exact Or.inr ⟨heq, hslot, hfound⟩
  · rintro (hread | ⟨hne, hslot, hcells⟩) value -
    · exact finds_of_eq hwrite hstored hkey hread value
    · rw [Finds, Function.update_of_ne hslot, if_neg hne, hcells]

theorem forall_keys_finds_iff (hvalues : values.Nontrivial) (hwrite : Set.InjOn write keys) :
    (∀ stored ∈ keys, ∀ key ∈ keys, ∀ value ∈ values, Finds read write cells stored key value) ↔
      Set.EqOn read write keys := by
  constructor
  · intro hall key hkey
    rcases (forall_finds_iff hvalues hwrite hkey hkey).mp (hall key hkey key hkey) with heq | ⟨hne, -⟩
    · exact heq
    · exact absurd rfl hne
  · intro hagree stored hstored key hkey value _
    exact finds_of_eq hwrite hstored hkey (hagree hkey) value

end Lookups
