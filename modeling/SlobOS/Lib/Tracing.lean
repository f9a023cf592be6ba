import Mathlib.Control.Monad.Writer

/-!
# Reads that are written down

A program that writes down the places it reads. Its value is what it computes without doing so; what
it reads is bounded piece by piece.
-/

namespace Tracing

abbrev Reading (Place : Type) := Writer (List Place)

variable {Place α β : Type}

def value (program : Reading Place α) : α := program.run.1

def places (program : Reading Place α) : List Place := program.run.2

def read (place : Place) (result : α) : Reading Place α := WriterT.mk (result, [place])

def andThen (first second : Reading Place Bool) : Reading Place Bool := do
  if ← first then second else pure false

def Within (allowed : Place → Prop) (program : Reading Place α) : Prop :=
  ∀ place ∈ places program, allowed place

variable {allowed : Place → Prop} {program program' : Reading Place α} {place : Place} {result : α}

@[simp]
theorem value_pure : value (pure result : Reading Place α) = result := rfl

@[simp]
theorem value_read : value (read place result) = result := rfl

@[simp]
theorem value_bind (next : α → Reading Place β) :
    value (program >>= next) = value (next (value program)) := rfl

@[simp]
theorem value_ite {condition : Prop} {_ : Decidable condition} :
    value (if condition then program else program') =
      if condition then value program else value program' :=
  apply_ite value _ _ _

@[simp]
theorem value_andThen (first second : Reading Place Bool) :
    value (andThen first second) = (value first && value second) := by
  rw [andThen, value_bind, value_ite]
  cases value first <;> rfl

theorem places_bind (next : α → Reading Place β) :
    places (program >>= next) = places program ++ places (next (value program)) := rfl

@[simp]
theorem within_pure : Within allowed (pure result : Reading Place α) := fun _ hmem =>
  absurd hmem List.not_mem_nil

@[simp]
theorem within_read : Within allowed (read place result) ↔ allowed place :=
  List.forall_mem_singleton

@[simp]
theorem within_bind {next : α → Reading Place β} : Within allowed (program >>= next) ↔
    Within allowed program ∧ Within allowed (next (value program)) := by
  unfold Within
  rw [places_bind]
  exact List.forall_mem_append

theorem within_ite {condition : Prop} {_ : Decidable condition} :
    Within allowed (if condition then program else program') ↔
      (condition → Within allowed program) ∧ (¬condition → Within allowed program') := by
  split <;> simp [*]

theorem within_andThen {first second : Reading Place Bool} : Within allowed (andThen first second) ↔
    Within allowed first ∧ (value first = true → Within allowed second) := by
  rw [andThen, within_bind, within_ite]
  exact and_congr_right fun _ => and_iff_left fun _ => within_pure

end Tracing
