import Mathlib.Tactic.Common

/-!
# Programs that change a state and may fault

A program maps a state to a result and a new state, or faults. Its meaning is the relation between
the state it starts in, its result and the state it ends in; the rules below take the relation of a
compound program apart into those of its pieces.
-/

namespace Faulting

abbrev Program (Fault State : Type) : Type → Type := StateT State (Except Fault)

variable {Fault State : Type} {α β : Type}

/-- The program does not fault and ends with that result in that state. -/
def Ends (program : Program Fault State α) (before : State) (result : α) (after : State) : Prop :=
  program before = .ok (result, after)

theorem Ends.unique {program : Program Fault State α} {before after after' : State}
    {result result' : α} (h : Ends program before result after)
    (h' : Ends program before result' after') : result = result' ∧ after = after' := by
  unfold Ends at h h'
  rw [h] at h'
  cases h'
  exact ⟨rfl, rfl⟩

variable {before after : State}

@[simp]
theorem ends_pure {value result : α} :
    Ends (pure value : Program Fault State α) before result after ↔ result = value ∧ after = before := by
  unfold Ends
  constructor
  · intro h
    cases h
    exact ⟨rfl, rfl⟩
  · rintro ⟨rfl, rfl⟩
    rfl

@[simp]
theorem ends_bind {first : Program Fault State α} {next : α → Program Fault State β} {result : β} :
    Ends (first >>= next) before result after ↔
      ∃ value middle, Ends first before value middle ∧ Ends (next value) middle result after := by
  simp only [Ends, bind, StateT.bind, Except.bind]
  cases first before with
  | error fault => simp
  | ok pair =>
      obtain ⟨value, middle⟩ := pair
      simp only [Except.ok.injEq, Prod.mk.injEq]
      constructor
      · exact fun h => ⟨value, middle, ⟨rfl, rfl⟩, h⟩
      · rintro ⟨_, _, ⟨rfl, rfl⟩, h⟩
        exact h

@[simp]
theorem ends_throw {fault : Fault} {result : α} :
    ¬Ends (throw fault : Program Fault State α) before result after := by
  intro h
  cases h

@[simp]
theorem ends_get {result : State} :
    Ends (get : Program Fault State State) before result after ↔ result = before ∧ after = before := by
  unfold Ends
  constructor
  · intro h
    cases h
    exact ⟨rfl, rfl⟩
  · rintro ⟨rfl, rfl⟩
    rfl

@[simp]
theorem ends_modify {change : State → State} {result : Unit} :
    Ends (modify change : Program Fault State Unit) before result after ↔ after = change before := by
  unfold Ends
  constructor
  · intro h
    cases h
    rfl
  · rintro rfl
    rfl

theorem ends_get_bind {next : State → Program Fault State β} {result : β} :
    Ends (get >>= next) before result after ↔ Ends (next before) before result after := by
  simp only [ends_bind, ends_get, and_assoc, exists_and_left, exists_eq_left]

theorem ends_modify_bind {change : State → State} {next : Unit → Program Fault State β}
    {result : β} : Ends (modify change >>= next) before result after ↔
      Ends (next ()) (change before) result after := by
  simp only [ends_bind, ends_modify, exists_eq_left]
  exact ⟨fun ⟨_, h⟩ => h, fun h => ⟨(), h⟩⟩

theorem ends_ite {condition : Prop} [Decidable condition]
    {program program' : Program Fault State α} {result : α} :
    Ends (if condition then program else program') before result after ↔
      (condition ∧ Ends program before result after) ∨
        (¬condition ∧ Ends program' before result after) := by
  split <;> simp [*]

def Avoids (fault : Fault) (program : Program Fault State α) (before : State) : Prop :=
  program before ≠ .error fault

theorem Ends.bind_eq {first : Program Fault State α} {next : α → Program Fault State β} {value : α}
    {middle : State} (h : Ends first before value middle) :
    (first >>= next) before = next value middle := by
  change Except.bind (first before) _ = _
  rw [h]
  rfl

theorem Ends.bind_iff {first : Program Fault State α} {next : α → Program Fault State β} {value : α}
    {middle : State} {result : β} (h : Ends first before value middle) :
    Ends (first >>= next) before result after ↔ Ends (next value) middle result after := by
  unfold Ends
  rw [h.bind_eq]

theorem Avoids.next {fault : Fault} {first : Program Fault State α}
    {next : α → Program Fault State β} {value : α} {middle : State}
    (h : Avoids fault (first >>= next) before) (hfirst : Ends first before value middle) :
    Avoids fault (next value) middle := by
  unfold Avoids at h ⊢
  rwa [hfirst.bind_eq] at h

theorem Avoids.first {fault : Fault} {first : Program Fault State α}
    {next : α → Program Fault State β} (h : Avoids fault (first >>= next) before) :
    Avoids fault first before := by
  intro hfault
  apply h
  change Except.bind (first before) _ = _
  rw [hfault]
  rfl

theorem Avoids.get_bind {fault : Fault} {next : State → Program Fault State α}
    (h : Avoids fault (get >>= next) before) : Avoids fault (next before) before := h

theorem Avoids.modify_bind {fault : Fault} {change : State → State}
    {next : Unit → Program Fault State α} (h : Avoids fault (modify change >>= next) before) :
    Avoids fault (next ()) (change before) := h

/-- The program does not end with that fault, and where it ends at all, `post` holds. -/
structure Secure (fault : Fault) (program : Program Fault State α) (before : State)
    (post : α → State → Prop) : Prop where
  avoids : Avoids fault program before
  holds : ∀ {result after}, Ends program before result after → post result after

namespace Secure

variable {fault other : Fault} {program : Program Fault State α} {post post' : α → State → Prop}

theorem bind {next : α → Program Fault State β} {last : β → State → Prop}
    (h : Secure fault program before post)
    (h' : ∀ value middle, post value middle → Secure fault (next value) middle last) :
    Secure fault (program >>= next) before last := by
  refine ⟨?_, fun hends => ?_⟩
  · change Except.bind (program before) _ ≠ _
    cases hresult : program before with
    | error found =>
        exact fun heq => h.avoids (hresult.trans (congrArg Except.error (Except.error.inj heq)))
    | ok pair =>
        obtain ⟨value, middle⟩ := pair
        exact (h' value middle (h.holds hresult)).avoids
  · obtain ⟨value, middle, hfirst, hnext⟩ := ends_bind.mp hends
    exact (h' value middle (h.holds hfirst)).holds hnext

theorem of_ends {result : α} (h : Ends program before result after) (hpost : post result after) :
    Secure fault program before post := by
  refine ⟨?_, fun hends => ?_⟩
  · rw [Avoids, h]
    exact fun heq => by cases heq
  · obtain ⟨rfl, rfl⟩ := h.unique hends
    exact hpost

theorem bind_ends {next : α → Program Fault State β} {last : β → State → Prop} {value : α}
    {middle : State} (h : Ends program before value middle)
    (h' : Secure fault (next value) middle last) : Secure fault (program >>= next) before last := by
  refine bind (@of_ends _ _ _ _ _ _ _ (fun value' state => value' = value ∧ state = middle) _ h
    ⟨rfl, rfl⟩) ?_
  rintro _ _ ⟨rfl, rfl⟩
  exact h'

theorem of_eq {program' : Program Fault State α} {before' : State}
    (h : Secure fault program' before' post) (hsame : program before = program' before') :
    Secure fault program before post := by
  refine ⟨fun heq => h.avoids (hsame.symm.trans heq), fun hends => h.holds ?_⟩
  exact hsame.symm.trans hends

theorem pure {value : α} (h : post value before) :
    Secure fault (Pure.pure value : Program Fault State α) before post :=
  of_ends (ends_pure.mpr ⟨rfl, rfl⟩) h

theorem throw (hne : other ≠ fault) :
    Secure fault (throw other : Program Fault State α) before post :=
  ⟨fun heq => hne (Except.error.inj heq), fun hends => absurd hends ends_throw⟩

theorem get_bind {next : State → Program Fault State α} (h : Secure fault (next before) before post) :
    Secure fault (get >>= next) before post :=
  ⟨h.avoids, h.holds⟩

theorem modify_bind {change : State → State} {next : Unit → Program Fault State α}
    (h : Secure fault (next ()) (change before) post) :
    Secure fault (modify change >>= next) before post :=
  ⟨h.avoids, h.holds⟩

theorem mono (h : Secure fault program before post)
    (hle : ∀ value state, post value state → post' value state) :
    Secure fault program before post' :=
  ⟨h.avoids, fun hends => hle _ _ (h.holds hends)⟩

end Secure

/-- One program does what the other one does, or ends with that fault. -/
def UpTo (fault : Fault) (program program' : Program Fault State α) : Prop :=
  ∀ state, Avoids fault program state → program state = program' state

namespace UpTo

variable {fault : Fault} {program program' : Program Fault State α}

theorem refl : UpTo fault program program := fun _ _ => rfl

theorem bind {next next' : α → Program Fault State β} (h : UpTo fault program program')
    (h' : ∀ value, UpTo fault (next value) (next' value)) :
    UpTo fault (program >>= next) (program' >>= next') := by
  intro state havoids
  have hsame := h state havoids.first
  change Except.bind (program state) _ = Except.bind (program' state) _
  rw [← hsame]
  cases hresult : program state with
  | error => rfl
  | ok pair =>
      obtain ⟨value, middle⟩ := pair
      exact h' value middle (havoids.next hresult)

theorem ite {condition : Prop} [Decidable condition] {other other' : Program Fault State α}
    (h : UpTo fault program program') (h' : UpTo fault other other') :
    UpTo fault (if condition then program else other) (if condition then program' else other') := by
  split
  · exact h
  · exact h'

theorem ends {result : α} (h : UpTo fault program program') (hends : Ends program before result after) :
    Ends program' before result after := by
  have havoids : Avoids fault program before := by
    rw [Avoids, hends]
    exact fun heq => by cases heq
  unfold Ends at hends ⊢
  rw [← h before havoids, hends]

end UpTo

/-- What a program leaves as it was, as a relation between the states before and after. -/
class Frame (rel : State → State → Prop) : Prop where
  refl : ∀ state, rel state state
  trans : ∀ {first middle last}, rel first middle → rel middle last → rel first last

/-- Every run of the program that does not fault is in the relation. -/
structure Keeps (rel : State → State → Prop) (program : Program Fault State α) : Prop where
  of_ends : ∀ {before result after}, Ends program before result after → rel before after

namespace Keeps

variable {rel : State → State → Prop} {program program' : Program Fault State α}

theorem pure [Frame rel] {value : α} : Keeps rel (Pure.pure value : Program Fault State α) := by
  refine ⟨fun h => ?_⟩
  obtain ⟨-, rfl⟩ := ends_pure.mp h
  exact Frame.refl _

theorem throw {fault : Fault} : Keeps rel (throw fault : Program Fault State α) :=
  ⟨fun h => absurd h ends_throw⟩

theorem get [Frame rel] : Keeps rel (get : Program Fault State State) := by
  refine ⟨fun h => ?_⟩
  obtain ⟨-, rfl⟩ := ends_get.mp h
  exact Frame.refl _

theorem modify {change : State → State} (h : ∀ state, rel state (change state)) :
    Keeps rel (modify change : Program Fault State Unit) := by
  refine ⟨fun hend => ?_⟩
  obtain rfl := ends_modify.mp hend
  exact h _

theorem bind [Frame rel] {next : α → Program Fault State β} (h : Keeps rel program)
    (h' : ∀ value, Keeps rel (next value)) : Keeps rel (program >>= next) := by
  refine ⟨fun hend => ?_⟩
  obtain ⟨value, middle, hfirst, hnext⟩ := ends_bind.mp hend
  exact Frame.trans (h.of_ends hfirst) ((h' value).of_ends hnext)

theorem mono {rel' : State → State → Prop} (h : Keeps rel program)
    (hle : ∀ {before after}, rel before after → rel' before after) : Keeps rel' program :=
  ⟨fun hend => hle (h.of_ends hend)⟩

theorem ite {condition : Prop} [Decidable condition] (h : Keeps rel program)
    (h' : Keeps rel program') : Keeps rel (if condition then program else program') := by
  split
  · exact h
  · exact h'

end Keeps

end Faulting
