import SlobOS.Process
import SlobOS.Lib.Rings
import SlobOS.Lib.Runs

/-!
# The keyboard buffer as a queue

The buffer of a process under pushes, pops and backspaces. Head and tail are free-running counters of
32 bits, and a zero in a cell says that nothing is there: as long as the counters stay within one round
of each other the unread characters are a queue.
-/

namespace SlobOS

open Rings Runs

/-- A character pushed, the character that a pop returned, or a backspace. -/
inductive KeyAction where
  | push (c : UInt8)
  | pop (c : UInt8)
  | backspace

inductive KeyStep : Sched → KeyAction → Sched → Prop
  | push {sched : Sched} {c : UInt8} : c ≠ 0 → KeyStep sched (.push c) (keyboardPush sched c)
  | pop {sched : Sched} : KeyStep sched (.pop (keyboardPop sched).1) (keyboardPop sched).2

def pushedKeys : List KeyAction → List UInt8 :=
  List.filterMap fun action => match action with
    | .push c => some c
    | _ => none

def poppedKeys : List KeyAction → List UInt8 :=
  List.filterMap fun action => match action with
    | .pop c => if c = 0 then none else some c
    | _ => none

def KeyboardBuffer.unread (keyboard : KeyboardBuffer) : Nat :=
  ((keyboard.tail - keyboard.head) % addressSpace).toNat

/-- Pushes go to the buffer of the process, and pops take from it. -/
structure HasKeyboard (sched : Sched) (process : Nat) : Prop where
  current : sched.currentProcess = process
  owner : sched.owner sched.list.currentTask = process
  ne_zero : process ≠ 0

/-- The buffer holds the characters, the first of which is in the cell of number `first`. -/
structure KeyboardHolds (keyboard : KeyboardBuffer) (first : Nat) (keys : List UInt8) : Prop where
  head : keyboard.head = toInt32 first
  tail : keyboard.tail = toInt32 (first + keys.length : Nat)
  cells : Carries keyboard.buffer 0 1024 first keys

variable {sched after : Sched} {process first : Nat} {keyboard : KeyboardBuffer} {c : UInt8}
  {keys : List UInt8}

theorem keyboardIndex_toInt32 (n : Nat) : keyboardIndex (toInt32 n) = n % 1024 := by
  simp only [keyboardIndex, toInt32, addressSpace, Int.bmod]
  omega

theorem toInt32_succ (n : Nat) : toInt32 (toInt32 n + 1) = toInt32 (n + 1 : Nat) := by
  simp only [toInt32, addressSpace, Int.bmod]
  omega

theorem toInt32_pred (n : Nat) : toInt32 (toInt32 (n + 1 : Nat) - 1) = toInt32 n := by
  simp only [toInt32, addressSpace, Int.bmod]
  omega

theorem KeyboardHolds.unread (h : KeyboardHolds keyboard first keys) :
    keyboard.unread = keys.length := by
  have hfits := h.cells.fits
  rw [KeyboardBuffer.unread, h.head, h.tail]
  simp only [toInt32, addressSpace, Int.bmod]
  omega

theorem emptyKeyboard_holds : KeyboardHolds emptyKeyboard 0 [] where
  head := rfl
  tail := rfl
  cells := .empty (fun _ _ => rfl) (by decide) 0

@[simp]
theorem setKeyboard_keyboard : ((sched.setKeyboard process keyboard).procs process).keyboard =
    keyboard := by
  simp [Sched.setKeyboard]

theorem HasKeyboard.setKeyboard (h : HasKeyboard sched process) :
    HasKeyboard (sched.setKeyboard process keyboard) process :=
  ⟨h.current, h.owner, h.ne_zero⟩

theorem KeyboardHolds.push (h : KeyboardHolds (sched.procs process).keyboard first keys)
    (hkeyboard : HasKeyboard sched process) (hc : c ≠ 0) (hroom : keys.length < 1024) :
    HasKeyboard (keyboardPush sched c) process ∧
      KeyboardHolds ((keyboardPush sched c).procs process).keyboard first (keys ++ [c]) := by
  rw [keyboardPush, hkeyboard.current, if_neg hkeyboard.ne_zero, if_neg hc]
  refine ⟨hkeyboard.setKeyboard, ?_⟩
  rw [setKeyboard_keyboard]
  refine ⟨h.head, ?_, ?_⟩
  · dsimp only
    rw [h.tail, toInt32_succ, List.length_append, List.length_singleton, Nat.add_assoc]
  · have hpush := h.cells.push hroom hc
    rw [← keyboardIndex_toInt32, ← h.tail] at hpush
    exact hpush

theorem KeyboardHolds.pop_nil (h : KeyboardHolds (sched.procs process).keyboard first [])
    (hkeyboard : HasKeyboard sched process) : keyboardPop sched = (0, sched) := by
  have hcell := h.cells.first_eq (by decide)
  rw [← keyboardIndex_toInt32, ← h.head, List.headD_nil] at hcell
  rw [keyboardPop, hkeyboard.owner, if_pos hcell]

theorem KeyboardHolds.pop_cons (h : KeyboardHolds (sched.procs process).keyboard first (c :: keys))
    (hkeyboard : HasKeyboard sched process) : (keyboardPop sched).1 = c ∧ c ≠ 0 ∧
      HasKeyboard (keyboardPop sched).2 process ∧
      KeyboardHolds ((keyboardPop sched).2.procs process).keyboard (first + 1) keys := by
  have hcell := h.cells.first_eq (by decide)
  have hc := h.cells.nonblank c List.mem_cons_self
  rw [← keyboardIndex_toInt32, ← h.head, List.headD_cons] at hcell
  rw [keyboardPop, hkeyboard.owner, hcell, if_neg hc]
  refine ⟨rfl, hc, hkeyboard.setKeyboard, ?_⟩
  rw [setKeyboard_keyboard]
  refine ⟨?_, ?_, ?_⟩
  · dsimp only
    rw [h.head, toInt32_succ]
  · dsimp only
    rw [h.tail, List.length_cons, Nat.add_assoc, Nat.add_comm 1]
  · have hpop := h.cells.pop
    rw [← keyboardIndex_toInt32, ← h.head] at hpop
    exact hpop

theorem KeyboardHolds.backspace
    (h : KeyboardHolds (sched.procs process).keyboard first (keys ++ [c]))
    (hkeyboard : HasKeyboard sched process) :
    HasKeyboard (keyboardBackspace sched process) process ∧
      KeyboardHolds ((keyboardBackspace sched process).procs process).keyboard first keys := by
  refine ⟨hkeyboard.setKeyboard, ?_⟩
  have htail : toInt32 ((sched.procs process).keyboard.tail - 1) =
      toInt32 (first + keys.length : Nat) := by
    rw [h.tail, List.length_append, List.length_singleton, ← Nat.add_assoc, toInt32_pred]
  rw [keyboardBackspace, setKeyboard_keyboard]
  refine ⟨h.head, htail, ?_⟩
  have hcells := h.cells.unpush
  rw [← keyboardIndex_toInt32, ← htail] at hcells
  exact hcells

/-- A queue of characters. A pop of an empty queue returns zero. -/
inductive QueueStep : List UInt8 → KeyAction → List UInt8 → Prop
  | push {keys : List UInt8} {c : UInt8} : c ≠ 0 → QueueStep keys (.push c) (keys ++ [c])
  | pop {keys : List UInt8} {c : UInt8} : c ≠ 0 → QueueStep (c :: keys) (.pop c) keys
  | popEmpty : QueueStep [] (.pop 0) []

theorem queue_run_conserves {actions : List KeyAction}
    (hrun : Run QueueStep [] actions keys) : pushedKeys actions = poppedKeys actions ++ keys := by
  generalize hfirst : ([] : List UInt8) = first at hrun
  induction hrun with
  | nil => simp [pushedKeys, poppedKeys, hfirst]
  | snoc _ hlast ih =>
      have hconserves := ih
      unfold pushedKeys poppedKeys at *
      cases hlast with
      | push _ => simp [hconserves]
      | pop hc => simp [hconserves, hc]
      | popEmpty => simp [hconserves]

/-- A push leaves fewer than a round of characters unread. -/
def HasRoom (process : Nat) (sched : Sched) : KeyAction → Prop
  | .push _ => (sched.procs process).keyboard.unread < 1024
  | _ => True

def IsQueue (process : Nat) (sched : Sched) (keys : List UInt8) : Prop :=
  HasKeyboard sched process ∧ ∃ first, KeyboardHolds (sched.procs process).keyboard first keys

theorem IsQueue.step {action : KeyAction} (h : IsQueue process sched keys)
    (hroom : HasRoom process sched action) (hstep : KeyStep sched action after) :
    ∃ keys', QueueStep keys action keys' ∧ IsQueue process after keys' := by
  obtain ⟨hkeyboard, first, hholds⟩ := h
  cases hstep with
  | @push c hc =>
      have hlt : keys.length < 1024 := hholds.unread ▸ hroom
      obtain ⟨hkeyboard', hholds'⟩ := hholds.push hkeyboard hc hlt
      exact ⟨keys ++ [c], .push hc, hkeyboard', first, hholds'⟩
  | pop =>
      cases keys with
      | nil =>
          rw [hholds.pop_nil hkeyboard]
          exact ⟨[], .popEmpty, hkeyboard, first, hholds⟩
      | cons c keys =>
          obtain ⟨heq, hc, hkeyboard', hholds'⟩ := hholds.pop_cons hkeyboard
          rw [heq]
          exact ⟨keys, .pop hc, hkeyboard', first + 1, hholds'⟩

/-- Pushed into only while it has room, the buffer is a queue, and a pop returns zero exactly when
nothing is unread. -/
theorem keyboard_refines_queue {actions : List KeyAction} (hkeyboard : HasKeyboard sched process)
    (hempty : (sched.procs process).keyboard = emptyKeyboard)
    (hrun : Run (Guarded (HasRoom process) KeyStep) sched actions after) :
    ∃ keys, Run QueueStep [] actions keys ∧ pushedKeys actions = poppedKeys actions ++ keys ∧
      ((keyboardPop after).1 = 0 ↔ keys = []) := by
  have hfirst : IsQueue process sched [] := ⟨hkeyboard, 0, hempty ▸ emptyKeyboard_holds⟩
  obtain ⟨keys, hqueue, hkeyboard', first, hholds⟩ := hrun.simulates (IsQueue process)
    (fun _ _ _ _ hrel hstep => hrel.step hstep.1 hstep.2) hfirst
  refine ⟨keys, hqueue, queue_run_conserves hqueue, ?_⟩
  cases keys with
  | nil => simp [hholds.pop_nil hkeyboard']
  | cons c keys =>
      obtain ⟨heq, hc, -⟩ := hholds.pop_cons hkeyboard'
      simp [heq, hc]

def keyboardSched : Sched where
  list := emptyTaskList fun _ => taskInit 0 0 1
  procs := fun _ => { id := 0, task := 0, filetype := .elf, keyboard := emptyKeyboard }
  processes := fun _ => 0
  currentProcess := 1

theorem keyboardSched_has : HasKeyboard keyboardSched 1 := ⟨rfl, rfl, by decide⟩

def keyboardPushed : Sched := keyboardPush (keyboardPush keyboardSched 0x61) 0x62

theorem keyboard_refines_queue_two : ∃ keys,
    Run QueueStep [] [.push 0x61, .push 0x62, .pop 0x61] keys ∧
    pushedKeys [.push 0x61, .push 0x62, .pop 0x61] =
      poppedKeys [.push 0x61, .push 0x62, .pop 0x61] ++ keys ∧
      ((keyboardPop (keyboardPop keyboardPushed).2).1 = 0 ↔ keys = []) := by
  have hpop : (keyboardPop keyboardPushed).1 = 0x61 := by decide
  have hfirst : HasRoom 1 keyboardSched (.push 0x61) := show (0 : Nat) < 1024 by decide
  have hsecond : HasRoom 1 (keyboardPush keyboardSched 0x61) (.push 0x62) :=
    show (1 : Nat) < 1024 by decide
  have hpushed : Run (Guarded (HasRoom 1) KeyStep) keyboardSched [.push 0x61, .push 0x62]
      keyboardPushed :=
    (Run.single ⟨hfirst, .push (by decide)⟩).snoc ⟨hsecond, .push (by decide)⟩
  have hlast : Guarded (HasRoom 1) KeyStep keyboardPushed (.pop 0x61) (keyboardPop keyboardPushed).2 :=
    ⟨trivial, hpop ▸ KeyStep.pop⟩
  have hrun := hpushed.snoc hlast
  exact keyboard_refines_queue keyboardSched_has rfl hrun

/-! ### With backspaces, and without a bound -/

/-- Also `keyboard_backspace` on the buffer of the process. -/
inductive EditStep (process : Nat) : Sched → KeyAction → Sched → Prop
  | key {sched after : Sched} {action : KeyAction} : KeyStep sched action after →
      EditStep process sched action after
  | backspace {sched : Sched} : EditStep process sched .backspace (keyboardBackspace sched process)

/-- The window of the counters is in order, and its cells are the ones in use. -/
structure WindowOk (keyboard : KeyboardBuffer) : Prop where
  head_le : keyboard.head ≤ keyboard.tail
  tail_le : keyboard.tail ≤ keyboard.head + 1024
  cells : ∀ i < 1024, keyboard.buffer i ≠ 0 ↔
    ∃ n, keyboard.head ≤ n ∧ n < keyboard.tail ∧ keyboardIndex n = i

/-- A push into a buffer that has room, with a counter that does not overflow, a backspace in a buffer
that has characters, or a pop. -/
def KeepsWindow (process : Nat) (sched : Sched) : KeyAction → Prop
  | .push _ => (sched.procs process).keyboard.unread < 1024 ∧
      (sched.procs process).keyboard.tail < 0x7fffffff
  | .pop _ => True
  | .backspace => 0 < (sched.procs process).keyboard.unread

theorem KeyboardHolds.head_eq (h : KeyboardHolds keyboard first keys)
    (hlt : first + keys.length < 0x80000000) : keyboard.head = first := by
  rw [h.head]
  simp only [toInt32, addressSpace, Int.bmod]
  omega

theorem KeyboardHolds.tail_eq (h : KeyboardHolds keyboard first keys)
    (hlt : first + keys.length < 0x80000000) : keyboard.tail = first + keys.length := by
  rw [h.tail]
  simp only [toInt32, addressSpace, Int.bmod]
  omega

theorem KeyboardHolds.windowOk (h : KeyboardHolds keyboard first keys)
    (hlt : first + keys.length < 0x80000000) : WindowOk keyboard := by
  have hhead := h.head_eq hlt
  have htail := h.tail_eq hlt
  have hfits := h.cells.fits
  refine ⟨by omega, by omega, fun i hi => (h.cells.ne_blank_iff hi).trans ?_⟩
  rw [hhead, htail]
  constructor
  · rintro ⟨j, hj, rfl⟩
    refine ⟨(first + j : Nat), by omega, by omega, ?_⟩
    simp only [keyboardIndex, addressSpace]
    omega
  · rintro ⟨n, hge, hn, rfl⟩
    refine ⟨(n - first).toNat, by omega, ?_⟩
    simp only [keyboardIndex, addressSpace]
    omega

/-- The buffer holds what has not been read or taken back, in the order in which it was pushed. -/
structure EditInv (process : Nat) (actions : List KeyAction) (sched : Sched) (first : Nat)
    (keys : List UInt8) : Prop where
  has : HasKeyboard sched process
  holds : KeyboardHolds (sched.procs process).keyboard first keys
  lt : first + keys.length < 0x80000000
  order : (poppedKeys actions ++ keys).Sublist (pushedKeys actions)

theorem EditInv.step {action : KeyAction} {actions : List KeyAction}
    (h : EditInv process actions sched first keys) (hkeeps : KeepsWindow process sched action)
    (hstep : EditStep process sched action after) :
    ∃ first' keys', EditInv process (actions ++ [action]) after first' keys' := by
  obtain ⟨hkeyboard, hholds, hlt, horder⟩ := h
  unfold pushedKeys poppedKeys at horder
  cases hstep with
  | key hkey =>
      cases hkey with
      | @push c hc =>
          obtain ⟨hroom, htail⟩ := hkeeps
          rw [hholds.unread] at hroom
          rw [hholds.tail_eq hlt] at htail
          obtain ⟨hkeyboard', hholds'⟩ := hholds.push hkeyboard hc hroom
          refine ⟨first, keys ++ [c], hkeyboard', hholds', ?_, ?_⟩
          · rw [List.length_append, List.length_singleton]
            omega
          · simp only [pushedKeys, poppedKeys, List.filterMap_append, List.filterMap_cons,
              List.filterMap_nil, List.append_nil, ← List.append_assoc]
            exact horder.append (List.Sublist.refl _)
      | pop =>
          cases keys with
          | nil =>
              rw [hholds.pop_nil hkeyboard]
              refine ⟨first, [], hkeyboard, hholds, hlt, ?_⟩
              simpa [pushedKeys, poppedKeys] using horder
          | cons c keys =>
              obtain ⟨heq, hc, hkeyboard', hholds'⟩ := hholds.pop_cons hkeyboard
              rw [heq]
              refine ⟨first + 1, keys, hkeyboard', hholds', ?_, ?_⟩
              · rw [List.length_cons] at hlt
                omega
              · simpa [pushedKeys, poppedKeys, hc] using horder
  | backspace =>
      rw [KeepsWindow, hholds.unread] at hkeeps
      obtain ⟨keys', c, rfl⟩ : ∃ keys' c, keys = keys' ++ [c] :=
        ⟨keys.dropLast, keys.getLast (List.ne_nil_of_length_pos hkeeps),
          (List.dropLast_append_getLast _).symm⟩
      obtain ⟨hkeyboard', hholds'⟩ := hholds.backspace hkeyboard
      refine ⟨first, keys', hkeyboard', hholds', ?_, ?_⟩
      · rw [List.length_append, List.length_singleton] at hlt
        omega
      · simp only [pushedKeys, poppedKeys, List.filterMap_append, List.filterMap_cons,
          List.filterMap_nil, List.append_nil]
        refine List.Sublist.trans ?_ horder
        rw [← List.append_assoc]
        exact List.sublist_append_left _ _

theorem keyboardPush_counters (hkeyboard : HasKeyboard sched process) (hc : c ≠ 0) :
    ((keyboardPush sched c).procs process).keyboard.head = (sched.procs process).keyboard.head ∧
      ((keyboardPush sched c).procs process).keyboard.tail =
        toInt32 ((sched.procs process).keyboard.tail + 1) := by
  rw [keyboardPush, hkeyboard.current, if_neg hkeyboard.ne_zero, if_neg hc, setKeyboard_keyboard]
  exact ⟨rfl, rfl⟩

theorem windowOk_step_iff {action : KeyAction} {actions : List KeyAction}
    (h : EditInv process actions sched first keys) (hstep : EditStep process sched action after) :
    WindowOk (after.procs process).keyboard ↔ KeepsWindow process sched action := by
  constructor
  · intro hok
    have hle := hok.head_le
    have hle' := hok.tail_le
    have hhead := h.holds.head_eq h.lt
    have htail := h.holds.tail_eq h.lt
    have hlt := h.lt
    have hunread := h.holds.unread
    cases hstep with
    | key hkey =>
        cases hkey with
        | push hc =>
            obtain ⟨hhead', htail'⟩ := keyboardPush_counters h.has hc
            rw [hhead', htail', hhead, htail] at hle hle'
            simp only [toInt32, addressSpace, Int.bmod] at hle hle'
            refine ⟨?_, ?_⟩
            · rw [hunread]
              omega
            · rw [htail]
              omega
        | pop => trivial
    | backspace =>
        rw [keyboardBackspace, setKeyboard_keyboard] at hle
        dsimp only at hle
        rw [hhead, htail] at hle
        simp only [toInt32, addressSpace, Int.bmod] at hle
        rw [KeepsWindow, hunread]
        omega
  · intro hkeeps
    obtain ⟨first', keys', h'⟩ := h.step hkeeps hstep
    exact h'.holds.windowOk h'.lt

/-- As long as every step meets the condition, the counters are at most a round apart, the cells
between them are the ones in use, and what is popped is in the order of the pushes; the next step
keeps the window exactly when it meets the condition. -/
theorem keyboard_history_ordered {actions : List KeyAction} (hkeyboard : HasKeyboard sched process)
    (hempty : (sched.procs process).keyboard = emptyKeyboard)
    (hrun : Run (Guarded (KeepsWindow process) (EditStep process)) sched actions after) :
    WindowOk (after.procs process).keyboard ∧ (poppedKeys actions).Sublist (pushedKeys actions) ∧
      ∀ action next, EditStep process after action next →
        (WindowOk (next.procs process).keyboard ↔ KeepsWindow process after action) := by
  have hinv : ∃ first keys, EditInv process actions after first keys := by
    induction hrun with
    | nil =>
        refine ⟨0, [], hkeyboard, hempty ▸ emptyKeyboard_holds, by simp, ?_⟩
        simp [pushedKeys, poppedKeys]
    | snoc _ hlast ih =>
        obtain ⟨first, keys, h⟩ := ih
        exact h.step hlast.1 hlast.2
  obtain ⟨first, keys, h⟩ := hinv
  refine ⟨h.holds.windowOk h.lt, ?_, fun _ _ hstep => windowOk_step_iff h hstep⟩
  exact (List.sublist_append_left _ _).trans h.order

theorem keyboard_history_ordered_one : WindowOk
    ((keyboardBackspace (keyboardPush keyboardSched 0x61) 1).procs 1).keyboard := by
  have hpush : Run (Guarded (KeepsWindow 1) (EditStep 1)) keyboardSched [.push 0x61]
      (keyboardPush keyboardSched 0x61) :=
    .single ⟨⟨show (0 : Nat) < 1024 by decide, show (0 : Int) < 0x7fffffff by decide⟩,
      .key (.push (by decide))⟩
  have hback : KeepsWindow 1 (keyboardPush keyboardSched 0x61) .backspace :=
    show 0 < ((keyboardPush keyboardSched 0x61).procs 1).keyboard.unread by decide
  exact (keyboard_history_ordered keyboardSched_has rfl (hpush.snoc ⟨hback, .backspace⟩)).1

/-- A backspace in an empty buffer moves the tail before the head. -/
theorem keyboard_history_not_ordered : ¬∀ actions after,
    Run (EditStep 1) keyboardSched actions after → WindowOk (after.procs 1).keyboard := by
  intro hall
  have hok := hall _ _ (.single .backspace)
  exact absurd hok.head_le (by decide)

end SlobOS
