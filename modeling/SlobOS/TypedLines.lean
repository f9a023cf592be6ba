import SlobOS.Keyboard
import SlobOS.KeyboardRuns
import SlobOS.ReadLines
import SlobOS.Proof.TaskReturn

/-!
# What is typed and what is read

From the interrupts of the keyboard to the line that a program reads: keys are pressed and released
while the program polls, in any order. The line is that of the keys that were pressed, whenever they
were pressed.
-/

namespace SlobOS

open Runs LineEditors CStrings

inductive TypingAction where
  | interrupt (scancode : UInt8)
  | getkey (c : UInt8)

/-- `frame` is what the interrupted program is saved with. -/
inductive TypingStep (idt : Idt) (behind : UInt8) : Sched → TypingAction → Sched → Prop
  | interrupt {sched sched' : Sched} {scancode : UInt8} {frame : InterruptFrame} {elfResult : Int} :
      interruptHandler idt behind scancode elfResult 0x21 frame sched = some sched' →
        TypingStep idt behind sched (.interrupt scancode) sched'
  | getkey {sched : Sched} {frame : InterruptFrame} :
      TypingStep idt behind sched (.getkey (keyboardPop (taskCurrentSaveState sched frame)).1)
        (keyboardPop (taskCurrentSaveState sched frame)).2

/-- The character of a scancode, and zero where the interrupt pushes none. -/
def typedKey (behind scancode : UInt8) : UInt8 :=
  if scancode &&& ps2KeyboardKeyReleased ≠ 0 then 0 else ps2KeyboardScancodeToChar behind scancode

def typedKeys (behind : UInt8) (actions : List TypingAction) : List UInt8 :=
  keysOf (actions.filterMap fun action => match action with
    | .interrupt scancode => some (typedKey behind scancode)
    | .getkey _ => none)

def polledKeys (actions : List TypingAction) : List UInt8 :=
  actions.filterMap fun action => match action with
    | .interrupt _ => none
    | .getkey c => some c

def RoomToType (behind : UInt8) (process : Nat) (sched : Sched) : TypingAction → Prop
  | .interrupt scancode => typedKey behind scancode ≠ 0 →
      (sched.procs process).keyboard.unread < 1024
  | .getkey _ => True

variable {idt : Idt} {behind scancode : UInt8} {sched after : Sched} {process : Nat}
  {keys : List UInt8} {actions : List TypingAction}

theorem ps2KeyboardHandleInterrupt_eq : ps2KeyboardHandleInterrupt behind scancode sched =
    if typedKey behind scancode ≠ 0 then keyboardPush sched (typedKey behind scancode) else sched := by
  unfold ps2KeyboardHandleInterrupt typedKey
  by_cases hreleased : scancode &&& ps2KeyboardKeyReleased ≠ 0
  · simp [hreleased]
  · simp [hreleased]

theorem IsQueue.save (h : IsQueue process sched keys) (frame : InterruptFrame) :
    IsQueue process (taskCurrentSaveState sched frame) keys := by
  obtain ⟨⟨hcurrent, howner, hne⟩, hholds⟩ := h
  refine ⟨⟨hcurrent, ?_, hne⟩, hholds⟩
  simp only [taskCurrentSaveState, Sched.owner, TaskList.update, TaskList.touch] at howner ⊢
  split <;> simp only [if_true] <;> exact howner

theorem typedKeys_snoc_interrupt : typedKeys behind (actions ++ [.interrupt scancode]) =
    typedKeys behind actions ++ keysOf [typedKey behind scancode] := by
  simp [typedKeys, keysOf]

theorem typedKeys_snoc_getkey {c : UInt8} :
    typedKeys behind (actions ++ [.getkey c]) = typedKeys behind actions := by
  simp [typedKeys]

theorem polledKeys_snoc_interrupt :
    polledKeys (actions ++ [.interrupt scancode]) = polledKeys actions := by
  simp [polledKeys]

theorem polledKeys_snoc_getkey {c : UInt8} :
    polledKeys (actions ++ [.getkey c]) = polledKeys actions ++ [c] := by
  simp [polledKeys]

theorem keysOf_append (polls polls' : List UInt8) :
    keysOf (polls ++ polls') = keysOf polls ++ keysOf polls' :=
  List.filter_append polls polls'

/-- What has been typed is what has been polled, and what is unread. -/
structure TypedSoFar (behind : UInt8) (process : Nat) (actions : List TypingAction) (sched : Sched)
    (keys : List UInt8) : Prop where
  queue : IsQueue process sched keys
  typed : typedKeys behind actions = keysOf (polledKeys actions) ++ keys

theorem TypedSoFar.step {action : TypingAction} (h : TypedSoFar behind process actions sched keys)
    (hkeyboard : idt.callbacks 0x21 = some .ps2KeyboardHandleInterrupt)
    (hroom : RoomToType behind process sched action) (hstep : TypingStep idt behind sched action after) :
    ∃ keys', TypedSoFar behind process (actions ++ [action]) after keys' := by
  obtain ⟨hqueue, htyped⟩ := h
  cases hstep with
  | @interrupt _ scancode frame _ hhandled =>
      have hsaved := hqueue.save frame
      rw [interruptHandler, hkeyboard] at hhandled
      obtain rfl := Option.some.inj hhandled
      rw [ps2KeyboardHandleInterrupt_eq]
      by_cases hkey : typedKey behind scancode = 0
      · refine ⟨keys, ?_, ?_⟩
        · simpa [hkey] using hsaved
        · rw [typedKeys_snoc_interrupt, polledKeys_snoc_interrupt, hkey, htyped]
          simp [keysOf]
      · have hfits : HasRoom process (taskCurrentSaveState sched frame)
            (.push (typedKey behind scancode)) := hroom hkey
        obtain ⟨keys', hqueued, hqueue'⟩ := hsaved.step hfits (.push hkey)
        cases hqueued
        refine ⟨keys ++ [typedKey behind scancode], ?_, ?_⟩
        · simpa only [ne_eq, hkey, not_false_eq_true, if_true] using hqueue'
        · rw [typedKeys_snoc_interrupt, polledKeys_snoc_interrupt, htyped, List.append_assoc]
          simp [keysOf, hkey]
  | @getkey frame =>
      have hpop : KeyStep (taskCurrentSaveState sched frame)
          (.pop (keyboardPop (taskCurrentSaveState sched frame)).1)
          (keyboardPop (taskCurrentSaveState sched frame)).2 := .pop
      have hfits : HasRoom process (taskCurrentSaveState sched frame)
          (.pop (keyboardPop (taskCurrentSaveState sched frame)).1) := trivial
      obtain ⟨keys', hqueued, hqueue'⟩ := (hqueue.save frame).step hfits hpop
      refine ⟨keys', hqueue', ?_⟩
      rw [typedKeys_snoc_getkey, polledKeys_snoc_getkey, keysOf_append, htyped]
      generalize (keyboardPop (taskCurrentSaveState sched frame)).1 = c at hqueued ⊢
      cases hqueued with
      | pop hc => simp [keysOf, hc]
      | popEmpty => simp [keysOf]

theorem typedSoFar_of_run (hkeyboard : idt.callbacks 0x21 = some .ps2KeyboardHandleInterrupt)
    (hhas : HasKeyboard sched process) (hempty : (sched.procs process).keyboard = emptyKeyboard)
    (hrun : Run (Guarded (RoomToType behind process) (TypingStep idt behind)) sched actions after) :
    ∃ keys, TypedSoFar behind process actions after keys := by
  induction hrun with
  | nil => exact ⟨[], ⟨hhas, 0, hempty ▸ emptyKeyboard_holds⟩, rfl⟩
  | snoc _ hlast ih =>
      obtain ⟨keys, htyped⟩ := ih
      exact htyped.step hkeyboard hlast.1 hlast.2

/-- What `slobos_terminal_readline` makes of the polls, and what the keys that were typed are edited to.
A backspace on an empty line is stored like any other key. -/
structure ReadsTyped (limit : Nat) (typed polled keys : List UInt8)
    (result : LineRead × Option (List UInt8)) : Prop where
  unread : typed = polled ++ keys
  returned : ∀ rest, result.2 = some rest → ∃ line,
    edit 13 0x08 [0x08] limit typed [] = some (line, keysOf rest ++ keys) ∧
      StringAt (fun j => result.1.out j) 0 line
  waiting : result.2 = none ↔ edit 13 0x08 [0x08] limit polled [] = none

/-- The line that is read is that of the keys that were pressed, and the keys behind it are left for the
next one. The function is still waiting for its line exactly as long as the polled keys make none. -/
theorem typed_line_read {addresses : IdtAddresses} (hblank : ∀ vector, idt.callbacks vector = none)
    (hhas : HasKeyboard sched process) (hempty : (sched.procs process).keyboard = emptyKeyboard)
    (hrun : Run (Guarded (RoomToType behind process) (TypingStep (bootIdt addresses idt) behind)) sched
      actions after)
    (limit : Nat) (echo : Bool) (out : Int → UInt8) :
    ∃ keys, IsQueue process after keys ∧
      ReadsTyped limit (typedKeys behind actions) (keysOf (polledKeys actions)) keys
        (slobosTerminalReadline (limit + 1) echo (polledKeys actions) (.start out)) := by
  have hkeyboard : (bootIdt addresses idt).callbacks 0x21 = some .ps2KeyboardHandleInterrupt := by
    rw [bootIdt_callbacks _ _ hblank]
    rfl
  obtain ⟨keys, hqueue, htyped⟩ := typedSoFar_of_run hkeyboard hhas hempty hrun
  have hedits : Edits limit (edit 13 0x08 [0x08] limit (keysOf (polledKeys actions)) [])
      (slobosTerminalReadline (limit + 1) echo (polledKeys actions) (.start out)) :=
    slobosTerminalReadline_edits
  refine ⟨keys, hqueue, htyped, ?_, ?_⟩
  · intro rest hrest
    cases hedit : edit 13 0x08 [0x08] limit (keysOf (polledKeys actions)) [] with
    | none =>
        rw [hedits.waits hedit] at hrest
        cases hrest
    | some edited =>
        obtain ⟨line, left⟩ := edited
        obtain ⟨hleft, hline⟩ := hedits.line line left hedit
        rw [hrest] at hleft
        obtain rfl := Option.some.inj hleft
        exact ⟨line, htyped ▸ edit_more keys hedit, hline⟩
  · cases hedit : edit 13 0x08 [0x08] limit (keysOf (polledKeys actions)) [] with
    | none => exact iff_of_true (hedits.waits hedit) rfl
    | some edited =>
        have hleft := (hedits.line edited.1 edited.2 hedit).1
        refine iff_of_false (fun hwaits => ?_) (Option.some_ne_none _)
        rw [hwaits] at hleft
        cases hleft

theorem typed_line_read_one : ∃ keys after, IsQueue 1 after keys ∧
    ReadsTyped 9 (typedKeys 0 [.interrupt 0x1E, .getkey 0x41, .getkey 0, .interrupt 0x1C, .getkey 13])
      [0x41, 13] keys (slobosTerminalReadline 10 true [0x41, 0, 13] (.start fun _ => 0)) := by
  have hpress (sched : Sched) (scancode : UInt8)
      (hroom : RoomToType 0 1 sched (.interrupt scancode)) :
      Guarded (RoomToType 0 1) (TypingStep (bootIdt kernelAddresses blankIdt) 0) sched
        (.interrupt scancode)
        (ps2KeyboardHandleInterrupt 0 scancode (taskCurrentSaveState sched (userFrame 0))) := by
    refine ⟨hroom, @TypingStep.interrupt _ _ _ _ _ (userFrame 0) 0 ?_⟩
    rw [interruptHandler, bootIdt_callbacks _ _ fun _ => rfl]
    rfl
  have hpoll (sched : Sched) (c : UInt8)
      (hc : (keyboardPop (taskCurrentSaveState sched (userFrame 0))).1 = c) :
      Guarded (RoomToType 0 1) (TypingStep (bootIdt kernelAddresses blankIdt) 0) sched (.getkey c)
        (keyboardPop (taskCurrentSaveState sched (userFrame 0))).2 :=
    ⟨trivial, hc ▸ .getkey⟩
  have hrun := ((((Run.nil keyboardSched).snoc (hpress _ 0x1E fun _ => by decide)).snoc
    (hpoll _ 0x41 (by decide))).snoc (hpoll _ 0 (by decide))).snoc
      (hpress _ 0x1C fun _ => by decide) |>.snoc (hpoll _ 13 (by decide))
  obtain ⟨keys, htyped⟩ := typed_line_read (fun _ => rfl) keyboardSched_has rfl hrun 9 true fun _ => 0
  exact ⟨keys, _, htyped⟩

end SlobOS
