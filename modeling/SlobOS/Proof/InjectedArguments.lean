import SlobOS.Proof.ArgumentLists

/-!
# Arguments that are copied into a process

The array and each of its strings is a block that was free before, so the list that is copied and the
strings that have been copied stay as they are. The words of the array are the strings' addresses.
-/

namespace SlobOS

open CStrings

namespace Kernel

open Faulting

variable {kernel middle after base : Kernel} {process ptr argv current place count i : Nat}
  {text : List UInt8} {texts : List (List UInt8)}

def Fresh (kernel : Kernel) (ptr : Nat) : Prop :=
  ∀ block, Holds kernel.heap block → ptr ≠ slobosHeapAddress + block * slobosHeapBlockSize

theorem Takes.fresh (h : Takes kernel after ptr) : Fresh kernel ptr := by
  obtain ⟨new, rfl, -, hfree⟩ := h.taken
  intro block hblock heq
  have hsame : block = new := by
    simp only [slobosHeapBlockSize] at heq
    omega
  exact hfree (hsame ▸ hblock)

theorem Fresh.before (h : Fresh after ptr) (hheld : ∀ block, Holds kernel.heap block → Holds after.heap block) :
    Fresh kernel ptr :=
  fun block hblock => h block (hheld block hblock)

theorem OwnBlock.apart_of_ne (h : OwnBlock kernel process ptr) {ptr' : Nat}
    (h' : OwnBlock kernel process ptr') (hne : ptr ≠ ptr') :
    ptr + slobosHeapBlockSize ≤ ptr' ∨ ptr' + slobosHeapBlockSize ≤ ptr := by
  obtain ⟨block, rfl, -⟩ := h.held
  obtain ⟨block', rfl, -⟩ := h'.held
  simp only [slobosHeapBlockSize] at *
  omega

theorem Preserves.fresh_but (h : Preserves base kernel) (hbut : PreservesBut place count kernel after)
    (hown : OwnBlock kernel process ptr) (hfresh : Fresh base ptr) (hge : ptr ≤ place)
    (hle : place + count ≤ ptr + slobosHeapBlockSize) : Preserves base after := by
  obtain ⟨own, rfl, -⟩ := hown.held
  intro block hblock
  obtain ⟨hmiddle, hbytes⟩ := h block hblock
  obtain ⟨hheld, hbytes'⟩ := hbut block hmiddle
  refine ⟨hheld, fun pages i hi => (hbytes' pages i hi ?_).trans (hbytes pages i hi)⟩
  have hne := hfresh block hblock
  simp only [slobosHeapBlockSize] at *
  omega

theorem processCountCommandArguments_eq {left : Nat} (h : ArgumentList kernel current texts)
    (hleft : texts.length < left) (pages : PageTables) :
    processCountCommandArguments (kernel.memory pages) left current i = some (i + texts.length) := by
  induction h generalizing left i with
  | nil =>
      cases left with
      | zero => omega
      | succ left => rfl
  | cons htext hnext _ ih =>
      rw [List.length_cons] at hleft ⊢
      cases left with
      | zero => omega
      | succ left =>
          rw [processCountCommandArguments, if_neg htext.ne_null, hnext, ih (by omega)]
          congr 1
          omega

def argumentPointer (kernel : Kernel) (argv i : Nat) : Nat :=
  readWord (kernel.memory kernel.pages) (argv + 4 * i)

structure GivenString (kernel after : Kernel) (process ptr : Nat) (text : List UInt8) : Prop where
  own : OwnBlock after process ptr
  recorded : Recorded after process ptr argumentSize
  text : HoldsText after ptr text
  fresh : Fresh kernel ptr

/-- The texts have been copied, and their addresses stand in the array from index `i` on. -/
structure Injected (kernel after : Kernel) (process argv i : Nat) (texts : List (List UInt8)) :
    Prop where
  continues : Continues process kernel after
  preserves : PreservesBut (argv + 4 * i) (4 * texts.length) kernel after
  strings : ∀ k (hk : k < texts.length),
    GivenString kernel after process (argumentPointer after argv (i + k)) texts[k]
  distinct : ∀ k' < texts.length, ∀ k < k',
    argumentPointer after argv (i + k) ≠ argumentPointer after argv (i + k')

theorem injectedString_spec (hsound : KernelSound kernel)
    (hpages : TaskPages kernel.pages (kernel.directoryOf process)) (htext : HoldsText kernel current text)
    (havoids : Avoids .panic (granted processMalloc process argumentSize) kernel) :
    ∃ ptr given, Ends (granted processMalloc process argumentSize) kernel ptr given ∧
      GivenText kernel (putMemory ptr
        (strncpyBytes (given.memory given.pages) current (argumentSize - 1)) given) process ptr
          argumentSize text := by
  obtain ⟨ptr, given, hmalloc, hserved⟩ := granted_serves hsound hpages (by decide) (by decide) havoids
  have htext' := htext.preserved (hserved.takes.preserves.but 0 0) (Or.inr (Nat.zero_le _))
  have hlength := htext.length
  have hbytes := @strncpyBytes_eq _ _ (argumentSize - 1) _ (htext'.text given.pages)
  rw [List.take_of_length_le (by omega)] at hbytes
  refine ⟨ptr, given, hmalloc, hbytes ▸ ⟨hserved.putMemory (Nat.le_refl _) ?_, hlength, fun pages => ?_⟩⟩
  · rw [List.length_append, List.length_singleton]
    simp only [argumentSize, slobosHeapBlockSize] at hlength ⊢
    omega
  · exact stringAt_putBytes (htext'.text pages).zero_not_mem

theorem Injected.cons {copied : Kernel} (hargv : OwnBlock kernel process argv)
    (hroom : 4 * (i + (texts.length + 1)) ≤ slobosHeapBlockSize)
    (hgiven : GivenText kernel copied process ptr argumentSize text)
    (hrest : Injected (putMemory (argv + 4 * i) (wordBytes ptr) copied) after process argv (i + 1)
      texts) : Injected kernel after process argv i (text :: texts) := by
  have hput := putMemory_preservesBut (argv + 4 * i) (wordBytes ptr) copied
  rw [wordBytes_length] at hput
  have hapart := hargv.apart hgiven.takes
  have hcontinues : Continues process kernel (putMemory (argv + 4 * i) (wordBytes ptr) copied) :=
    Frame.trans hgiven.continues (putMemory_continues _ _ _)
  obtain ⟨own, hown, hheld⟩ := hargv.held
  have hstored := (hput own (hgiven.takes.preserves own hheld).1).1
  have hwords : ∀ place count, argv ≤ place → place + count ≤ argv + slobosHeapBlockSize →
      ptr + argumentSize ≤ place ∨ place + count ≤ ptr := by
    intro place count hge hle
    simp only [argumentSize, slobosHeapBlockSize] at *
    omega
  obtain ⟨new, hnew, hnewHeld, -⟩ := hgiven.takes.taken
  have hword : argumentPointer after argv i = ptr := by
    have hbelow := hheld.below
    have hbelow' := hnewHeld.below
    have hsame := hrest.preserves.readWord hstored (show 4 * i + 4 ≤ slobosHeapBlockSize by omega)
      (Or.inl (by omega)) after.pages
    rw [← hown] at hsame
    refine hsame.trans (readWord_putBytes (by omega) ?_)
    simp only [slobosHeapBlockSize] at *
    omega
  have htext : GivenString kernel after process ptr text := by
    constructor
    case own => exact hgiven.ownBlock.continues (Frame.trans (putMemory_continues _ _ _) hrest.continues)
    case recorded =>
      exact hrest.continues.records _ _ hgiven.ne_null hgiven.recorded
    case text =>
      refine (hgiven.holdsText.preserved hput (hwords _ _ ?_ ?_)).preserved hrest.preserves
        (hwords _ _ ?_ ?_) <;> omega
    case fresh => exact hgiven.takes.fresh
  constructor
  case continues => exact Frame.trans hcontinues hrest.continues
  case preserves =>
    rw [List.length_cons]
    refine Frame.trans (hgiven.takes.preserves.but _ _) (Frame.trans (hput.mono ?_ ?_)
      (hrest.preserves.mono ?_ ?_)) <;> omega
  case strings =>
    intro k hk
    cases k with
    | zero => exact hword ▸ htext
    | succ k =>
        have hstring := hrest.strings k (Nat.lt_of_succ_lt_succ hk)
        rw [show i + 1 + k = i + (k + 1) by omega] at hstring
        exact ⟨hstring.own, hstring.recorded, hstring.text, hstring.fresh.before hcontinues.held⟩
  case distinct =>
    intro k' hk' k hk
    cases k' with
    | zero => exact absurd hk (Nat.not_lt_zero k)
    | succ k' =>
        have hlt : k' < texts.length := Nat.lt_of_succ_lt_succ hk'
        rw [show i + (k' + 1) = i + 1 + k' by omega]
        cases k with
        | zero =>
            rw [Nat.add_zero, hword, hnew]
            exact ((hrest.strings k' hlt).fresh new hnewHeld).symm
        | succ k =>
            rw [show i + (k + 1) = i + 1 + k by omega]
            exact hrest.distinct k' hlt k (Nat.lt_of_succ_lt_succ hk)

theorem GivenText.word_preserves {copied : Kernel}
    (h : GivenText kernel copied process ptr argumentSize text) (hbase : Preserves base kernel)
    (hargv : OwnBlock kernel process argv) (hfresh : Fresh base argv)
    (hroom : 4 * i + 4 ≤ slobosHeapBlockSize) :
    Preserves base (putMemory (argv + 4 * i) (wordBytes ptr) copied) := by
  refine Preserves.fresh_but (Frame.trans hbase h.takes.preserves) (putMemory_preservesBut _ _ _)
    (hargv.continues h.continues) hfresh (Nat.le_add_right _ _) ?_
  rw [wordBytes_length]
  omega

section Rules

variable {malloc : Nat → Nat → KernelM Nat} {left : Nat} {given : Kernel} {res : Int}

theorem processInjectLoop_done :
    Ends (processInjectLoop malloc process argv (left + 1) 0 i) kernel 0 kernel := by
  rw [processInjectLoop, if_pos rfl]
  exact ends_pure.mpr ⟨rfl, rfl⟩

theorem processInjectLoop_refused (hne : current ≠ 0)
    (hmalloc : Ends (malloc process argumentSize) kernel 0 after) :
    Ends (processInjectLoop malloc process argv (left + 1) current i) kernel (-enomem) after := by
  rw [processInjectLoop, if_neg hne]
  refine ends_bind.mpr ⟨0, after, hmalloc, ?_⟩
  rw [if_pos rfl]
  exact ends_pure.mpr ⟨rfl, rfl⟩

theorem processInjectLoop_next {stored : Kernel} (hne : current ≠ 0)
    (hmalloc : Ends (malloc process argumentSize) kernel ptr given) (hptr : ptr ≠ 0)
    (hstored : putMemory (argv + 4 * i) (wordBytes ptr) (putMemory ptr
      (strncpyBytes (given.memory given.pages) current (argumentSize - 1)) given) = stored)
    (hends : Ends (processInjectLoop malloc process argv left
      (readWord (stored.memory stored.pages) (current + argumentSize)) (i + 1)) stored res after) :
    Ends (processInjectLoop malloc process argv (left + 1) current i) kernel res after := by
  rw [processInjectLoop, if_neg hne]
  refine ends_bind.mpr ⟨ptr, given, hmalloc, ?_⟩
  rw [if_neg hptr, ends_modify_bind, ends_modify_bind, hstored, ends_get_bind]
  exact hends

end Rules

theorem processInjectLoop_spec {left : Nat} (hsound : KernelSound kernel)
    (hpages : TaskPages kernel.pages (kernel.directoryOf process))
    (hlist : ArgumentList base current texts) (hbase : Preserves base kernel)
    (hargv : OwnBlock kernel process argv) (hfresh : Fresh base argv)
    (hroom : 4 * (i + texts.length) ≤ slobosHeapBlockSize) (hleft : texts.length < left)
    (havoids : Avoids .panic (processInjectLoop (granted processMalloc) process argv left current i)
      kernel) :
    ∃ after, Ends (processInjectLoop (granted processMalloc) process argv left current i) kernel 0
        after ∧ Injected kernel after process argv i texts := by
  induction left generalizing kernel current texts i with
  | zero => omega
  | succ left ih =>
      cases hlist with
      | nil =>
          exact ⟨kernel, processInjectLoop_done, Frame.refl _, Frame.refl _,
            fun k hk => absurd hk (Nat.not_lt_zero k), fun k hk => absurd hk (Nat.not_lt_zero k)⟩
      | @cons _ next text texts htext hnext hrest =>
          rw [List.length_cons] at hroom hleft
          have htext' := htext.preserved (hbase.but 0 0) (Or.inr (Nat.zero_le _))
          rw [processInjectLoop, if_neg htext.ne_null] at havoids
          obtain ⟨ptr, given, hmalloc, hgiven⟩ :=
            injectedString_spec hsound hpages htext' havoids.first
          have hnonnull := hgiven.ne_null
          have hloop := havoids.next hmalloc
          rw [if_neg hnonnull] at hloop
          have hcopied := hloop.modify_bind
          generalize hcopy : putMemory ptr (strncpyBytes (given.memory given.pages) current
            (argumentSize - 1)) given = copied at hgiven hcopied
          have hagain := hcopied.modify_bind.get_bind
          have hcontinues : Continues process kernel (putMemory (argv + 4 * i) (wordBytes ptr) copied) :=
            Frame.trans hgiven.continues (putMemory_continues _ _ _)
          have hbase' := hgiven.word_preserves hbase hargv hfresh
            (show 4 * i + 4 ≤ slobosHeapBlockSize by omega)
          rw [htext.link hbase', hnext] at hagain
          obtain ⟨after, hends, hinjected⟩ := ih (hcontinues.sound hsound) (hcontinues.taskPages hpages)
            hrest hbase' (hargv.continues hcontinues) (by omega) (by omega) hagain
          refine ⟨after, processInjectLoop_next htext.ne_null hmalloc hnonnull (by rw [hcopy]) ?_,
            Injected.cons hargv hroom hgiven hinjected⟩
          rw [htext.link hbase', hnext]
          exact hends

/-- What the process has been given: an array, and the strings whose addresses stand in it. -/
structure ArgumentsGiven (kernel after : Kernel) (process : Nat) (arguments : ProcessArguments)
    (texts : List (List UInt8)) : Prop where
  argc : arguments.argc = texts.length
  continues : Continues process kernel after
  preserves : Preserves kernel after
  own : OwnBlock after process arguments.argv
  recorded : Recorded after process arguments.argv (4 * texts.length)
  fresh : Fresh kernel arguments.argv
  strings : ∀ k (hk : k < texts.length),
    GivenString kernel after process (argumentPointer after arguments.argv k) texts[k]
  apart : ∀ k < texts.length, argumentPointer after arguments.argv k ≠ arguments.argv
  distinct : ∀ k' < texts.length, ∀ k < k',
    argumentPointer after arguments.argv k ≠ argumentPointer after arguments.argv k'

theorem processInjectArguments_spec (hsound : KernelSound kernel)
    (hpages : TaskPages kernel.pages (kernel.directoryOf process))
    (hlist : ArgumentList kernel current texts) (hne : texts ≠ [])
    (hroom : 4 * texts.length ≤ slobosHeapBlockSize)
    (havoids : Avoids .panic (processInjectArguments (granted processMalloc) process current) kernel) :
    ∃ arguments after, Ends (processInjectArguments (granted processMalloc) process current) kernel
        (.ok arguments) after ∧ ArgumentsGiven kernel after process arguments texts := by
  have hfuel : texts.length < addressSpace := Nat.lt_of_le_of_lt (Nat.le_mul_of_pos_left _ (by decide))
    (Nat.lt_of_le_of_lt hroom (by decide))
  have hcount := @processCountCommandArguments_eq _ _ 0 _ _ hlist hfuel kernel.pages
  rw [Nat.zero_add] at hcount
  have hargc : texts.length ≠ 0 := List.length_eq_zero_iff.not.mpr hne
  have hsize : toUint32 (4 * texts.length) = 4 * texts.length :=
    Nat.mod_eq_of_lt (Nat.lt_of_le_of_lt hroom (by decide))
  rw [processInjectArguments] at havoids ⊢
  have hstart := havoids.get_bind
  rw [hcount] at hstart
  change Avoids Fault.panic (if texts.length = 0 then _ else _) kernel at hstart
  rw [if_neg hargc, hsize] at hstart
  obtain ⟨argv, given, hmalloc, hserved⟩ :=
    granted_serves hsound hpages (by omega) hroom hstart.first
  have hloop := hstart.next hmalloc
  rw [if_neg hserved.ne_null] at hloop
  obtain ⟨after, hends, hinjected⟩ := processInjectLoop_spec hserved.sound
    (hserved.continues.taskPages hpages) hlist hserved.takes.preserves hserved.ownBlock
    hserved.takes.fresh (by rwa [Nat.zero_add]) hfuel hloop.first
  refine ⟨{ argc := texts.length, argv := argv }, after, ?_, ?_⟩
  · rw [ends_get_bind, hcount]
    change Ends (if texts.length = 0 then _ else _) _ _ _
    rw [if_neg hargc, hsize]
    refine ends_bind.mpr ⟨argv, given, hmalloc, ?_⟩
    rw [if_neg hserved.ne_null]
    refine ends_bind.mpr ⟨0, after, hends, ?_⟩
    rw [if_neg (by decide)]
    exact ends_pure.mpr ⟨rfl, rfl⟩
  · have hown := hserved.ownBlock
    constructor
    case argc => rfl
    case continues => exact Frame.trans hserved.continues hinjected.continues
    case preserves =>
      refine hserved.takes.preserves_of_but hinjected.preserves (Nat.le_add_right _ _) ?_
      omega
    case own => exact hown.continues hinjected.continues
    case recorded =>
      exact hinjected.continues.records _ _ hserved.ne_null hserved.recorded
    case fresh => exact hserved.takes.fresh
    case strings =>
      intro k hk
      have hstring := hinjected.strings k hk
      rw [Nat.zero_add] at hstring
      exact ⟨hstring.own, hstring.recorded, hstring.text, hstring.fresh.before hserved.continues.held⟩
    case apart =>
      intro k hk
      have hstring := hinjected.strings k hk
      rw [Nat.zero_add] at hstring
      obtain ⟨block, hblock, hheld⟩ := hown.held
      simp only
      rw [hblock] at hstring ⊢
      exact hstring.fresh block hheld
    case distinct =>
      intro k' hk' k hk
      have hne := hinjected.distinct k' hk' k hk
      rwa [Nat.zero_add, Nat.zero_add] at hne

end Kernel

end SlobOS
