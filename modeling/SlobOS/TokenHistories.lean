import SlobOS.Proof.ParsedCommands
import SlobOS.SystemRuns

/-!
# Commands after other commands

The pointer that `strtok` keeps goes before its argument. A command is taken apart by its own words as
long as none is kept when it is parsed; one is kept by a parse that an allocation has cut short, and by
calls of `strtok` that have not been carried on to a null pointer.
-/

namespace SlobOS

open CStrings

section Tokens

variable {delimiters : List UInt8} {str token : Nat} {program program' : ProgramMemory}

theorem strtok_sp_iff (h : strtok program str delimiters = some (token, program')) :
    program'.sp = 0 ↔ token = 0 := by
  rw [strtok] at h
  split_ifs at h with hfrom
  · cases h
    exact iff_of_true ((strtokFrom_eq_null_iff program str).mp hfrom).2 rfl
  · split at h
    · cases h
    · next pStart hstart =>
        have hle := (strtokStart_found hstart).1
        split_ifs at h
        · cases h
          exact iff_of_true rfl rfl
        · obtain ⟨ended, hend, heq⟩ := Option.map_eq_some_iff.mp h
          obtain ⟨last, hlast, -, ⟨-, rfl⟩ | ⟨-, -, rfl⟩⟩ := strtokEnd_found hend
          · cases heq
            exact iff_of_false (show last ≠ 0 by omega) (by omega)
          · cases heq
            exact iff_of_false (Nat.succ_ne_zero last) (by omega)

end Tokens

namespace Kernel

open Faulting Runs

/-- What a program does: it parses a command, which returns a list, or calls `strtok`, or anything else,
which leaves the pointer of `strtok`. -/
inductive TokenCall where
  | parse (scommand command max : Nat) (line : List UInt8) (root : Nat)
  | strtok (str : Nat) (delimiters : List UInt8)
  | other

structure Healthy (process : Nat) (kernel : Kernel) : Prop where
  sound : KernelSound kernel
  pages : TaskPages kernel.pages (kernel.directoryOf process)

inductive TokenStep (process : Nat) :
    Kernel × ProgramMemory → TokenCall → Kernel × ProgramMemory → Prop
  | parse {kernel after : Kernel} {program program' : ProgramMemory} {scommand command max root : Nat}
      {line : List UInt8} : scommand ≠ 0 → StringAt program.bytes command line →
      Ends (slobosParseCommand processMalloc process scommand command max program) kernel
        (root, program') after →
      TokenStep process (kernel, program) (.parse scommand command max line root) (after, program')
  | strtok {kernel : Kernel} {program program' : ProgramMemory} {str token : Nat}
      {delimiters : List UInt8} : SlobOS.strtok program str delimiters = some (token, program') →
      TokenStep process (kernel, program) (.strtok str delimiters) (kernel, program')
  | other {kernel after : Kernel} {program program' : ProgramMemory} :
      (Healthy process kernel → Healthy process after) → program'.sp = program.sp →
      TokenStep process (kernel, program) .other (after, program')

/-- No pointer is kept when a command is parsed. -/
def KeepsNone (before : Kernel × ProgramMemory) : TokenCall → Prop
  | .parse _ _ _ _ _ => before.2.sp = 0
  | .strtok _ _ => True
  | .other => True

def commandWords (max : Nat) (line : List UInt8) : List (List UInt8) :=
  if max ≥ scommandSize then [] else Splits.components space (line.take (scommandSize - 1))

def allocationsMade (process : Nat) (kernel after : Kernel) : Nat :=
  (emptySlots kernel process).card - (emptySlots after process).card

/-- The list is made of the words in their order, one for each allocation that has succeeded, and words
are missing only where an allocation fails. So it is a function of the words and of the allocations. -/
structure ParsesOwn (process : Nat) (kernel after : Kernel) (root : Nat) (words : List (List UInt8)) :
    Prop where
  list : ArgumentList after root
    ((words.take (allocationsMade process kernel after)).map (List.take (argumentSize - 1)))
  ends : allocationsMade process kernel after < words.length → ¬HasSlot after process

variable {kernel after : Kernel} {before : Kernel × ProgramMemory} {program program' : ProgramMemory}
  {process root count scommand command max : Nat} {line : List UInt8} {words : List (List UInt8)}
  {calls : List TokenCall}

theorem CutShort.made (h : CutShort kernel after process count words.length program) :
    allocationsMade process kernel after = count := by
  have hslots := h.slots
  rw [allocationsMade]
  omega

theorem CommandCut.parsesOwn (h : CommandCut kernel after process root count words program) :
    ParsesOwn process kernel after root words := by
  refine ⟨h.cut.made ▸ h.list, fun hlt => ?_⟩
  rw [h.cut.made] at hlt
  rcases h.cut.ends with ⟨hall, -⟩ | ⟨-, -, hnone⟩
  · omega
  · exact hnone

theorem copied_lineLeft (hsp : program.sp = 0) (hscommand : scommand ≠ 0)
    (hcommand : StringAt program.bytes command line) :
    LineLeft { program with bytes := strncpy program.bytes scommand command scommandSize } scommand
      (line.take (scommandSize - 1)) := by
  have hfrom : strtokFrom { program with bytes := strncpy program.bytes scommand command scommandSize }
      scommand = scommand := if_pos hsp
  have hlength : (line.take (scommandSize - 1)).length < addressSpace := by
    rw [List.length_take]
    exact Nat.lt_of_le_of_lt (Nat.min_le_left _ _) (by decide)
  exact ⟨by rwa [hfrom], by rw [hfrom]; exact strncpy_stringAt hcommand, hlength⟩

/-- A command that is parsed while no pointer is kept. A pointer is kept afterwards exactly if a word is
missing in the list. -/
theorem parse_own (hhealthy : Healthy process kernel) (hsp : program.sp = 0) (hscommand : scommand ≠ 0)
    (hcommand : StringAt program.bytes command line)
    (hends : Ends (slobosParseCommand processMalloc process scommand command max program) kernel
      (root, program') after) :
    Continues process kernel after ∧ ParsesOwn process kernel after root (commandWords max line) ∧
      (program'.sp = 0 ↔ allocationsMade process kernel after = (commandWords max line).length) := by
  by_cases hmax : max ≥ scommandSize
  · rw [slobosParseCommand, if_pos hmax] at hends
    obtain ⟨heq, rfl⟩ := ends_pure.mp hends
    obtain ⟨rfl, rfl⟩ := Prod.mk.inj heq
    have hnone : allocationsMade process after after = 0 := by
      rw [allocationsMade, Nat.sub_self]
    rw [commandWords, if_pos hmax]
    refine ⟨Frame.refl _, ⟨?_, fun hlt => absurd hlt (Nat.not_lt_zero _)⟩, iff_of_true hsp hnone⟩
    rw [List.take_nil]
    exact .nil
  · obtain ⟨count, root', last, after', hends', hcut⟩ := slobosParseCommand_cases hhealthy.sound
      hhealthy.pages (Nat.not_le.mp hmax) (copied_lineLeft hsp hscommand hcommand)
    obtain ⟨heq, rfl⟩ := hends.unique hends'
    obtain ⟨rfl, rfl⟩ := Prod.mk.inj heq
    rw [commandWords, if_neg hmax]
    refine ⟨hcut.continues, hcut.parsesOwn, ?_⟩
    rw [hcut.cut.made]
    rcases hcut.cut.ends with ⟨hall, hnull⟩ | ⟨hlt, hne, -⟩
    · exact iff_of_true hnull hall
    · exact iff_of_false hne (Nat.ne_of_lt hlt)

theorem tokenStep_healthy {call : TokenCall} {after : Kernel × ProgramMemory}
    (hhealthy : Healthy process before.1)
    (hstep : Guarded KeepsNone (TokenStep process) before call after) : Healthy process after.1 := by
  obtain ⟨hguard, hstep⟩ := hstep
  cases hstep with
  | parse hscommand hcommand hends =>
      have hcontinues := (parse_own hhealthy hguard hscommand hcommand hends).1
      exact ⟨hcontinues.sound hhealthy.sound, hcontinues.taskPages hhealthy.pages⟩
  | strtok _ => exact hhealthy
  | other hkeeps _ => exact hkeeps hhealthy

/-- In a history in which no pointer is kept when a command is parsed, every command is taken apart by
its own words. -/
theorem tokenHistory_parsesOwn (hhealthy : Healthy process kernel)
    (hrun : Run (Guarded KeepsNone (TokenStep process)) (kernel, program) calls before)
    {after : Kernel × ProgramMemory}
    (hparse : Guarded KeepsNone (TokenStep process) before (.parse scommand command max line root) after) :
    ParsesOwn process before.1 after.1 root (commandWords max line) := by
  have hbefore : Healthy process before.1 :=
    hrun.invariant (fun state => Healthy process state.1)
      (fun _ _ _ hhealthy hstep => tokenStep_healthy hhealthy hstep) hhealthy
  obtain ⟨hguard, hstep⟩ := hparse
  cases hstep with
  | parse hscommand hcommand hends =>
      exact (parse_own hbefore hguard hscommand hcommand hends).2.1

theorem shellMemory_line : StringAt shellMemory.bytes 0x3FE000 [0x61] := ⟨by decide, rfl, rfl⟩

theorem shellKernel_healthy : Healthy 0 shellKernel := ⟨shellKernel_sound, shellKernel_pages⟩

theorem tokenHistory_parsesOwn_shell : ∃ first parsed root after,
    Run (TokenStep 0) (shellKernel, argumentMemory)
      [.parse 0x3FD000 0x3FE000 1024 [0x61, 0x20, 0x62] first, .other] (parsed, shellMemory) ∧
    ParsesOwn 0 parsed after root (commandWords 1024 [0x61]) := by
  obtain ⟨first, program', parsed, hfirst, hsp, hparsed⟩ :=
    @slobosParseCommand_supplied shellKernel 0 argumentMemory 0x3FD000 0x3FE000 1024 25598
      [0x61, 0x20, 0x62] shellKernel_supplied rfl (by decide) (by decide) argumentMemory_line (by decide) (by decide)
  have hrun : Run (Guarded KeepsNone (TokenStep 0)) (shellKernel, argumentMemory)
      [.parse 0x3FD000 0x3FE000 1024 [0x61, 0x20, 0x62] first, .other] (parsed, shellMemory) :=
    (Run.single ⟨rfl, .parse (by decide) argumentMemory_line hfirst⟩).snoc
      ⟨trivial, .other id hsp.symm⟩
  obtain ⟨count, root, program'', after, hends, -⟩ := slobosParseCommand_cases
    (hparsed.continues.sound shellKernel_sound) (hparsed.continues.taskPages shellKernel_pages)
    (show 1024 < scommandSize by decide)
    (copied_lineLeft (show shellMemory.sp = 0 from rfl) (show 0x3FD000 ≠ 0 by decide) shellMemory_line)
  exact ⟨first, parsed, root, after, hrun.unguarded, tokenHistory_parsesOwn shellKernel_healthy hrun
    ⟨rfl, .parse (by decide) shellMemory_line hends⟩⟩

def resumedMemory (sp : Nat) : ProgramMemory where
  bytes := putBytes (fun _ => 0) (sp + 10) [0x63, 0]
  sp := sp

theorem resumed_parse {sp : Nat} (hsp : sp ≠ 0) (kernel : Kernel) :
    Ends (slobosParseCommand processMalloc process (sp + 20) (sp + 10) 1024 (resumedMemory sp)) kernel
      (0, { resumedMemory sp with
        bytes := strncpy (resumedMemory sp).bytes (sp + 20) (sp + 10) scommandSize
        sp := 0 }) kernel := by
  have hfrom : strtokFrom { resumedMemory sp with
      bytes := strncpy (resumedMemory sp).bytes (sp + 20) (sp + 10) scommandSize } (sp + 20) = sp :=
    if_neg hsp
  have hzero : strncpy (resumedMemory sp).bytes (sp + 20) (sp + 10) scommandSize sp = 0 := by
    have hblank : (resumedMemory sp).bytes sp = 0 :=
      if_neg (show ¬(sp + 10 ≤ sp ∧ sp < sp + 10 + 2) by omega)
    rw [strncpy, putBytes_of_not_mem (by omega), hblank]
  have hline : LineLeft { resumedMemory sp with
      bytes := strncpy (resumedMemory sp).bytes (sp + 20) (sp + 10) scommandSize } (sp + 20) [] :=
    ⟨by rwa [hfrom], by rw [hfrom]; exact hzero, by decide⟩
  have hcall := @callStrtok_ends kernel _ _ _ (strtok_none hline.ne_null hline.line
    (show (0 : UInt8) ∉ [space] by decide) hline.length rfl)
  rw [slobosParseCommand, if_neg (by decide)]
  exact ends_bind.mpr ⟨_, kernel, hcall, ends_pure.mpr ⟨rfl, rfl⟩⟩

/-- The parse of `a` is cut short since all slots of the process are in use. When they are empty again,
the line `c` is parsed to nothing at all. -/
theorem not_tokenHistory_parsesOwn : ¬∀ (kernel : Kernel) program calls before scommand command max line
    root after, Healthy 0 kernel → program.sp = 0 →
    Run (TokenStep 0) (kernel, program) calls before →
    TokenStep 0 before (.parse scommand command max line root) after →
    ParsesOwn 0 before.1 after.1 root (commandWords max line) := by
  intro hall
  have hfull : Healthy 0 (setAllocations 0 (fun _ => ⟨1, 0⟩) shellKernel) :=
    ⟨⟨shellKernel_sound.heap, shellKernel_sound.size, shellKernel_sound.volume⟩, shellKernel_pages⟩
  have hslots : (emptySlots (setAllocations 0 (fun _ => ⟨1, 0⟩) shellKernel) 0).card = 0 := by
    rw [Finset.card_eq_zero, Finset.eq_empty_iff_forall_notMem]
    exact fun _ hmem => Nat.one_ne_zero (mem_emptySlots.mp hmem).2
  generalize setAllocations 0 (fun _ => ⟨1, 0⟩) shellKernel = full at hfull hslots
  obtain ⟨count, root, program, after, hends, hcut⟩ := slobosParseCommand_cases hfull.sound hfull.pages
    (show 1024 < scommandSize by decide)
    (copied_lineLeft (show shellMemory.sp = 0 from rfl) (show 0x3FD000 ≠ 0 by decide) shellMemory_line)
  have hsp : program.sp ≠ 0 := by
    have hcard := hcut.cut.slots
    have hwords : (Splits.components space ([0x61].take (scommandSize - 1))).length = 1 := by decide
    rcases hcut.cut.ends with ⟨hcount, -⟩ | ⟨-, hne, -⟩
    · omega
    · exact hne
  have hfirst : TokenStep 0 (full, shellMemory) (.parse 0x3FD000 0x3FE000 1024 [0x61] root)
      (after, program) := .parse (by decide) shellMemory_line hends
  have hother : TokenStep 0 (after, program) .other (shellKernel, resumedMemory program.sp) :=
    .other (fun _ => shellKernel_healthy) rfl
  have hline : StringAt (resumedMemory program.sp).bytes (program.sp + 10) [0x63] :=
    @stringAt_putBytes (fun _ => 0) (program.sp + 10) [0x63] (by decide)
  have hown := hall full shellMemory _ _ (program.sp + 20) (program.sp + 10) 1024 [0x63] 0 _ hfull rfl
    ((Run.single hfirst).snoc hother) (.parse (by omega) hline (resumed_parse hsp shellKernel))
  have hmade : allocationsMade 0 shellKernel shellKernel = 0 := by
    rw [allocationsMade, Nat.sub_self]
  have hwords : (commandWords 1024 [0x63]).length = 1 := by decide
  have hshort : allocationsMade 0 shellKernel shellKernel < (commandWords 1024 [0x63]).length := by omega
  refine hown.ends hshort ⟨⟨0, mem_emptySlots.mpr ⟨by decide, rfl⟩⟩, ?_⟩
  exact idleKernel_freeBlocks (programVolume 1) (by decide)

end Kernel

end SlobOS
