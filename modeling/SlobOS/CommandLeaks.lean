import SlobOS.TokenHistories

/-!
# What a command leaves recorded

`slobos_system_run` releases nothing of the argument list that it has made, neither after the program has
been started nor when it could not be loaded. The allocations of the program that calls stay as they are
only where no list has been made.
-/

namespace SlobOS

namespace Kernel

open Faulting Runs CStrings

/-- What a long-running program does: it runs a command, or anything else. -/
inductive SystemCall where
  | run (buf scommand command : Nat) (line : List UInt8) (result : CommandResult)
  | other

inductive SystemStep (process : Nat) :
    Kernel × ProgramMemory → SystemCall → Kernel × ProgramMemory → Prop
  | run {kernel after : Kernel} {program program' : ProgramMemory} {buf scommand command : Nat}
      {line : List UInt8} {result : CommandResult} : StringAt program.bytes command line →
      Ends (slobosSystemRun processMalloc process buf scommand command program) kernel
        (result, program') after →
      SystemStep process (kernel, program) (.run buf scommand command line result) (after, program')
  | other {kernel after : Kernel} {program program' : ProgramMemory} :
      (Healthy process kernel → Healthy process after) →
      SystemStep process (kernel, program) .other (after, program')

/-- The memory of the program when `strtok` is called first: the command has been copied twice. -/
def copiedCommand (program : ProgramMemory) (buf scommand command : Nat) : ProgramMemory :=
  { program with
    bytes := strncpy (strncpy program.bytes buf command bufSize) scommand buf scommandSize }

def NoWord (program : ProgramMemory) (buf scommand command : Nat) : Prop :=
  ∃ str, LineLeft (copiedCommand program buf scommand command) scommand str ∧
    Splits.components space str = []

/-- There is no word, or no slot or block for the first one. -/
def MakesNone (process : Nat) (before : Kernel × ProgramMemory) : SystemCall → Prop
  | .run buf scommand command _ _ =>
      ¬HasSlot before.1 process ∨ NoWord before.2 buf scommand command
  | .other => True

def SameAllocations (process : Nat) (kernel after : Kernel) : Prop :=
  (after.processMemory process).allocations = (kernel.processMemory process).allocations

variable {kernel after : Kernel} {before : Kernel × ProgramMemory} {program program' : ProgramMemory}
  {process root count buf scommand command max : Nat} {line str : List UInt8} {result : CommandResult}
  {calls : List SystemCall}

/-- With no pointer kept, the words are those of the line, up to the size of the first copy. -/
theorem noWord_iff (hsp : program.sp = 0) (hscommand : scommand ≠ 0)
    (hcommand : StringAt program.bytes command line) :
    NoWord program buf scommand command ↔ ∀ c ∈ line.take (bufSize - 1), c = space := by
  have hbuf := @strncpy_stringAt _ _ _ buf bufSize hcommand
  have hline := @copied_lineLeft { program with bytes := strncpy program.bytes buf command bufSize }
    scommand buf _ hsp hscommand hbuf
  have hlength : (line.take (bufSize - 1)).length ≤ scommandSize - 1 := by
    rw [List.length_take]
    exact Nat.le_trans (Nat.min_le_left _ _) (by decide)
  rw [List.take_of_length_le hlength] at hline
  have hwords := Splits.components_ne_nil_iff space (line.take (bufSize - 1))
  constructor
  · rintro ⟨str, hleft, hnil⟩ c hc
    obtain rfl := hleft.line.unique hline.line
    by_contra hne
    exact hwords.mpr ⟨c, hc, hne⟩ hnil
  · intro hall
    refine ⟨_, hline, ?_⟩
    by_contra hne
    obtain ⟨c, hc, hother⟩ := hwords.mp hne
    exact hother (hall c hc)

theorem parse_makesNone (hhealthy : Healthy process kernel)
    (hends : Ends (slobosParseCommand processMalloc process scommand command max program) kernel
      (root, program') after)
    (hnone : ¬HasSlot kernel process ∨ ∃ str, LineLeft
      { program with bytes := strncpy program.bytes scommand command scommandSize } scommand str ∧
        Splits.components space str = []) :
    root = 0 ∧ SameAllocations process kernel after ∧ Continues process kernel after := by
  rw [slobosParseCommand, ends_ite] at hends
  rcases hends with ⟨-, hends⟩ | ⟨-, hends⟩
  · obtain ⟨heq, rfl⟩ := ends_pure.mp hends
    exact ⟨(Prod.mk.inj heq).1, rfl, Frame.refl _⟩
  obtain ⟨⟨token, called⟩, middle, hcall, hrest⟩ := ends_bind.mp hends
  obtain ⟨rfl, hstrtok⟩ := (callStrtok_secure _ _).holds hcall
  change Ends (if token = 0 then _ else _) _ _ _ at hrest
  rw [ends_ite] at hrest
  rcases hrest with ⟨-, hrest⟩ | ⟨htoken, hrest⟩
  · obtain ⟨heq, rfl⟩ := ends_pure.mp hrest
    exact ⟨(Prod.mk.inj heq).1, rfl, Frame.refl _⟩
  rcases hnone with hslot | ⟨str, hline, hwords⟩
  · obtain ⟨refused, hmalloc⟩ :=
      ((processMalloc_page hhealthy.sound.heap process (show 0 < commandArgumentSize by decide)
        (by decide)).resolve_left fun h => hslot h.1).2
    rw [hmalloc.bind_iff, if_pos rfl] at hrest
    obtain ⟨heq, rfl⟩ := ends_pure.mp hrest
    obtain ⟨hcontinues, -, hunserved⟩ :=
      processMalloc_givenBack hhealthy.sound (by decide) (by decide) hmalloc
    exact ⟨(Prod.mk.inj heq).1, hunserved.allocations, hcontinues⟩
  · obtain ⟨result, hstrtok', houtcome⟩ := hline.strtok
    obtain rfl := Option.some.inj (hstrtok.symm.trans hstrtok')
    cases houtcome with
    | none => exact absurd rfl htoken
    | some hcons => cases hwords.symm.trans hcons

theorem parse_sameAllocations_iff (hhealthy : Healthy process kernel) (hmax : max < scommandSize)
    (hline : LineLeft { program with bytes := strncpy program.bytes scommand command scommandSize }
      scommand str)
    (hends : Ends (slobosParseCommand processMalloc process scommand command max program) kernel
      (root, program') after) :
    SameAllocations process kernel after ↔
      ¬HasSlot kernel process ∨ Splits.components space str = [] := by
  constructor
  · intro hsame
    obtain ⟨count, root', last, after', hends', hcut⟩ :=
      slobosParseCommand_cases hhealthy.sound hhealthy.pages hmax hline
    obtain ⟨-, rfl⟩ := hends.unique hends'
    have hslots := hcut.cut.slots
    rw [emptySlots_congr hsame] at hslots
    by_cases hwords : Splits.components space str = []
    · exact Or.inr hwords
    · exact Or.inl ((hcut.first hwords).mp (by omega))
  · intro hnone
    exact (parse_makesNone hhealthy hends (hnone.imp_right fun hwords => ⟨str, hline, hwords⟩)).2.1

theorem systemRun_makesNone (hhealthy : Healthy process kernel)
    (hnone : ¬HasSlot kernel process ∨ NoWord program buf scommand command)
    (hends : Ends (slobosSystemRun processMalloc process buf scommand command program) kernel
      (result, program') after) :
    SameAllocations process kernel after ∧ Continues process kernel after := by
  obtain ⟨⟨root, parsed⟩, middle, hparse, hrest⟩ := ends_bind.mp hends
  obtain ⟨rfl, hsame, hcontinues⟩ := parse_makesNone hhealthy hparse hnone
  change Ends (if 0 = 0 then _ else _) _ _ _ at hrest
  rw [if_pos rfl] at hrest
  obtain ⟨-, rfl⟩ := ends_pure.mp hrest
  exact ⟨hsame, hcontinues⟩

theorem systemStep_healthy {call : SystemCall} {after : Kernel × ProgramMemory}
    (hhealthy : Healthy process before.1)
    (hstep : Guarded (MakesNone process) (SystemStep process) before call after) :
    Healthy process after.1 := by
  obtain ⟨hguard, hstep⟩ := hstep
  cases hstep with
  | run hcommand hends =>
      have hcontinues := (systemRun_makesNone hhealthy hguard hends).2
      exact ⟨hcontinues.sound hhealthy.sound, hcontinues.taskPages hhealthy.pages⟩
  | other hkeeps => exact hkeeps hhealthy

/-- In a history in which no command gets to a list, every command leaves the allocations of the program
as they were. -/
theorem systemRuns_sameAllocations (hhealthy : Healthy process kernel)
    (hrun : Run (Guarded (MakesNone process) (SystemStep process)) (kernel, program) calls before)
    {after : Kernel × ProgramMemory}
    (hcall : Guarded (MakesNone process) (SystemStep process) before
      (.run buf scommand command line result) after) :
    SameAllocations process before.1 after.1 := by
  have hbefore : Healthy process before.1 :=
    hrun.invariant (fun state => Healthy process state.1)
      (fun _ _ _ hhealthy hstep => systemStep_healthy hhealthy hstep) hhealthy
  obtain ⟨hguard, hstep⟩ := hcall
  cases hstep with
  | run hcommand hends => exact (systemRun_makesNone hbefore hguard hends).1

theorem systemRun_null (hparse : Ends (slobosParseCommand processMalloc process scommand buf bufSize
      { program with bytes := strncpy program.bytes buf command bufSize }) kernel (0, program') after) :
    Ends (slobosSystemRun processMalloc process buf scommand command program) kernel
      (.returned (errorPointer (-1)), program') after :=
  ends_bind.mpr ⟨_, after, hparse, ends_pure.mpr ⟨rfl, rfl⟩⟩

def blankMemory : ProgramMemory where
  bytes := fun _ => 0
  sp := 0

theorem blankMemory_run (hhealthy : Healthy process kernel) : ∃ after program',
    Guarded (MakesNone process) (SystemStep process) (kernel, blankMemory)
        (.run 0x3FC000 0x3FD000 0x3FE000 [] (.returned (errorPointer (-1)))) (after, program') ∧
      Continues process kernel after := by
  have hcommand : StringAt blankMemory.bytes 0x3FE000 [] := rfl
  have hnone : NoWord blankMemory 0x3FC000 0x3FD000 0x3FE000 :=
    (noWord_iff rfl (by decide) hcommand).mpr fun _ hc => absurd hc List.not_mem_nil
  obtain ⟨str, hline, hwords⟩ := hnone
  obtain ⟨count, root, program', after, hends, -⟩ := @slobosParseCommand_cases kernel process str
    { blankMemory with bytes := strncpy blankMemory.bytes 0x3FC000 0x3FE000 bufSize } 0x3FD000 0x3FC000
    bufSize hhealthy.sound hhealthy.pages (by decide) hline
  obtain ⟨rfl, -, hcontinues⟩ := parse_makesNone hhealthy hends (Or.inr ⟨str, hline, hwords⟩)
  exact ⟨after, program', ⟨Or.inr ⟨str, hline, hwords⟩, .run hcommand (systemRun_null hends)⟩,
    hcontinues⟩

theorem systemRuns_sameAllocations_empty : ∃ first after,
    Run (SystemStep 0) (shellKernel, blankMemory)
      [.run 0x3FC000 0x3FD000 0x3FE000 [] (.returned (errorPointer (-1))), .other]
      (first, blankMemory) ∧ SameAllocations 0 first after := by
  obtain ⟨first, program', hfirst, hcontinues⟩ := blankMemory_run shellKernel_healthy
  have hrun : Run (Guarded (MakesNone 0) (SystemStep 0)) (shellKernel, blankMemory)
      [.run 0x3FC000 0x3FD000 0x3FE000 [] (.returned (errorPointer (-1))), .other]
      (first, blankMemory) := (Run.single hfirst).snoc ⟨trivial, .other id⟩
  obtain ⟨after, program'', hsecond, -⟩ := @blankMemory_run first 0
    ⟨hcontinues.sound shellKernel_sound, hcontinues.taskPages shellKernel_pages⟩
  exact ⟨first, after, hrun.unguarded, systemRuns_sameAllocations shellKernel_healthy hrun hsecond⟩

def crowdedKernel : Kernel :=
  { shellKernel with sched := { shellKernel.sched with processes := fun _ => 1 } }

theorem crowdedKernel_supplied : Supplied crowdedKernel 0 1 25599 where
  sound := ⟨shellKernel_sound.heap, shellKernel_sound.size, shellKernel_sound.volume⟩
  pages := shellKernel_pages
  room := shellKernel_supplied.room
  free := ⟨0, by decide, fun _ _ _ => rfl⟩

theorem loadNamed_full {word : List UInt8} (hslot : processGetFreeSlot kernel.sched = none)
    (hfits : drivePath.length + word.length < slobosMaxPath) :
    Ends (loadNamed word) kernel (-eistkn, 0) kernel := by
  have hload : Ends (processLoad (drivePath ++ word)) kernel (-eistkn, 0) kernel := by
    rw [processLoad, ends_get_bind, hslot]
    exact ends_pure.mpr ⟨rfl, rfl⟩
  rw [loadNamed, if_neg (Nat.not_le.mpr hfits), processLoadSwitch, hload.bind_iff]
  exact ends_pure.mpr ⟨rfl, rfl⟩

theorem crowdedKernel_run : ∃ value program' after,
    Ends (slobosSystemRun processMalloc 0 0x3FC000 0x3FD000 0x3FE000 shellMemory) crowdedKernel
      (.returned value, program') after ∧ ¬SameAllocations 0 crowdedKernel after := by
  have hbuf : StringAt (strncpy shellMemory.bytes 0x3FC000 0x3FE000 bufSize) 0x3FC000 [0x61] :=
    strncpy_stringAt shellMemory_line
  have hsupplied := crowdedKernel_supplied
  have hfull : processGetFreeSlot crowdedKernel.sched = none := by decide
  have hslot : HasSlot crowdedKernel 0 :=
    ⟨⟨0, mem_emptySlots.mpr ⟨by decide, rfl⟩⟩, idleKernel_freeBlocks (programVolume 1) (by decide)⟩
  generalize crowdedKernel = kernel at hsupplied hfull hslot
  obtain ⟨root, program', after, hparse, -, hparsed⟩ := @slobosParseCommand_supplied kernel 0
    { shellMemory with bytes := strncpy shellMemory.bytes 0x3FC000 0x3FE000 bufSize } 0x3FD000 0x3FC000
    bufSize 25599 [0x61] hsupplied rfl (by decide) (by decide) hbuf (by decide) (by decide)
  have hline := @copied_lineLeft
    { shellMemory with bytes := strncpy shellMemory.bytes 0x3FC000 0x3FE000 bufSize } 0x3FD000 0x3FC000
    [0x61] rfl (by decide) hbuf
  have hsame := parse_sameAllocations_iff ⟨hsupplied.sound, hsupplied.pages⟩
    (show bufSize < scommandSize by decide) hline hparse
  have hpages := hparsed.continues.taskPages hsupplied.pages
  have hlist := hparsed.list
  have hwords : Splits.components space [0x61] = [[0x61]] := by decide
  rw [hwords] at hlist
  have hcommand7 := command7_loads hpages hparsed.own hlist (List.cons_ne_nil 0x61 []) (by decide)
    processMalloc
  have hload := @loadNamed_full after [0x61] (by rw [hparsed.continues.sched, hfull]) (by decide)
  rw [hload.bind_eq] at hcommand7
  refine ⟨errorPointer (-eistkn), program', after, ?_, fun h => ?_⟩
  · refine ends_bind.mpr ⟨(root, program'), after, hparse, ?_⟩
    change Ends (if root = 0 then _ else _) _ _ _
    rw [if_neg hparsed.ne_null]
    exact ends_bind.mpr ⟨.returned (errorPointer (-eistkn)), after, hcommand7, ends_pure.mpr ⟨rfl, rfl⟩⟩
  · rcases hsame.mp h with hnone | hnil
    · exact hnone hslot
    · exact absurd hnil (by decide)

/-- Each such line costs the program one of its slots. -/
theorem not_systemRuns_sameAllocations : ¬∀ (kernel : Kernel) program calls before buf scommand command
    line result after, Healthy 0 kernel → program.sp = 0 →
    Run (SystemStep 0) (kernel, program) calls before →
    SystemStep 0 before (.run buf scommand command line result) after →
    SameAllocations 0 before.1 after.1 := by
  intro hall
  obtain ⟨value, program', after, hends, hmore⟩ := crowdedKernel_run
  exact hmore (hall crowdedKernel shellMemory _ _ _ _ _ _ _ _
    ⟨crowdedKernel_supplied.sound, crowdedKernel_supplied.pages⟩ rfl (.nil _)
    (.run shellMemory_line hends))

end Kernel

end SlobOS
