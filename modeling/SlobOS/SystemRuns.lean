import SlobOS.Proof.Programs
import SlobOS.Proof.StartedPrograms
import SlobOS.Proof.Supplies

/-!
# The arguments of a started program

A command line goes through two buffers of the program that runs it, a list of arguments in memory from
the kernel, and copies in memory of the program that is started. What arrives there are the words of the
line.
-/

namespace SlobOS

open CStrings

namespace Kernel

open Faulting

variable {kernel loaded after : Kernel} {process ptr frame : Nat} {arguments : ProcessArguments}
  {words : List (List UInt8)}

def argvEntry (kernel : Kernel) (process ptr : Nat) (arguments : ProcessArguments) (i : Nat) : Nat :=
  readWord (programFinds kernel process ptr arguments)
    ((cStart kernel process ptr arguments).argv + 4 * i)

/-- The process has been given the memory: it is recorded, and its pages are the process's own. -/
structure Allocated (kernel : Kernel) (process ptr size : Nat) : Prop where
  recorded : Recorded kernel process ptr size
  own : ∀ i < size, OwnPage kernel.pages (kernel.directoryOf process) ((ptr + i) / pagingPageSize)

def Separate (ptr size ptr' size' : Nat) : Prop := ptr + size ≤ ptr' ∨ ptr' + size' ≤ ptr

/-- `main` gets the number of the words and an array of them, each of them cut to what a
`struct command_argument` has room for, and each in an allocation of its own. -/
structure ReceivesArguments (kernel : Kernel) (process ptr : Nat) (arguments : ProcessArguments)
    (words : List (List UInt8)) : Prop where
  argc : (cStart kernel process ptr arguments).argc = words.length
  strings : ∀ i (hi : i < words.length), StringAt (programFinds kernel process ptr arguments)
    (argvEntry kernel process ptr arguments i) (words[i].take (argumentSize - 1))
  array : Allocated kernel process (cStart kernel process ptr arguments).argv (4 * words.length)
  allocated : ∀ i < words.length,
    Allocated kernel process (argvEntry kernel process ptr arguments i) argumentSize
  apart : ∀ i < words.length, Separate (argvEntry kernel process ptr arguments i) argumentSize
    (cStart kernel process ptr arguments).argv (4 * words.length)
  distinct : ∀ j < words.length, ∀ i < j,
    Separate (argvEntry kernel process ptr arguments i) argumentSize
      (argvEntry kernel process ptr arguments j) argumentSize

theorem ArgumentsGiven.receives (h : ArgumentsGiven loaded after process arguments
      (words.map (List.take (argumentSize - 1)))) (hstack : ProgramStack loaded process frame)
    (hpages : TaskPages loaded.pages (loaded.directoryOf process))
    (hroom : 4 * words.length ≤ slobosHeapBlockSize) (hge : 0x3FB000 ≤ ptr)
    (hlt : ptr + processArgumentsSize ≤ 0x3FF000) :
    ReceivesArguments after process ptr arguments words := by
  have hfound : ∀ block, OwnBlock after process block → Fresh loaded block →
      ∀ i < slobosHeapBlockSize, programFinds after process ptr arguments (block + i) =
        after.memory after.pages (block + i) := fun _ hown hfresh _ hi =>
    hown.found hfresh hstack h.continues (h.continues.taskPages hpages) hge hlt hi
  have hargc := h.argc
  rw [List.length_map] at hargc
  obtain ⟨index, hindex, hheld⟩ := h.own.held
  have hbelow := hheld.below
  have hstart : cStart after process ptr arguments = arguments := by
    refine cStart_eq (hstack.continues h.continues) (h.continues.taskPages hpages) hge hlt ?_ ?_
    · simp only [addressSpace, slobosHeapBlockSize] at *
      omega
    · omega
  have hentry : ∀ i < words.length, argvEntry after process ptr arguments i =
      argumentPointer after arguments.argv i := by
    intro i hi
    rw [argvEntry, hstart]
    refine readWord_congr ?_ fun k hk => ?_
    · simp only [slobosHeapBlockSize] at *
      omega
    · rw [Nat.add_assoc]
      exact hfound _ h.own h.fresh _ (by omega)
  have hstring : ∀ i (hi : i < words.length),
      GivenString loaded after process (argvEntry after process ptr arguments i)
        (words[i].take (argumentSize - 1)) := by
    intro i hi
    have hgiven := h.strings i (by rwa [List.length_map])
    rwa [List.getElem_map, ← hentry i hi] at hgiven
  have hsmall : argumentSize ≤ slobosHeapBlockSize := by decide
  constructor
  case argc => rw [hstart, hargc]
  case strings =>
    intro i hi
    have hgiven := hstring i hi
    have hlength := hgiven.text.length
    refine (hgiven.text.text after.pages).congr fun address hge' hle => ?_
    have hsame := hfound _ hgiven.own hgiven.fresh
      (address - argvEntry after process ptr arguments i) (by omega)
    rwa [Nat.add_sub_cancel' hge'] at hsame
  case array =>
    have hrecorded := h.recorded
    rw [List.length_map] at hrecorded
    rw [hstart]
    exact ⟨hrecorded, fun i hi => h.own.own i (by omega)⟩
  case allocated =>
    intro i hi
    have hgiven := hstring i hi
    exact ⟨hgiven.recorded, fun k hk => hgiven.own.own k (by omega)⟩
  case apart =>
    intro i hi
    have hne := h.apart i (by rwa [List.length_map])
    rw [← hentry i hi] at hne
    have hapart := (hstring i hi).own.apart_of_ne h.own hne
    rw [hstart, Separate]
    omega
  case distinct =>
    intro j hj i hi
    have hne := h.distinct j (by rwa [List.length_map]) i hi
    rw [← hentry i (by omega), ← hentry j hj] at hne
    have hapart := (hstring i (by omega)).own.apart_of_ne (hstring j hj).own hne
    rw [Separate]
    omega

theorem ReceivesArguments.switched (h : ReceivesArguments kernel process ptr arguments words) :
    ReceivesArguments (switchTask process kernel) process ptr arguments words where
  argc := h.argc
  strings := h.strings
  array := ⟨h.array.recorded, h.array.own⟩
  allocated i hi := ⟨(h.allocated i hi).recorded, (h.allocated i hi).own⟩
  apart := h.apart
  distinct := h.distinct

section Allocators

variable (malloc : Nat → Nat → KernelM Nat) (process : Nat)

theorem granted_upTo (size : Nat) : UpTo .panic (granted malloc process size) (malloc process size) := by
  intro kernel havoids
  cases hresult : malloc process size kernel with
  | error fault =>
      change Except.bind (malloc process size kernel) _ = _
      rw [hresult]
      rfl
  | ok pair =>
      obtain ⟨ptr, after⟩ := pair
      have hends : Ends (malloc process size) kernel ptr after := hresult
      have hrest := havoids.next hends
      rw [granted, hends.bind_eq]
      by_cases hnull : ptr = 0
      · rw [if_pos hnull] at hrest
        exact absurd rfl hrest
      · rw [if_neg hnull]
        rfl

theorem slobosParseTokens_upTo (left current : Nat) (program : ProgramMemory) :
    UpTo .panic (slobosParseTokens (granted malloc) process left current program)
      (slobosParseTokens malloc process left current program) := by
  induction left generalizing current program with
  | zero => exact .refl
  | succ left ih =>
      refine .bind .refl fun result => ?_
      exact .ite .refl <| .bind (granted_upTo malloc process _) fun ptr =>
        .ite .refl <| .bind .refl fun _ => .bind .refl fun _ => ih _ _

theorem slobosParseCommand_upTo (scommand command max : Nat) (program : ProgramMemory) :
    UpTo .panic (slobosParseCommand (granted malloc) process scommand command max program)
      (slobosParseCommand malloc process scommand command max program) := by
  refine .ite .refl <| .bind .refl fun result => ?_
  exact .ite .refl <| .bind (granted_upTo malloc process _) fun ptr =>
    .ite .refl <| .bind .refl fun _ => .bind (slobosParseTokens_upTo malloc process _ _ _) fun _ => .refl

theorem processInjectLoop_upTo (argv left current i : Nat) :
    UpTo .panic (processInjectLoop (granted malloc) process argv left current i)
      (processInjectLoop malloc process argv left current i) := by
  induction left generalizing current i with
  | zero => exact .refl
  | succ left ih =>
      refine .ite .refl <| .bind (granted_upTo malloc process _) fun ptr => .ite .refl ?_
      exact .bind .refl fun _ => .bind .refl fun _ => .bind .refl fun _ => ih _ _

theorem processInjectArguments_upTo (rootArgument : Nat) :
    UpTo .panic (processInjectArguments (granted malloc) process rootArgument)
      (processInjectArguments malloc process rootArgument) := by
  refine .bind .refl fun kernel => ?_
  cases processCountCommandArguments (kernel.memory kernel.pages) addressSpace rootArgument 0 with
  | none => exact .refl
  | some argc =>
      exact .ite .refl <| .bind (granted_upTo malloc process _) fun ptr => .ite .refl <|
        .bind (processInjectLoop_upTo malloc process _ _ _ _) fun _ => .refl

theorem command7_upTo (ptr : Nat) :
    UpTo .panic (isr80hCommand7InvokeSystemCommand (granted malloc) process ptr)
      (isr80hCommand7InvokeSystemCommand malloc process ptr) := by
  refine .bind .refl fun kernel => .ite .refl <| .bind .refl fun result => ?_
  exact .ite .refl <| .bind (processInjectArguments_upTo malloc _ _) fun _ => .refl

theorem slobosSystemRun_upTo (buf scommand command : Nat) (program : ProgramMemory) :
    UpTo .panic (slobosSystemRun (granted malloc) process buf scommand command program)
      (slobosSystemRun malloc process buf scommand command program) := by
  refine .bind (slobosParseCommand_upTo malloc process _ _ _ _) fun result => ?_
  exact .ite .refl <| .bind (command7_upTo malloc process _) fun _ => .refl

end Allocators

/-! ### The run -/

section Runs

variable {parsed : Kernel} {root started : Nat} {word : List UInt8}

def passArguments (malloc : Nat → Nat → KernelM Nat) (started root : Nat) : KernelM CommandResult := do
  let injected ← processInjectArguments malloc started root
  match injected with
  | .error res => pure (.returned (errorPointer res))
  | .ok processArguments => do
      modify (switchTask started)
      pure (.started started processArguments)

theorem command7_loads (hpages : TaskPages parsed.pages (parsed.directoryOf process))
    (hown : OwnBlock parsed process root)
    (hlist : ArgumentList parsed root ((word :: words).map (List.take (argumentSize - 1))))
    (hne : word ≠ []) (hfits : drivePath.length + word.length < slobosMaxPath)
    (malloc : Nat → Nat → KernelM Nat) :
    isr80hCommand7InvokeSystemCommand malloc process root parsed =
      (do
        let (res, started) ← loadNamed word
        if res < 0 then pure (CommandResult.returned (errorPointer res))
        else passArguments malloc started root) parsed := by
  rw [List.map_cons] at hlist
  cases hlist with
  | cons htext _ _ =>
      have hphysical : taskVirtualAddressToPhysical parsed.pages (parsed.directoryOf process) root =
          root := by
        obtain ⟨block, hroot, hblock⟩ := hown.held
        have hbelow := hblock.below
        have hfirst := hown.own 0 (by decide)
        rw [Nat.add_zero] at hfirst
        rw [taskVirtualAddressToPhysical, hpages.physical (by omega), hfirst.translated]
      have hstring := htext.text parsed.pages
      have hfound : ¬(root = 0 ∨ parsed.memory parsed.pages root = 0) := by
        rintro (hnull | hzero)
        · exact htext.ne_null hnull
        · cases word with
          | nil => exact hne rfl
          | cons c rest => exact hstring.1 (hstring.2.1.symm.trans hzero)
      have hname : (strncpyBytes (parsed.memory parsed.pages) root (slobosMaxPath - 1)).dropLast =
          word := by
        rw [strncpyBytes_eq hstring, List.dropLast_concat, List.take_take, List.take_of_length_le]
        simp only [slobosMaxPath, argumentSize, drivePath, List.length_cons, List.length_nil] at *
        omega
      have hget : Ends (get : KernelM Kernel) parsed parsed parsed := ends_get.mpr ⟨rfl, rfl⟩
      rw [isr80hCommand7InvokeSystemCommand, hget.bind_eq]
      simp only [hphysical, if_neg hfound, hname]
      rfl

section Command7

variable (hpages : TaskPages parsed.pages (parsed.directoryOf process))
  (hown : OwnBlock parsed process root)
  (hlist : ArgumentList parsed root ((word :: words).map (List.take (argumentSize - 1))))
  (hne : word ≠ []) (hload : Ends (loadNamed word) parsed (0, started) loaded)

include hload

theorem loadNamed_fits : drivePath.length + word.length < slobosMaxPath := by
  by_contra hle
  rw [loadNamed, if_pos (Nat.not_lt.mp hle)] at hload
  exact ends_throw hload

include hpages hown hlist hne

theorem command7_eq (malloc : Nat → Nat → KernelM Nat) :
    isr80hCommand7InvokeSystemCommand malloc process root parsed =
      passArguments malloc started root loaded := by
  rw [command7_loads hpages hown hlist hne (loadNamed_fits hload), hload.bind_eq]
  simp only [Int.lt_irrefl, if_false]

end Command7

theorem command7_spec (hsound : KernelSound parsed)
    (hpages : TaskPages parsed.pages (parsed.directoryOf process)) (hown : OwnBlock parsed process root)
    (hlist : ArgumentList parsed root ((word :: words).map (List.take (argumentSize - 1))))
    (hne : word ≠ []) (hroom : 4 * (words.length + 1) ≤ slobosHeapBlockSize)
    (hload : Ends (loadNamed word) parsed (0, started) loaded)
    (havoids : Avoids .panic
      (isr80hCommand7InvokeSystemCommand (granted processMalloc) process root) parsed) :
    ∃ arguments after,
      Ends (isr80hCommand7InvokeSystemCommand (granted processMalloc) process root) parsed
        (.started started arguments) after ∧
      ∀ ptr, slobosProgramVirtualStackAddressEnd ≤ ptr →
        ptr + processArgumentsSize ≤ slobosProgramVirtualStackAddressStart →
        ReceivesArguments after started ptr arguments (word :: words) := by
  have hsame := command7_eq hpages hown hlist hne hload (granted processMalloc)
  have hpasses : Avoids .panic (passArguments (granted processMalloc) started root) loaded := by
    unfold Avoids at havoids ⊢
    rwa [hsame] at havoids
  have hfits := loadNamed_fits hload
  rw [loadNamed, if_neg (Nat.not_le.mpr hfits)] at hload
  have hloaded := processLoadSwitch_loaded hload hsound
  obtain ⟨frame, hstack⟩ := hloaded.stack
  have hlength : ((word :: words).map (List.take (argumentSize - 1))).length = words.length + 1 :=
    List.length_map _
  obtain ⟨arguments, injected, hends, hgiven⟩ := processInjectArguments_spec hloaded.sound
    hloaded.pages (hlist.preserved hloaded.preserves) (List.cons_ne_nil _ _) (hlength ▸ hroom)
    hpasses.first
  refine ⟨arguments, switchTask started injected, ?_, fun ptr hge hle => ?_⟩
  · unfold Ends
    rw [hsame]
    refine ends_bind.mpr ⟨.ok arguments, injected, hends, ?_⟩
    rw [ends_modify_bind]
    exact ends_pure.mpr ⟨rfl, rfl⟩
  · exact (hgiven.receives hstack hloaded.pages hroom hge hle).switched

theorem command7_secure {left : Nat} (hsound : KernelSound parsed)
    (hpages : TaskPages parsed.pages (parsed.directoryOf process)) (hown : OwnBlock parsed process root)
    (hlist : ArgumentList parsed root ((word :: words).map (List.take (argumentSize - 1))))
    (hne : word ≠ []) (hroom : 4 * (words.length + 1) ≤ slobosHeapBlockSize)
    (hload : Ends (loadNamed word) parsed (0, started) loaded)
    (hsupplied : Supplied loaded started (words.length + 1 + 1) left) :
    Secure .panic (isr80hCommand7InvokeSystemCommand (granted processMalloc) process root) parsed
      fun _ _ => True := by
  refine .of_eq ?_ (command7_eq hpages hown hlist hne hload _)
  have hfits := loadNamed_fits hload
  rw [loadNamed, if_neg (Nat.not_le.mpr hfits)] at hload
  have hloaded := processLoadSwitch_loaded hload hsound
  have hlength : ((word :: words).map (List.take (argumentSize - 1))).length = words.length + 1 :=
    List.length_map _
  rw [← hlength] at hsupplied hroom
  refine (processInjectArguments_secure hsupplied (hlist.preserved hloaded.preserves) hroom).bind
    fun injected _ _ => ?_
  cases injected with
  | error => exact .pure trivial
  | ok => exact .modify_bind (.pure trivial)

/-- The program that the first word names can be loaded as soon as the line has been taken apart. -/
def NamedLoads (kernel : Kernel) (process buf scommand command : Nat) (program : ProgramMemory)
    (line : List UInt8) : Prop :=
  ∀ root program' parsed,
    Ends (slobosParseCommand processMalloc process scommand buf bufSize
      { program with bytes := strncpy program.bytes buf command bufSize }) kernel (root, program')
      parsed →
    ∃ started loaded,
      Ends (loadNamed ((Splits.components space line).headD [])) parsed (0, started) loaded

theorem buf_stringAt {program : ProgramMemory} {buf command : Nat} {line : List UInt8}
    (hcommand : StringAt program.bytes command line) (hlength : line.length ≤ 1023) :
    StringAt (strncpy program.bytes buf command bufSize) buf line := by
  have hbuf := @strncpy_stringAt program.bytes command line buf bufSize hcommand
  rwa [bufSize, List.take_of_length_le hlength] at hbuf

theorem components_fit {line : List UInt8} (hlength : line.length ≤ 1023) :
    4 * (Splits.components space line).length ≤ slobosHeapBlockSize := by
  have hcount := Splits.components_length space line
  simp only [slobosHeapBlockSize]
  omega

theorem slobosParseCommand_supplied {program : ProgramMemory} {scommand command max rest : Nat}
    {line : List UInt8} (h : Supplied kernel process (Splits.components space line).length rest)
    (hsp : program.sp = 0) (hscommand : scommand ≠ 0) (hmax : max < scommandSize)
    (hcommand : StringAt program.bytes command line) (hlength : line.length < scommandSize)
    (hwords : Splits.components space line ≠ []) :
    ∃ root program' parsed,
      Ends (slobosParseCommand processMalloc process scommand command max program) kernel
        (root, program') parsed ∧ program'.sp = 0 ∧
      Parsed kernel parsed process root
        ((Splits.components space line).map (List.take (argumentSize - 1))) := by
  have hsecure := slobosParseCommand_secure h hsp hscommand hmax hcommand hlength
  obtain ⟨root, program', parsed, hends, hsp', hparsed⟩ := slobosParseCommand_spec h.sound h.pages hsp
    hscommand hmax hcommand hlength hwords hsecure.avoids
  exact ⟨root, program', parsed, (slobosParseCommand_upTo processMalloc process _ _ _ _).ends hends,
    hsp', hparsed⟩

theorem slobosSystemRun_supplied {program : ProgramMemory} {buf scommand command rest : Nat}
    {line : List UInt8} (h : Supplied kernel process (Splits.components space line).length rest)
    (hsp : program.sp = 0) (hscommand : scommand ≠ 0)
    (hcommand : StringAt program.bytes command line) (hlength : line.length ≤ 1023)
    (hword : ∃ c ∈ line, c ≠ space)
    (hloads : ∀ parsed, Supplied parsed process 0 rest → SameDisk kernel parsed → ∃ started loaded,
      Ends (loadNamed ((Splits.components space line).headD [])) parsed (0, started) loaded ∧
        ∃ left, Supplied loaded started ((Splits.components space line).length + 1) left) :
    Avoids .panic
        (slobosSystemRun (granted processMalloc) process buf scommand command program) kernel ∧
      NamedLoads kernel process buf scommand command program line := by
  have hwords := (Splits.components_ne_nil_iff space line).mpr hword
  have hroom := components_fit hlength
  have hbuf := @buf_stringAt program buf command line hcommand hlength
  have hline : line.length < scommandSize := Nat.lt_of_le_of_lt hlength (by decide)
  have hsecure := @slobosParseCommand_secure kernel process rest
    { program with bytes := strncpy program.bytes buf command bufSize } scommand buf bufSize line h hsp
    hscommand (by decide) hbuf hline
  obtain ⟨root, program', parsed, hends, -, hparsed⟩ := @slobosParseCommand_spec kernel process
    { program with bytes := strncpy program.bytes buf command bufSize } scommand buf bufSize line
    h.sound h.pages hsp hscommand (by decide) hbuf hline hwords hsecure.avoids
  obtain ⟨hsupplied, hdisk⟩ := hsecure.holds hends
  obtain ⟨started, loaded, hload, left, hsupplied'⟩ := hloads parsed hsupplied hdisk
  have hrun : Secure .panic
      (slobosSystemRun (granted processMalloc) process buf scommand command program) kernel
      fun _ _ => True := by
    refine .bind_ends hends ?_
    change Secure Fault.panic (if root = 0 then _ else _) _ _
    rw [if_neg hparsed.ne_null]
    cases hcomponents : Splits.components space line with
    | nil => exact absurd hcomponents hwords
    | cons word words =>
        have hne : word ≠ [] :=
          Splits.ne_nil_of_mem_components space (hcomponents ▸ List.mem_cons_self)
        rw [hcomponents] at hparsed hload hroom hsupplied'
        exact (command7_secure hsupplied.sound hsupplied.pages hparsed.own hparsed.list hne hroom hload
          hsupplied').bind fun _ _ _ => .pure trivial
  refine ⟨hrun.avoids, fun root' program'' parsed' hends' => ?_⟩
  have hsame := ((slobosParseCommand_upTo processMalloc process _ _ _ _).ends hends).unique hends'
  rw [← hsame.2]
  exact ⟨started, loaded, hload⟩

/-- The started program gets the words of the line. -/
theorem slobosSystemRun_arguments {program : ProgramMemory} {buf scommand command : Nat}
    {line : List UInt8} (hsound : KernelSound kernel)
    (hpages : TaskPages kernel.pages (kernel.directoryOf process)) (hsp : program.sp = 0)
    (hscommand : scommand ≠ 0) (hcommand : StringAt program.bytes command line)
    (hlength : line.length ≤ 1023) (hword : ∃ c ∈ line, c ≠ space)
    (hallocates : Avoids .panic
      (slobosSystemRun (granted processMalloc) process buf scommand command program) kernel)
    (hloads : NamedLoads kernel process buf scommand command program line) :
    ∃ started arguments program' after,
      Ends (slobosSystemRun processMalloc process buf scommand command program) kernel
        (.started started arguments, program') after ∧ program'.sp = 0 ∧
      ∀ ptr, slobosProgramVirtualStackAddressEnd ≤ ptr →
        ptr + processArgumentsSize ≤ slobosProgramVirtualStackAddressStart →
        ReceivesArguments after started ptr arguments (Splits.components space line) := by
  have hwords := (Splits.components_ne_nil_iff space line).mpr hword
  have hroom := components_fit hlength
  have hbuf := @buf_stringAt program buf command line hcommand hlength
  obtain ⟨root, program', parsed, hends, hsp', hparsed⟩ := @slobosParseCommand_spec kernel process
    { program with bytes := strncpy program.bytes buf command bufSize } scommand buf bufSize line hsound
    hpages hsp hscommand (by decide) hbuf (Nat.lt_of_le_of_lt hlength (by decide)) hwords
    hallocates.first
  have hloaded := hloads root program' parsed
    ((slobosParseCommand_upTo processMalloc process _ _ _ _).ends hends)
  have hcommand7 := hallocates.next hends
  cases hcomponents : Splits.components space line with
  | nil => exact absurd hcomponents hwords
  | cons word words =>
      rw [hcomponents] at hparsed hloaded hroom
      have hne : word ≠ [] :=
        Splits.ne_nil_of_mem_components space (hcomponents ▸ List.mem_cons_self)
      change Avoids Fault.panic (if root = 0 then _ else _) parsed at hcommand7
      rw [if_neg hparsed.ne_null] at hcommand7
      obtain ⟨started, loaded, hload⟩ := hloaded
      obtain ⟨arguments, after, hstarted, hreceives⟩ := command7_spec
        (hparsed.continues.sound hsound) (hparsed.continues.taskPages hpages) hparsed.own hparsed.list
        hne hroom hload hcommand7.first
      refine ⟨started, arguments, program', after,
        (slobosSystemRun_upTo processMalloc process _ _ _ _).ends ?_, hsp', hreceives⟩
      refine ends_bind.mpr ⟨(root, program'), parsed, hends, ?_⟩
      change Ends (if root = 0 then _ else _) _ _ _
      rw [if_neg hparsed.ne_null]
      exact ends_bind.mpr ⟨.started started arguments, after, hstarted, ends_pure.mpr ⟨rfl, rfl⟩⟩

end Runs

/-! ### From the boot on -/

theorem idleKernel_kernelSound {volume : Volume} (hwithin : ReadsWithin volume) :
    KernelSound (idleKernel bootBytes volume) where
  heap := idleKernel_sound volume
  size := by
    change (kheapInit bootBytes).table.total * slobosHeapBlockSize ≤ slobosHeapSizeBytes
    rw [kheapInit_total]
    decide
  volume := hwithin

section Shell

def shellPages : PageTables where
  directories := fun _ i => 0x800000 + i * pagingPageSize + 7
  tables := fun _ _ => 0
  stores := []

def shellKernel : Kernel := { idleKernel bootBytes (programVolume 1) with pages := shellPages }

def shellMemory : ProgramMemory where
  bytes := fun address => if address = 0x3FE000 then 0x61 else 0
  sp := 0

theorem shellKernel_sound : KernelSound shellKernel := by
  have hsound := @idleKernel_kernelSound (programVolume 1) fun cluster offset total res bytes hread => by
    obtain ⟨-, rfl⟩ := Prod.mk.inj (Option.some.inj hread)
    rw [List.length_replicate]
  exact ⟨hsound.heap, hsound.size, hsound.volume⟩

theorem shellKernel_pages :
    TaskPages shellKernel.pages (shellKernel.directoryOf 0) := by
  refine ⟨fun i hi j hj heq => ?_, fun i hi => ?_, fun i hi => ?_⟩ <;>
    simp only [shellKernel, shellPages, tableAddress, pagingPageSize, pagingTotalEntriesPerTable] at * <;>
    omega

theorem shellKernel_supplied : Supplied shellKernel 0 2 25598 where
  sound := shellKernel_sound
  pages := shellKernel_pages
  room := idleKernel_room (programVolume 1)
  free := ⟨0, by decide, fun _ _ _ => rfl⟩

theorem loadNamed_shell {parsed : Kernel} (h : Supplied parsed 0 0 25598)
    (hdisk : SameDisk shellKernel parsed) :
    ∃ started loaded, Ends (loadNamed [0x61]) parsed (0, started) loaded ∧
      ∃ left, Supplied loaded started 3 left := by
  have hslot : processGetFreeSlot parsed.sched = some 0 := by
    rw [hdisk.sched]
    rfl
  have hone : blockCount 1 = 1 := by decide
  have hready : Ready parsed (programVolume 1)
      (3 + (1 + (blockCount 1 + (blockCount 1 + (1031 + 3) + 8) + 8))) := by
    refine ⟨hdisk.volume, ?_, h.room.mono ?_⟩
    · rw [hdisk.fileDescriptors]
      rfl
    · rw [hone]
      decide
  obtain ⟨started, acquired, mapped, hacquires, hmap, hload, hroom, -⟩ :=
    @FlatFile.loads parsed _ _ _ 3 _ 0 (flatFile_programVolume Nat.one_pos (by decide)) hready
      (processGet_of_free hslot)
  obtain ⟨pages, rfl, -⟩ := processMapMemory_pages hmap
  have hloads := processLoadSwitch_ends hslot hload
  have hloaded := processLoadSwitch_loaded hloads h.sound
  refine ⟨started, _, ?_, 0, hloaded.sound, hloaded.pages, hroom.room, 0, by decide, fun i _ _ => ?_⟩
  · rw [loadNamed, if_neg (by decide)]
    exact hloads
  · exact hacquires.empty i

def argumentMemory : ProgramMemory where
  bytes := putBytes (fun _ => 0) 0x3FE000 [0x61, 0x20, 0x62, 0]
  sp := 0

theorem argumentMemory_line : StringAt argumentMemory.bytes 0x3FE000 [0x61, 0x20, 0x62] :=
  @stringAt_putBytes (fun _ => 0) 0x3FE000 [0x61, 0x20, 0x62] (by decide)

theorem slobosSystemRun_arguments_shell : ∃ started arguments program' after,
    Ends (slobosSystemRun processMalloc 0 0x3FC000 0x3FD000 0x3FE000 argumentMemory) shellKernel
      (.started started arguments, program') after ∧ program'.sp = 0 ∧
    ∀ ptr, slobosProgramVirtualStackAddressEnd ≤ ptr →
      ptr + processArgumentsSize ≤ slobosProgramVirtualStackAddressStart →
      ReceivesArguments after started ptr arguments [[0x61], [0x62]] := by
  have hword : ∃ c ∈ ([0x61, 0x20, 0x62] : List UInt8), c ≠ space := by decide
  obtain ⟨hallocates, hloads⟩ := @slobosSystemRun_supplied shellKernel 0 argumentMemory 0x3FC000
    0x3FD000 0x3FE000 25598 [0x61, 0x20, 0x62] shellKernel_supplied rfl (by decide) argumentMemory_line (by decide) hword
    fun parsed h hdisk => loadNamed_shell h hdisk
  exact slobosSystemRun_arguments shellKernel_sound shellKernel_pages rfl (by decide)
    argumentMemory_line (by decide) hword hallocates hloads

end Shell

end Kernel

end SlobOS
