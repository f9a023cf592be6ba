import SlobOS.Proof.InjectedArguments
import SlobOS.Proof.Room

/-!
# Allocations that cannot fail

A process with free entries in its table gets every block that it asks for while there is room in the
heap.
-/

namespace SlobOS

open CStrings

namespace Kernel

open Faulting

variable {kernel after : Kernel} {process size count rest : Nat}

structure SameDisk (kernel after : Kernel) : Prop where
  volume : after.volume = kernel.volume
  fileDescriptors : after.fileDescriptors = kernel.fileDescriptors
  sched : after.sched = kernel.sched

instance : Frame SameDisk where
  refl _ := ⟨rfl, rfl, rfl⟩
  trans h h' := ⟨h'.volume.trans h.volume, h'.fileDescriptors.trans h.fileDescriptors,
    h'.sched.trans h.sched⟩

/-- The process can be given so many blocks, and others are left then. -/
structure Supplied (kernel : Kernel) (process count rest : Nat) : Prop where
  sound : KernelSound kernel
  pages : TaskPages kernel.pages (kernel.directoryOf process)
  room : Room kernel.heap (count + rest)
  free : ∃ first, first + count ≤ slobosMaxProgramAllocations ∧ ∀ i, first ≤ i →
    i < slobosMaxProgramAllocations → ((kernel.processMemory process).allocations i).ptr = 0

theorem Supplied.writes (h : Supplied kernel process count rest) (hwrites : WritesMemory kernel after) :
    Supplied after process count rest ∧ SameDisk kernel after := by
  unfold WritesMemory at hwrites
  rw [hwrites]
  exact ⟨⟨⟨h.sound.heap, h.sound.size, h.sound.volume⟩, h.pages, h.room, h.free⟩, rfl, rfl, rfl⟩

theorem Supplied.putMemory (h : Supplied kernel process count rest) (start : Nat)
    (bytes : List UInt8) : Supplied (putMemory start bytes kernel) process count rest :=
  (h.writes (putMemory_writes start bytes kernel)).1

theorem processFindFreeAllocationIndex_le {own : ProcessMemory} {first : Nat}
    (hlt : first < slobosMaxProgramAllocations) (hfree : (own.allocations first).ptr = 0) :
    ∃ index ≤ first, processFindFreeAllocationIndex own = some index := by
  cases hindex : processFindFreeAllocationIndex own with
  | none =>
      have hnone := List.find?_eq_none.mp hindex first (List.mem_range.mpr hlt)
      exact absurd (decide_eq_true hfree) hnone
  | some index =>
      refine ⟨index, ?_, rfl⟩
      obtain ⟨-, -, hbefore⟩ := List.find?_range_eq_some.mp hindex
      by_contra hgt
      have htaken := hbefore first (Nat.not_le.mp hgt)
      rw [decide_eq_true hfree] at htaken
      cases htaken

theorem mapsAllocation_succeeds {ptr : Nat} (haligned : ptr % pagingPageSize = 0)
    (hinside : ptr < slobosHeapAddress + 0x80000000) (hsize : size ≤ slobosHeapBlockSize) :
    0 ≤ (mapsAllocation kernel process ptr size 7).1 := by
  have hpage : ptr = ptr / pagingPageSize * pagingPageSize := by
    simp only [pagingPageSize] at *
    omega
  have hbound : ptr + size < addressSpace := by
    simp only [slobosHeapAddress, slobosHeapBlockSize, addressSpace] at *
    omega
  have hlt : ptr / pagingPageSize < pageCount := by
    simp only [pagingPageSize, pageCount, slobosHeapAddress] at *
    omega
  have hle : ptr / pagingPageSize ≤ stopPage (ptr + size) := by
    simp only [stopPage, pagingPageSize, pageCount, slobosHeapAddress, slobosHeapBlockSize] at *
    omega
  rw [mapsAllocation, toUint32, Nat.mod_eq_of_lt hbound, pagingAlignAddress_eq hbound]
  obtain ⟨pages', hmap, -⟩ := @pagingMapTo_maps kernel.pages (kernel.directoryOf process)
    (ptr / pagingPageSize) (ptr / pagingPageSize) (stopPage (ptr + size)) 7 hlt hlt (stopPage_lt _) hle
  rw [← hpage] at hmap
  exact Int.le_of_eq (congrArg Prod.fst hmap).symm

theorem Supplied.granted (h : Supplied kernel process (count + 1) rest) (hpos : 0 < size)
    (hsize : size ≤ slobosHeapBlockSize) :
    Secure .panic (granted processMalloc process size) kernel fun ptr given => ptr ≠ 0 ∧
      Supplied given process count rest ∧ SameDisk kernel given := by
  obtain ⟨first, hcount, hfree⟩ := h.free
  have hroom := h.room
  rw [show count + 1 + rest = count + rest + 1 by omega] at hroom
  obtain ⟨ptr, alloc, halloc, hne, hroom'⟩ := kzalloc_block hroom hpos hsize
  have htakes := (ends_kzalloc halloc).2.2.1
  have hmemory := congrArg Kernel.processMemory htakes
  have hvolume := congrArg Kernel.volume htakes
  have hempty : ((alloc.processMemory process).allocations first).ptr = 0 := by
    rw [hmemory]
    exact hfree first (Nat.le_refl _) (by omega)
  obtain ⟨index, hindex, hfound⟩ := processFindFreeAllocationIndex_le (by omega) hempty
  have hmalloc := processMalloc_granted halloc hne hfound
    (mapsAllocation_succeeds (kzalloc_aligned h.sound.heap halloc)
      (kzalloc_inside h.sound.heap halloc) hsize)
  have hserved := processMalloc_serves h.sound h.pages hpos hsize hmalloc hne
  have hends : Ends (Kernel.granted processMalloc process size) kernel ptr _ :=
    ends_bind.mpr ⟨ptr, _, hmalloc, by rw [if_neg hne]; exact ends_pure.mpr ⟨rfl, rfl⟩⟩
  refine .of_ends hends ⟨hne, ⟨hserved.sound, hserved.continues.taskPages h.pages, hroom', first + 1,
    by omega, fun i hge hlt => ?_⟩, hvolume, htakes.fileDescriptors, hserved.sched⟩
  simp only [setAllocations, setProcessMemory, if_true, grantedAllocations]
  rw [if_neg (by omega), hmemory]
  exact hfree i (by omega) hlt

section Commands

variable {program : ProgramMemory} {str : List UInt8}

theorem callStrtok_secure (program : ProgramMemory) (str : Nat) :
    Secure .panic (callStrtok program str) kernel fun result after =>
      after = kernel ∧ strtok program str [space] = some result := by
  rw [callStrtok]
  cases strtok program str [space] with
  | none => exact .throw fun heq => by cases heq
  | some result => exact .pure ⟨rfl, rfl⟩

theorem storeBytes_secure (process start : Nat) (bytes : List UInt8) :
    Secure .panic (storeBytes process start bytes) kernel fun _ after => WritesMemory kernel after := by
  induction bytes generalizing kernel start with
  | nil => exact .pure (Frame.refl _)
  | cons byte bytes ih =>
      refine .get_bind ?_
      split
      case isTrue =>
        exact .modify_bind ((ih _).mono fun _ _ hwrites =>
          Frame.trans (putMemory_writes _ _ _) hwrites)
      case isFalse => exact .throw fun heq => by cases heq

theorem storeArgument_secure (process command token : Nat) (program : ProgramMemory) :
    Secure .panic (storeArgument process command token program) kernel fun _ after =>
      WritesMemory kernel after :=
  (storeBytes_secure process _ _).bind fun _ _ hfirst =>
    (storeBytes_secure process _ _).mono fun _ _ hsecond => Frame.trans hfirst hsecond

theorem slobosParseTokens_secure {left current : Nat}
    (h : Supplied kernel process (Splits.components space str).length rest)
    (hline : LineLeft program 0 str) :
    Secure .panic (slobosParseTokens (granted processMalloc) process left current program) kernel
      fun _ after => Supplied after process 0 rest ∧ SameDisk kernel after := by
  induction left generalizing kernel current program str with
  | zero => exact .throw fun heq => by cases heq
  | succ left ih =>
      obtain ⟨result, hstrtok, houtcome⟩ := hline.strtok
      refine (callStrtok_secure program 0).bind fun result' middle hcall => ?_
      obtain ⟨rfl, hcalled⟩ := hcall
      obtain rfl := Option.some.inj (hstrtok.symm.trans hcalled)
      cases houtcome with
      | none hnil =>
          rw [hnil] at h
          exact .pure ⟨h, Frame.refl _⟩
      | @some word rest' token program' hcons _ htoken _ hline' =>
          rw [hcons] at h
          change Secure Fault.panic (if token = 0 then _ else _) _ _
          rw [if_neg htoken]
          refine (h.granted (by decide) (by decide)).bind fun ptr given hgiven => ?_
          obtain ⟨hne, hsupplied, hdisk⟩ := hgiven
          rw [if_neg hne]
          refine (storeArgument_secure process _ _ _).bind fun _ stored hstored => ?_
          obtain ⟨hsupplied', hdisk'⟩ := hsupplied.writes hstored
          refine (storeBytes_secure process _ _).bind fun _ linked hlinked => ?_
          obtain ⟨hsupplied'', hdisk''⟩ := hsupplied'.writes hlinked
          exact (ih hsupplied'' hline').mono fun _ _ hlast =>
            ⟨hlast.1, Frame.trans hdisk (Frame.trans hdisk' (Frame.trans hdisk'' hlast.2))⟩

theorem slobosParseCommand_secure {scommand command max : Nat} {line : List UInt8}
    (h : Supplied kernel process (Splits.components space line).length rest) (hsp : program.sp = 0)
    (hscommand : scommand ≠ 0) (hmax : max < scommandSize)
    (hcommand : StringAt program.bytes command line) (hlength : line.length < scommandSize) :
    Secure .panic (slobosParseCommand (granted processMalloc) process scommand command max program)
      kernel fun _ after => Supplied after process 0 rest ∧ SameDisk kernel after := by
  have hline := scommand_lineLeft hsp hscommand hcommand hlength
  obtain ⟨result, hstrtok, houtcome⟩ := hline.strtok
  rw [slobosParseCommand, if_neg (Nat.not_le.mpr hmax)]
  refine (callStrtok_secure _ scommand).bind fun result' middle hcall => ?_
  obtain ⟨rfl, hcalled⟩ := hcall
  obtain rfl := Option.some.inj (hstrtok.symm.trans hcalled)
  cases houtcome with
  | none hnil =>
      rw [hnil] at h
      exact .pure ⟨h, Frame.refl _⟩
  | @some word rest' token program' hcons _ htoken _ hline' =>
      rw [hcons] at h
      change Secure Fault.panic (if token = 0 then _ else _) _ _
      rw [if_neg htoken]
      refine (h.granted (by decide) (by decide)).bind fun root given hgiven => ?_
      obtain ⟨hne, hsupplied, hdisk⟩ := hgiven
      rw [if_neg hne]
      refine (storeArgument_secure process _ _ _).bind fun _ stored hstored => ?_
      obtain ⟨hsupplied', hdisk'⟩ := hsupplied.writes hstored
      refine (slobosParseTokens_secure hsupplied' hline').bind fun _ parsed hparsed => ?_
      exact .pure ⟨hparsed.1, Frame.trans hdisk (Frame.trans hdisk' hparsed.2)⟩

end Commands

section Copies

variable {base : Kernel} {argv current i : Nat} {texts : List (List UInt8)}

theorem processInjectLoop_secure {left : Nat} (h : Supplied kernel process texts.length rest)
    (hlist : ArgumentList base current texts) (hbase : Preserves base kernel)
    (hargv : OwnBlock kernel process argv) (hfresh : Fresh base argv)
    (hroom : 4 * (i + texts.length) ≤ slobosHeapBlockSize) :
    Secure .panic (processInjectLoop (granted processMalloc) process argv left current i) kernel
      fun _ after => Supplied after process 0 rest := by
  induction left generalizing kernel current texts i with
  | zero => exact .throw fun heq => by cases heq
  | succ left ih =>
      cases hlist with
      | nil => exact .pure h
      | @cons _ next text texts htext hnext hrest =>
          rw [List.length_cons] at h hroom
          have hsecure := @Supplied.granted _ _ argumentSize _ _ h (by decide) (by decide)
          obtain ⟨ptr, given, hmalloc, hgiven⟩ := injectedString_spec h.sound h.pages
            (htext.preserved (hbase.but 0 0) (Or.inr (Nat.zero_le _))) hsecure.avoids
          obtain ⟨hne, hsupplied, -⟩ := hsecure.holds hmalloc
          rw [processInjectLoop, if_neg htext.ne_null]
          refine .bind_ends hmalloc ?_
          rw [if_neg hne]
          refine .modify_bind (.modify_bind (.get_bind ?_))
          have hcopied := hsupplied.putMemory ptr
            (strncpyBytes (given.memory given.pages) current (argumentSize - 1))
          generalize putMemory ptr (strncpyBytes (given.memory given.pages) current
            (argumentSize - 1)) given = copied at hgiven hcopied
          have hbase' := hgiven.word_preserves hbase hargv hfresh
            (show 4 * i + 4 ≤ slobosHeapBlockSize by omega)
          have hcontinues : Continues process kernel (putMemory (argv + 4 * i) (wordBytes ptr) copied) :=
            Frame.trans hgiven.continues (putMemory_continues _ _ _)
          rw [htext.link hbase', hnext]
          exact ih (hcopied.putMemory _ _) hrest hbase' (hargv.continues hcontinues) (by omega)

theorem processInjectArguments_secure (h : Supplied kernel process (texts.length + 1) rest)
    (hlist : ArgumentList kernel current texts) (hroom : 4 * texts.length ≤ slobosHeapBlockSize) :
    Secure .panic (processInjectArguments (granted processMalloc) process current) kernel
      fun _ _ => True := by
  have hfuel : texts.length < addressSpace := Nat.lt_of_le_of_lt (Nat.le_mul_of_pos_left _ (by decide))
    (Nat.lt_of_le_of_lt hroom (by decide))
  have hcount := @processCountCommandArguments_eq _ _ 0 _ _ hlist hfuel kernel.pages
  rw [Nat.zero_add] at hcount
  refine .get_bind ?_
  rw [hcount]
  change Secure Fault.panic (if texts.length = 0 then _ else _) _ _
  split
  case isTrue => exact .pure trivial
  case isFalse hne =>
    have hsize : toUint32 (4 * texts.length) = 4 * texts.length :=
      Nat.mod_eq_of_lt (Nat.lt_of_le_of_lt hroom (by decide))
    rw [hsize]
    have hsecure := @Supplied.granted _ _ (4 * texts.length) _ _ h (by omega) hroom
    obtain ⟨argv, given, hmalloc, hserved⟩ :=
      granted_serves h.sound h.pages (by omega) hroom hsecure.avoids
    obtain ⟨hnonnull, hsupplied, -⟩ := hsecure.holds hmalloc
    refine .bind_ends hmalloc ?_
    rw [if_neg hnonnull]
    refine (processInjectLoop_secure hsupplied hlist hserved.takes.preserves hserved.ownBlock
      hserved.takes.fresh (by rwa [Nat.zero_add])).bind fun res after _ => ?_
    split
    case isTrue => exact .pure trivial
    case isFalse => exact .pure trivial

end Copies

end Kernel

end SlobOS
