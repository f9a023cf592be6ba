import SlobOS.MallocFailures
import SlobOS.Proof.ArgumentLists

/-!
# Commands that are cut short

A request for a page that is refused leaves everything in use as it was. The list of a command then ends
in front of the word that it was made for, and the pointer of `strtok` stays where the next word begins.
-/

namespace SlobOS

open CStrings

theorem LineLeft.sp_ne_null {program : ProgramMemory} {str : List UInt8} (h : LineLeft program 0 str) :
    program.sp ≠ 0 := by
  rw [← strtokFrom_null]
  exact h.ne_null

namespace Kernel

open Faulting

variable {kernel alloc after : Kernel} {process ptr size : Nat} {text str : List UInt8}

/-- Nothing in use has changed, and a request for a page would be refused again. -/
structure Refuses (kernel after : Kernel) (process : Nat) : Prop where
  refused : ¬HasSlot kernel process
  continues : Continues process kernel after
  preserves : Preserves kernel after
  slots : emptySlots after process = emptySlots kernel process
  none : ¬HasSlot after process

/-- What is left of a block that was taken and given back at once. -/
structure GivenBack (kernel after : Kernel) (process : Nat) : Prop where
  continues : Continues process kernel after
  preserves : Preserves kernel after
  unserved : Unserved kernel after process

theorem kzalloc_givenBack (hsound : KernelSound kernel) (halloc : Ends (kzalloc size) kernel ptr alloc)
    (hpos : 0 < size) (hsize : size ≤ slobosHeapBlockSize) (hne : ptr ≠ 0) :
    GivenBack kernel { alloc with heap := heapFree alloc.heap ptr } process := by
  have hunserved := @kzalloc_kfree _ _ process _ _ hsound.heap halloc hne
  have hmachine := kzalloc_sameMachine halloc
  have htaken := (kzalloc_takes hsound.heap halloc hpos hsize hne).1
  obtain ⟨-, hheap, htakes, -⟩ := ends_kzalloc halloc
  have hsched := congrArg Kernel.sched htakes
  have hchunks := congrArg Kernel.chunks htakes
  have hmemory := congrArg Kernel.processMemory htakes
  have htotal : (heapFree alloc.heap ptr).table.total = kernel.heap.table.total :=
    (heapFree_total _ _).trans hmachine.total
  have hfree : HeapSound (heapFree alloc.heap ptr) := by
    rw [hheap]
    exact (hsound.heap.malloc size).free ptr
  have hheld : ∀ block, Holds kernel.heap block → Holds (heapFree alloc.heap ptr) block := by
    intro block hblock
    refine ⟨hfree, htotal ▸ hblock.lt, ?_⟩
    have htakenBlock := hblock.taken
    unfold HeapTable.IsFree at htakenBlock ⊢
    rwa [hunserved.heap block hblock.lt]
  have hdirectory : ({ alloc with heap := heapFree alloc.heap ptr } : Kernel).directoryOf process =
      kernel.directoryOf process := by
    rw [directoryOf, directoryOf, ← hsched, ← hchunks]
  refine ⟨?_, fun block hblock => ⟨hheld block hblock, (htaken.preserves block hblock).2⟩, hunserved⟩
  constructor
  case sound => exact fun h => h.of_same hfree ⟨hmachine.volume, htotal⟩
  case total => exact htotal
  case held => exact hheld
  case sched => exact hsched
  case directoryOf => exact hdirectory
  case directories => exact congrArg PageTables.directories hunserved.pages
  case entry =>
    intro page _ _
    rw [hunserved.pages]
  case records =>
    rintro old count - ⟨i, hi, hrecord⟩
    refine ⟨i, hi, ?_⟩
    rw [← hrecord]
    exact congrFun hunserved.allocations i

theorem processMalloc_givenBack (hsound : KernelSound kernel) (hpos : 0 < size)
    (hsize : size ≤ slobosHeapBlockSize) (h : Ends (processMalloc process size) kernel 0 after) :
    GivenBack kernel after process := by
  have hcases := processMalloc_cases h
  generalize hptr : (0 : Nat) = ptr at hcases
  cases hcases with
  | refused halloc =>
      obtain ⟨-, rfl⟩ := (kzalloc_null hsound.heap).mp halloc
      exact ⟨Frame.refl _, Frame.refl _, rfl, rfl, fun _ _ => rfl⟩
  | full halloc hne => exact kzalloc_givenBack hsound halloc hpos hsize hne
  | @unmapped ptr alloc halloc hne hneg =>
      have hpages : (mapsAllocation alloc process ptr size 7).2 = alloc.pages := pagingMapTo_neg hneg
      rw [hpages]
      exact kzalloc_givenBack hsound halloc hpos hsize hne
  | granted _ hne => exact absurd hptr.symm hne

theorem processMalloc_refuses (hsound : KernelSound kernel) (hpos : 0 < size)
    (hsize : size ≤ slobosHeapBlockSize) (h : Ends (processMalloc process size) kernel 0 after) :
    Refuses kernel after process := by
  obtain ⟨hcontinues, hpreserves, hunserved⟩ := processMalloc_givenBack hsound hpos hsize h
  have hslots := emptySlots_congr hunserved.allocations
  have hrefused : ¬HasSlot kernel process := by
    rcases processMalloc_page hsound.heap process hpos hsize with ⟨-, ptr, given, hends, hne, -⟩ | ⟨hnone, -⟩
    · exact absurd (hends.unique h).1 hne
    · exact hnone
  refine ⟨hrefused, hcontinues, hpreserves, hslots, fun hslot => hrefused ⟨hslots ▸ hslot.1, ?_⟩⟩
  obtain ⟨blocks, hnodup, hcount, hfree⟩ := hslot.2.free
  refine ⟨hsound.heap, blocks, hnodup, hcount, fun block hblock => ?_⟩
  obtain ⟨hlt, hblock⟩ := hfree block hblock
  rw [hcontinues.total] at hlt
  refine ⟨hlt, ?_⟩
  unfold HeapTable.IsFree at hblock ⊢
  rwa [← hunserved.heap block hlt]

/-- What becomes of a word: an argument in memory that is given for it, in a slot more, or a refusal. -/
inductive NewArgument (kernel : Kernel) (process token : Nat) (program : ProgramMemory)
    (text : List UInt8) : Prop
  | given {ptr : Nat} {given after : Kernel} : HasSlot kernel process →
      Ends (processMalloc process commandArgumentSize) kernel ptr given →
      Ends (storeArgument process ptr token program) given () after →
      GivenText kernel after process ptr commandArgumentSize (text.take (argumentSize - 1)) →
      (∀ pages, SlobOS.readWord (after.memory pages) (ptr + argumentSize) = 0) →
      (emptySlots after process).card + 1 = (emptySlots kernel process).card →
      NewArgument kernel process token program text
  | refused {after : Kernel} : Ends (processMalloc process commandArgumentSize) kernel 0 after →
      Refuses kernel after process → NewArgument kernel process token program text

theorem WritesMemory.emptySlots (h : WritesMemory kernel after) (process : Nat) :
    emptySlots after process = emptySlots kernel process := by
  unfold WritesMemory at h
  rw [h]
  rfl

theorem newArgument_cases {program : ProgramMemory} {token : Nat} (hsound : KernelSound kernel)
    (hpages : TaskPages kernel.pages (kernel.directoryOf process))
    (htoken : StringAt program.bytes token text) : NewArgument kernel process token program text := by
  rcases processMalloc_page hsound.heap process (show 0 < commandArgumentSize by decide) (by decide) with
    ⟨hslot, ptr, given, hmalloc, hne, htakes⟩ | ⟨-, after, hmalloc⟩
  · have hgranted : Ends (granted processMalloc process commandArgumentSize) kernel ptr given := by
      refine ends_bind.mpr ⟨ptr, given, hmalloc, ?_⟩
      rw [if_neg hne]
      exact ends_pure.mpr ⟨rfl, rfl⟩
    have havoids : Avoids .panic (granted processMalloc process commandArgumentSize) kernel := by
      intro hpanic
      rw [hgranted] at hpanic
      cases hpanic
    obtain ⟨ptr', given', after, hgranted', hstore, htext, hnull⟩ :=
      newArgument_spec hsound hpages htoken havoids
    obtain ⟨rfl, rfl⟩ := hgranted.unique hgranted'
    obtain ⟨index, hrecords⟩ := htakes.recorded
    refine .given hslot hmalloc hstore htext hnull ?_
    rw [((storeArgument_secure process ptr token program).holds hstore).emptySlots]
    exact hrecords.card
  · exact .refused hmalloc (processMalloc_refuses hsound (by decide) (by decide) hmalloc)

/-- The words that got an argument are the first ones. Either they are all, and `strtok` keeps no
pointer, or the next one was refused, and it keeps one. -/
structure CutShort (kernel after : Kernel) (process count words : Nat) (program : ProgramMemory) :
    Prop where
  le : count ≤ words
  slots : (emptySlots after process).card + count = (emptySlots kernel process).card
  ends : (count = words ∧ program.sp = 0) ∨
    (count < words ∧ program.sp ≠ 0 ∧ ¬HasSlot after process)

theorem CutShort.succ {middle : Kernel} {program : ProgramMemory} {count words : Nat}
    (h : CutShort middle after process count words program)
    (hcard : (emptySlots middle process).card + 1 = (emptySlots kernel process).card) :
    CutShort kernel after process (count + 1) (words + 1) program := by
  have hslots := h.slots
  refine ⟨Nat.succ_le_succ h.le, by omega, ?_⟩
  rcases h.ends with ⟨hall, hsp⟩ | ⟨hlt, hrest⟩
  · exact Or.inl ⟨congrArg (· + 1) hall, hsp⟩
  · exact Or.inr ⟨Nat.succ_lt_succ hlt, hrest⟩

theorem slobosParseTokens_cases {left current : Nat} {program : ProgramMemory}
    (hend : ListEnd kernel process current) (hline : LineLeft program 0 str) (hleft : str.length < left) :
    ∃ count program' after,
      Ends (slobosParseTokens processMalloc process left current program) kernel program' after ∧
      CutShort kernel after process count (Splits.components space str).length program' ∧
      Linked kernel after process current
        (((Splits.components space str).take count).map (List.take (argumentSize - 1))) := by
  induction left generalizing kernel current program str with
  | zero => omega
  | succ left ih =>
      obtain ⟨result, hstrtok, houtcome⟩ := hline.strtok
      have hcall := @callStrtok_ends kernel _ _ _ hstrtok
      cases houtcome with
      | none hnil =>
          refine ⟨0, { program with sp := 0 }, kernel, slobosParseTokens_done hcall, ?_, ?_⟩
          · rw [hnil]
            exact ⟨Nat.le_refl 0, Nat.add_zero _, Or.inl ⟨rfl, rfl⟩⟩
          · exact ⟨Frame.refl _, Frame.refl _, 0, .nil, hend.next⟩
      | @some word rest token program' hcons hlt htoken hword hline' =>
          rw [hcons, List.length_cons]
          cases newArgument_cases hend.sound hend.pages hword with
          | @refused after hmalloc hrefuses =>
              obtain ⟨block, hblockAddress, hblock⟩ := hend.own.held
              subst hblockAddress
              have hkept := (hrefuses.preserves.but 0 0).readWord hblock (show argumentSize + 4 ≤ _ by decide)
                (Or.inr (Nat.zero_le _))
              refine ⟨0, program', after, slobosParseTokens_refused hcall htoken hmalloc, ?_, ?_⟩
              · refine ⟨Nat.zero_le _, by rw [hrefuses.slots, Nat.add_zero], Or.inr ?_⟩
                exact ⟨Nat.succ_pos _, hline'.sp_ne_null, hrefuses.none⟩
              · refine ⟨hrefuses.continues, hrefuses.preserves.but _ _, 0, .nil, fun pages => ?_⟩
                rw [hkept, hend.next]
          | @given ptr given stored _ hmalloc hstore hgiven hnull hcard =>
              obtain ⟨hlink, hend'⟩ := hend.link hgiven hnull
              obtain ⟨count, last, after, hends, hcut, hlinked⟩ := ih hend' hline' (by omega)
              refine ⟨count + 1, last, after, slobosParseTokens_next hcall htoken hmalloc hgiven.ne_null
                hstore hlink hends, ?_, ?_⟩
              · apply hcut.succ
                rw [(putMemory_writes _ _ stored).emptySlots]
                exact hcard
              · exact Linked.cons hend.own hgiven hlinked

/-- The list holds the words that got an argument. There is none if there is no slot for the first
word. -/
structure CommandCut (kernel after : Kernel) (process root count : Nat) (words : List (List UInt8))
    (program : ProgramMemory) : Prop where
  first : words ≠ [] → (count = 0 ↔ ¬HasSlot kernel process)
  cut : CutShort kernel after process count words.length program
  continues : Continues process kernel after
  list : ArgumentList after root ((words.take count).map (List.take (argumentSize - 1)))

theorem slobosParseCommand_cases {program : ProgramMemory} {scommand command max : Nat}
    (hsound : KernelSound kernel) (hpages : TaskPages kernel.pages (kernel.directoryOf process))
    (hmax : max < scommandSize)
    (hline : LineLeft
      { program with bytes := strncpy program.bytes scommand command scommandSize } scommand str) :
    ∃ count root program' after,
      Ends (slobosParseCommand processMalloc process scommand command max program) kernel
        (root, program') after ∧
      CommandCut kernel after process root count (Splits.components space str) program' := by
  obtain ⟨result, hstrtok, houtcome⟩ := hline.strtok
  have hcall := @callStrtok_ends kernel _ _ _ hstrtok
  cases houtcome with
  | none hnil =>
      refine ⟨0, 0, ⟨strncpy program.bytes scommand command scommandSize, 0⟩, kernel, ?_, ?_⟩
      · rw [slobosParseCommand, if_neg (Nat.not_le.mpr hmax)]
        exact ends_bind.mpr ⟨_, kernel, hcall, ends_pure.mpr ⟨rfl, rfl⟩⟩
      · rw [hnil]
        exact ⟨fun hne => absurd rfl hne, ⟨Nat.le_refl 0, Nat.add_zero _, Or.inl ⟨rfl, rfl⟩⟩,
          Frame.refl _, .nil⟩
  | @some word rest token program' hcons hlt htoken hword hline' =>
      rw [hcons]
      cases newArgument_cases hsound hpages hword with
      | @refused after hmalloc hrefuses =>
          refine ⟨0, 0, program', after, slobosParseCommand_refused hmax hcall htoken hmalloc,
            fun _ => iff_of_true rfl hrefuses.refused,
            ⟨Nat.zero_le _, by rw [hrefuses.slots, Nat.add_zero], Or.inr ?_⟩, hrefuses.continues, .nil⟩
          exact ⟨Nat.succ_pos _, hline'.sp_ne_null, hrefuses.none⟩
      | @given root given stored hslot hmalloc hstore hgiven hnull hcard =>
          obtain ⟨count, last, after, hends, hcut, hlinked⟩ :=
            slobosParseTokens_cases (hgiven.listEnd hpages hnull) hline' hline'.length
          obtain ⟨next, hlist, hnext⟩ := hlinked.list
          refine ⟨count + 1, root, last, after, slobosParseCommand_first hmax hcall htoken hmalloc
            hgiven.ne_null hstore hends, fun _ => iff_of_false (Nat.succ_ne_zero _) fun hnone => hnone hslot,
            hcut.succ hcard, Frame.trans hgiven.continues hlinked.continues, ?_⟩
          exact .cons (hgiven.holdsText.preserved hlinked.preserves (Or.inl (Nat.le_refl _))) hnext hlist

end Kernel

end SlobOS
