import SlobOS.Proof.TaskPages

/-!
# The list of arguments

A program builds the list in memory that it gets from the kernel, one page for each argument. The list
is there for the kernel after any steps that spare the blocks in use.
-/

namespace SlobOS

open CStrings

section Words

variable {memory memory' : Nat → UInt8} {address word : Nat}

theorem readWord_eq (hlt : address + 3 < addressSpace) : readWord memory address =
    (memory address).toNat + 256 * (memory (address + 1)).toNat +
      65536 * ((memory (address + 2)).toNat + 256 * (memory (address + 3)).toNat) := by
  have hplace : ∀ i < 4, toUint32 (address + i) = address + i := fun i hi =>
    Nat.mod_eq_of_lt (by omega)
  have hzero := hplace 0 (by decide)
  rw [Nat.add_zero] at hzero
  simp only [readWord, readHalf, Nat.add_assoc, hzero, hplace 1 (by decide), hplace 2 (by decide),
    hplace 3 (by decide)]

theorem readWord_short (hlt : address + 3 < addressSpace) (hzero : memory (address + 3) = 0) :
    readWord memory address < 0x1000000 := by
  have hbytes := fun i => (memory (address + i)).toNat_lt
  have hfirst := hbytes 0
  have hsecond := hbytes 1
  have hthird := hbytes 2
  rw [readWord_eq hlt, hzero, UInt8.toNat_zero]
  rw [Nat.add_zero] at hfirst
  omega

theorem readWord_congr (hlt : address + 3 < addressSpace)
    (hsame : ∀ i < 4, memory' (address + i) = memory (address + i)) :
    readWord memory' address = readWord memory address := by
  have hzero := hsame 0 (by decide)
  rw [Nat.add_zero] at hzero
  rw [readWord_eq hlt, readWord_eq hlt, hzero, hsame 1 (by decide), hsame 2 (by decide),
    hsame 3 (by decide)]

theorem wordBytes_length : (Kernel.wordBytes word).length = 4 := by
  rw [Kernel.wordBytes, List.length_map, List.length_range]

theorem readWord_of_bytes (hword : word < addressSpace) (hlt : address + 3 < addressSpace)
    (hbytes : ∀ i < 4, memory (address + i) = UInt8.ofNat (word >>> (8 * i))) :
    readWord memory address = word := by
  have hbyte : ∀ i < 4, (memory (address + i)).toNat = (word >>> (8 * i)) % 256 := by
    intro i hi
    rw [hbytes i hi]
    exact UInt8.toNat_ofNat'
  have hzero := hbyte 0 (by decide)
  rw [Nat.add_zero] at hzero
  rw [readWord_eq hlt, hzero, hbyte 1 (by decide), hbyte 2 (by decide), hbyte 3 (by decide)]
  simp only [Nat.shiftRight_eq_div_pow, addressSpace] at *
  omega

theorem readWord_putBytes (hword : word < addressSpace) (hlt : address + 3 < addressSpace) :
    readWord (putBytes memory address (Kernel.wordBytes word)) address = word := by
  refine readWord_of_bytes hword hlt fun i hi => ?_
  rw [putBytes_of_lt (by rw [wordBytes_length]; exact hi), Kernel.wordBytes,
    List.getD_eq_getElem?_getD, List.getElem?_map, List.getElem?_range hi]
  rfl

end Words

theorem Holds.below {heap : Heap} {block : Nat} (h : Holds heap block) :
    slobosHeapAddress + block * slobosHeapBlockSize + slobosHeapBlockSize < addressSpace := by
  have hpool := h.pool
  have hlt := h.lt
  simp only [slobosHeapAddress, slobosHeapBlockSize, addressSpace] at *
  omega

namespace Kernel

open Faulting

variable {kernel middle after : Kernel} {process ptr start place count size block : Nat}
  {text bytes : List UInt8} {texts : List (List UInt8)}

/-- The blocks in use stay in use, and what stands in them stays as it is, but for some bytes at one
place. -/
def PreservesBut (place count : Nat) (kernel after : Kernel) : Prop :=
  ∀ block, Holds kernel.heap block → Holds after.heap block ∧
    ∀ pages, ∀ i < slobosHeapBlockSize,
      ¬(place ≤ slobosHeapAddress + block * slobosHeapBlockSize + i ∧
        slobosHeapAddress + block * slobosHeapBlockSize + i < place + count) →
      after.memory pages (slobosHeapAddress + block * slobosHeapBlockSize + i) =
        kernel.memory pages (slobosHeapAddress + block * slobosHeapBlockSize + i)

instance : Frame (PreservesBut place count) where
  refl _ _ h := ⟨h, fun _ _ _ _ => rfl⟩
  trans h h' block hblock := by
    obtain ⟨hmiddle, hbytes⟩ := h block hblock
    obtain ⟨hlast, hbytes'⟩ := h' block hmiddle
    exact ⟨hlast, fun pages i hi hout => (hbytes' pages i hi hout).trans (hbytes pages i hi hout)⟩

theorem Preserves.but (h : Preserves kernel after) (place count : Nat) :
    PreservesBut place count kernel after := by
  intro block hblock
  obtain ⟨hheld, hbytes⟩ := h block hblock
  exact ⟨hheld, fun pages i hi _ => hbytes pages i hi⟩

theorem PreservesBut.mono {place' count' : Nat} (h : PreservesBut place count kernel after)
    (hge : place' ≤ place) (hle : place + count ≤ place' + count') :
    PreservesBut place' count' kernel after := by
  intro block hblock
  obtain ⟨hheld, hbytes⟩ := h block hblock
  exact ⟨hheld, fun pages i hi hout => hbytes pages i hi (by omega)⟩

theorem putMemory_preservesBut (start : Nat) (bytes : List UInt8) (kernel : Kernel) :
    PreservesBut start bytes.length kernel (putMemory start bytes kernel) :=
  fun _ hblock => ⟨hblock, fun _ _ _ hout => putBytes_of_not_mem hout⟩

theorem putMemory_writes (start : Nat) (bytes : List UInt8) (kernel : Kernel) :
    WritesMemory kernel (putMemory start bytes kernel) := rfl

theorem Takes.preserves_of_but (h : Takes kernel middle ptr) (hbut : PreservesBut place count middle after)
    (hge : ptr ≤ place) (hle : place + count ≤ ptr + slobosHeapBlockSize) : Preserves kernel after := by
  obtain ⟨new, rfl, hnew, hfree⟩ := h.taken
  intro block hblock
  obtain ⟨hmiddle, hbytes⟩ := h.preserves block hblock
  obtain ⟨hheld, hbytes'⟩ := hbut block hmiddle
  refine ⟨hheld, fun pages i hi => (hbytes' pages i hi ?_).trans (hbytes pages i hi)⟩
  have hne : block ≠ new := fun heq => hfree (heq ▸ hblock)
  simp only [slobosHeapBlockSize] at *
  omega

theorem Takes.putMemory (h : Takes kernel after ptr) (hge : ptr ≤ start)
    (hle : start + bytes.length ≤ ptr + slobosHeapBlockSize) :
    Takes kernel (putMemory start bytes after) ptr :=
  ⟨h.preserves_of_but (putMemory_preservesBut start bytes after) hge hle, h.taken⟩

theorem PageGiven.putMemory (h : PageGiven kernel after process ptr size) (hge : ptr ≤ start)
    (hle : start + bytes.length ≤ ptr + slobosHeapBlockSize) :
    PageGiven kernel (putMemory start bytes after) process ptr size :=
  { sound := (@putMemory_continues process start bytes after).sound h.sound
    total := h.total
    takes := h.takes.putMemory hge hle
    sched := h.sched
    directoryOf := h.directoryOf
    directories := h.directories
    own := h.own
    entry := h.entry
    recorded := h.recorded
    records := h.records }

structure HoldsText (kernel : Kernel) (ptr : Nat) (text : List UInt8) : Prop where
  held : ∃ block, ptr = slobosHeapAddress + block * slobosHeapBlockSize ∧ Holds kernel.heap block
  length : text.length < argumentSize
  text : ∀ pages, StringAt (kernel.memory pages) ptr text

theorem HoldsText.ne_null (h : HoldsText kernel ptr text) : ptr ≠ 0 := by
  obtain ⟨block, rfl, -⟩ := h.held
  simp only [slobosHeapAddress]
  omega

theorem HoldsText.preserved (h : HoldsText kernel ptr text)
    (hbut : PreservesBut place count kernel after)
    (hout : ptr + argumentSize ≤ place ∨ place + count ≤ ptr) : HoldsText after ptr text := by
  obtain ⟨block, rfl, hblock⟩ := h.held
  obtain ⟨hheld, hbytes⟩ := hbut block hblock
  have hlength := h.length
  refine ⟨⟨block, rfl, hheld⟩, hlength, fun pages => (h.text pages).congr fun address hge hle => ?_⟩
  have hplace := hbytes pages (address - (slobosHeapAddress + block * slobosHeapBlockSize))
  rw [Nat.add_sub_cancel' hge] at hplace
  apply hplace
  · simp only [argumentSize, slobosHeapBlockSize] at *
    omega
  · omega

theorem PreservesBut.readWord (hbut : PreservesBut place count kernel after)
    (hblock : Holds kernel.heap block) {offset : Nat} (hoffset : offset + 4 ≤ slobosHeapBlockSize)
    (hout : slobosHeapAddress + block * slobosHeapBlockSize + offset + 4 ≤ place ∨
      place + count ≤ slobosHeapAddress + block * slobosHeapBlockSize + offset) (pages : PageTables) :
    readWord (after.memory pages) (slobosHeapAddress + block * slobosHeapBlockSize + offset) =
      readWord (kernel.memory pages) (slobosHeapAddress + block * slobosHeapBlockSize + offset) := by
  have hbelow := hblock.below
  apply readWord_congr (by omega)
  intro i hi
  rw [Nat.add_assoc _ offset i]
  apply (hbut block hblock).2 pages (offset + i) (by omega)
  omega

inductive ArgumentList (kernel : Kernel) : Nat → List (List UInt8) → Prop
  | nil : ArgumentList kernel 0 []
  | cons {current next : Nat} {text : List UInt8} {texts : List (List UInt8)} :
      HoldsText kernel current text →
      (∀ pages, SlobOS.readWord (kernel.memory pages) (current + argumentSize) = next) →
      ArgumentList kernel next texts → ArgumentList kernel current (text :: texts)

theorem HoldsText.link (h : HoldsText kernel ptr text) (hpreserves : Preserves kernel after)
    (pages : PageTables) : SlobOS.readWord (after.memory pages) (ptr + argumentSize) =
      SlobOS.readWord (kernel.memory pages) (ptr + argumentSize) := by
  obtain ⟨block, rfl, hblock⟩ := h.held
  exact (hpreserves.but 0 0).readWord hblock (by decide) (Or.inr (Nat.zero_le _)) pages

theorem ArgumentList.preserved {first : Nat} (h : ArgumentList kernel first texts)
    (hpreserves : Preserves kernel after) : ArgumentList after first texts := by
  induction h with
  | nil => exact .nil
  | cons htext hnext _ ih =>
      refine .cons (htext.preserved (hpreserves.but 0 0) (Or.inr (Nat.zero_le _))) (fun pages => ?_) ih
      rw [htext.link hpreserves, hnext]

structure GivenText (kernel after : Kernel) (process ptr size : Nat) (text : List UInt8) : Prop
    extends PageGiven kernel after process ptr size where
  length : text.length < argumentSize
  text : ∀ pages, StringAt (after.memory pages) ptr text

theorem GivenText.holdsText (h : GivenText kernel after process ptr size text) :
    HoldsText after ptr text := by
  obtain ⟨block, hptr, hheld, -⟩ := h.takes.taken
  exact ⟨⟨block, hptr, hheld⟩, h.length, h.text⟩

theorem PageGiven.ownPages (h : PageGiven kernel after process ptr size) {i : Nat}
    (hi : i < slobosHeapBlockSize) :
    OwnPage after.pages (after.directoryOf process) ((ptr + i) / pagingPageSize) := by
  obtain ⟨block, rfl, -, -⟩ := h.takes.taken
  have hown := h.own
  have hzero := page_of_block block (show 0 < slobosHeapBlockSize by decide)
  rw [Nat.add_zero] at hzero
  rwa [h.directoryOf, page_of_block block hi, ← hzero]

theorem newArgument_spec {program : ProgramMemory} {token : Nat} (hsound : KernelSound kernel)
    (hpages : TaskPages kernel.pages (kernel.directoryOf process))
    (htoken : StringAt program.bytes token text)
    (havoids : Avoids .panic (granted processMalloc process commandArgumentSize) kernel) :
    ∃ ptr given after, Ends (granted processMalloc process commandArgumentSize) kernel ptr given ∧
      Ends (storeArgument process ptr token program) given () after ∧
      GivenText kernel after process ptr commandArgumentSize (text.take (argumentSize - 1)) ∧
      ∀ pages, SlobOS.readWord (after.memory pages) (ptr + argumentSize) = 0 := by
  obtain ⟨ptr, given, hmalloc, hserved⟩ := granted_serves hsound hpages (by decide) (by decide) havoids
  have hbytes := @strncpyBytes_eq _ _ (argumentSize - 1) _ htoken
  have hlength : (text.take (argumentSize - 1)).length < argumentSize := by
    rw [List.length_take, argumentSize]
    omega
  have hzero : 0 ∉ text.take (argumentSize - 1) :=
    fun hmem => htoken.zero_not_mem (List.mem_of_mem_take hmem)
  generalize text.take (argumentSize - 1) = stored at hbytes hlength hzero ⊢
  have hstored : (stored ++ [0]).length ≤ argumentSize := by
    rw [List.length_append, List.length_singleton]
    omega
  obtain ⟨block, hptr, hheld, -⟩ := hserved.takes.taken
  have hbelow := hheld.below
  have hfirst := @storeBytes_ends given process ptr (stored ++ [0]) fun i hi =>
    hserved.ownPages (Nat.lt_of_lt_of_le (Nat.lt_of_lt_of_le hi hstored) (by decide))
  have hserved' : PageGiven kernel (putMemory ptr (stored ++ [0]) given) process ptr
      commandArgumentSize := by
    refine hserved.putMemory (Nat.le_refl _) (Nat.add_le_add_left ?_ ptr)
    exact Nat.le_trans hstored (by decide)
  have hsecond := @storeBytes_ends _ process (ptr + argumentSize) (wordBytes 0) fun i hi => by
    rw [wordBytes_length] at hi
    have hown := hserved'.ownPages (show argumentSize + i < slobosHeapBlockSize by
      simp only [argumentSize, slobosHeapBlockSize]; omega)
    rwa [← Nat.add_assoc] at hown
  have hstore : Ends (storeArgument process ptr token program) given ()
      (putMemory (ptr + argumentSize) (wordBytes 0) (putMemory ptr (stored ++ [0]) given)) := by
    rw [storeArgument, hbytes]
    exact ends_bind.mpr ⟨(), _, hfirst, hsecond⟩
  refine ⟨ptr, given, _, hmalloc, hstore, ⟨?_, hlength, fun pages => ?_⟩, fun pages => ?_⟩
  · refine hserved'.putMemory (Nat.le_add_right _ _) ?_
    rw [wordBytes_length]
    simp only [argumentSize, slobosHeapBlockSize]
    omega
  · refine (stringAt_putBytes hzero).congr fun address _ hle => putBytes_of_not_mem ?_
    omega
  · refine readWord_putBytes (by decide) ?_
    simp only [argumentSize, slobosHeapBlockSize] at *
    omega

/-! ### The loop over the tokens -/

structure OwnBlock (kernel : Kernel) (process ptr : Nat) : Prop where
  held : ∃ block, ptr = slobosHeapAddress + block * slobosHeapBlockSize ∧ Holds kernel.heap block
  own : ∀ i < slobosHeapBlockSize,
    OwnPage kernel.pages (kernel.directoryOf process) ((ptr + i) / pagingPageSize)

theorem PageGiven.ownBlock (h : PageGiven kernel after process ptr size) : OwnBlock after process ptr := by
  obtain ⟨block, hptr, hheld, -⟩ := h.takes.taken
  exact ⟨⟨block, hptr, hheld⟩, fun i hi => h.ownPages hi⟩

theorem OwnBlock.continues (h : OwnBlock kernel process ptr) (hcontinues : Continues process kernel after) :
    OwnBlock after process ptr := by
  obtain ⟨block, rfl, hblock⟩ := h.held
  have hbelow := hblock.below
  refine ⟨⟨block, rfl, hcontinues.held block hblock⟩, fun i hi => ?_⟩
  refine hcontinues.ownPage (h.own i hi) ?_ (Or.inr ⟨block, hblock, page_of_block block hi⟩)
  simp only [addressSpace] at hbelow
  simp only [pagingPageSize, pageCount]
  omega

structure Linked (kernel after : Kernel) (process current : Nat) (texts : List (List UInt8)) :
    Prop where
  continues : Continues process kernel after
  preserves : PreservesBut (current + argumentSize) 4 kernel after
  list : ∃ next, ArgumentList after next texts ∧
    ∀ pages, SlobOS.readWord (after.memory pages) (current + argumentSize) = next

theorem callStrtok_ends {program : ProgramMemory} {str : Nat} {result : Nat × ProgramMemory}
    (h : strtok program str [space] = some result) :
    Ends (callStrtok program str) kernel result kernel := by
  rw [callStrtok, h]
  exact ends_pure.mpr ⟨rfl, rfl⟩

theorem OwnBlock.apart {current : Nat} (h : OwnBlock kernel process current)
    (htakes : Takes kernel middle ptr) :
    current + slobosHeapBlockSize ≤ ptr ∨ ptr + slobosHeapBlockSize ≤ current := by
  obtain ⟨block, rfl, hblock⟩ := h.held
  obtain ⟨new, rfl, hnew, hfree⟩ := htakes.taken
  have hne : block ≠ new := fun heq => hfree (heq ▸ hblock)
  simp only [slobosHeapBlockSize]
  omega

theorem Linked.cons {current : Nat} {given : Kernel} (hcurrent : OwnBlock kernel process current)
    (hgiven : GivenText kernel given process ptr size text)
    (hlinked : Linked (putMemory (current + argumentSize) (wordBytes ptr) given) after process ptr texts) :
    Linked kernel after process current (text :: texts) := by
  have hput := putMemory_preservesBut (current + argumentSize) (wordBytes ptr) given
  rw [wordBytes_length] at hput
  have hapart := hcurrent.apart hgiven.takes
  obtain ⟨block, rfl, hblock⟩ := hcurrent.held
  have hstored := (hput block (hgiven.takes.preserves block hblock).1).1
  obtain ⟨next, hlist, hnext⟩ := hlinked.list
  constructor
  case continues =>
    exact Frame.trans hgiven.continues (Frame.trans (putMemory_continues _ _ _) hlinked.continues)
  case preserves =>
    intro other hother
    obtain ⟨hgot, hbytes⟩ := hgiven.takes.preserves other hother
    obtain ⟨hput', hbytes'⟩ := hput other hgot
    obtain ⟨hlast, hbytes''⟩ := hlinked.preserves other hput'
    obtain ⟨new, rfl, hnew, hfree⟩ := hgiven.takes.taken
    have hne : other ≠ new := fun heq => hfree (heq ▸ hother)
    refine ⟨hlast, fun pages i hi hout =>
      (hbytes'' pages i hi ?_).trans ((hbytes' pages i hi hout).trans (hbytes pages i hi))⟩
    simp only [argumentSize, slobosHeapBlockSize] at hi ⊢
    omega
  case list =>
    refine ⟨ptr, .cons ?_ hnext hlist, fun pages => ?_⟩
    · refine (hgiven.holdsText.preserved hput ?_).preserved hlinked.preserves (Or.inl (Nat.le_refl _))
      simp only [argumentSize, slobosHeapBlockSize] at hapart ⊢
      omega
    · rw [hlinked.preserves.readWord hstored (by decide)]
      · have hbelow := hblock.below
        obtain ⟨new, rfl, hnew, -⟩ := hgiven.takes.taken
        have hbelow' := hnew.below
        refine readWord_putBytes (by omega) ?_
        simp only [argumentSize, slobosHeapBlockSize] at hbelow ⊢
        omega
      · simp only [argumentSize, slobosHeapBlockSize] at hapart ⊢
        omega

/-- The invariant of the loop: the list ends with the current argument. -/
structure ListEnd (kernel : Kernel) (process current : Nat) : Prop where
  sound : KernelSound kernel
  pages : TaskPages kernel.pages (kernel.directoryOf process)
  own : OwnBlock kernel process current
  next : ∀ pages, SlobOS.readWord (kernel.memory pages) (current + argumentSize) = 0

theorem GivenText.listEnd (h : GivenText kernel after process ptr size text)
    (hpages : TaskPages kernel.pages (kernel.directoryOf process))
    (hnull : ∀ pages, SlobOS.readWord (after.memory pages) (ptr + argumentSize) = 0) :
    ListEnd after process ptr :=
  ⟨h.sound, h.continues.taskPages hpages, h.ownBlock, hnull⟩

theorem ListEnd.link {current : Nat} {stored : Kernel} (h : ListEnd kernel process current)
    (hgiven : GivenText kernel stored process ptr size text)
    (hnull : ∀ pages, SlobOS.readWord (stored.memory pages) (ptr + argumentSize) = 0) :
    Ends (storeBytes process (current + argumentSize) (wordBytes ptr)) stored ()
        (putMemory (current + argumentSize) (wordBytes ptr) stored) ∧
      ListEnd (putMemory (current + argumentSize) (wordBytes ptr) stored) process ptr := by
  have hcontinues : Continues process kernel _ :=
    Frame.trans hgiven.continues (putMemory_continues (current + argumentSize) (wordBytes ptr) stored)
  constructor
  · apply storeBytes_ends
    intro i hi
    rw [wordBytes_length] at hi
    have hpage := (h.own.continues hgiven.continues).own (argumentSize + i) (by
      simp only [argumentSize, slobosHeapBlockSize]; omega)
    rwa [← Nat.add_assoc] at hpage
  · refine ⟨hcontinues.sound h.sound, hcontinues.taskPages h.pages,
      hgiven.ownBlock.continues (putMemory_continues _ _ _), fun pages => ?_⟩
    have hput := putMemory_preservesBut (current + argumentSize) (wordBytes ptr) stored
    have hapart := h.own.apart hgiven.takes
    obtain ⟨new, rfl, hnew, -⟩ := hgiven.takes.taken
    rw [hput.readWord hnew (by decide) ?_, hnull]
    rw [wordBytes_length]
    simp only [argumentSize, slobosHeapBlockSize] at hapart ⊢
    omega

section Rules

variable {malloc : Nat → Nat → KernelM Nat} {program program' last : ProgramMemory}
  {current token left : Nat} {given stored linked : Kernel}

theorem slobosParseTokens_of_token (hcall : Ends (callStrtok program 0) kernel (token, program') kernel)
    (htoken : token ≠ 0) (hmalloc : Ends (malloc process commandArgumentSize) kernel ptr given)
    (hends : Ends (if ptr = 0 then pure program' else do
      storeArgument process ptr token program'
      storeBytes process (current + argumentSize) (wordBytes ptr)
      slobosParseTokens malloc process left ptr program') given last after) :
    Ends (slobosParseTokens malloc process (left + 1) current program) kernel last after := by
  refine ends_bind.mpr ⟨_, kernel, hcall, ?_⟩
  change Ends (if token = 0 then _ else _) _ _ _
  rw [if_neg htoken]
  exact ends_bind.mpr ⟨ptr, given, hmalloc, hends⟩

theorem slobosParseTokens_done (hcall : Ends (callStrtok program 0) kernel (0, program') kernel) :
    Ends (slobosParseTokens malloc process (left + 1) current program) kernel program' kernel :=
  ends_bind.mpr ⟨_, kernel, hcall, ends_pure.mpr ⟨rfl, rfl⟩⟩

theorem slobosParseTokens_refused (hcall : Ends (callStrtok program 0) kernel (token, program') kernel)
    (htoken : token ≠ 0) (hmalloc : Ends (malloc process commandArgumentSize) kernel 0 after) :
    Ends (slobosParseTokens malloc process (left + 1) current program) kernel program' after := by
  apply slobosParseTokens_of_token hcall htoken hmalloc
  rw [if_pos rfl]
  exact ends_pure.mpr ⟨rfl, rfl⟩

theorem slobosParseTokens_next (hcall : Ends (callStrtok program 0) kernel (token, program') kernel)
    (htoken : token ≠ 0) (hmalloc : Ends (malloc process commandArgumentSize) kernel ptr given)
    (hne : ptr ≠ 0) (hstore : Ends (storeArgument process ptr token program') given () stored)
    (hlink : Ends (storeBytes process (current + argumentSize) (wordBytes ptr)) stored () linked)
    (hends : Ends (slobosParseTokens malloc process left ptr program') linked last after) :
    Ends (slobosParseTokens malloc process (left + 1) current program) kernel last after := by
  apply slobosParseTokens_of_token hcall htoken hmalloc
  rw [if_neg hne]
  exact ends_bind.mpr ⟨(), stored, hstore, ends_bind.mpr ⟨(), linked, hlink, hends⟩⟩

end Rules

theorem slobosParseTokens_spec {left current : Nat} {program : ProgramMemory} {str : List UInt8}
    (hend : ListEnd kernel process current) (hline : LineLeft program 0 str) (hleft : str.length < left)
    (havoids : Avoids .panic (slobosParseTokens (granted processMalloc) process left current program)
      kernel) :
    ∃ program' after, Ends (slobosParseTokens (granted processMalloc) process left current program)
        kernel program' after ∧ program'.sp = 0 ∧
      Linked kernel after process current
        ((Splits.components space str).map (List.take (argumentSize - 1))) := by
  induction left generalizing kernel current program str with
  | zero => omega
  | succ left ih =>
      obtain ⟨result, hstrtok, houtcome⟩ := hline.strtok
      have hcall := @callStrtok_ends kernel _ _ _ hstrtok
      have hrest := havoids.next hcall
      cases houtcome with
      | none hnil =>
          refine ⟨{ program with sp := 0 }, kernel, slobosParseTokens_done hcall, rfl, ?_⟩
          rw [hnil]
          exact ⟨Frame.refl _, Frame.refl _, 0, .nil, hend.next⟩
      | @some word rest token program' hcons hlt htoken hword hline' =>
          change Avoids Fault.panic (if token = 0 then _ else _) kernel at hrest
          rw [if_neg htoken] at hrest
          obtain ⟨ptr, given, stored, hmalloc, hstore, hgiven, hnull⟩ :=
            newArgument_spec hend.sound hend.pages hword hrest.first
          have hnonnull := hgiven.ne_null
          have hrest' := hrest.next hmalloc
          rw [if_neg hnonnull] at hrest'
          obtain ⟨hlink, hend'⟩ := hend.link hgiven hnull
          obtain ⟨last, after, hends, hsp, hlinked⟩ :=
            ih hend' hline' (by omega) ((hrest'.next hstore).next hlink)
          refine ⟨last, after, slobosParseTokens_next hcall htoken hmalloc hnonnull hstore hlink hends, hsp, ?_⟩
          rw [hcons]
          exact Linked.cons hend.own hgiven hlinked

/-! ### The command -/

/-- The command has been taken apart into a list in memory of the process. -/
structure Parsed (kernel after : Kernel) (process root : Nat) (texts : List (List UInt8)) : Prop where
  continues : Continues process kernel after
  preserves : Preserves kernel after
  ne_null : root ≠ 0
  own : OwnBlock after process root
  list : ArgumentList after root texts

theorem scommand_lineLeft {program : ProgramMemory} {scommand command : Nat} {line : List UInt8}
    (hsp : program.sp = 0) (hscommand : scommand ≠ 0) (hcommand : StringAt program.bytes command line)
    (hlength : line.length < scommandSize) :
    LineLeft { program with bytes := strncpy program.bytes scommand command scommandSize } scommand
      line := by
  have hcopy := @strncpy_stringAt program.bytes command line scommand scommandSize hcommand
  rw [List.take_of_length_le (by omega)] at hcopy
  have hfrom : strtokFrom { program with bytes := strncpy program.bytes scommand command scommandSize }
      scommand = scommand := if_pos hsp
  exact ⟨by rwa [hfrom], by rwa [hfrom], Nat.lt_trans hlength (by decide)⟩

section Rules

variable {malloc : Nat → Nat → KernelM Nat} {program program' last : ProgramMemory}
  {scommand command max token : Nat} {given stored : Kernel}

theorem slobosParseCommand_of_token (hmax : max < scommandSize)
    (hcall : Ends (callStrtok
      { program with bytes := strncpy program.bytes scommand command scommandSize } scommand)
        kernel (token, program') kernel)
    (htoken : token ≠ 0) {root : Nat} (hends : Ends (do
      let rootCommand ← malloc process commandArgumentSize
      if rootCommand = 0 then pure (0, program')
      else do
        storeArgument process rootCommand token program'
        let program ← slobosParseTokens malloc process addressSpace rootCommand program'
        pure (rootCommand, program)) kernel (root, last) after) :
    Ends (slobosParseCommand malloc process scommand command max program) kernel (root, last) after := by
  rw [slobosParseCommand, if_neg (Nat.not_le.mpr hmax)]
  refine ends_bind.mpr ⟨_, kernel, hcall, ?_⟩
  change Ends (if token = 0 then _ else _) _ _ _
  rwa [if_neg htoken]

theorem slobosParseCommand_refused (hmax : max < scommandSize)
    (hcall : Ends (callStrtok
      { program with bytes := strncpy program.bytes scommand command scommandSize } scommand)
        kernel (token, program') kernel)
    (htoken : token ≠ 0) (hmalloc : Ends (malloc process commandArgumentSize) kernel 0 after) :
    Ends (slobosParseCommand malloc process scommand command max program) kernel (0, program') after :=
  slobosParseCommand_of_token hmax hcall htoken
    (ends_bind.mpr ⟨0, after, hmalloc, ends_pure.mpr ⟨rfl, rfl⟩⟩)

theorem slobosParseCommand_first (hmax : max < scommandSize)
    (hcall : Ends (callStrtok
      { program with bytes := strncpy program.bytes scommand command scommandSize } scommand)
        kernel (token, program') kernel)
    (htoken : token ≠ 0) (hmalloc : Ends (malloc process commandArgumentSize) kernel ptr given)
    (hne : ptr ≠ 0) (hstore : Ends (storeArgument process ptr token program') given () stored)
    (hends : Ends (slobosParseTokens malloc process addressSpace ptr program') stored last after) :
    Ends (slobosParseCommand malloc process scommand command max program) kernel (ptr, last) after := by
  refine slobosParseCommand_of_token hmax hcall htoken (ends_bind.mpr ⟨ptr, given, hmalloc, ?_⟩)
  rw [if_neg hne]
  exact ends_bind.mpr ⟨(), stored, hstore, ends_bind.mpr ⟨last, after, hends, ends_pure.mpr ⟨rfl, rfl⟩⟩⟩

end Rules

theorem slobosParseCommand_spec {program : ProgramMemory} {scommand command max : Nat}
    {line : List UInt8} (hsound : KernelSound kernel)
    (hpages : TaskPages kernel.pages (kernel.directoryOf process)) (hsp : program.sp = 0)
    (hscommand : scommand ≠ 0) (hmax : max < scommandSize)
    (hcommand : StringAt program.bytes command line) (hlength : line.length < scommandSize)
    (hwords : Splits.components space line ≠ [])
    (havoids : Avoids .panic
      (slobosParseCommand (granted processMalloc) process scommand command max program) kernel) :
    ∃ root program' after,
      Ends (slobosParseCommand (granted processMalloc) process scommand command max program) kernel
        (root, program') after ∧ program'.sp = 0 ∧
      Parsed kernel after process root
        ((Splits.components space line).map (List.take (argumentSize - 1))) := by
  have hline := scommand_lineLeft hsp hscommand hcommand hlength
  obtain ⟨result, hstrtok, houtcome⟩ := hline.strtok
  have hcall := @callStrtok_ends kernel _ _ _ hstrtok
  rw [slobosParseCommand, if_neg (Nat.not_le.mpr hmax)] at havoids
  have hrest := havoids.next hcall
  cases houtcome with
  | none hnil => exact absurd hnil hwords
  | @some word rest token program' hcons hlt htoken hword hline' =>
      change Avoids Fault.panic (if token = 0 then _ else _) kernel at hrest
      rw [if_neg htoken] at hrest
      obtain ⟨root, given, stored, hmalloc, hstore, hgiven, hnull⟩ :=
        newArgument_spec hsound hpages hword hrest.first
      have hnonnull := hgiven.ne_null
      have hrest' := hrest.next hmalloc
      rw [if_neg hnonnull] at hrest'
      have htokens := (hrest'.next hstore).first
      obtain ⟨last, after, hends, hsp', hlinked⟩ :=
        slobosParseTokens_spec (hgiven.listEnd hpages hnull) hline' hline'.length htokens
      obtain ⟨next, hlist, hnext⟩ := hlinked.list
      refine ⟨root, last, after,
        slobosParseCommand_first hmax hcall htoken hmalloc hnonnull hstore hends, hsp', ?_⟩
      rw [hcons]
      constructor
      case continues => exact Frame.trans hgiven.continues hlinked.continues
      case preserves =>
        exact hgiven.takes.preserves_of_but hlinked.preserves (Nat.le_add_right _ _)
          (by simp only [argumentSize, slobosHeapBlockSize]; omega)
      case ne_null => exact hnonnull
      case own => exact hgiven.ownBlock.continues hlinked.continues
      case list =>
        exact .cons (hgiven.holdsText.preserved hlinked.preserves (Or.inl (Nat.le_refl _))) hnext hlist

end Kernel

end SlobOS
