import SlobOS.SystemCommands
import SlobOS.TaskStrings

/-!
# The path of a program that is started

System calls 6 and 7 put `0:/` and the name of the program together in a buffer on the stack of the
kernel. The name is limited to the size of that buffer, and is stored behind the drive.
-/

namespace SlobOS

open CStrings Stores Kernel

/-- The bytes that `strcpy` stores. No string is longer than the address space. -/
def strcpyBytes (memory : Nat → UInt8) : Nat → Nat → List UInt8
  | 0, _ => []
  | left + 1, src =>
      if memory src = 0 then [0] else memory src :: strcpyBytes memory left (src + 1)

def storesAt (dest : Nat) : List UInt8 → List (Nat × UInt8)
  | [] => []
  | byte :: bytes => (dest, byte) :: storesAt (dest + 1) bytes

def pathStores (path : Nat) (name : List UInt8) : List (Nat × UInt8) :=
  storesAt path (drivePath ++ [0]) ++ storesAt (path + drivePath.length) name

/-- What `copy_string_from_task` leaves in memory: the string is copied to `tmp` as the task sees it,
and from there to `phys`. -/
def stringCopied (memory seen : Nat → UInt8) (tmp virt phys max : Nat) : Nat → UInt8 :=
  strncpy (putBytes memory tmp (strncpyBytes seen virt (max - 1))) phys tmp max

/-- What it comes back with: it fails if the heap has no block for `tmp`. -/
def stringCopyResult (heap : Heap) (max : Nat) : Int :=
  if (heapMalloc heap max).1 = 0 then -enomem else 0

/-- The stores of `isr80h_command6_process_load_from_shell` to the path, if the name could be copied
to the buffer `filename`. That buffer and the path lie apart. -/
def command6PathStores (res : Int) (memory : Nat → UInt8) (path filename : Nat) :
    Option (List (Nat × UInt8)) :=
  if res < 0 then none
  else some (pathStores path (strcpyBytes memory addressSpace filename))

/-- Those of `isr80h_command7_invoke_system_command`. The arguments lie outside of the path. -/
def command7PathStores (memory : Nat → UInt8) (path arguments : Nat) : Option (List (Nat × UInt8)) :=
  if arguments = 0 ∨ memory arguments = 0 then none
  else some (pathStores path (strncpyBytes memory arguments (slobosMaxPath - 1)))

/-- The stores lie in the buffer, and as much of the name as fits is behind the drive. -/
structure PathFits (memory : Nat → UInt8) (path : Nat) (name : List UInt8)
    (stores : List (Nat × UInt8)) : Prop where
  inside : ∀ store ∈ stores, path ≤ store.1 ∧ store.1 < path + slobosMaxPath
  handed : StringAt (applyStores memory stores) path
    (drivePath ++ name.take (slobosMaxPath - 1 - drivePath.length))

/-- The path fits if it is put together at all. -/
def PathSafe (memory : Nat → UInt8) (path : Nat) (name : List UInt8)
    (stores : Option (List (Nat × UInt8))) : Prop :=
  ∀ stored, stores = some stored → PathFits memory path name stored

variable {memory seen : Nat → UInt8} {path src left : Nat} {name str bytes : List UInt8}

theorem strcpyBytes_eq (h : StringAt memory src str) (hleft : str.length < left) :
    strcpyBytes memory left src = str ++ [0] := by
  induction left generalizing src str with
  | zero => omega
  | succ left ih =>
      cases str with
      | nil =>
          have hzero : memory src = 0 := h
          rw [strcpyBytes, if_pos hzero]
          rfl
      | cons c str =>
          obtain ⟨hne, rfl, hrest⟩ := h
          rw [List.length_cons] at hleft
          rw [strcpyBytes, if_neg hne, ih hrest (by omega)]
          rfl

theorem applyStores_storesAt (memory : Nat → UInt8) (dest : Nat) (bytes : List UInt8) :
    applyStores memory (storesAt dest bytes) = putBytes memory dest bytes := by
  induction bytes generalizing memory dest with
  | nil =>
      funext address
      exact (putBytes_of_not_mem (by rw [List.length_nil]; omega)).symm
  | cons byte bytes ih =>
      have hfirst : (fun i => if i = dest then byte else memory i) = putBytes memory dest [byte] := by
        funext address
        by_cases heq : address = dest
        · subst heq
          rw [if_pos rfl]
          exact (@putBytes_of_lt memory address [byte] 0 Nat.zero_lt_one).symm
        · rw [if_neg heq, putBytes_of_not_mem]
          rw [List.length_singleton]
          omega
      rw [storesAt, applyStores, hfirst, ih, ← putBytes_cons]

theorem storesAt_inside {dest : Nat} : (∀ store ∈ storesAt dest bytes,
    path ≤ store.1 ∧ store.1 < path + slobosMaxPath) ↔
      bytes = [] ∨ path ≤ dest ∧ dest + bytes.length ≤ path + slobosMaxPath := by
  induction bytes generalizing dest with
  | nil => exact iff_of_true (fun _ hmem => absurd hmem List.not_mem_nil) (Or.inl rfl)
  | cons byte bytes ih =>
      rw [storesAt, List.forall_mem_cons, ih, List.length_cons]
      constructor
      · rintro ⟨⟨hge, hlt⟩, rfl | ⟨-, hle⟩⟩
        · exact Or.inr ⟨hge, by rw [List.length_nil]; omega⟩
        · exact Or.inr ⟨hge, by omega⟩
      · rintro (hnil | ⟨hge, hle⟩)
        · exact absurd hnil (List.cons_ne_nil _ _)
        · refine ⟨⟨hge, by omega⟩, ?_⟩
          rcases bytes with - | ⟨_, _⟩
          · exact Or.inl rfl
          · exact Or.inr ⟨by omega, by omega⟩

theorem stringAt_pathStores (hzero : 0 ∉ str) :
    StringAt (applyStores memory (pathStores path (str ++ [0]))) path (drivePath ++ str) := by
  rw [pathStores, applyStores_append, applyStores_storesAt, applyStores_storesAt]
  have hdrive : ∀ i < 3, putBytes (putBytes memory path (drivePath ++ [0])) (path + drivePath.length)
      (str ++ [0]) (path + i) = (drivePath ++ [0]).getD i 0 := by
    intro i hi
    have hlength : drivePath.length = 3 := rfl
    rw [putBytes_of_not_mem (by omega)]
    exact putBytes_of_lt (by rw [List.length_append, hlength]; omega)
  refine ⟨by decide, hdrive 0 (by decide), by decide, hdrive 1 (by decide), by decide,
    hdrive 2 (by decide), ?_⟩
  exact stringAt_putBytes hzero

/-! ### The two calls -/

theorem pathFits_iff (hzero : 0 ∉ name) :
    PathFits memory path name (pathStores path (name.take (slobosMaxPath - 1) ++ [0])) ↔
      name.length ≤ slobosMaxPath - 1 - drivePath.length := by
  have hdrive : drivePath.length = 3 := rfl
  constructor
  · rintro ⟨hinside, -⟩
    rw [pathStores, List.forall_mem_append, storesAt_inside, storesAt_inside] at hinside
    rcases hinside.2 with hnil | ⟨-, hle⟩
    · exact absurd hnil (List.append_ne_nil_of_right_ne_nil _ (List.cons_ne_nil _ _))
    · rw [List.length_append, List.length_take, List.length_singleton, hdrive] at hle
      simp only [slobosMaxPath] at hle ⊢
      omega
  · intro hle
    have hshort : name.take (slobosMaxPath - 1) = name :=
      List.take_of_length_le (by simp only [slobosMaxPath] at hle ⊢; omega)
    refine ⟨?_, ?_⟩
    · rw [hshort, pathStores, List.forall_mem_append, storesAt_inside, storesAt_inside]
      refine ⟨Or.inr ⟨Nat.le_refl _, ?_⟩, Or.inr ⟨Nat.le_add_right _ _, ?_⟩⟩
      · rw [List.length_append, List.length_singleton, hdrive, slobosMaxPath]
        omega
      · rw [List.length_append, List.length_singleton, hdrive]
        simp only [slobosMaxPath] at hle ⊢
        omega
    · rw [hshort, List.take_of_length_le hle]
      exact stringAt_pathStores hzero

theorem stringCopied_stringAt {tmp virt phys : Nat} (h : StringAt seen virt name) :
    StringAt (stringCopied memory seen tmp virt phys slobosMaxPath) phys
      (name.take (slobosMaxPath - 1)) := by
  have htmp : StringAt (putBytes memory tmp (strncpyBytes seen virt (slobosMaxPath - 1))) tmp
      (name.take (slobosMaxPath - 1)) := by
    rw [strncpyBytes_eq h]
    exact stringAt_putBytes fun hmem => h.zero_not_mem (List.mem_of_mem_take hmem)
  have hphys := @strncpy_stringAt _ tmp _ phys slobosMaxPath htmp
  rwa [List.take_take, Nat.min_self] at hphys

section Commands

variable {tmp virt filename arguments : Nat} {res : Int}

theorem stringCopyResult_neg {heap : Heap} {max : Nat} :
    stringCopyResult heap max < 0 ↔ (heapMalloc heap max).1 = 0 := by
  rw [stringCopyResult]
  split
  · exact iff_of_true (by decide) ‹_›
  · exact iff_of_false (by decide) ‹_›

theorem command6_pathSafe_iff (hzero : 0 ∉ name)
    (hcopied : ¬res < 0 → StringAt memory filename (name.take (slobosMaxPath - 1))) :
    PathSafe memory path name (command6PathStores res memory path filename) ↔
      res < 0 ∨ name.length ≤ slobosMaxPath - 1 - drivePath.length := by
  have hlength : (name.take (slobosMaxPath - 1)).length < addressSpace := by
    rw [List.length_take, addressSpace, slobosMaxPath]
    omega
  unfold PathSafe command6PathStores
  by_cases hres : res < 0
  · rw [if_pos hres]
    exact iff_of_true (fun _ heq => absurd heq (Option.some_ne_none _).symm) (Or.inl hres)
  · rw [if_neg hres, or_iff_right hres, strcpyBytes_eq (hcopied hres) hlength, ← pathFits_iff hzero]
    exact ⟨fun hsafe => hsafe _ rfl, fun hfits _ heq => Option.some.inj heq ▸ hfits⟩

theorem command7_pathSafe_iff (h : StringAt memory arguments name) :
    PathSafe memory path name (command7PathStores memory path arguments) ↔
      arguments = 0 ∨ name.length ≤ slobosMaxPath - 1 - drivePath.length := by
  unfold PathSafe command7PathStores
  by_cases hnull : arguments = 0
  · rw [if_pos (Or.inl hnull)]
    exact iff_of_true (fun _ heq => absurd heq (Option.some_ne_none _).symm) (Or.inl hnull)
  by_cases hempty : memory arguments = 0
  · have hnil : name = [] := by
      cases name with
      | nil => rfl
      | cons c name => exact absurd (h.2.1.symm.trans hempty) h.1
    rw [if_pos (Or.inr hempty), hnil]
    exact iff_of_true (fun _ heq => absurd heq (Option.some_ne_none _).symm)
      (Or.inr (Nat.zero_le _))
  · rw [if_neg (not_or.mpr ⟨hnull, hempty⟩), or_iff_right hnull, strncpyBytes_eq h,
      ← pathFits_iff h.zero_not_mem]
    exact ⟨fun hsafe => hsafe _ rfl, fun hfits _ heq => Option.some.inj heq ▸ hfits⟩

theorem loadNamed_pathSafe (h : StringAt memory arguments name)
    (hle : name.length ≤ slobosMaxPath - 1 - drivePath.length) :
    loadNamed (strncpyBytes memory arguments (slobosMaxPath - 1)).dropLast =
      Kernel.processLoadSwitch (drivePath ++ name.take (slobosMaxPath - 1 - drivePath.length)) := by
  have hdrive : drivePath.length = 3 := rfl
  simp only [hdrive, slobosMaxPath] at hle
  rw [strncpyBytes_eq h, List.dropLast_concat, List.take_of_length_le (by
    simp only [slobosMaxPath]
    omega), loadNamed, if_neg, List.take_of_length_le]
  · simp only [hdrive, slobosMaxPath]
    omega
  · simp only [hdrive, slobosMaxPath]
    omega

/-- What `copy_string_from_task` leaves on the page directory of a task that sees the name is what
`stringCopied` says, and the condition holds of the path that is put together from it. -/
theorem copyStringFromTask_path {kernel : Kernel} {chunk directory : Nat}
    (hchunk : Physical.ChunkInUse kernel chunk directory)
    (hbuffer : Physical.KernelBuffer kernel directory filename slobosMaxPath)
    (hsees : Physical.SeesString kernel directory virt
      (Physical.Undisturbed kernel directory slobosMaxPath) name)
    (hseen : StringAt seen virt name) :
    ∃ after, Faulting.Ends (Physical.copyStringFromTask chunk virt filename slobosMaxPath) kernel
        (stringCopyResult kernel.heap slobosMaxPath) after ∧
      ((heapMalloc kernel.heap slobosMaxPath).1 ≠ 0 → ∀ i ≤ (name.take (slobosMaxPath - 1)).length,
        Physical.bytes after (filename + i) =
          stringCopied memory seen tmp virt filename slobosMaxPath (filename + i)) ∧
      (PathSafe (Physical.bytes after) path name (command6PathStores
          (stringCopyResult kernel.heap slobosMaxPath) (Physical.bytes after) path filename) ↔
        (heapMalloc kernel.heap slobosMaxPath).1 = 0 ∨
          name.length ≤ slobosMaxPath - 1 - drivePath.length) := by
  obtain ⟨res, after, hends, hcopied⟩ := Physical.copyString_copied hchunk (by decide) (by decide)
    hbuffer hsees
  have hbuffer : Physical.stringBuffer kernel slobosMaxPath = (heapMalloc kernel.heap slobosMaxPath).1 :=
    rfl
  have hres : res = stringCopyResult kernel.heap slobosMaxPath := by
    rw [stringCopyResult, ← hbuffer]
    rcases hcopied with ⟨hnull, rfl⟩ | ⟨hne, rfl, -⟩
    · exact (if_pos hnull).symm
    · exact (if_neg hne).symm
  have hstring : (heapMalloc kernel.heap slobosMaxPath).1 ≠ 0 →
      StringAt (Physical.bytes after) filename (name.take (slobosMaxPath - 1)) := by
    intro hne
    rcases hcopied with ⟨hnull, -⟩ | ⟨-, -, hstring⟩
    · exact absurd hnull hne
    · exact hstring
  refine ⟨after, hres ▸ hends, fun hne i hi => ?_, ?_⟩
  · have hcopy := @stringCopied_stringAt memory seen name tmp virt filename hseen
    rw [(hstring hne).byte hi, hcopy.byte hi]
  · rw [command6_pathSafe_iff hseen.zero_not_mem fun hneg => hstring fun hnull =>
        hneg (stringCopyResult_neg.mpr hnull), stringCopyResult_neg]

/-- For both calls, the path is safe exactly if the name leaves room for the drive. -/
theorem pathSafe_iff (heap : Heap) (hseen : StringAt seen virt name)
    (hmemory : StringAt memory arguments name) :
    (PathSafe (stringCopied memory seen tmp virt filename slobosMaxPath) path name
      (command6PathStores (stringCopyResult heap slobosMaxPath)
        (stringCopied memory seen tmp virt filename slobosMaxPath) path filename) ↔
      (heapMalloc heap slobosMaxPath).1 = 0 ∨
        name.length ≤ slobosMaxPath - 1 - drivePath.length) ∧
    (PathSafe memory path name (command7PathStores memory path arguments) ↔
      arguments = 0 ∨ name.length ≤ slobosMaxPath - 1 - drivePath.length) := by
  refine ⟨?_, command7_pathSafe_iff hmemory⟩
  rw [command6_pathSafe_iff hseen.zero_not_mem fun _ => stringCopied_stringAt hseen,
    stringCopyResult_neg]

end Commands

def letters (count : Nat) : Nat → UInt8 :=
  putBytes (fun _ => 0) 0x400000 (List.replicate count 0x61 ++ [0])

theorem letters_stringAt (count : Nat) :
    StringAt (letters count) 0x400000 (List.replicate count 0x61) :=
  stringAt_putBytes fun hmem => absurd (List.eq_of_mem_replicate hmem) (by decide)

/-- A name of 105 letters is stored past the end of the buffer by both calls. -/
theorem not_pathSafe :
    ¬PathSafe (stringCopied (letters 105) (letters 105) 0x2000000 0x400000 0x5ff000 slobosMaxPath)
      0x5ff100 (List.replicate 105 0x61)
      (command6PathStores (stringCopyResult freshKernelHeap.heap slobosMaxPath)
        (stringCopied (letters 105) (letters 105) 0x2000000 0x400000 0x5ff000 slobosMaxPath)
        0x5ff100 0x5ff000) ∧
    ¬PathSafe (letters 105) 0x5ff100 (List.replicate 105 0x61)
      (command7PathStores (letters 105) 0x5ff100 0x400000) := by
  rw [command6_pathSafe_iff (letters_stringAt 105).zero_not_mem fun _ =>
      stringCopied_stringAt (letters_stringAt 105),
    command7_pathSafe_iff (letters_stringAt 105), stringCopyResult_neg]
  refine ⟨not_or.mpr ⟨?_, by decide⟩, by decide⟩
  rw [freshKernelHeap_malloc]
  decide

theorem pathSafe_iff_letters :
    PathSafe (stringCopied (letters 104) (letters 104) 0x2000000 0x400000 0x5ff000 slobosMaxPath)
      0x5ff100 (List.replicate 104 0x61)
      (command6PathStores (stringCopyResult freshKernelHeap.heap slobosMaxPath)
        (stringCopied (letters 104) (letters 104) 0x2000000 0x400000 0x5ff000 slobosMaxPath)
        0x5ff100 0x5ff000) ∧
    PathSafe (letters 104) 0x5ff100 (List.replicate 104 0x61)
      (command7PathStores (letters 104) 0x5ff100 0x400000) := by
  obtain ⟨hshell, hsystem⟩ := @pathSafe_iff (letters 104) (letters 104) 0x5ff100
    (List.replicate 104 0x61) 0x2000000 0x400000 0x5ff000 0x400000 freshKernelHeap.heap
    (letters_stringAt 104) (letters_stringAt 104)
  exact ⟨hshell.mpr (Or.inr (by decide)), hsystem.mpr (Or.inr (by decide))⟩

end SlobOS
