import SlobOS.TaskReturn

/-!
# The context after a save and a return

The two routines of `task.asm` as one block each: what lies on the stack when the inner one is
called, which registers it restores, and what the interrupt return makes of the rest. The inner
routine ends with `pop ebp`, which overwrites the frame pointer it has just restored, and the flags
are those of the kernel.
-/

namespace SlobOS

open X86

section Stack

variable {flags : BitVec 32 → BitVec 32 → BitVec 32} {m : Machine} {base address : BitVec 32}
  {registers : Registers} {returnAddress : BitVec 32}

theorem load_stack {mem : X86.Memory} {word : BitVec 32} {i j : Nat} (hi : i + 4 ≤ 40) (hj : j + 4 ≤ 40)
    (hapart : i + 4 ≤ j ∨ j + 4 ≤ i) :
    load32 (store32 mem (base + BitVec.ofNat 32 i) word) (base + BitVec.ofNat 32 j) =
      load32 mem (base + BitVec.ofNat 32 j) :=
  load32_store32_of_apart (by omega) (by omega) hapart

theorem HoldsRegisters.store {mem : X86.Memory} (hholds : HoldsRegisters mem address registers)
    (hdisjoint : Disjoint base 40 address 48) {i : Nat} (hi : i + 4 ≤ 40) (word : BitVec 32) :
    HoldsRegisters (store32 mem (base + BitVec.ofNat 32 i) word) address registers := by
  intro j hj
  rw [load32_store32_of_disjoint hdisjoint hi (by omega)]
  exact hholds j hj

/-- The machine when `restore_general_purpose_registers` is entered: the frame of the interrupt
return lies above the argument and the return address. -/
structure Called (m : Machine) (base address : BitVec 32) (registers : Registers)
    (returnAddress image : BitVec 32) : Prop where
  esp : m.reg .esp = base + 4#32
  ebp : m.reg .ebp = base + 32#32
  back : load32 m.mem (base + 4#32) = returnAddress
  argument : load32 m.mem (base + 8#32) = address
  ip : load32 m.mem (base + 12#32) = registers.ip
  cs : load32 m.mem (base + 16#32) = registers.cs
  image : load32 m.mem (base + 20#32) = image
  userEsp : load32 m.mem (base + 24#32) = registers.esp
  ss : load32 m.mem (base + 28#32) = registers.ss
  holds : HoldsRegisters m.mem address registers

def callMemory (m : Machine) (base address : BitVec 32) (registers : Registers)
    (returnAddress : BitVec 32) : X86.Memory :=
  let mem := store32 m.mem (base + 28#32) registers.ss
  let mem := store32 mem (base + 24#32) registers.esp
  let mem := store32 mem (base + 20#32) m.flagsImage
  let mem := store32 mem (base + 20#32) (m.flagsImage ||| 0x200)
  let mem := store32 mem (base + 16#32) registers.cs
  let mem := store32 mem (base + 12#32) registers.ip
  let mem := store32 mem (base + 8#32) address
  store32 mem (base + 4#32) returnAddress

theorem exec_taskReturnCall_mem (hesp : m.reg .esp = base + 32#32)
    (hdisjoint : Disjoint base 40 address 48) (hargument : load32 m.mem (base + 36#32) = address)
    (hholds : HoldsRegisters m.mem address registers) :
    (m.exec flags (taskReturnCall returnAddress)).mem =
      callMemory m base address registers returnAddress := by
  have hip : load32 m.mem (address + 28#32) = registers.ip := hholds 7 (by decide)
  have hcs : load32 m.mem (address + 32#32) = registers.cs := hholds 8 (by decide)
  have huserEsp : load32 m.mem (address + 40#32) = registers.esp := hholds 10 (by decide)
  have hss : load32 m.mem (address + 44#32) = registers.ss := hholds 11 (by decide)
  have hfar (mem : X86.Memory) (i j : Nat) (word : BitVec 32) (hi : i + 4 ≤ 40) (hj : j + 4 ≤ 48) :
      load32 (store32 mem (base + BitVec.ofNat 32 i) word) (address + BitVec.ofNat 32 j) =
        load32 mem (address + BitVec.ofNat 32 j) :=
    load32_store32_of_disjoint hdisjoint hi hj
  simp [taskReturnCall, callMemory, Machine.flagsImage, hesp, BitVec.sub_eq_add_neg,
    BitVec.add_assoc, hargument, hfar, load_stack, hip, hcs, huserEsp, hss]

theorem taskReturnCall_spec (hesp : m.reg .esp = base + 32#32)
    (hdisjoint : Disjoint base 40 address 48) (hargument : load32 m.mem (base + 36#32) = address)
    (hholds : HoldsRegisters m.mem address registers) :
    Called (m.exec flags (taskReturnCall returnAddress)) base address registers returnAddress
      (m.flagsImage ||| 0x200) := by
  have hmem : (m.exec flags (taskReturnCall returnAddress)).mem = _ :=
    exec_taskReturnCall_mem hesp hdisjoint hargument hholds
  constructor
  case esp => simp [taskReturnCall, hesp, BitVec.sub_eq_add_neg, BitVec.add_assoc]
  case ebp => simp [taskReturnCall, hesp]
  case holds =>
      rw [hmem]
      have hss := hholds.store hdisjoint (show 28 + 4 ≤ 40 by decide) registers.ss
      have hesp := hss.store hdisjoint (show 24 + 4 ≤ 40 by decide) registers.esp
      have hflags := hesp.store hdisjoint (show 20 + 4 ≤ 40 by decide) m.flagsImage
      have himage := hflags.store hdisjoint (show 20 + 4 ≤ 40 by decide) (m.flagsImage ||| 0x200)
      have hcs := himage.store hdisjoint (show 16 + 4 ≤ 40 by decide) registers.cs
      have hip := hcs.store hdisjoint (show 12 + 4 ≤ 40 by decide) registers.ip
      have hargument := hip.store hdisjoint (show 8 + 4 ≤ 40 by decide) address
      exact hargument.store hdisjoint (show 4 + 4 ≤ 40 by decide) returnAddress
  case back =>
      rw [hmem]
      simp [callMemory]
  all_goals
    rw [hmem]
    simp [callMemory, load_stack]

/-- The machine behind the call: all registers are restored but the frame pointer, which is still
that of `task_return`. -/
structure Restored (m : Machine) (base : BitVec 32) (registers : Registers)
    (returnAddress image : BitVec 32) : Prop where
  eip : m.eip = returnAddress
  esp : m.reg .esp = base + 8#32
  ebp : m.reg .ebp = base + 32#32
  eax : m.reg .eax = registers.eax
  ebx : m.reg .ebx = registers.ebx
  ecx : m.reg .ecx = registers.ecx
  edx : m.reg .edx = registers.edx
  esi : m.reg .esi = registers.esi
  edi : m.reg .edi = registers.edi
  ip : load32 m.mem (base + 12#32) = registers.ip
  cs : load32 m.mem (base + 16#32) = registers.cs
  image : load32 m.mem (base + 20#32) = image
  userEsp : load32 m.mem (base + 24#32) = registers.esp
  ss : load32 m.mem (base + 28#32) = registers.ss

theorem restoreGeneralPurposeRegisters_spec {image : BitVec 32}
    (hcalled : Called m base address registers returnAddress image)
    (hdisjoint : Disjoint base 40 address 48) :
    Restored (m.exec flags restoreGeneralPurposeRegisters) base registers returnAddress image := by
  have hholds := hcalled.holds.store hdisjoint (show 0 + 4 ≤ 40 by decide) (base + 32#32)
  have hedi : load32 _ (address + 0#32) = registers.edi := hholds 0 (by decide)
  have hesi : load32 _ (address + 4#32) = registers.esi := hholds 1 (by decide)
  have hebx : load32 _ (address + 12#32) = registers.ebx := hholds 3 (by decide)
  have hedx : load32 _ (address + 16#32) = registers.edx := hholds 4 (by decide)
  have hecx : load32 _ (address + 20#32) = registers.ecx := hholds 5 (by decide)
  have heax : load32 _ (address + 24#32) = registers.eax := hholds 6 (by decide)
  have hstack (j : Nat) (word : BitVec 32) (hj : 4 ≤ j) (hj' : j + 4 ≤ 40) :
      load32 (store32 m.mem base word) (base + BitVec.ofNat 32 j) =
        load32 m.mem (base + BitVec.ofNat 32 j) := by
    have hload := @load_stack base m.mem word 0 j (by decide) hj' (Or.inl hj)
    simpa using hload
  obtain ⟨hesp, hebp, hback, hargument, hip, hcs, himage, huserEsp, hss, -⟩ := hcalled
  simp only [BitVec.add_zero] at hedi hesi hebx hedx hecx heax
  constructor <;>
    simp [restoreGeneralPurposeRegisters, hesp, hebp, BitVec.add_assoc, hstack, hback, hargument, hip, hcs, himage, huserEsp, hss, hedi, hesi, hebx, hedx, hecx, heax]

end Stack

theorem entersWith_of_restored {flags : BitVec 32 → BitVec 32 → BitVec 32} {m : Machine}
    {base returnAddress image : BitVec 32} {task : Task} {frame : InterruptFrame}
    (hrestored : Restored m base (taskSaveState task frame).registers returnAddress image) :
    EntersWith frame (m.exec flags [.addValue .esp 4, .iretd]) ↔
      Machine.level (frame.cs.setWidth 16) = 3 ∧ frame.ebp = base + 32#32 ∧
        frame.flags ||| 0x200 = image ||| 0x200 := by
  obtain ⟨-, hesp, hebp, heax, hebx, hecx, hedx, hesi, hedi, hip, hcs, himage, huserEsp, hss⟩ :=
    hrestored
  simp only [taskSaveState] at heax hebx hecx hedx hesi hedi hip hcs huserEsp hss
  by_cases hlevel : Machine.level (frame.cs.setWidth 16) = 0#16
  · -- A frame of the kernel itself: the return stays in level 0.
    have hcs' : (m.exec flags [.addValue .esp 4, .iretd]).seg .cs = frame.cs.setWidth 16 := by
      simp [Machine.interruptReturn, hesp, BitVec.add_assoc, hip, hcs, himage, hlevel]
    constructor
    · intro henters
      have hlevel' := henters.level
      rw [hcs', hlevel] at hlevel'
      exact absurd hlevel' (by decide)
    · rintro ⟨hlevel', -, -⟩
      rw [hlevel] at hlevel'
      exact absurd hlevel' (by decide)
  · have hreturn : m.exec flags [.addValue .esp 4, .iretd] =
        { reg := fun r => if r = .esp then frame.esp else m.reg r
          seg := fun s =>
            if s = .ss then frame.ss.setWidth 16
            else if s = .cs then frame.cs.setWidth 16 else m.seg s
          eip := frame.ip, eflags := image, mem := m.mem } := by
      simp [Machine.interruptReturn, hesp, BitVec.add_assoc, hip, hcs, himage, huserEsp, hss, hlevel]
      funext r
      split <;> simp_all
    rw [hreturn]
    constructor
    · rintro ⟨hlevel', -, -, -, -, -, -, hebp', -, -, -, -, heflags⟩
      exact ⟨by simpa using hlevel', by simpa [hebp] using hebp'.symm, heflags.symm⟩
    · rintro ⟨hlevel', hebp', heflags⟩
      constructor <;> simp_all

/-- A task that was saved with a frame is resumed with its context exactly when the frame is one that
survives. -/
theorem taskReturn_entersWith_iff {flags : BitVec 32 → BitVec 32 → BitVec 32} {m : Machine}
    {address returnAddress : BitVec 32} {task : Task} {frame : InterruptFrame}
    (hreturning : Returning m address (taskSaveState task frame).registers) :
    EntersWith frame (m.exec flags (taskReturn returnAddress)) ↔ Survives frame m := by
  obtain ⟨hholds, hargument, hdisjoint⟩ := hreturning
  have hesp : m.reg .esp = m.reg .esp - 32#32 + 32#32 := by bv_omega
  have hargument' : load32 m.mem (m.reg .esp - 32#32 + 36#32) = address := by
    rw [← hargument]
    congr 1
    bv_omega
  have hcalled := @taskReturnCall_spec flags m _ address _ returnAddress hesp hdisjoint hargument'
    hholds
  have hrestored := @restoreGeneralPurposeRegisters_spec flags _ _ _ _ _ _ hcalled hdisjoint
  have henters := @entersWith_of_restored flags _ _ _ _ _ _ hrestored
  rw [taskReturn, Machine.exec_append, Machine.exec_append, henters, ← hesp, BitVec.or_assoc,
    BitVec.or_self, Survives]

def userFrame (ebp : BitVec 32) : InterruptFrame where
  edi := 0
  esi := 0
  ebp := ebp
  reserved := 0
  ebx := 0
  edx := 0
  ecx := 0
  eax := 0
  ip := 0x400000
  cs := 0x1b
  flags := 0x202
  esp := 0x3FF000
  ss := 0x23

def kernelMachine (registers : Registers) : Machine where
  reg := fun r => if r = .esp then 0x5FFF00 else 0
  seg := fun _ => 0x10
  eip := 0
  eflags := 0x2
  mem := (registers.words.zipIdx.foldl
    (fun mem (word, i) => store32 mem (0x2000000 + BitVec.ofNat 32 (4 * i)) word)
    (store32 (fun _ => 0) 0x5FFF04 0x2000000))

def savedTask (ebp : BitVec 32) : Task := taskSaveState (taskInit 0 0 0) (userFrame ebp)

theorem kernelMachine_apart (registers : Registers) :
    Disjoint ((kernelMachine registers).reg .esp - 32) 40 0x2000000 48 := by
  intro i hi j hj
  simp only [kernelMachine, if_true]
  bv_omega

theorem taskReturn_entersWith_user : EntersWith (userFrame 0x5FFF00)
    ((kernelMachine (savedTask 0x5FFF00).registers).exec (fun old _ => old)
      (taskReturn 0x100000)) := by
  have hreturning : Returning (kernelMachine (savedTask 0x5FFF00).registers) 0x2000000
      (savedTask 0x5FFF00).registers :=
    ⟨by unfold HoldsRegisters; decide, by decide, kernelMachine_apart _⟩
  exact (taskReturn_entersWith_iff hreturning).mpr (by unfold Survives; decide)

/-- A task whose frame pointer is null is resumed with that of the kernel. -/
theorem taskReturn_not_entersWith : ¬∀ (flags : BitVec 32 → BitVec 32 → BitVec 32) (m : Machine)
    (address returnAddress : BitVec 32) (task : Task) (frame : InterruptFrame),
    Returning m address (taskSaveState task frame).registers →
      EntersWith frame (m.exec flags (taskReturn returnAddress)) := by
  intro hall
  have hreturning : Returning (kernelMachine (savedTask 0).registers) 0x2000000
      (savedTask 0).registers :=
    ⟨by unfold HoldsRegisters; decide, by decide, kernelMachine_apart _⟩
  have hebp := (hall (fun old _ => old) _ _ 0x100000 _ _ hreturning).ebp
  exact absurd hebp (by decide)

end SlobOS
