import SlobOS.Lib.X86

/-!
# Interrupts

What the processor pushes and loads when it enters an interrupt routine through a gate of level 0, and
the instructions that such routines use besides those of the fragment. Several pushes in a row are a
list of words, whose last one lies at the stack pointer.
-/

namespace X86

structure Gate where
  offset : BitVec 32
  selector : BitVec 16
  attributes : BitVec 8

namespace Gate

def ofBytes (bytes : Nat → BitVec 8) : Gate where
  offset := bytes 7 ++ bytes 6 ++ bytes 1 ++ bytes 0
  selector := bytes 3 ++ bytes 2
  attributes := bytes 5

def Present (gate : Gate) : Prop := gate.attributes &&& 0x80 = 0x80

instance (gate : Gate) : Decidable gate.Present := inferInstanceAs (Decidable (_ = _))

/-- The outermost level whose instruction `int` may use the gate. -/
def level (gate : Gate) : BitVec 16 := (gate.attributes >>> 5 &&& 3).setWidth 16

def IsInterrupt (gate : Gate) : Prop := gate.attributes &&& 0x1F = 0x0E

end Gate

namespace Machine

def pushWords (m : Machine) (words : List (BitVec 32)) : Machine := words.foldl pushWord m

theorem pushWords_append (m : Machine) (words words' : List (BitVec 32)) :
    m.pushWords (words ++ words') = (m.pushWords words).pushWords words' :=
  List.foldl_append

theorem pushWords_concat (m : Machine) (words : List (BitVec 32)) (word : BitVec 32) :
    m.pushWords (words ++ [word]) = (m.pushWords words).pushWord word :=
  pushWords_append m words [word]

theorem pushWords_esp (m : Machine) (words : List (BitVec 32)) :
    (m.pushWords words).reg .esp = m.reg .esp - BitVec.ofNat 32 (4 * words.length) := by
  induction words using List.reverseRecOn with
  | nil => simp [pushWords]
  | append_singleton words word ih =>
      rw [pushWords_concat, List.length_append, List.length_singleton, Nat.mul_add, BitVec.ofNat_add]
      simp only [pushWord, setReg, if_true, ih]
      bv_omega

theorem pushWords_reg (m : Machine) (words : List (BitVec 32)) {r : Reg} (hr : r ≠ .esp) :
    (m.pushWords words).reg r = m.reg r := by
  induction words using List.reverseRecOn with
  | nil => rfl
  | append_singleton words word ih => simp [pushWords_concat, hr, ih]

theorem pushWords_rest (m : Machine) (words : List (BitVec 32)) :
    (m.pushWords words).seg = m.seg ∧ (m.pushWords words).eip = m.eip ∧
      (m.pushWords words).eflags = m.eflags := by
  induction words using List.reverseRecOn with
  | nil => exact ⟨rfl, rfl, rfl⟩
  | append_singleton words word ih => simpa [pushWords_concat] using ih

theorem pushWords_mem_above (m : Machine) (words : List (BitVec 32)) {i : Nat}
    (hi : 4 * words.length + i < 2 ^ 32) :
    (m.pushWords words).mem (m.reg .esp + BitVec.ofNat 32 i) =
      m.mem (m.reg .esp + BitVec.ofNat 32 i) := by
  induction words using List.reverseRecOn with
  | nil => rfl
  | append_singleton words word ih =>
      rw [List.length_append, List.length_singleton] at hi
      rw [pushWords_concat, ← ih (by omega)]
      refine store32_of_ne fun j hj => ?_
      rw [pushWords_esp]
      bv_omega

theorem load32_pushWords (m : Machine) (words : List (BitVec 32)) {i : Nat} (hi : i < words.length)
    (hsize : 4 * words.length < 2 ^ 32) :
    load32 (m.pushWords words).mem ((m.pushWords words).reg .esp + BitVec.ofNat 32 (4 * i)) =
      words.reverse.get ⟨i, by simpa using hi⟩ := by
  induction words using List.reverseRecOn generalizing i with
  | nil => exact absurd hi (Nat.not_lt_zero i)
  | append_singleton words word ih =>
      rw [List.length_append, List.length_singleton] at hi hsize
      rw [pushWords_concat]
      rcases i with - | i
      · simp
      · have hbelow : load32 ((m.pushWords words).pushWord word).mem
            ((m.pushWords words).reg .esp + BitVec.ofNat 32 (4 * i)) =
            load32 (m.pushWords words).mem
              ((m.pushWords words).reg .esp + BitVec.ofNat 32 (4 * i)) := by
          refine load32_congr fun j hj => store32_of_ne fun l hl => ?_
          bv_omega
        have haddress : ((m.pushWords words).pushWord word).reg .esp +
            BitVec.ofNat 32 (4 * (i + 1)) =
            (m.pushWords words).reg .esp + BitVec.ofNat 32 (4 * i) := by
          simp only [pushWord, setReg, if_true, Nat.mul_add, BitVec.ofNat_add]
          bv_omega
        rw [haddress, hbelow, ih (by omega) (by omega)]
        simp

theorem pushWords_mem_outside (m : Machine) (words : List (BitVec 32)) {address : BitVec 32}
    (houtside : ∀ i < 4 * words.length,
      address ≠ m.reg .esp - BitVec.ofNat 32 (4 * words.length) + BitVec.ofNat 32 i) :
    (m.pushWords words).mem address = m.mem address := by
  have haddress : m.reg .esp + BitVec.ofNat 32 (address - m.reg .esp).toNat = address := by
    rw [BitVec.ofNat_toNat, BitVec.setWidth_eq]
    bv_omega
  rw [← haddress]
  refine pushWords_mem_above _ _ ?_
  by_contra hover
  -- Otherwise the address lies a number of bytes above the end of the stack that is pushed.
  refine houtside (4 * words.length + (address - m.reg .esp).toNat - 2 ^ 32) (by omega) ?_
  bv_omega

theorem pushWords_context (m : Machine) (seg : Segment → BitVec 16) (eip eflags : BitVec 32)
    (words : List (BitVec 32)) :
    ({ m with seg := seg, eip := eip, eflags := eflags }).pushWords words =
      { m.pushWords words with seg := seg, eip := eip, eflags := eflags } := by
  induction words using List.reverseRecOn with
  | nil => rfl
  | append_singleton words word ih => rw [pushWords_concat, pushWords_concat, ih]; rfl

/-- The stack of level 0 that the task state segment names. -/
structure InnerStack where
  esp : BitVec 32
  ss : BitVec 16

/-- The flags that an interrupt gate clears: `TF`, `IF`, `NT`, `RF` and `VM`. -/
def gateFlags : BitVec 32 := 0x34300

def returnWords (m : Machine) (errorCode : Option (BitVec 32)) : List (BitVec 32) :=
  [m.eflags, (m.seg .cs).setWidth 32, m.eip] ++ errorCode.toList

/-- Entry through an interrupt gate to a segment of level 0: from an outer level, the stack is
changed first. -/
def enter (stack : InnerStack) (gate : Gate) (errorCode : Option (BitVec 32)) (m : Machine) :
    Machine :=
  let inner :=
    if level (m.seg .cs) = 0 then m
    else ((m.setReg .esp stack.esp).setSegment .ss stack.ss).pushWords
      [(m.seg .ss).setWidth 32, m.reg .esp]
  { (inner.pushWords (m.returnWords errorCode)).setSegment .cs gate.selector with
    eip := gate.offset
    eflags := m.eflags &&& ~~~gateFlags }

/-- The instruction `int`, which reads the gate and whose return address is that of the instruction
behind it. Without a usable gate there is a protection fault instead. -/
def softwareInterrupt (stack : InnerStack) (gate : Gate) (m : Machine) : Option Machine :=
  if gate.Present ∧ level (m.seg .cs) ≤ gate.level then some (m.enter stack gate none) else none

/-- `pushad` stores the stack pointer that it starts with. -/
def pushad (m : Machine) : Machine :=
  m.pushWords [m.reg .eax, m.reg .ecx, m.reg .edx, m.reg .ebx, m.reg .esp, m.reg .ebp, m.reg .esi,
    m.reg .edi]

/-- `popad` skips the word of the stack pointer. -/
def popad (m : Machine) : Machine :=
  let word (i : Nat) := load32 m.mem (m.reg .esp + BitVec.ofNat 32 (4 * i))
  { m with
    reg := fun
      | .edi => word 0
      | .esi => word 1
      | .ebp => word 2
      | .esp => m.reg .esp + 32
      | .ebx => word 4
      | .edx => word 5
      | .ecx => word 6
      | .eax => word 7 }

end Machine

inductive StubInstr where
  | plain (instr : Instr)
  | pushad
  | popad
  /-- `push dword value` -/
  | pushValue (value : BitVec 32)
  /-- `mov [address], src` -/
  | storeAt (address : BitVec 32) (src : Reg)
  /-- `mov dst, [address]` -/
  | loadAt (dst : Reg) (address : BitVec 32)
  /-- A function that has been called, up to and with its `ret`. -/
  | body (run : Machine → Machine)

namespace Machine

def stubStep (flags : BitVec 32 → BitVec 32 → BitVec 32) (m : Machine) : StubInstr → Machine
  | .plain instr => m.step flags instr
  | .pushad => m.pushad
  | .popad => m.popad
  | .pushValue value => m.pushWord value
  | .storeAt address src => { m with mem := store32 m.mem address (m.reg src) }
  | .loadAt dst address => m.setReg dst (load32 m.mem address)
  | .body run => run m

def stubExec (flags : BitVec 32 → BitVec 32 → BitVec 32) (m : Machine) (program : List StubInstr) :
    Machine :=
  program.foldl (stubStep flags) m

theorem stubExec_append (flags : BitVec 32 → BitVec 32 → BitVec 32) (m : Machine)
    (program program' : List StubInstr) :
    m.stubExec flags (program ++ program') = (m.stubExec flags program).stubExec flags program' :=
  List.foldl_append

end Machine

end X86
