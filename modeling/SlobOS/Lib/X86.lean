import Mathlib.Tactic.Common
import Mathlib.Data.BitVec

/-!
# A 32-bit x86 fragment

The instructions that switch contexts: moves, pushes and pops, the loads of segment registers, calls
and the interrupt return. Memory is a function from addresses to bytes, and words are little endian.
The descriptors behind the selectors are flat, so a segment register is its selector.
-/

namespace X86

inductive Reg where
  | eax | ecx | edx | ebx | esp | ebp | esi | edi
  deriving DecidableEq

inductive Segment where
  | cs | ss | ds | es | fs | gs
  deriving DecidableEq

def Memory := BitVec 32 → BitVec 8

def load16 (mem : Memory) (address : BitVec 32) : BitVec 16 :=
  mem (address + 1) ++ mem address

def load32 (mem : Memory) (address : BitVec 32) : BitVec 32 :=
  mem (address + 3) ++ mem (address + 2) ++ mem (address + 1) ++ mem address

def store32 (mem : Memory) (address word : BitVec 32) : Memory := fun byte =>
  if byte = address then word.extractLsb' 0 8
  else if byte = address + 1 then word.extractLsb' 8 8
  else if byte = address + 2 then word.extractLsb' 16 8
  else if byte = address + 3 then word.extractLsb' 24 8
  else mem byte

structure Machine where
  reg : Reg → BitVec 32
  seg : Segment → BitVec 16
  eip : BitVec 32
  eflags : BitVec 32
  mem : Memory

inductive Instr where
  /-- `mov dst, src` -/
  | mov (dst src : Reg)
  /-- `mov dst, [base + offset]` -/
  | load (dst base : Reg) (offset : Nat)
  /-- `mov ax, [base + offset]` -/
  | loadAx (base : Reg) (offset : Nat)
  /-- `mov dst, ax` -/
  | movSegment (dst : Segment)
  | push (src : Reg)
  /-- `push dword [base + offset]` -/
  | pushLoad (base : Reg) (offset : Nat)
  | pop (dst : Reg)
  | pushf
  /-- `or dst, value` -/
  | orValue (dst : Reg) (value : BitVec 32)
  /-- `add dst, value` -/
  | addValue (dst : Reg) (value : BitVec 32)
  /-- The push of the return address; the body that is called is executed next. -/
  | call (returnAddress : BitVec 32)
  | ret
  | iretd

namespace Machine

@[simp] def setReg (m : Machine) (dst : Reg) (word : BitVec 32) : Machine :=
  { m with reg := fun r => if r = dst then word else m.reg r }

@[simp] def setSegment (m : Machine) (dst : Segment) (selector : BitVec 16) : Machine :=
  { m with seg := fun s => if s = dst then selector else m.seg s }

@[simp] def pushWord (m : Machine) (word : BitVec 32) : Machine :=
  { m.setReg .esp (m.reg .esp - 4) with mem := store32 m.mem (m.reg .esp - 4) word }

@[simp] def top (m : Machine) : BitVec 32 := load32 m.mem (m.reg .esp)

@[simp] def drop (m : Machine) : Machine := m.setReg .esp (m.reg .esp + 4)

def level (selector : BitVec 16) : BitVec 16 := selector &&& 3

/-- The image of the flags that `pushf` stores: without `VM` and `RF`. -/
def flagsImage (m : Machine) : BitVec 32 := m.eflags &&& 0x00FCFFFF

/-- A return from level 0: the stack pointer and its segment are popped on a return to an outer level
only. -/
def interruptReturn (m : Machine) : Machine :=
  let eip := m.top
  let m := m.drop
  let cs := m.top.setWidth 16
  let m := m.drop
  let eflags := m.top
  let m := m.drop
  let m := { m.setSegment .cs cs with eip := eip, eflags := eflags }
  if level cs = 0 then m
  else
    let esp := m.top
    let m := m.drop
    let ss := m.top.setWidth 16
    (m.setSegment .ss ss).setReg .esp esp

/-- `flags` gives the flags after an arithmetic instruction, from the flags before it and its
result. -/
@[simp] def step (flags : BitVec 32 → BitVec 32 → BitVec 32) (m : Machine) : Instr → Machine
  | .mov dst src => m.setReg dst (m.reg src)
  | .load dst base offset => m.setReg dst (load32 m.mem (m.reg base + BitVec.ofNat 32 offset))
  | .loadAx base offset =>
      m.setReg .eax ((m.reg .eax).extractLsb' 16 16 ++
        load16 m.mem (m.reg base + BitVec.ofNat 32 offset))
  | .movSegment dst => m.setSegment dst ((m.reg .eax).setWidth 16)
  | .push src => m.pushWord (m.reg src)
  | .pushLoad base offset => m.pushWord (load32 m.mem (m.reg base + BitVec.ofNat 32 offset))
  | .pop dst => m.drop.setReg dst m.top
  | .pushf => m.pushWord m.flagsImage
  | .orValue dst value =>
      { m.setReg dst (m.reg dst ||| value) with eflags := flags m.eflags (m.reg dst ||| value) }
  | .addValue dst value =>
      { m.setReg dst (m.reg dst + value) with eflags := flags m.eflags (m.reg dst + value) }
  | .call returnAddress => m.pushWord returnAddress
  | .ret => { m.drop with eip := m.top }
  | .iretd => m.interruptReturn

@[simp] def exec (flags : BitVec 32 → BitVec 32 → BitVec 32) (m : Machine) (program : List Instr) :
    Machine :=
  program.foldl (step flags) m

theorem exec_append (flags : BitVec 32 → BitVec 32 → BitVec 32) (m : Machine)
    (program program' : List Instr) :
    m.exec flags (program ++ program') = (m.exec flags program).exec flags program' :=
  List.foldl_append

end Machine

def Disjoint (first : BitVec 32) (size : Nat) (second : BitVec 32) (size' : Nat) : Prop :=
  ∀ i < size, ∀ j < size', first + BitVec.ofNat 32 i ≠ second + BitVec.ofNat 32 j

theorem store32_of_ne {mem : Memory} {address word byte : BitVec 32}
    (hne : ∀ i < 4, byte ≠ address + BitVec.ofNat 32 i) :
    store32 mem address word byte = mem byte := by
  have h0 := hne 0 (by decide)
  have h1 := hne 1 (by decide)
  have h2 := hne 2 (by decide)
  have h3 := hne 3 (by decide)
  simp_all [store32]

@[simp] theorem load32_store32_self (mem : Memory) (address word : BitVec 32) :
    load32 (store32 mem address word) address = word := by
  have h1 : address + 1 ≠ address := by bv_omega
  have h2 : address + 2 ≠ address := by bv_omega
  have h3 : address + 3 ≠ address := by bv_omega
  have h21 : address + 2 ≠ address + 1 := by bv_omega
  have h31 : address + 3 ≠ address + 1 := by bv_omega
  have h32 : address + 3 ≠ address + 2 := by bv_omega
  simp only [load32, store32, if_true, if_neg h1, if_neg h2, if_neg h3, if_neg h21, if_neg h31,
    if_neg h32]
  rw [BitVec.extractLsb'_append_extractLsb'_eq_extractLsb' (show 24 = 16 + 8 from rfl),
    BitVec.extractLsb'_append_extractLsb'_eq_extractLsb' (show 16 = 8 + 8 from rfl),
    BitVec.extractLsb'_append_extractLsb'_eq_extractLsb' (show 8 = 0 + 8 from rfl)]
  exact BitVec.extractLsb'_eq_self

theorem load32_congr {mem mem' : Memory} {address : BitVec 32}
    (hsame : ∀ i < 4, mem' (address + BitVec.ofNat 32 i) = mem (address + BitVec.ofNat 32 i)) :
    load32 mem' address = load32 mem address := by
  have h0 := hsame 0 (by decide)
  have h1 := hsame 1 (by decide)
  have h2 := hsame 2 (by decide)
  have h3 := hsame 3 (by decide)
  simp_all [load32]

theorem load32_store32_of_disjoint {mem : Memory} {first second word : BitVec 32}
    {size size' i j : Nat} (hdisjoint : Disjoint first size second size') (hi : i + 4 ≤ size)
    (hj : j + 4 ≤ size') :
    load32 (store32 mem (first + BitVec.ofNat 32 i) word) (second + BitVec.ofNat 32 j) =
      load32 mem (second + BitVec.ofNat 32 j) := by
  refine load32_congr fun k hk => store32_of_ne fun l hl => ?_
  have hne := hdisjoint (i + l) (by omega) (j + k) (by omega)
  rw [BitVec.ofNat_add, BitVec.ofNat_add, ← BitVec.add_assoc, ← BitVec.add_assoc] at hne
  exact hne.symm

theorem load32_store32_of_apart {mem : Memory} {base word : BitVec 32} {i j : Nat}
    (hi : i < 0x80000000) (hj : j < 0x80000000) (hapart : i + 4 ≤ j ∨ j + 4 ≤ i) :
    load32 (store32 mem (base + BitVec.ofNat 32 i) word) (base + BitVec.ofNat 32 j) =
      load32 mem (base + BitVec.ofNat 32 j) := by
  refine load32_congr fun k hk => store32_of_ne fun l hl => ?_
  bv_omega

end X86
