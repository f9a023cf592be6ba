import SlobOS.Config
import SlobOS.Lib.Interrupts

/-!
# The interrupt descriptor table

`idt/idt.c`: the descriptors that `idt_init` builds, and the callbacks behind the routines of
`idt/idt.asm`. The addresses of routines and data are those of the linked kernel.
-/

namespace SlobOS

open X86

def slobosTotalInterrupts : Nat := 512
def kernelCodeSelector : BitVec 16 := 0x08

structure IdtDesc where
  offset1 : BitVec 16
  selector : BitVec 16
  zero : BitVec 8
  typeAttr : BitVec 8
  offset2 : BitVec 16

inductive InterruptCallback where
  | idtHandleException
  | ps2KeyboardHandleInterrupt
  deriving DecidableEq

/-- The static data of `idt.c`; `limit` and `base` are those of `idtr_descriptor`. -/
structure Idt where
  descriptors : Nat → IdtDesc
  limit : BitVec 16
  base : BitVec 32
  callbacks : Nat → Option InterruptCallback

structure IdtAddresses where
  interruptPointerTable : Nat → BitVec 32
  idtZero : BitVec 32
  isr80hWrapper : BitVec 32
  idtDescriptors : BitVec 32

def IdtDesc.bytes (desc : IdtDesc) : Nat → BitVec 8
  | 0 => desc.offset1.extractLsb' 0 8
  | 1 => desc.offset1.extractLsb' 8 8
  | 2 => desc.selector.extractLsb' 0 8
  | 3 => desc.selector.extractLsb' 8 8
  | 4 => desc.zero
  | 5 => desc.typeAttr
  | 6 => desc.offset2.extractLsb' 0 8
  | _ => desc.offset2.extractLsb' 8 8

def idtDescSize : Nat := 8

def idtSet (idt : Idt) (interruptNo : Nat) (address : BitVec 32) : Idt :=
  let desc : IdtDesc :=
    { offset1 := (address &&& 0x0000ffff).setWidth 16
      selector := kernelCodeSelector
      zero := 0x00
      typeAttr := 0xEE
      offset2 := (address >>> 16).setWidth 16 }
  { idt with descriptors := fun i => if i = interruptNo then desc else idt.descriptors i }

def idtRegisterInterruptCallback (idt : Idt) (interrupt : Int) (callback : InterruptCallback) :
    Int × Idt :=
  if interrupt < 0 ∨ (slobosTotalInterrupts : Int) ≤ interrupt then (-einvarg, idt)
  else
    (0, { idt with
      callbacks := fun i => if i = interrupt.toNat then some callback else idt.callbacks i })

def idtInit (addresses : IdtAddresses) (idt : Idt) : Idt :=
  let idt : Idt :=
    { idt with
      descriptors := fun _ => { offset1 := 0, selector := 0, zero := 0, typeAttr := 0, offset2 := 0 }
      limit := BitVec.ofNat 16 (slobosTotalInterrupts * idtDescSize - 1)
      base := addresses.idtDescriptors }
  let idt := (List.range slobosTotalInterrupts).foldl
    (fun idt i => idtSet idt i (addresses.interruptPointerTable i)) idt
  let idt := idtSet idt 0 addresses.idtZero
  let idt := idtSet idt 0x80 addresses.isr80hWrapper
  (List.range 0x20).foldl
    (fun idt (i : Nat) => (idtRegisterInterruptCallback idt i .idtHandleException).2) idt

def blankIdt : Idt where
  descriptors := fun _ => { offset1 := 0, selector := 0, zero := 0, typeAttr := 0, offset2 := 0 }
  limit := 0
  base := 0
  callbacks := fun _ => none

def kernelAddresses : IdtAddresses where
  interruptPointerTable := fun vector => 0x100100 + BitVec.ofNat 32 (16 * vector)
  idtZero := 0x100000
  isr80hWrapper := 0x100010
  idtDescriptors := 0x110000

def IdtAddresses.routine (addresses : IdtAddresses) (vector : Nat) : BitVec 32 :=
  if vector = 0x80 then addresses.isr80hWrapper
  else if vector = 0 then addresses.idtZero
  else addresses.interruptPointerTable vector

/-- The gate of a routine: an interrupt gate of the kernel that every level may use. -/
def userGate (routine : BitVec 32) : Gate where
  offset := routine
  selector := kernelCodeSelector
  attributes := 0xEE

theorem userGate_isInterrupt (routine : BitVec 32) : (userGate routine).IsInterrupt :=
  show (0xEE : BitVec 8) &&& 0x1F = 0x0E by decide

section Descriptors

variable (idt : Idt) (addresses : IdtAddresses)

theorem idtSet_self (interruptNo : Nat) (address : BitVec 32) :
    Gate.ofBytes ((idtSet idt interruptNo address).descriptors interruptNo).bytes =
      userGate address := by
  simp only [Gate.ofBytes, userGate, idtSet, if_true, IdtDesc.bytes, Gate.mk.injEq, kernelCodeSelector]
  refine ⟨?_, by decide, trivial⟩
  apply BitVec.eq_of_getLsbD_eq
  intro i hi
  have hmask : ∀ j < 16, (0x0000ffff#32).getLsbD j = true := by decide
  simp only [BitVec.getLsbD_append, BitVec.getLsbD_extractLsb', BitVec.getLsbD_setWidth,
    BitVec.getLsbD_and, BitVec.getLsbD_ushiftRight]
  by_cases h8 : i < 8
  · simp [h8, hmask i (by omega), show i < 16 by omega]
  by_cases h16 : i - 8 < 8
  · simp [h8, h16, hmask i (by omega), show 8 + (i - 8) = i by omega, show i < 16 by omega]
  by_cases h24 : i - 8 - 8 < 8
  · simp [h8, h16, h24, show i - 8 - 8 < 16 by omega, show 16 + (i - 8 - 8) = i by omega]
  · simp [h8, h16, h24, show i - 8 - 8 - 8 < 8 by omega, show 8 + (i - 8 - 8 - 8) < 16 by omega,
      show 16 + (8 + (i - 8 - 8 - 8)) = i by omega]

theorem idtSet_other {interruptNo vector : Nat} (address : BitVec 32) (hne : vector ≠ interruptNo) :
    (idtSet idt interruptNo address).descriptors vector = idt.descriptors vector :=
  if_neg hne

theorem idtSet_callbacks (interruptNo : Nat) (address : BitVec 32) :
    (idtSet idt interruptNo address).callbacks = idt.callbacks :=
  rfl

theorem foldl_idtSet_gate (table : Nat → BitVec 32) {count vector : Nat} (hvector : vector < count) :
    Gate.ofBytes (((List.range count).foldl (fun idt i => idtSet idt i (table i)) idt).descriptors
      vector).bytes = userGate (table vector) := by
  induction count with
  | zero => exact absurd hvector (Nat.not_lt_zero vector)
  | succ count ih =>
      rw [List.range_succ, List.foldl_append, List.foldl_cons, List.foldl_nil]
      rcases Nat.lt_succ_iff_lt_or_eq.mp hvector with hlt | rfl
      · rw [idtSet_other _ _ (Nat.ne_of_lt hlt), ih hlt]
      · exact idtSet_self _ _ _

theorem foldl_idtSet_callbacks (table : Nat → BitVec 32) (vectors : List Nat) :
    (vectors.foldl (fun idt i => idtSet idt i (table i)) idt).callbacks = idt.callbacks := by
  induction vectors generalizing idt with
  | nil => rfl
  | cons vector vectors ih => rw [List.foldl_cons, ih, idtSet_callbacks]

theorem idtRegisterInterruptCallback_rest (interrupt : Int) (callback : InterruptCallback) :
    (idtRegisterInterruptCallback idt interrupt callback).2.descriptors = idt.descriptors ∧
      (idtRegisterInterruptCallback idt interrupt callback).2.limit = idt.limit ∧
      (idtRegisterInterruptCallback idt interrupt callback).2.base = idt.base := by
  unfold idtRegisterInterruptCallback
  split_ifs <;> exact ⟨rfl, rfl, rfl⟩

theorem idtRegisterInterruptCallback_callbacks {vector : Nat} (hvector : vector < slobosTotalInterrupts)
    (callback : InterruptCallback) (i : Nat) :
    (idtRegisterInterruptCallback idt vector callback).2.callbacks i =
      if i = vector then some callback else idt.callbacks i := by
  have hrange : ¬((vector : Int) < 0 ∨ (slobosTotalInterrupts : Int) ≤ vector) := by omega
  rw [idtRegisterInterruptCallback, if_neg hrange, Int.toNat_natCast]

theorem foldl_register_rest (vectors : List Nat) (callback : InterruptCallback) :
    (vectors.foldl (fun idt (i : Nat) => (idtRegisterInterruptCallback idt i callback).2) idt).descriptors =
        idt.descriptors ∧
      (vectors.foldl (fun idt (i : Nat) => (idtRegisterInterruptCallback idt i callback).2) idt).limit =
        idt.limit ∧
      (vectors.foldl (fun idt (i : Nat) => (idtRegisterInterruptCallback idt i callback).2) idt).base =
        idt.base := by
  induction vectors generalizing idt with
  | nil => exact ⟨rfl, rfl, rfl⟩
  | cons vector vectors ih =>
      obtain ⟨hdescriptors, hlimit, hbase⟩ :=
        idtRegisterInterruptCallback_rest idt vector callback
      obtain ⟨hdescriptors', hlimit', hbase'⟩ := ih (idtRegisterInterruptCallback idt vector callback).2
      exact ⟨hdescriptors'.trans hdescriptors, hlimit'.trans hlimit, hbase'.trans hbase⟩

theorem foldl_register_callbacks {count : Nat} (hcount : count ≤ slobosTotalInterrupts)
    (callback : InterruptCallback) (vector : Nat) :
    ((List.range count).foldl (fun idt (i : Nat) => (idtRegisterInterruptCallback idt i callback).2)
      idt).callbacks vector =
      if vector < count then some callback else idt.callbacks vector := by
  induction count with
  | zero => rfl
  | succ count ih =>
      rw [List.range_succ, List.foldl_append, List.foldl_cons, List.foldl_nil,
        idtRegisterInterruptCallback_callbacks _ (Nat.lt_of_succ_le hcount),
        ih (Nat.le_of_succ_le hcount)]
      rcases Nat.lt_trichotomy vector count with hlt | rfl | hgt
      · rw [if_neg (Nat.ne_of_lt hlt), if_pos hlt, if_pos (Nat.lt_succ_of_lt hlt)]
      · rw [if_pos rfl, if_pos (Nat.lt_succ_self vector)]
      · rw [if_neg (Nat.ne_of_gt hgt), if_neg (by omega), if_neg (by omega)]

theorem idtInit_gate {vector : Nat} (hvector : vector < slobosTotalInterrupts) :
    Gate.ofBytes ((idtInit addresses idt).descriptors vector).bytes =
      userGate (addresses.routine vector) := by
  rw [idtInit, (foldl_register_rest _ _ _).1]
  by_cases hsystem : vector = 0x80
  · subst hsystem
    exact idtSet_self _ _ _
  rw [idtSet_other _ _ hsystem]
  by_cases hzero : vector = 0
  · subst hzero
    exact idtSet_self _ _ _
  rw [idtSet_other _ _ hzero, foldl_idtSet_gate _ _ hvector, IdtAddresses.routine, if_neg hsystem,
    if_neg hzero]

theorem idtInit_callbacks (vector : Nat) : (idtInit addresses idt).callbacks vector =
    if vector < 0x20 then some .idtHandleException else idt.callbacks vector := by
  rw [idtInit, foldl_register_callbacks _ (by decide), idtSet_callbacks, idtSet_callbacks,
    foldl_idtSet_callbacks]

end Descriptors

end SlobOS
