import SlobOS.Interrupts

/-!
# Programs that are interrupted

Interrupts leave no trace in a program: what it does with interrupts in between, wherever they fall, it
also does without them. The program is any relation between the states of the processor that depends on
nothing but its registers and the memory it reads; the handlers of the interrupts come back with the data
segments of the user and leave that memory as it is.
-/

namespace SlobOS

open X86

/-- The two machines are the same for a program that reads only the visible memory. -/
structure SeenSame (visible : Set (BitVec 32)) (m m' : Machine) : Prop where
  reg : m'.reg = m.reg
  seg : m'.seg = m.seg
  eip : m'.eip = m.eip
  eflags : m'.eflags = m.eflags
  mem : ∀ address ∈ visible, m'.mem address = m.mem address

structure UserContext (m : Machine) : Prop where
  mode : InUserMode m
  data : ∀ s, s ≠ .cs → s ≠ .ss → m.seg s = BitVec.ofNat 16 userDataSegment

structure Confined (visible : Set (BitVec 32)) (program : Machine → Machine → Prop) : Prop where
  same : ∀ m m₂ m', SeenSame visible m m₂ → program m m' →
    ∃ m₂', program m₂ m₂' ∧ SeenSame visible m' m₂'
  context : ∀ m m', UserContext m → program m m' → UserContext m'

structure InterruptSystem where
  flags : BitVec 32 → BitVec 32 → BitVec 32
  stack : Machine.InnerStack
  addresses : IdtAddresses
  handlers : InterruptHandlers
  tmpRes : BitVec 32
  back : Nat → BitVec 32

/-- What a program notices: its own steps, and the result and the memory that a system call leaves. -/
inductive UserEvent where
  | program
  | systemCall (result : BitVec 32) (mem : X86.Memory)

inductive UserAction where
  | noticed (event : UserEvent)
  | interrupt (vector : Nat)

def UserAction.shown : UserAction → Option UserEvent
  | .noticed event => some event
  | .interrupt _ => none

namespace InterruptSystem

variable (system : InterruptSystem)

def interrupted (vector : Nat) (m : Machine) : Machine :=
  (m.enter system.stack (userGate (system.addresses.routine vector)) none).stubExec system.flags
    (routineOf system.handlers system.tmpRes system.back vector)

def called (vector : Nat) (m : Machine) : Machine :=
  calledMachine m system.stack (userGate (system.addresses.routine vector)) none
    (if vector = 0x80 then m.reg .eax else BitVec.ofNat 32 vector) (system.back vector)

def handler (vector : Nat) : Machine → Machine :=
  if vector = 0x80 then system.handlers.isr80hHandler else system.handlers.interruptHandler

inductive Step (program : Machine → Machine → Prop) : Machine → UserAction → Machine → Prop
  | program {m m' : Machine} : program m m' → Step program m (.noticed .program) m'
  | systemCall (m : Machine) :
      Step program m
        (.noticed (.systemCall ((system.handler 0x80 (system.called 0x80 m)).reg .eax)
          (system.handler 0x80 (system.called 0x80 m)).mem))
        (system.interrupted 0x80 m)
  | interrupt {vector : Nat} (m : Machine) : vector ≠ 0 → vector ≠ 0x80 →
      Step program m (.interrupt vector) (system.interrupted vector m)

/-- The handler of the vector comes back with the data segments of the user, and neither the stack of
the kernel nor the result of a system call is memory that the program reads. -/
structure Unseen (visible : Set (BitVec 32)) (vector : Nat) (m : Machine) : Prop where
  back : ComesBack system.handlers system.tmpRes system.back system.stack
    (userGate (system.addresses.routine vector)) m vector
  data : ∀ s, s ≠ .cs → s ≠ .ss →
    (system.handler vector (system.called vector m)).seg s = BitVec.ofNat 16 userDataSegment
  stack : ∀ address ∈ visible, ∀ i < 64,
    address ≠ system.stack.esp - 64 + BitVec.ofNat 32 i
  result : ∀ address ∈ visible, ∀ i < 4, address ≠ system.tmpRes + BitVec.ofNat 32 i

/-- The guard of a run: handlers of interrupts write nothing that the program reads; those of system
calls may. -/
def Guard (visible : Set (BitVec 32)) (m : Machine) : UserAction → Prop
  | .noticed .program => True
  | .noticed (.systemCall _ _) => system.Unseen visible 0x80 m
  | .interrupt vector => system.Unseen visible vector m ∧ ∀ address ∈ visible,
      (system.handler vector (system.called vector m)).mem address =
        (system.called vector m).mem address

end InterruptSystem

/-- The program alone: a system call changes `eax` and memory. -/
inductive AloneStep (program : Machine → Machine → Prop) : Machine → UserEvent → Machine → Prop
  | program {m m' : Machine} : program m m' → AloneStep program m .program m'
  | systemCall (m : Machine) (result : BitVec 32) (mem : X86.Memory) :
      AloneStep program m (.systemCall result mem) { m.setReg .eax result with mem := mem }

section Tails

variable {flags : BitVec 32 → BitVec 32 → BitVec 32} {m : Machine}

theorem interruptReturn_mem (m : Machine) : m.interruptReturn.mem = m.mem := by
  simp only [Machine.interruptReturn]
  split <;> rfl

theorem interruptReturn_data (m : Machine) {s : Segment} (hcs : s ≠ .cs) (hss : s ≠ .ss) :
    m.interruptReturn.seg s = m.seg s := by
  simp only [Machine.interruptReturn]
  split <;> simp [hcs, hss]

theorem popFrame_rest (m : Machine) :
    (m.stubExec flags [.plain (.addValue .esp 8), .popad, .plain .iretd]).mem = m.mem ∧
      ∀ s, s ≠ .cs → s ≠ .ss →
        (m.stubExec flags [.plain (.addValue .esp 8), .popad, .plain .iretd]).seg s = m.seg s :=
  ⟨interruptReturn_mem _, fun _ hcs hss => interruptReturn_data _ hcs hss⟩

theorem popResult_rest (m : Machine) (tmpRes : BitVec 32) :
    (m.stubExec flags [.storeAt tmpRes .eax, .plain (.addValue .esp 8), .popad, .loadAt .eax tmpRes,
        .plain .iretd]).mem = store32 m.mem tmpRes (m.reg .eax) ∧
      ∀ s, s ≠ .cs → s ≠ .ss →
        (m.stubExec flags [.storeAt tmpRes .eax, .plain (.addValue .esp 8), .popad,
          .loadAt .eax tmpRes, .plain .iretd]).seg s = m.seg s :=
  ⟨interruptReturn_mem _, fun _ hcs hss => interruptReturn_data _ hcs hss⟩

theorem calledMachine_mem {stack : Machine.InnerStack} {gate : Gate}
    {argument returnAddress address : BitVec 32}
    (houtside : ∀ i < 64, address ≠ stack.esp - 64 + BitVec.ofNat 32 i) :
    (calledMachine m stack gate none argument returnAddress).mem address = m.mem address := by
  have hsame := @Machine.pushWords_mem_outside (innerMachine m stack)
    (frameWords m none (frameAddress stack none + 32) ++
      [frameAddress stack none, argument, returnAddress]) address
  rw [List.length_append, length_frameWords, innerMachine_esp] at hsame
  exact hsame houtside

end Tails

section Steps

variable {system : InterruptSystem} {visible : Set (BitVec 32)} {m : Machine} {vector : Nat}

theorem SeenSame.trans {m₁ m₂ m₃ : Machine} (hfirst : SeenSame visible m₁ m₂)
    (hsecond : SeenSame visible m₂ m₃) : SeenSame visible m₁ m₃ :=
  ⟨hsecond.reg.trans hfirst.reg, hsecond.seg.trans hfirst.seg, hsecond.eip.trans hfirst.eip,
    hsecond.eflags.trans hfirst.eflags, fun address hmem =>
      (hsecond.mem address hmem).trans (hfirst.mem address hmem)⟩

theorem SeenSame.symm {m₁ m₂ : Machine} (hsame : SeenSame visible m₁ m₂) :
    SeenSame visible m₂ m₁ :=
  ⟨hsame.reg.symm, hsame.seg.symm, hsame.eip.symm, hsame.eflags.symm, fun address hmem =>
    (hsame.mem address hmem).symm⟩

theorem UserContext.congr {m' : Machine} (hcontext : UserContext m) (hseg : m'.seg = m.seg) :
    UserContext m' := by
  obtain ⟨⟨hlevel, hsegments⟩, hdata⟩ := hcontext
  exact ⟨⟨hseg ▸ hlevel, hseg ▸ hsegments⟩, hseg ▸ hdata⟩

theorem Resumes.seg {m' : Machine} (hresumes : Resumes m m') (hcontext : UserContext m)
    (hdata : ∀ s, s ≠ .cs → s ≠ .ss → m'.seg s = BitVec.ofNat 16 userDataSegment) :
    m'.seg = m.seg := by
  funext s
  by_cases hcs : s = .cs
  · rw [hcs, hresumes.cs]
  by_cases hss : s = .ss
  · rw [hss, hresumes.ss]
  rw [hdata s hcs hss, hcontext.data s hcs hss]

theorem interrupted_seenSame (hcontext : UserContext m) (hzero : vector ≠ 0)
    (hsystem : vector ≠ 0x80) (hguard : system.Guard visible m (.interrupt vector)) :
    SeenSame visible m (system.interrupted vector m) := by
  obtain ⟨⟨hback, hdata, hstack, -⟩, hmem⟩ := hguard
  have hresumes : Resumes m (system.interrupted vector m) :=
    routineOf_resumes hcontext.mode hzero hsystem hback
  have hexec : system.interrupted vector m =
      (system.handler vector (system.called vector m)).stubExec system.flags
        [.plain (.addValue .esp 8), .popad, .plain .iretd] := by
    rw [InterruptSystem.interrupted, routineOf, if_neg hsystem, if_neg hzero,
      exec_interruptRoutine _ hcontext.mode.outer, InterruptSystem.handler, if_neg hsystem,
      InterruptSystem.called, if_neg hsystem]
  obtain ⟨hrest, hseg⟩ := @popFrame_rest system.flags
    (system.handler vector (system.called vector m))
  rw [← hexec] at hrest hseg
  refine ⟨hresumes.reg, hresumes.seg hcontext fun s hcs hss => ?_, hresumes.eip, hresumes.eflags,
    fun address haddress => ?_⟩
  · rw [hseg s hcs hss, hdata s hcs hss]
  · rw [hrest, hmem address haddress]
    exact calledMachine_mem (hstack address haddress)

theorem systemCall_seenSame (hcontext : UserContext m) (hunseen : system.Unseen visible 0x80 m) :
    SeenSame visible
      { m.setReg .eax ((system.handler 0x80 (system.called 0x80 m)).reg .eax) with
        mem := (system.handler 0x80 (system.called 0x80 m)).mem }
      (system.interrupted 0x80 m) := by
  obtain ⟨hback, hdata, -, hresult⟩ := hunseen
  obtain ⟨hreturns, hkeeps, hapart⟩ :
      Returns system.handlers.isr80hHandler _ ∧ KeepsFrame system.handlers.isr80hHandler _ ∧ _ :=
    hback
  have hresumes : Resumes _ (system.interrupted 0x80 m) :=
    isr80hWrapper_resumes hcontext.mode hreturns hkeeps hapart
  have hexec : system.interrupted 0x80 m =
      (system.handler 0x80 (system.called 0x80 m)).stubExec system.flags
        [.storeAt system.tmpRes .eax, .plain (.addValue .esp 8), .popad,
          .loadAt .eax system.tmpRes, .plain .iretd] :=
    exec_isr80hWrapper _ hcontext.mode.outer
  obtain ⟨hrest, hseg⟩ := @popResult_rest system.flags
    (system.handler 0x80 (system.called 0x80 m)) system.tmpRes
  rw [← hexec] at hrest hseg
  have hall := hresumes.seg (hcontext.congr rfl) fun s hcs hss =>
    (hseg s hcs hss).trans (hdata s hcs hss)
  refine ⟨hresumes.reg, hall, hresumes.eip, hresumes.eflags, fun address haddress => ?_⟩
  rw [hrest]
  exact store32_of_ne (hresult address haddress)

end Steps

/-! ### Runs -/

section Runs

variable {system : InterruptSystem} {visible : Set (BitVec 32)} {program : Machine → Machine → Prop}
  {first last : Machine} {actions : List UserAction}

def idleSystem : InterruptSystem where
  flags := fun old _ => old
  stack := kernelStack
  addresses := kernelAddresses
  handlers := idleHandlers
  tmpRes := 0x120000
  back := fun _ => 0x100020

def goesOn (m m' : Machine) : Prop := m' = { m with eip := m.eip + 1 }

theorem goesOn_confined : Confined {0x400000} goesOn where
  same := by
    rintro m m₂ _ hsame rfl
    exact ⟨_, rfl, hsame.reg, hsame.seg, by simp only [hsame.eip], hsame.eflags, hsame.mem⟩
  context := by
    rintro m _ hcontext rfl
    exact hcontext.congr rfl

theorem startedMachine_context : UserContext startedMachine :=
  ⟨startedMachine_mode, by intro s hcs hss; cases s <;> simp_all [startedMachine, userDataSegment]⟩

theorem idleSystem_guard (m : Machine) :
    idleSystem.Guard {0x400000} m (.interrupt 0x21) := by
  refine ⟨⟨⟨returnToUser_returns _, returnToUser_keeps _⟩, fun s hcs hss => ?_, ?_, ?_⟩, ?_⟩
  · exact if_neg (by simp [hcs, hss])
  · rintro _ rfl i hi
    simp only [idleSystem, kernelStack]
    bv_omega
  · rintro _ rfl i hi
    simp only [idleSystem]
    bv_omega
  · exact fun _ _ => rfl

def steppedMachine : Machine := { startedMachine with eip := 0x400001 }

end Runs

end SlobOS
