import SlobOS.Proof.HeldMemory
import SlobOS.Proof.OwnedBlocks
import SlobOS.ProgramArguments

/-!
# The memory of the live processes

Everything that belongs to a process lies in chains of the kernel heap: its structure, its program,
its stack, its task with the page directory, and what it has asked for. The processes are kept apart
when no two of these chains are the same, and when the page directory of a process lets it write to
its own program, its own stack and its own allocations at most.
-/

namespace SlobOS

namespace Kernel

open Faulting

/-- What belongs to a process. `image` is the ELF file that `program` leads to, and the last four
belong to the task. -/
inductive Resource where
  | self
  | allocation (i : Nat)
  | program
  | image
  | stack
  | task
  | chunk
  | directory
  | table (i : Nat)

def addressOf (kernel : Kernel) (process : Nat) : Resource → Nat
  | .self => process
  | .allocation i => ((kernel.processMemory process).allocations i).ptr
  | .program => (kernel.processMemory process).data
  | .image => (kernel.elfFiles (kernel.processMemory process).data).elfMemory
  | .stack => (kernel.processMemory process).stack
  | .task => (kernel.sched.procs process).task
  | .chunk => (kernel.sched.list.tasks (kernel.sched.procs process).task).pageDirectory
  | .directory => kernel.directoryOf process
  | .table i => tableAddress (kernel.pages.directories (kernel.directoryOf process) i)

def Has (kernel : Kernel) (process : Nat) : Resource → Prop
  | .allocation i => ((kernel.processMemory process).allocations i).ptr ≠ 0
  | .image => (kernel.sched.procs process).filetype = .elf
  | .table i => i < pagingTotalEntriesPerTable
  | _ => True

def Occupies (kernel : Kernel) (process : Nat) (resource : Resource) (block : Nat) : Prop :=
  kernel.Has process resource ∧ Within kernel.heap (kernel.addressOf process resource) block

/-- The memory that the program of the process is given. The structure of an ELF file belongs to the
kernel. -/
def GivenToProgram (kernel : Kernel) (process : Nat) : Resource → Prop
  | .allocation _ => True
  | .program => (kernel.sched.procs process).filetype = .binary
  | .image => True
  | .stack => True
  | _ => False

def Registered (kernel : Kernel) (process : Nat) : Prop :=
  process ≠ 0 ∧ ∃ slot < slobosMaxProcesses, kernel.sched.processes slot = process

def frameOf (kernel : Kernel) (process page : Nat) : Nat :=
  pageFrame kernel.pages (kernel.directoryOf process) page

/-- The processes are kept apart from each other and from the kernel. -/
structure Isolated (kernel : Kernel) : Prop where
  apart : ∀ process other, kernel.Registered process → kernel.Registered other → ∀ resource resource' block,
    kernel.Occupies process resource block → kernel.Occupies other resource' block →
      process = other ∧ resource = resource'
  taken : ∀ process, kernel.Registered process → ∀ resource, kernel.Has process resource →
    ∃ block, kernel.Occupies process resource block
  writeable : ∀ process, kernel.Registered process → ∀ page < pageCount,
    UserWriteable kernel.pages (kernel.directoryOf process) page →
      ∃ resource block, kernel.GivenToProgram process resource ∧
        kernel.Occupies process resource block ∧
        kernel.frameOf process page = blockPage kernel.heap block

/-- How a page that the process can write to has been opened: by an allocation, at the address of the
page itself, or when the program was loaded. -/
inductive OpenedFor (kernel : Kernel) (process page : Nat) : Prop
  | allocated {i block : Nat} : kernel.Occupies process (.allocation i) block →
      page = blockPage kernel.heap block → kernel.frameOf process page = page →
      OpenedFor kernel process page
  | loaded {resource : Resource} {block : Nat} : (∀ i, resource ≠ .allocation i) →
      kernel.GivenToProgram process resource → kernel.Occupies process resource block →
      kernel.frameOf process page = blockPage kernel.heap block → OpenedFor kernel process page

/-- The resources of the process are chains of their own, its allocations are as long as their sizes,
and what it can write to has been opened for it. -/
structure Space (kernel : Kernel) (process : Nat) : Prop where
  owns : ∀ resource, kernel.Has process resource →
    Owns kernel.heap (kernel.addressOf process resource)
  distinct : ∀ resource resource', kernel.Has process resource → kernel.Has process resource' →
    kernel.addressOf process resource = kernel.addressOf process resource' → resource = resource'
  held : ∀ i, kernel.Has process (.allocation i) →
    HeldAllocation kernel.heap ((kernel.processMemory process).allocations i)
  opened : ∀ page < pageCount, UserWriteable kernel.pages (kernel.directoryOf process) page →
    kernel.OpenedFor process page

/-- The spaces of the live processes are apart, and each process knows its slot. -/
structure Partitioned (kernel : Kernel) : Prop where
  sound : HeapSound kernel.heap
  slot : ∀ slot < slobosMaxProcesses, kernel.sched.processes slot ≠ 0 →
    (kernel.sched.procs (kernel.sched.processes slot)).id = slot
  space : ∀ process, kernel.Registered process → kernel.Space process
  apart : ∀ process other, kernel.Registered process → kernel.Registered other → process ≠ other →
    ∀ resource resource', kernel.Has process resource → kernel.Has other resource' →
      kernel.addressOf process resource ≠ kernel.addressOf other resource'

variable {kernel middle after : Kernel} {process other page block : Nat} {resource : Resource}

theorem Occupies.holds (h : kernel.Occupies process resource block) (hsound : HeapSound kernel.heap) :
    Holds kernel.heap block :=
  h.2.holds hsound

theorem Partitioned.isolated (h : Partitioned kernel) : Isolated kernel where
  apart := by
    intro process other hlive hlive' resource resource' block hblock hblock'
    have haddress := hblock.2.unique hblock'.2
    by_cases heq : process = other
    · subst heq
      exact ⟨rfl, (h.space process hlive).distinct _ _ hblock.1 hblock'.1 haddress⟩
    · exact absurd haddress (h.apart process other hlive hlive' heq _ _ hblock.1 hblock'.1)
  taken := by
    intro process hlive resource hhas
    obtain ⟨block, hwithin⟩ := (h.space process hlive).owns resource hhas
    exact ⟨block, hhas, hwithin⟩
  writeable := by
    intro process hlive page hpage hopen
    cases (h.space process hlive).opened page hpage hopen with
    | @allocated i block hblock hat hframe =>
        exact ⟨.allocation i, block, trivial, hblock, hframe.trans hat⟩
    | loaded _ hgiven hblock hframe => exact ⟨_, _, hgiven, hblock, hframe⟩

/-! ### What a bystander does not notice -/

structure SameAt (address : Nat) (kernel after : Kernel) : Prop where
  process : after.sched.procs address = kernel.sched.procs address
  memory : after.processMemory address = kernel.processMemory address
  elfFile : after.elfFiles address = kernel.elfFiles address
  task : (after.sched.list.tasks address).pageDirectory =
    (kernel.sched.list.tasks address).pageDirectory
  chunk : after.chunks address = kernel.chunks address
  directory : after.pages.directories address = kernel.pages.directories address
  table : after.pages.tables address = kernel.pages.tables address

instance (address : Nat) : Frame (SameAt address) where
  refl _ := ⟨rfl, rfl, rfl, rfl, rfl, rfl, rfl⟩
  trans h h' :=
    ⟨h'.process.trans h.process, h'.memory.trans h.memory, h'.elfFile.trans h.elfFile,
      h'.task.trans h.task, h'.chunk.trans h.chunk, h'.directory.trans h.directory,
      h'.table.trans h.table⟩

/-- The block stays taken with all that is in it, and so does what has been built at its address. -/
structure LeavesBlock (block : Nat) (kernel after : Kernel) : Prop where
  spares : Spares block kernel.heap after.heap
  untouched : Untouched block kernel after
  same : SameAt (slobosHeapAddress + block * slobosHeapBlockSize) kernel after

def Leaves (process : Nat) (kernel after : Kernel) : Prop :=
  ∀ resource block, kernel.Occupies process resource block → LeavesBlock block kernel after

theorem LeavesBlock.refl (h : Holds kernel.heap block) : LeavesBlock block kernel kernel :=
  ⟨.refl h, Frame.refl _, Frame.refl _⟩

theorem LeavesBlock.trans (h : LeavesBlock block kernel middle)
    (h' : LeavesBlock block middle after) : LeavesBlock block kernel after :=
  ⟨h.spares.trans h'.spares, Frame.trans h.untouched h'.untouched, Frame.trans h.same h'.same⟩

namespace Space

variable (h : kernel.Space process) (hleaves : Leaves process kernel after)
  (hsound : HeapSound kernel.heap)

include h hleaves hsound

theorem sameAt (hhas : kernel.Has process resource) :
    SameAt (kernel.addressOf process resource) kernel after := by
  obtain ⟨block, hwithin⟩ := h.owns resource hhas
  obtain ⟨first, hlt, haddress, hfirst⟩ := hwithin.head
  rw [haddress, hsound.address hlt]
  exact (hleaves resource first ⟨hhas, hfirst⟩).same

theorem sameAt_self : SameAt process kernel after :=
  @sameAt kernel after process .self h hleaves hsound trivial

theorem sameAt_directory : after.pages.directories (kernel.directoryOf process) =
    kernel.pages.directories (kernel.directoryOf process) :=
  (@sameAt kernel after process .directory h hleaves hsound trivial).directory

theorem directoryOf_eq : after.directoryOf process = kernel.directoryOf process := by
  have hself := h.sameAt_self hleaves hsound
  have htask := (@sameAt kernel after process .task h hleaves hsound trivial).task
  have hchunk := (@sameAt kernel after process .chunk h hleaves hsound trivial).chunk
  simp only [addressOf] at htask hchunk
  rw [directoryOf, hself.process, htask, hchunk, directoryOf]

theorem addressOf_eq (resource : Resource) :
    after.addressOf process resource = kernel.addressOf process resource := by
  have hself := h.sameAt_self hleaves hsound
  cases resource with
  | self => rfl
  | allocation i => simp only [addressOf, hself.memory]
  | program => simp only [addressOf, hself.memory]
  | image =>
      have hprogram := (@sameAt kernel after process .program h hleaves hsound trivial).elfFile
      simp only [addressOf] at hprogram ⊢
      rw [hself.memory, hprogram]
  | stack => simp only [addressOf, hself.memory]
  | task => simp only [addressOf, hself.process]
  | chunk =>
      have htask := (@sameAt kernel after process .task h hleaves hsound trivial).task
      simp only [addressOf] at htask ⊢
      rw [hself.process, htask]
  | directory => exact h.directoryOf_eq hleaves hsound
  | table i =>
      simp only [addressOf]
      rw [h.directoryOf_eq hleaves hsound, h.sameAt_directory hleaves hsound]

theorem has_iff (resource : Resource) : after.Has process resource ↔ kernel.Has process resource := by
  have hself := h.sameAt_self hleaves hsound
  cases resource <;> simp only [Has, hself.memory, hself.process]

theorem occupies_iff (resource : Resource) (block : Nat) :
    after.Occupies process resource block ↔ kernel.Occupies process resource block := by
  unfold Occupies
  rw [h.has_iff hleaves hsound, h.addressOf_eq hleaves hsound]
  refine and_congr_right fun hhas => (h.owns resource hhas).spared hsound fun block hwithin => ?_
  exact (hleaves resource block ⟨hhas, hwithin⟩).spares

theorem pageEntry_eq (hpage : page < pageCount) :
    pageEntry after.pages (after.directoryOf process) page =
      pageEntry kernel.pages (kernel.directoryOf process) page := by
  have htable := (@sameAt kernel after process (.table (page / pagingTotalEntriesPerTable)) h hleaves
    hsound (directoryIndex_lt hpage)).table
  simp only [addressOf] at htable
  rw [pageEntry, pageEntry, h.directoryOf_eq hleaves hsound, h.sameAt_directory hleaves hsound, htable]

theorem userWriteable_iff (hpage : page < pageCount) :
    UserWriteable after.pages (after.directoryOf process) page ↔
      UserWriteable kernel.pages (kernel.directoryOf process) page := by
  unfold UserWriteable
  rw [h.pageEntry_eq hleaves hsound hpage, h.directoryOf_eq hleaves hsound,
    h.sameAt_directory hleaves hsound]

theorem frameOf_eq (hpage : page < pageCount) :
    after.frameOf process page = kernel.frameOf process page := by
  rw [frameOf, frameOf, pageFrame, pageFrame, h.pageEntry_eq hleaves hsound hpage]

theorem givenToProgram_iff (resource : Resource) :
    after.GivenToProgram process resource ↔ kernel.GivenToProgram process resource := by
  have hself := h.sameAt_self hleaves hsound
  cases resource <;> simp only [GivenToProgram, hself.process]

theorem left : after.Space process where
  owns := by
    intro resource hhas
    obtain ⟨block, hwithin⟩ := h.owns resource ((h.has_iff hleaves hsound _).mp hhas)
    exact ⟨block, ((h.occupies_iff hleaves hsound resource block).mpr
      ⟨(h.has_iff hleaves hsound _).mp hhas, hwithin⟩).2⟩
  distinct := by
    intro resource resource' hhas hhas' heq
    rw [h.addressOf_eq hleaves hsound, h.addressOf_eq hleaves hsound] at heq
    exact h.distinct _ _ ((h.has_iff hleaves hsound _).mp hhas)
      ((h.has_iff hleaves hsound _).mp hhas') heq
  held := by
    intro i hhas
    have hself := h.sameAt_self hleaves hsound
    have hhas' := (h.has_iff hleaves hsound _).mp hhas
    rw [hself.memory]
    exact (h.held i hhas').spared hsound fun block hwithin =>
      (hleaves (.allocation i) block ⟨hhas', hwithin⟩).spares
  opened := by
    intro page hpage hopen
    have hsound' : HeapSound after.heap := by
      obtain ⟨block, hwithin⟩ := h.owns .self trivial
      exact (hleaves .self block ⟨trivial, hwithin⟩).spares.holds.toHeapSound
    cases h.opened page hpage ((h.userWriteable_iff hleaves hsound hpage).mp hopen) with
    | @allocated i block hblock hat hframe =>
        refine .allocated ((h.occupies_iff hleaves hsound _ block).mpr hblock) ?_ ?_
        · rw [blockPage_congr hsound hsound']
          exact hat
        · rw [h.frameOf_eq hleaves hsound hpage]
          exact hframe
    | @loaded resource block hne hgiven hblock hframe =>
        refine .loaded hne ((h.givenToProgram_iff hleaves hsound _).mpr hgiven)
          ((h.occupies_iff hleaves hsound _ block).mpr hblock) ?_
        rw [h.frameOf_eq hleaves hsound hpage, blockPage_congr hsound hsound']
        exact hframe

end Space

/-- A step for the process `actor`, which may take or leave a slot by it. -/
structure ActsFor (actor : Nat) (kernel after : Kernel) : Prop where
  sound : HeapSound after.heap
  slots : ∀ slot < slobosMaxProcesses, after.sched.processes slot = kernel.sched.processes slot ∨
    ((kernel.sched.processes slot = 0 ∨ kernel.sched.processes slot = actor) ∧
      (after.sched.processes slot = 0 ∨ after.sched.processes slot = actor))
  leaves : ∀ other, kernel.Registered other → other ≠ actor → Leaves other kernel after
  known : after.Registered actor → ∀ slot < slobosMaxProcesses, after.sched.processes slot = actor →
    (after.sched.procs actor).id = slot
  space : after.Registered actor → after.Space actor
  apart : after.Registered actor → ∀ other, kernel.Registered other → other ≠ actor →
    ∀ resource resource', after.Has actor resource → kernel.Has other resource' →
      after.addressOf actor resource ≠ kernel.addressOf other resource'

namespace ActsFor

variable {actor : Nat} (hacts : ActsFor actor kernel after)

include hacts

theorem registered (hother : kernel.Registered other) (hne : other ≠ actor) : after.Registered other := by
  obtain ⟨hnull, slot, hslot, heq⟩ := hother
  refine ⟨hnull, slot, hslot, ?_⟩
  rcases hacts.slots slot hslot with hsame | ⟨hempty | hactor, -⟩
  · exact hsame.trans heq
  · exact absurd (heq.symm.trans hempty) hnull
  · exact absurd (heq.symm.trans hactor) hne

theorem was_registered (hother : after.Registered other) (hne : other ≠ actor) :
    kernel.Registered other := by
  obtain ⟨hnull, slot, hslot, heq⟩ := hother
  refine ⟨hnull, slot, hslot, ?_⟩
  rcases hacts.slots slot hslot with hsame | ⟨-, hempty | hactor⟩
  · exact hsame.symm.trans heq
  · exact absurd (heq.symm.trans hempty) hnull
  · exact absurd (heq.symm.trans hactor) hne

theorem partitioned (h : Partitioned kernel) : Partitioned after := by
  have hleaves : ∀ other, after.Registered other → other ≠ actor →
      kernel.Registered other ∧ kernel.Space other ∧ Leaves other kernel after := fun other hother hne =>
    have hbefore := hacts.was_registered hother hne
    ⟨hbefore, h.space other hbefore, hacts.leaves other hbefore hne⟩
  refine ⟨hacts.sound, fun slot hslot hne => ?_, fun process hprocess => ?_, ?_⟩
  · have hregistered : after.Registered (after.sched.processes slot) := ⟨hne, slot, hslot, rfl⟩
    by_cases hactor : after.sched.processes slot = actor
    · rw [hactor] at hregistered ⊢
      exact hacts.known hregistered slot hslot hactor
    · obtain ⟨-, hspace, hleft⟩ := hleaves _ hregistered hactor
      rw [(hspace.sameAt_self hleft h.sound).process]
      rcases hacts.slots slot hslot with hsame | ⟨-, hempty | hactor'⟩
      · rw [hsame] at hne ⊢
        exact h.slot slot hslot hne
      · exact absurd hempty hne
      · exact absurd hactor' hactor
  · by_cases hactor : process = actor
    · exact hactor ▸ hacts.space (hactor ▸ hprocess)
    · obtain ⟨-, hspace, hleft⟩ := hleaves process hprocess hactor
      exact hspace.left hleft h.sound
  · intro process other hprocess hother hne resource resource' hhas hhas'
    by_cases hactor : process = actor
    · subst hactor
      obtain ⟨hbefore, hspace, hleft⟩ := hleaves other hother (Ne.symm hne)
      rw [hspace.addressOf_eq hleft h.sound]
      exact hacts.apart hprocess other hbefore (Ne.symm hne) _ _ hhas
        ((hspace.has_iff hleft h.sound _).mp hhas')
    obtain ⟨hbefore, hspace, hleft⟩ := hleaves process hprocess hactor
    rw [hspace.addressOf_eq hleft h.sound]
    have hhas := (hspace.has_iff hleft h.sound _).mp hhas
    by_cases hactor' : other = actor
    · subst hactor'
      exact (hacts.apart hother process hbefore hactor _ _ hhas' hhas).symm
    · obtain ⟨hbefore', hspace', hleft'⟩ := hleaves other hother hactor'
      rw [hspace'.addressOf_eq hleft' h.sound]
      exact h.apart process other hbefore hbefore' hne _ _ hhas
        ((hspace'.has_iff hleft' h.sound _).mp hhas')

end ActsFor

end Kernel

end SlobOS
