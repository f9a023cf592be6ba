import SlobOS.Proof.SpaceCalls

/-!
# The requests of a process

What a process is given becomes one more chain of its space, open to it at its own address. What it
gives back is closed before its chain is released.
-/

namespace SlobOS

open Tilings

namespace Kernel

open Faulting

variable {kernel alloc after : Kernel} {block ptr size process index : Nat} {pages : PageTables}
  {resource : Resource}

theorem Space.distinctTables (h : kernel.Space process) :
    DistinctTables kernel.pages (kernel.directoryOf process) := by
  intro i hi j hj heq
  exact Resource.table.inj (h.distinct (.table i) (.table j) hi hj heq)

theorem pageOffset_add {page at' : Nat} (hpage : page < pageCount) (hat : at' < pageCount) :
    (page + pageOffset page at') % pageCount = at' := by
  simp only [pageOffset, pageCount] at *
  omega

section Grants

def withAllocation (alloc : Kernel) (process index ptr size : Nat) (pages : PageTables) : Kernel :=
  setAllocations process (grantedAllocations alloc process index ptr size) (Kernel.setPages pages alloc)

theorem withAllocation_memory : (withAllocation alloc process index ptr size pages).processMemory process =
    { alloc.processMemory process with
      allocations := grantedAllocations alloc process index ptr size } := by
  simp only [withAllocation, setAllocations, setProcessMemory, if_true]
  rfl

theorem withAllocation_address :
    (withAllocation alloc process index ptr size pages).addressOf process (.allocation index) = ptr := by
  simp only [addressOf, withAllocation_memory, grantedAllocations, if_true]

theorem withAllocation_other (hdirectories : pages.directories = alloc.pages.directories)
    (hother : resource ≠ .allocation index) :
    (withAllocation alloc process index ptr size pages).addressOf process resource =
        alloc.addressOf process resource ∧
      ((withAllocation alloc process index ptr size pages).Has process resource ↔
        alloc.Has process resource) := by
  cases resource with
  | allocation i =>
      have hi : i ≠ index := fun heq => hother (heq ▸ rfl)
      simp only [addressOf, Has, withAllocation_memory, grantedAllocations, if_neg hi, and_self]
  | table i =>
      have hentry := congrFun (congrFun hdirectories (alloc.directoryOf process)) i
      exact ⟨congrArg tableAddress hentry, Iff.rfl⟩
  | program => simp only [addressOf, Has, withAllocation_memory, and_self]
  | image =>
      simp only [addressOf, Has, withAllocation_memory]
      exact ⟨rfl, Iff.rfl⟩
  | stack => simp only [addressOf, Has, withAllocation_memory, and_self]
  | _ => exact ⟨rfl, Iff.rfl⟩

theorem withAllocation_occupies (hdirectories : pages.directories = alloc.pages.directories)
    (hother : resource ≠ .allocation index) :
    (withAllocation alloc process index ptr size pages).Occupies process resource block ↔
      alloc.Occupies process resource block := by
  obtain ⟨haddress, hhas⟩ := @withAllocation_other alloc ptr size process index pages resource
    hdirectories hother
  rw [Occupies, Occupies, haddress, hhas]
  rfl

theorem Space.grant (h : alloc.Space process) (hsound : HeapSound alloc.heap)
    (hheld : HeldAllocation alloc.heap ⟨ptr, size⟩)
    (hnew : ∀ resource, alloc.Has process resource → alloc.addressOf process resource ≠ ptr)
    (hnull : ptr ≠ 0) (hempty : ((alloc.processMemory process).allocations index).ptr = 0)
    (hmaps : Maps alloc.pages pages (alloc.directoryOf process)
      (0x2000 + ((⟨ptr, size⟩ : ProcessAllocation).span alloc.heap).start)
      (0x2000 + ((⟨ptr, size⟩ : ProcessAllocation).span alloc.heap).start)
      ((⟨ptr, size⟩ : ProcessAllocation).span alloc.heap).len 7) :
    (withAllocation alloc process index ptr size pages).Space process := by
  have hother := fun resource => @withAllocation_other alloc ptr size process index pages resource
    hmaps.directories
  refine ⟨fun resource hhas => ?_, fun resource resource' hhas hhas' heq => ?_, fun i hhas => ?_,
    fun page hpage hopen => ?_⟩
  · by_cases heq : resource = .allocation index
    · rw [heq, withAllocation_address]
      exact hheld.owns
    · rw [(hother resource heq).1]
      exact h.owns resource ((hother resource heq).2.mp hhas)
  · by_cases hindex : resource = .allocation index
    · subst hindex
      by_contra hne
      rw [withAllocation_address, (hother resource' (Ne.symm hne)).1] at heq
      exact hnew resource' ((hother resource' (Ne.symm hne)).2.mp hhas') heq.symm
    · rw [(hother resource hindex).1] at heq
      have hhas := (hother resource hindex).2.mp hhas
      by_cases hindex' : resource' = .allocation index
      · subst hindex'
        rw [withAllocation_address] at heq
        exact absurd heq (hnew resource hhas)
      · rw [(hother resource' hindex').1] at heq
        exact h.distinct resource resource' hhas ((hother resource' hindex').2.mp hhas') heq
  · rw [withAllocation_memory]
    by_cases hi : i = index
    · simp only [grantedAllocations, if_pos hi]
      exact hheld
    · have hne : Resource.allocation i ≠ .allocation index := fun heq => hi (Resource.allocation.inj heq)
      simp only [grantedAllocations, if_neg hi]
      exact h.held i ((hother _ hne).2.mp hhas)
  · rcases hmaps.userWriteable h.distinctTables (by decide) hpage hopen with ⟨hin, -⟩ | ⟨hout, hbefore⟩
    · -- The page is one of the new allocation.
      obtain ⟨block, hwithin, hblock⟩ := hheld.pageBlock hsound hin
      obtain ⟨hptr, -, hlt⟩ := hheld.pages hsound
      have hat := @pageOffset_add (0x2000 + ((⟨ptr, size⟩ : ProcessAllocation).span alloc.heap).start)
        page (by omega) hpage
      rw [hptr, Nat.mul_div_cancel _ (by decide), hat] at hblock
      refine @OpenedFor.allocated _ process page index block
        ⟨fun heq => hnull (withAllocation_address.symm.trans heq), ?_⟩ hblock ?_
      · rw [withAllocation_address]
        exact hwithin
      · exact (hmaps.pageFrame_eq h.distinctTables hpage hin).trans hat
    · have hframe : (withAllocation alloc process index ptr size pages).frameOf process page =
          alloc.frameOf process page := by
        have hentry := hmaps.entry h.distinctTables page hpage
        rw [if_neg hout] at hentry
        exact congrArg (· / pagingPageSize % pageCount) hentry
      cases h.opened page hpage hbefore with
      | @allocated i block hblock hat hat' =>
          have hne : Resource.allocation i ≠ .allocation index := fun heq =>
            hblock.1 (Resource.allocation.inj heq ▸ hempty)
          exact .allocated ((withAllocation_occupies hmaps.directories hne).mpr hblock) hat
            (hframe.trans hat')
      | @loaded resource block hloaded hgiven hblock hat =>
          refine .loaded hloaded ?_ ((withAllocation_occupies hmaps.directories (hloaded index)).mpr hblock)
            (hframe.trans hat)
          cases resource <;> exact hgiven

end Grants

/-! ### `process_malloc` -/

theorem processMalloc_keepsProcesses (process size : Nat) :
    Keeps KeepsProcesses (processMalloc process size) := by
  refine ⟨fun h => ?_⟩
  have hfree : ∀ kernel ptr, KeepsProcesses kernel { kernel with heap := heapFree kernel.heap ptr } :=
    fun kernel ptr => ⟨⟨fun hsound => hsound.free ptr, rfl⟩, rfl⟩
  cases processMalloc_cases h with
  | refused halloc => exact (HeapFrame.kzalloc _).of_ends halloc
  | full halloc => exact Frame.trans ((HeapFrame.kzalloc _).of_ends halloc) (hfree _ _)
  | unmapped halloc =>
      refine Frame.trans ((HeapFrame.kzalloc _).of_ends halloc) ?_
      exact ⟨⟨fun hsound => hsound.free _, rfl⟩, rfl⟩
  | granted halloc => exact Frame.trans ((HeapFrame.kzalloc _).of_ends halloc) ⟨⟨id, rfl⟩, rfl⟩

theorem processMalloc_space (h : Ends (processMalloc process size) kernel ptr after)
    (hserves : Serves kernel.heap size) (hsound : HeapSound kernel.heap)
    (hspace : kernel.Space process) :
    after.Space process ∧ ∀ resource, after.Has process resource →
      (kernel.Has process resource ∧
        after.addressOf process resource = kernel.addressOf process resource) ∨
        ∀ owned, Owns kernel.heap owned → after.addressOf process resource ≠ owned := by
  have hleft : (∀ block, Holds kernel.heap block → LeavesBlock block kernel after) →
      after.Space process ∧ ∀ resource, after.Has process resource →
        (kernel.Has process resource ∧
          after.addressOf process resource = kernel.addressOf process resource) ∨
          ∀ owned, Owns kernel.heap owned → after.addressOf process resource ≠ owned := by
    intro hblocks
    have hleaves : Leaves process kernel after := fun resource block hblock =>
      hblocks block (hblock.holds hsound)
    exact ⟨hspace.left hleaves hsound, fun resource hhas => Or.inl
      ⟨(hspace.has_iff hleaves hsound resource).mp hhas, hspace.addressOf_eq hleaves hsound resource⟩⟩
  cases processMalloc_cases h with
  | refused halloc => exact hleft fun _ hblock => kzalloc_leavesBlock halloc hblock
  | full halloc hne =>
      refine hleft fun block hblock => ?_
      obtain ⟨hspares, hguards⟩ := kzalloc_spares halloc hblock
      exact (kzalloc_leavesBlock halloc hblock).trans (kfree_leavesBlock hspares.holds hguards)
  | @unmapped ptr' alloc halloc hne hneg =>
      have hgrant := kzalloc_grant hsound hserves halloc hne
      obtain ⟨pages, hmap, -⟩ := hgrant.held.maps hgrant.sound alloc.pages (alloc.directoryOf process) 7
      have hres : (mapsAllocation alloc process ptr' size 7).1 = 0 := congrArg Prod.fst hmap
      omega
  | @granted _ index alloc halloc hne _ hempty _ =>
      have hgrant := kzalloc_grant hsound hserves halloc hne
      have hleaves : Leaves process kernel alloc := fun resource block hblock =>
        kzalloc_leavesBlock halloc (hblock.holds hsound)
      obtain ⟨pages, hmap, hmaps⟩ := hgrant.held.maps hgrant.sound alloc.pages
        (alloc.directoryOf process) 7
      have hpages : (mapsAllocation alloc process ptr size 7).2 = pages := congrArg Prod.snd hmap
      have hnew : ∀ owned, Owns kernel.heap owned → owned ≠ ptr := fun owned howned =>
        hgrant.ne hsound howned
      have halloc' := hspace.left hleaves hsound
      have haddress : ∀ resource, alloc.Has process resource → kernel.Has process resource ∧
          alloc.addressOf process resource = kernel.addressOf process resource := fun resource hhas =>
        ⟨(hspace.has_iff hleaves hsound resource).mp hhas, hspace.addressOf_eq hleaves hsound resource⟩
      rw [hpages]
      refine ⟨halloc'.grant hgrant.sound hgrant.held (fun resource hhas => ?_) hne hempty hmaps,
        fun resource hhas => ?_⟩
      · rw [(haddress resource hhas).2]
        exact hnew _ (hspace.owns resource (haddress resource hhas).1)
      · by_cases hindex : resource = .allocation index
        · subst hindex
          have hptr := @withAllocation_address alloc ptr size process index pages
          exact Or.inr fun owned howned heq => hnew owned howned (heq.symm.trans hptr)
        · obtain ⟨hsame, hiff⟩ := @withAllocation_other alloc ptr size process index pages resource
            hmaps.directories hindex
          obtain ⟨hbefore, heq⟩ := haddress resource (hiff.mp hhas)
          exact Or.inl ⟨hbefore, hsame.trans heq⟩

theorem processMalloc_actsFor (h : Ends (processMalloc process size) kernel ptr after)
    (hserves : Serves kernel.heap size) (hpartitioned : Partitioned kernel)
    (hprocess : kernel.Registered process) : ActsFor process kernel after := by
  have hkeeps := (processMalloc_keepsProcesses process size).of_ends h
  obtain ⟨hspace, haddress⟩ := processMalloc_space h hserves hpartitioned.sound
    (hpartitioned.space process hprocess)
  refine ⟨hkeeps.sound hpartitioned.sound, fun slot _ => Or.inl (congrFun hkeeps.slots slot),
    fun other hother hne resource block hblock =>
      (hpartitioned.foreign hprocess hother hne hblock).malloc h,
    fun _ slot hslot heq => ?_, fun _ => hspace, fun _ other hother hne resource resource' hhas hhas' => ?_⟩
  · rw [hkeeps.slots] at heq
    rw [hkeeps.procs, ← heq]
    exact hpartitioned.slot slot hslot (heq ▸ hprocess.1)
  · rcases haddress resource hhas with ⟨hbefore, heq⟩ | hnew
    · rw [heq]
      exact hpartitioned.apart process other hprocess hother (Ne.symm hne) _ _ hbefore hhas'
    · exact hnew _ ((hpartitioned.space other hother).owns resource' hhas')

/-! ### `process_free` -/

section Releases

def withoutAllocation (kernel : Kernel) (process ptr : Nat) (pages : PageTables) : Kernel :=
  { processUnjoinAllocationArray process ptr (Kernel.setPages pages kernel) with
    heap := heapFree kernel.heap ptr }

theorem withoutAllocation_memory : (withoutAllocation kernel process ptr pages).processMemory process =
    { kernel.processMemory process with
      allocations := fun i =>
        if i < slobosMaxProgramAllocations ∧ ((kernel.processMemory process).allocations i).ptr = ptr
        then { ptr := 0, size := 0 } else (kernel.processMemory process).allocations i } := by
  simp only [withoutAllocation, processUnjoinAllocationArray, setAllocations, setProcessMemory, if_true]
  rfl

theorem withoutAllocation_has (hdirectories : pages.directories = kernel.pages.directories)
    (hhas : (withoutAllocation kernel process ptr pages).Has process resource) :
    kernel.Has process resource ∧ (withoutAllocation kernel process ptr pages).addressOf process resource =
        kernel.addressOf process resource ∧
      ∀ i, resource = .allocation i →
        ¬(i < slobosMaxProgramAllocations ∧ ((kernel.processMemory process).allocations i).ptr = ptr) ∧
          ((withoutAllocation kernel process ptr pages).processMemory process).allocations i =
            (kernel.processMemory process).allocations i := by
  cases resource with
  | allocation i =>
      simp only [Has, withoutAllocation_memory] at hhas
      split at hhas
      · exact absurd rfl hhas
      · rename_i hkept
        simp only [addressOf, withoutAllocation_memory, if_neg hkept]
        exact ⟨hhas, trivial, fun j hj => by
          obtain rfl := Resource.allocation.inj hj
          exact ⟨hkept, if_neg hkept⟩⟩
  | table i =>
      have hentry := congrFun (congrFun hdirectories (kernel.directoryOf process)) i
      exact ⟨hhas, congrArg tableAddress hentry, fun _ => Resource.noConfusion⟩
  | program =>
      exact ⟨hhas, by simp only [addressOf, withoutAllocation_memory], fun _ => Resource.noConfusion⟩
  | image =>
      refine ⟨hhas, ?_, fun _ => Resource.noConfusion⟩
      simp only [addressOf, withoutAllocation_memory]
      rfl
  | stack =>
      exact ⟨hhas, by simp only [addressOf, withoutAllocation_memory], fun _ => Resource.noConfusion⟩
  | _ => exact ⟨hhas, rfl, fun _ => Resource.noConfusion⟩

section Space

variable (h : kernel.Space process) (hsound : HeapSound kernel.heap)
  (hdirectories : pages.directories = kernel.pages.directories) (hlt : index < slobosMaxProgramAllocations)
  (hptr : ((kernel.processMemory process).allocations index).ptr = ptr)

include h hsound hdirectories hlt hptr

theorem withoutAllocation_spares (hhas : (withoutAllocation kernel process ptr pages).Has process resource)
    (hwithin : Within kernel.heap (kernel.addressOf process resource) block) :
    Spares block kernel.heap (heapFree kernel.heap ptr) := by
  have hheld := hwithin.holds hsound
  by_cases hnull : ptr = 0
  · rw [hnull]
    exact hheld.free hsound.guards_null
  have hreleased : kernel.Has process (.allocation index) := fun heq => hnull (hptr.symm.trans heq)
  have howns := h.owns _ hreleased
  simp only [addressOf, hptr] at howns
  refine hheld.free (howns.guards hsound fun hother => ?_)
  obtain ⟨hbefore, -, hkept⟩ := withoutAllocation_has hdirectories hhas
  have hsame := h.distinct resource (.allocation index) hbefore hreleased
    ((hwithin.unique hother).trans hptr.symm)
  exact (hkept index hsame).1 ⟨hlt, hptr⟩

theorem withoutAllocation_occupies
    (hhas : (withoutAllocation kernel process ptr pages).Has process resource)
    (hblock : kernel.Occupies process resource block) :
    (withoutAllocation kernel process ptr pages).Occupies process resource block := by
  refine ⟨hhas, ?_⟩
  rw [(withoutAllocation_has hdirectories hhas).2.1]
  exact hblock.2.spared hsound fun _ hwithin =>
    withoutAllocation_spares h hsound hdirectories hlt hptr hhas hwithin

end Space

theorem Space.release {page frame count : Nat} (h : kernel.Space process) (hsound : HeapSound kernel.heap)
    (hlt : index < slobosMaxProgramAllocations)
    (hptr : ((kernel.processMemory process).allocations index).ptr = ptr)
    (hmaps : Maps kernel.pages pages (kernel.directoryOf process) page frame count 0)
    (hclosed : ptr ≠ 0 → ∀ block, Within kernel.heap ptr block →
      pageOffset page (blockPage kernel.heap block) < count) :
    (withoutAllocation kernel process ptr pages).Space process := by
  have hdirectories := hmaps.directories
  have hspares := fun resource block hhas hwithin =>
    @withoutAllocation_spares kernel block ptr process index pages resource h hsound hdirectories hlt hptr
      hhas hwithin
  have hoccupies := fun resource block hhas hblock =>
    @withoutAllocation_occupies kernel block ptr process index pages resource h hsound hdirectories hlt
      hptr hhas hblock
  refine ⟨fun resource hhas => ?_, fun resource resource' hhas hhas' heq => ?_, fun i hhas => ?_,
    fun at' hat hopen => ?_⟩
  · obtain ⟨block, hwithin⟩ := h.owns resource (withoutAllocation_has hdirectories hhas).1
    exact ⟨block, (hoccupies resource block hhas
      ⟨(withoutAllocation_has hdirectories hhas).1, hwithin⟩).2⟩
  · obtain ⟨hbefore, haddress, -⟩ := withoutAllocation_has hdirectories hhas
    obtain ⟨hbefore', haddress', -⟩ := withoutAllocation_has hdirectories hhas'
    rw [haddress, haddress'] at heq
    exact h.distinct resource resource' hbefore hbefore' heq
  · obtain ⟨hbefore, -, hkept⟩ := withoutAllocation_has hdirectories hhas
    rw [(hkept i rfl).2]
    exact (h.held i hbefore).spared hsound fun block hwithin => hspares _ block hhas hwithin
  · rcases hmaps.userWriteable h.distinctTables (by decide) hat hopen with ⟨-, hseven⟩ | ⟨hout, hbefore⟩
    · cases hseven
    have hblockPage := blockPage_congr hsound (hsound.free ptr)
    have hframe : (withoutAllocation kernel process ptr pages).frameOf process at' =
        kernel.frameOf process at' := by
      have hentry := hmaps.entry h.distinctTables at' hat
      rw [if_neg hout] at hentry
      exact congrArg (· / pagingPageSize % pageCount) hentry
    cases h.opened at' hat hbefore with
    | @allocated i block hblock hpage hpage' =>
        -- The pages of what is given back are closed.
        have hhas : (withoutAllocation kernel process ptr pages).Has process (.allocation i) := by
          simp only [Has, withoutAllocation_memory]
          split
          · rename_i hreleased
            refine absurd (hclosed (hreleased.2 ▸ hblock.1) block (hreleased.2 ▸ hblock.2)) ?_
            rwa [← hpage]
          · exact hblock.1
        exact .allocated (hoccupies _ block hhas hblock) (hpage.trans (hblockPage block).symm)
          (hframe.trans hpage')
    | @loaded resource block hloaded hgiven hblock hpage =>
        have hhas : (withoutAllocation kernel process ptr pages).Has process resource := by
          have hbefore := hblock.1
          cases resource with
          | allocation i => exact absurd rfl (hloaded i)
          | _ => exact hbefore
        refine .loaded hloaded ?_ (hoccupies _ block hhas hblock)
          (hframe.trans (hpage.trans (hblockPage block).symm))
        cases resource <;> exact hgiven

end Releases

theorem processFree_space {result : Unit} (h : Ends (processFree process ptr) kernel result after)
    (hsound : HeapSound kernel.heap) (hspace : kernel.Space process) :
    after.Space process ∧ ∀ resource, after.Has process resource → kernel.Has process resource ∧
      after.addressOf process resource = kernel.addressOf process resource := by
  have hmaps : ∀ i, ((kernel.processMemory process).allocations i).ptr = ptr →
      ∃ pages page frame count, mapsAllocation kernel process ptr
          ((kernel.processMemory process).allocations i).size 0 = (0, pages) ∧
        Maps kernel.pages pages (kernel.directoryOf process) page frame count 0 ∧
        (ptr ≠ 0 → ∀ block, Within kernel.heap ptr block →
          pageOffset page (blockPage kernel.heap block) < count) := by
    intro i hptr
    by_cases hnull : ptr = 0
    · obtain ⟨pages, count, hmap, hmaps⟩ := mapsAllocation_null kernel process
        ((kernel.processMemory process).allocations i).size
      exact ⟨pages, 0, 0, count, hnull ▸ hmap, hmaps, fun hne => absurd hnull hne⟩
    · have hheld := hspace.held i fun heq => hnull (hptr.symm.trans heq)
      obtain ⟨pages, hmap, hmaps⟩ := hheld.maps hsound kernel.pages (kernel.directoryOf process) 0
      refine ⟨pages, _, _, _, hptr ▸ hmap, hmaps, fun _ block hwithin => ?_⟩
      rw [← hptr, hheld.within_iff hsound] at hwithin
      exact (pageOffset_block hsound (hheld.chained.lt hwithin) hheld.chained.inside).mpr hwithin
  cases processFree_cases h with
  | ignored => exact ⟨hspace, fun _ hhas => ⟨hhas, rfl⟩⟩
  | @unmapped i hi hptr hneg =>
      obtain ⟨pages, _, _, _, hmap, -, -⟩ := hmaps i hptr
      have hres : (mapsAllocation kernel process ptr
          ((kernel.processMemory process).allocations i).size 0).1 = 0 := congrArg Prod.fst hmap
      omega
  | @released i hi hptr _ =>
      obtain ⟨pages, page, frame, count, hmap, hmaps, hclosed⟩ := hmaps i hptr
      have hpages : (mapsAllocation kernel process ptr
          ((kernel.processMemory process).allocations i).size 0).2 = pages := congrArg Prod.snd hmap
      rw [hpages]
      refine ⟨hspace.release hsound hi hptr hmaps hclosed, fun resource hhas => ?_⟩
      obtain ⟨hbefore, haddress, -⟩ := @withoutAllocation_has kernel ptr process pages resource
        hmaps.directories hhas
      exact ⟨hbefore, haddress⟩

theorem processFree_actsFor {result : Unit} (h : Ends (processFree process ptr) kernel result after)
    (hpartitioned : Partitioned kernel) (hprocess : kernel.Registered process) :
    ActsFor process kernel after := by
  have hkeeps := (processFree_keepsProcesses process ptr).of_ends h
  obtain ⟨hspace, haddress⟩ := processFree_space h hpartitioned.sound
    (hpartitioned.space process hprocess)
  refine ⟨hkeeps.sound hpartitioned.sound, fun slot _ => Or.inl (congrFun hkeeps.slots slot),
    fun other hother hne resource block hblock =>
      ((hpartitioned.foreign hprocess hother hne hblock).free h).1,
    fun _ slot hslot heq => ?_, fun _ => hspace, fun _ other hother hne resource resource' hhas hhas' => ?_⟩
  · rw [hkeeps.slots] at heq
    rw [hkeeps.procs, ← heq]
    exact hpartitioned.slot slot hslot (heq ▸ hprocess.1)
  · obtain ⟨hbefore, heq⟩ := haddress resource hhas
    rw [heq]
    exact hpartitioned.apart process other hprocess hother (Ne.symm hne) _ _ hbefore hhas'

end Kernel

end SlobOS
