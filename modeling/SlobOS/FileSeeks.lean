import SlobOS.FileReads
import SlobOS.Lib.Runs

/-!
# The position of an open file

Any sequence of calls of `fseek` and `fread`. The offset of a call is compared with the size of the
file, but a relative seek adds it to the position, and the sum is not compared with anything. Where
every relative seek stays inside the file, so does the position.
-/

namespace SlobOS

namespace Kernel

open Faulting Runs

inductive SeekAction where
  | fseek (fd offset : Int) (whence : Nat)
  | fread (ptr size nmemb : Nat) (fd : Int)

inductive SeekStep : Kernel → SeekAction → Kernel → Prop
  | fseek {before after : Kernel} {fd offset : Int} {whence : Nat} {res : Int} :
      Ends (fseek fd offset whence) before res after →
      SeekStep before (.fseek fd offset whence) after
  | fread {before after : Kernel} {ptr size nmemb : Nat} {fd res : Int} :
      Ends (fread ptr size nmemb fd) before res after →
      SeekStep before (.fread ptr size nmemb fd) after

def PositionsInside (kernel : Kernel) : Prop :=
  ∀ fd contents pos, OpenFile kernel fd contents pos → pos ≤ contents.filesize

def SizesFit (kernel : Kernel) : Prop :=
  ∀ fd contents pos, OpenFile kernel fd contents pos → contents.filesize < addressSpace

/-- A seek that fails leaves the position, and a relative one that succeeds moves it by the offset. -/
structure SeekRight (before after : Kernel) (fd offset : Int) (whence : Nat) (res : Int) : Prop where
  failed : res < 0 → ∀ contents pos, OpenFile before fd contents pos → OpenFile after fd contents pos
  current : 0 ≤ res → whence = seekCur → ∀ contents pos, OpenFile before fd contents pos →
    ∃ pos' : Nat, OpenFile after fd contents pos' ∧ (pos' : Int) = pos + offset

/-- A relative seek whose offset is accepted stays inside the file. -/
def SeekFits (kernel : Kernel) : SeekAction → Prop
  | .fseek fd offset whence => whence = seekCur → ∀ contents pos, OpenFile kernel fd contents pos →
      offset % addressSpace < contents.filesize →
        0 ≤ pos + offset ∧ pos + offset ≤ contents.filesize
  | .fread _ _ _ _ => True

variable {kernel after last : Kernel} {fd fd' offset res : Int} {whence pos : Nat}
  {contents contents' : FatDirectoryItem}

def movePos (desc pos : Nat) (kernel : Kernel) : Kernel :=
  setFile desc { kernel.files desc with pos := pos } kernel

theorem OpenFile.unique {pos' : Nat} (h : OpenFile kernel fd contents pos)
    (h' : OpenFile kernel fd' contents' pos')
    (hsame : kernel.fileGetDescriptor fd' = kernel.fileGetDescriptor fd) :
    contents' = contents ∧ pos' = pos := by
  obtain ⟨item, -, hdata⟩ := h.data
  obtain ⟨item', -, hdata'⟩ := h'.data
  have hpos := h'.pos
  rw [hsame] at hdata' hpos
  rw [hdata] at hdata'
  cases hdata'
  exact ⟨rfl, hpos.symm.trans h.pos⟩

theorem ends_fseek (h : OpenFile kernel fd contents pos) :
    Ends (fseek fd offset whence) kernel
      (fat16Seek contents pos (offset % addressSpace).toNat whence).1
      (movePos (kernel.fileGetDescriptor fd)
        (fat16Seek contents pos (offset % addressSpace).toNat whence).2 kernel) := by
  obtain ⟨item, hitem, hdata⟩ := h.data
  rw [fseek, ends_get_bind, if_neg h.desc, hdata, h.pos]
  change Ends (deref item >>= _) _ _ _
  rw [ends_deref_bind hitem]
  exact ends_modify_bind.mpr (ends_pure.mpr ⟨rfl, rfl⟩)

theorem fseek_same (h : Ends (fseek fd offset whence) kernel res after)
    (hnone : ∀ contents pos, ¬OpenFile kernel fd contents pos) : after = kernel := by
  rw [fseek, ends_get_bind] at h
  by_cases hdesc : kernel.fileGetDescriptor fd = 0
  · rw [if_pos hdesc] at h
    exact (ends_pure.mp h).2
  rw [if_neg hdesc] at h
  cases hdata : (kernel.files (kernel.fileGetDescriptor fd)).item.data with
  | directory =>
      rw [hdata] at h
      exact (ends_pure.mp h).2
  | file item contents =>
      rw [hdata] at h
      obtain ⟨_, _, hderef, -⟩ := ends_bind.mp h
      exact absurd ⟨hdesc, ⟨item, (ends_deref.mp hderef).1, hdata⟩, rfl⟩ (hnone contents _)

theorem fat16Seek_cur {offset : Nat} (hlt : offset < contents.filesize) :
    fat16Seek contents pos offset seekCur = (0, toUint32 (pos + offset)) := by
  rw [fat16Seek, if_neg (by omega), if_neg (by decide), if_neg (by decide), if_pos rfl]

theorem fat16Seek_cases (contents : FatDirectoryItem) (pos offset seekMode : Nat) :
    ((fat16Seek contents pos offset seekMode).1 < 0 ∧
        (fat16Seek contents pos offset seekMode).2 = pos) ∨
      (fat16Seek contents pos offset seekMode = (0, offset) ∧ seekMode = seekSet ∧
        offset < contents.filesize) ∨
      (fat16Seek contents pos offset seekMode = (0, toUint32 (pos + offset)) ∧ seekMode = seekCur ∧
        offset < contents.filesize) := by
  by_cases hge : offset ≥ contents.filesize
  · rw [fat16Seek, if_pos hge]
    exact Or.inl ⟨show -eio < 0 by decide, rfl⟩
  have hlt := Nat.lt_of_not_le hge
  by_cases hset : seekMode = seekSet
  · rw [fat16Seek, if_neg hge, if_pos hset]
    exact Or.inr (Or.inl ⟨rfl, hset, hlt⟩)
  by_cases hend : seekMode = seekEnd
  · rw [fat16Seek, if_neg hge, if_neg hset, if_pos hend]
    exact Or.inl ⟨show -eunimp < 0 by decide, rfl⟩
  by_cases hcur : seekMode = seekCur
  · rw [hcur, fat16Seek_cur hlt]
    exact Or.inr (Or.inr ⟨rfl, rfl, hlt⟩)
  · rw [fat16Seek, if_neg hge, if_neg hset, if_neg hend, if_neg hcur]
    exact Or.inl ⟨show -einvarg < 0 by decide, rfl⟩

theorem openFile_movePos_iff {desc pos' : Nat} : OpenFile (movePos desc pos' kernel) fd contents pos ↔
    if kernel.fileGetDescriptor fd = desc then
      pos = pos' ∧ ∃ old, OpenFile kernel fd contents old
    else OpenFile kernel fd contents pos := by
  have hget : (movePos desc pos' kernel).fileGetDescriptor fd = kernel.fileGetDescriptor fd := rfl
  by_cases hsame : kernel.fileGetDescriptor fd = desc
  · have hfile : (movePos desc pos' kernel).files (kernel.fileGetDescriptor fd) =
        { kernel.files (kernel.fileGetDescriptor fd) with pos := pos' } := by
      simp only [movePos, setFile, hsame, if_true]
    rw [if_pos hsame]
    constructor
    · rintro ⟨hdesc, hdata, hpos⟩
      rw [hget, hfile] at hdata hpos
      exact ⟨hpos.symm, _, hdesc, hdata, rfl⟩
    · rintro ⟨rfl, old, hdesc, hdata, -⟩
      refine ⟨hdesc, ?_, ?_⟩
      · rw [hget, hfile]
        exact hdata
      · rw [hget, hfile]
  · have hfile : (movePos desc pos' kernel).files (kernel.fileGetDescriptor fd) =
        kernel.files (kernel.fileGetDescriptor fd) := by
      simp only [movePos, setFile, hsame, if_false]
    rw [if_neg hsame]
    constructor
    · rintro ⟨hdesc, hdata, hpos⟩
      rw [hget, hfile] at hdata hpos
      exact ⟨hdesc, hdata, hpos⟩
    · rintro ⟨hdesc, hdata, hpos⟩
      refine ⟨hdesc, ?_, ?_⟩
      · rw [hget, hfile]
        exact hdata
      · rw [hget, hfile]
        exact hpos

theorem openFile_movePos_self {pos' : Nat} (h : OpenFile kernel fd contents pos) :
    OpenFile (movePos (kernel.fileGetDescriptor fd) pos' kernel) fd contents pos' := by
  rw [openFile_movePos_iff, if_pos rfl]
  exact ⟨rfl, _, h⟩

theorem positionsInside_movePos_iff {pos' : Nat} (h : OpenFile kernel fd contents pos)
    (hinside : PositionsInside kernel) :
    PositionsInside (movePos (kernel.fileGetDescriptor fd) pos' kernel) ↔ pos' ≤ contents.filesize := by
  constructor
  · intro hall
    exact hall _ _ _ (openFile_movePos_self h)
  · intro hle fd' contents' pos'' h'
    rw [openFile_movePos_iff] at h'
    split at h'
    case isTrue hsame =>
      obtain ⟨rfl, old, hold⟩ := h'
      rwa [(h.unique hold hsame).1]
    case isFalse => exact hinside _ _ _ h'

theorem seekRight_same (hnone : ∀ contents pos, ¬OpenFile kernel fd contents pos) :
    SeekRight kernel kernel fd offset whence res :=
  ⟨fun _ _ _ h => h, fun _ _ _ _ h => absurd h (hnone _ _)⟩

theorem seekRight_movePos_iff {pos' : Nat} (h : OpenFile kernel fd contents pos) :
    SeekRight kernel (movePos (kernel.fileGetDescriptor fd) pos' kernel) fd offset whence res ↔
      (res < 0 → pos' = pos) ∧ (0 ≤ res → whence = seekCur → (pos' : Int) = pos + offset) := by
  have hmoved : OpenFile (movePos (kernel.fileGetDescriptor fd) pos' kernel) fd contents pos' :=
    openFile_movePos_self h
  constructor
  · rintro ⟨hfailed, hcurrent⟩
    constructor
    · intro hneg
      have hopen := hfailed hneg _ _ h
      exact (hopen.unique hmoved rfl).2
    · intro hres hcur
      obtain ⟨pos'', hopen, hsum⟩ := hcurrent hres hcur _ _ h
      rwa [(hmoved.unique hopen rfl).2] at hsum
  · rintro ⟨hfailed, hcurrent⟩
    constructor
    · intro hneg contents' old h'
      obtain ⟨rfl, rfl⟩ := h.unique h' rfl
      rwa [hfailed hneg] at hmoved ⊢
    · intro hres hcur contents' old h'
      obtain ⟨rfl, rfl⟩ := h.unique h' rfl
      exact ⟨pos', hmoved, hcurrent hres hcur⟩

theorem seekFits_iff (h : OpenFile kernel fd contents pos) :
    SeekFits kernel (.fseek fd offset whence) ↔ (whence = seekCur →
      offset % addressSpace < contents.filesize →
        0 ≤ pos + offset ∧ pos + offset ≤ contents.filesize) := by
  constructor
  · intro hfits hcur
    exact hfits hcur contents pos h
  · intro hfits hcur contents' pos' h'
    obtain ⟨rfl, rfl⟩ := h.unique h' rfl
    exact hfits hcur

theorem seekRight_iff (hinside : PositionsInside kernel) (hsizes : SizesFit kernel)
    (hend : Ends (fseek fd offset whence) kernel res after) :
    SeekRight kernel after fd offset whence res ∧ PositionsInside after ↔
      SeekFits kernel (.fseek fd offset whence) := by
  by_cases hopen : ∃ contents pos, OpenFile kernel fd contents pos
  case neg =>
    have hnone : ∀ contents pos, ¬OpenFile kernel fd contents pos :=
      fun contents pos h => hopen ⟨contents, pos, h⟩
    obtain rfl := fseek_same hend hnone
    refine iff_of_true ⟨seekRight_same hnone, hinside⟩ ?_
    intro _ contents pos h
    exact absurd h (hnone contents pos)
  obtain ⟨contents, pos, h⟩ := hopen
  obtain ⟨rfl, rfl⟩ := hend.unique (ends_fseek h)
  have hle := hinside _ _ _ h
  have hsize := hsizes _ _ _ h
  have hunsigned : ((offset % addressSpace).toNat : Int) = offset % addressSpace := by
    simp only [addressSpace]
    omega
  rw [seekRight_movePos_iff h, positionsInside_movePos_iff h hinside, seekFits_iff h]
  rcases fat16Seek_cases contents pos (offset % addressSpace).toNat whence with
    ⟨hneg, hsame⟩ | ⟨hseek, hset, hlt⟩ | ⟨hseek, hcur, hlt⟩
  · -- An offset that is accepted is not refused as a relative one.
    rw [hsame]
    refine iff_of_true ⟨⟨fun _ => rfl, fun hres => absurd hneg (by omega)⟩, hle⟩ ?_
    intro hcur haccepted
    rw [hcur, fat16Seek_cur (by omega)] at hneg
    exact absurd hneg (Int.lt_irrefl 0)
  · have hother : whence ≠ seekCur := by
      rw [hset]
      decide
    rw [hseek]
    refine iff_of_true ⟨⟨fun hres => absurd hres (Int.lt_irrefl 0), fun _ hcur => ?_⟩,
      Nat.le_of_lt hlt⟩ fun hcur => ?_
    · exact absurd hcur hother
    · exact absurd hcur hother
  · -- The position that is left, and the sum of the old one with the offset.
    have hsum : toUint32 (pos + (offset % addressSpace).toNat) = (pos + offset) % addressSpace ∧
        (pos + offset) % addressSpace < addressSpace := by
      rw [toUint32]
      simp only [addressSpace]
      omega
    rw [hseek]
    constructor
    · rintro ⟨⟨-, hmoved⟩, hinside'⟩ _ -
      have hleft := hmoved (Int.le_refl 0) hcur
      omega
    · intro hfits
      obtain ⟨hge, hstop⟩ := hfits hcur (by omega)
      have hmod : (pos + offset) % addressSpace = pos + offset :=
        Int.emod_eq_of_lt hge (by omega)
      refine ⟨⟨fun hres => absurd hres (Int.lt_irrefl 0), fun _ _ => hsum.1.trans hmod⟩, ?_⟩
      omega

/-! ### Sequences of seeks and reads -/

theorem openFile_congr (hdescriptors : after.fileDescriptors = kernel.fileDescriptors)
    (hfiles : after.files = kernel.files) :
    OpenFile after fd contents pos ↔ OpenFile kernel fd contents pos := by
  have hget : after.fileGetDescriptor fd = kernel.fileGetDescriptor fd := by
    rw [fileGetDescriptor, fileGetDescriptor, hdescriptors]
  constructor
  · rintro ⟨hdesc, hdata, hpos⟩
    rw [hget] at hdesc
    rw [hget, hfiles] at hdata hpos
    exact ⟨hdesc, hdata, hpos⟩
  · rintro ⟨hdesc, hdata, hpos⟩
    rw [← hget] at hdesc
    rw [← hget, ← hfiles] at hdata hpos
    exact ⟨hdesc, hdata, hpos⟩

theorem fread_openFile_iff {ptr size nmemb : Nat} (h : Ends (fread ptr size nmemb fd') kernel res after) :
    OpenFile after fd contents pos ↔ OpenFile kernel fd contents pos := by
  have hwrites := (fread_writes ptr size nmemb fd').of_ends h
  have hdescriptors := congrArg Kernel.fileDescriptors hwrites
  have hfiles := congrArg Kernel.files hwrites
  exact openFile_congr hdescriptors hfiles

theorem SizesFit.fseek (hsizes : SizesFit kernel) (hend : Ends (fseek fd offset whence) kernel res after) :
    SizesFit after := by
  by_cases hopen : ∃ contents pos, OpenFile kernel fd contents pos
  case neg =>
    obtain rfl := fseek_same hend fun contents pos h => hopen ⟨contents, pos, h⟩
    exact hsizes
  obtain ⟨contents, pos, h⟩ := hopen
  obtain ⟨-, rfl⟩ := hend.unique (ends_fseek h)
  intro fd' contents' pos' h'
  rw [openFile_movePos_iff] at h'
  split at h'
  case isTrue =>
    obtain ⟨-, old, hold⟩ := h'
    exact hsizes _ _ _ hold
  case isFalse => exact hsizes _ _ _ h'

theorem seekStep_inside {action : SeekAction} (hinv : PositionsInside kernel ∧ SizesFit kernel)
    (hstep : Guarded SeekFits SeekStep kernel action after) :
    PositionsInside after ∧ SizesFit after := by
  obtain ⟨hinside, hsizes⟩ := hinv
  obtain ⟨hfits, hstep⟩ := hstep
  cases hstep with
  | fseek hend => exact ⟨((seekRight_iff hinside hsizes hend).mpr hfits).2, hsizes.fseek hend⟩
  | fread hend =>
      constructor
      · intro fd' contents' pos' h'
        exact hinside _ _ _ ((fread_openFile_iff hend).mp h')
      · intro fd' contents' pos' h'
        exact hsizes _ _ _ ((fread_openFile_iff hend).mp h')

/-- As long as the relative seeks stay inside the file, every position is inside, and the next seek is
right and leaves it inside exactly if it stays there, too. -/
theorem seeks_inside {actions : List SeekAction} (hinside : PositionsInside kernel)
    (hsizes : SizesFit kernel) (hrun : Run (Guarded SeekFits SeekStep) kernel actions last) :
    PositionsInside last ∧ ∀ fd offset whence res after, Ends (fseek fd offset whence) last res after →
      (SeekRight last after fd offset whence res ∧ PositionsInside after ↔
        SeekFits last (.fseek fd offset whence)) := by
  obtain ⟨hinside', hsizes'⟩ := hrun.invariant (fun kernel => PositionsInside kernel ∧ SizesFit kernel)
    (fun _ _ _ hinv hstep => seekStep_inside hinv hstep) ⟨hinside, hsizes⟩
  exact ⟨hinside', fun _ _ _ _ _ hend => seekRight_iff hinside' hsizes' hend⟩

theorem fopen_onlyCounted : ∃ kernel,
    Ends (fopen rootFilePath modeRead) (idleKernel bootBytes countedVolume) 1 kernel ∧
      OpenFile kernel 1 countedItem 0 ∧ ∀ fd contents pos, OpenFile kernel fd contents pos →
        contents = countedItem ∧ pos = 0 := by
  obtain ⟨kernel, hend, hopened, -, hother⟩ := @fopen_opened (idleKernel bootBytes countedVolume)
    rootFilePath countedItem 0 FreeBlocks _ rootFile_countedVolume
    (idleKernel_freeBlocks _ (by decide)) 0
    (List.find?_range_eq_some.mpr ⟨by decide, List.mem_range.mpr (by decide),
      fun _ hlt => absurd hlt (Nat.not_lt_zero _)⟩) (by decide)
  refine ⟨kernel, hend, hopened.toOpenFile, fun fd contents pos h => ?_⟩
  have hdesc := h.desc
  rw [fileGetDescriptor] at hdesc
  split at hdesc
  case isTrue => exact absurd rfl hdesc
  case isFalse hrange =>
    -- All other slots are empty.
    have hslot : (fd - 1).toNat = 0 := by
      by_contra hne
      exact hdesc (hother _ hne)
    have hone : fd = 1 := by omega
    subst hone
    exact hopened.toOpenFile.unique h rfl

theorem onlyCounted_invariants
    (honly : ∀ fd contents pos, OpenFile kernel fd contents pos → contents = countedItem ∧ pos = 0) :
    PositionsInside kernel ∧ SizesFit kernel := by
  constructor
  · intro fd contents pos h
    rw [(honly _ _ _ h).2]
    exact Nat.zero_le _
  · intro fd contents pos h
    rw [(honly _ _ _ h).1]
    decide

theorem seekStep_next (h : OpenFile kernel 1 countedItem pos) (hpos : pos + 1 < addressSpace) :
    ∃ next, SeekStep kernel (.fseek 1 1 seekCur) next ∧ OpenFile next 1 countedItem (pos + 1) := by
  have hend := @ends_fseek kernel 1 1 seekCur pos countedItem h
  have hone : ((1 : Int) % addressSpace).toNat = 1 := by decide
  rw [hone, fat16Seek_cur (by decide), toUint32, Nat.mod_eq_of_lt hpos] at hend
  exact ⟨_, .fseek hend, openFile_movePos_self h⟩

theorem seeks_inside_counted : ∃ kernel last, OpenFile kernel 1 countedItem 0 ∧
    OpenFile last 1 countedItem 1 ∧ PositionsInside last := by
  obtain ⟨kernel, -, hopen, honly⟩ := fopen_onlyCounted
  obtain ⟨hinside, hsizes⟩ := onlyCounted_invariants honly
  have hfits : SeekFits kernel (.fseek 1 1 seekCur) := by
    intro _ contents pos h _
    obtain ⟨rfl, rfl⟩ := honly _ _ _ h
    decide
  obtain ⟨last, hstep, hopen'⟩ := seekStep_next hopen (by decide)
  have hrun : Run (Guarded SeekFits SeekStep) kernel [.fseek 1 1 seekCur] _ :=
    .single ⟨hfits, .fseek (ends_fseek hopen)⟩
  exact ⟨kernel, _, hopen, openFile_movePos_self hopen, (seeks_inside hinside hsizes hrun).1⟩

/-- Three relative seeks by one byte in a file of two bytes. -/
theorem not_seeks_inside : ¬∀ kernel actions last, PositionsInside kernel → SizesFit kernel →
    Run SeekStep kernel actions last → PositionsInside last := by
  intro hall
  obtain ⟨kernel, -, hopen, honly⟩ := fopen_onlyCounted
  obtain ⟨hinside, hsizes⟩ := onlyCounted_invariants honly
  obtain ⟨first, hfirst, hopen⟩ := seekStep_next hopen (by decide)
  obtain ⟨second, hsecond, hopen⟩ := seekStep_next hopen (by decide)
  obtain ⟨third, hthird, hopen⟩ := seekStep_next hopen (by decide)
  have hrun := (((Run.nil kernel).snoc hfirst).snoc hsecond).snoc hthird
  exact absurd (hall _ _ _ hinside hsizes hrun _ _ _ hopen) (by decide)

end Kernel

end SlobOS
