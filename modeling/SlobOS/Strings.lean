import SlobOS.Config
import SlobOS.Lib.CStrings
import SlobOS.Lib.Splits

/-!
# String functions

`strncpy` and `strtok` of `string.c`, in the library of the programs and in the kernel. `strtok` keeps a
pointer from call to call; a null pointer means that it keeps none.
-/

namespace SlobOS

open CStrings Splits

/-- The bytes that `strncpy` stores, from the loop with `left` rounds to go on: the characters, and a
zero. -/
def strncpyBytes (memory : Nat → UInt8) : Nat → Nat → List UInt8
  | _, 0 => [0]
  | src, left + 1 =>
      if memory src = 0 then [0] else memory src :: strncpyBytes memory (src + 1) left

/-- Source and destination do not overlap. -/
def strncpy (memory : Nat → UInt8) (dest src count : Nat) : Nat → UInt8 :=
  putBytes memory dest (strncpyBytes memory src (count - 1))

/-- The memory of a program, apart from what it gets from the kernel, with the pointer of `strtok`. -/
structure ProgramMemory where
  bytes : Nat → UInt8
  sp : Nat

/-- The loop over the delimiters before the substring. No string is longer than the address space. -/
def strtokStart (bytes : Nat → UInt8) (delimiters : List UInt8) : Nat → Nat → Option Nat
  | 0, _ => none
  | left + 1, pStart =>
      if bytes pStart ∈ delimiters then strtokStart bytes delimiters left (pStart + 1)
      else some pStart

def strtokEnd (bytes : Nat → UInt8) (delimiters : List UInt8) : Nat → Nat → Option ProgramMemory
  | 0, _ => none
  | left + 1, sp =>
      if bytes sp = 0 then some { bytes := bytes, sp := sp }
      else if bytes sp ∈ delimiters then some { bytes := putBytes bytes sp [0], sp := sp + 1 }
      else strtokEnd bytes delimiters left (sp + 1)

/-- A pointer that is kept goes before the argument. -/
def strtokFrom (program : ProgramMemory) (str : Nat) : Nat :=
  if program.sp = 0 then str else program.sp

/-- `none` if it does not come back. -/
def strtok (program : ProgramMemory) (str : Nat) (delimiters : List UInt8) :
    Option (Nat × ProgramMemory) :=
  if strtokFrom program str = 0 then some (0, program)
  else
    match strtokStart program.bytes delimiters addressSpace (strtokFrom program str) with
    | none => none
    | some pStart =>
        if program.bytes pStart = 0 then some (0, { program with sp := 0 })
        else (strtokEnd program.bytes delimiters addressSpace pStart).map fun program =>
          (pStart, program)

section Copies

variable {memory : Nat → UInt8} {src left : Nat} {str : List UInt8}

theorem strncpyBytes_eq (h : StringAt memory src str) :
    strncpyBytes memory src left = str.take left ++ [0] := by
  induction left generalizing src str with
  | zero => rfl
  | succ left ih =>
      cases str with
      | nil =>
          have hzero : memory src = 0 := h
          rw [strncpyBytes, if_pos hzero]
          rfl
      | cons c str =>
          obtain ⟨hne, rfl, hrest⟩ := h
          rw [strncpyBytes, if_neg hne, ih hrest]
          rfl

theorem strncpy_stringAt {dest count : Nat} (h : StringAt memory src str) :
    StringAt (strncpy memory dest src count) dest (str.take (count - 1)) := by
  rw [strncpy, strncpyBytes_eq h]
  exact stringAt_putBytes fun hmem => h.zero_not_mem (List.mem_of_mem_take hmem)

end Copies

theorem strtokFrom_null (program : ProgramMemory) : strtokFrom program 0 = program.sp := by
  rw [strtokFrom]
  split
  · next hsp => exact hsp.symm
  · rfl

theorem strtokFrom_eq_null_iff (program : ProgramMemory) (str : Nat) :
    strtokFrom program str = 0 ↔ str = 0 ∧ program.sp = 0 := by
  rw [strtokFrom]
  split
  · next hsp => exact (and_iff_left hsp).symm
  · next hsp => exact iff_of_false hsp fun hboth => hsp hboth.2

section Loops

variable {bytes : Nat → UInt8} {delimiters : List UInt8} {left ptr stop : Nat}
  {program : ProgramMemory}

theorem strtokStart_found {p : Nat} (h : strtokStart bytes delimiters left ptr = some p) :
    ptr ≤ p ∧ (∀ address, ptr ≤ address → address < p → bytes address ∈ delimiters) ∧
      bytes p ∉ delimiters := by
  induction left generalizing ptr with
  | zero => cases h
  | succ left ih =>
      rw [strtokStart] at h
      split at h
      · next hmem =>
          obtain ⟨hle, hskip, hp⟩ := ih h
          refine ⟨Nat.le_of_succ_le hle, fun address hge hlt => ?_, hp⟩
          rcases Nat.eq_or_lt_of_le hge with rfl | hgt
          · exact hmem
          · exact hskip address hgt hlt
      · next hmem =>
          cases h
          exact ⟨Nat.le_refl _, fun address hge hlt => absurd hlt (Nat.not_lt_of_le hge), hmem⟩

theorem strtokStart_le_stop {p : Nat} (h : strtokStart bytes delimiters left ptr = some p)
    (hle : ptr ≤ stop) (hstop : bytes stop ∉ delimiters) : p ≤ stop := by
  by_contra hlt
  exact hstop ((strtokStart_found h).2.1 stop hle (Nat.lt_of_not_le hlt))

theorem exists_strtokStart (hle : ptr ≤ stop) (hstop : bytes stop ∉ delimiters)
    (hleft : stop < ptr + left) : ∃ p, strtokStart bytes delimiters left ptr = some p := by
  induction left generalizing ptr with
  | zero => omega
  | succ left ih =>
      rw [strtokStart]
      split
      · next hmem =>
          have hne : ptr ≠ stop := fun heq => hstop (heq ▸ hmem)
          exact ih (by omega) (by omega)
      · exact ⟨_, rfl⟩

theorem strtokEnd_found (h : strtokEnd bytes delimiters left ptr = some program) :
    ∃ last, ptr ≤ last ∧
      (∀ address, ptr ≤ address → address < last → bytes address ≠ 0 ∧ bytes address ∉ delimiters) ∧
      (bytes last = 0 ∧ program = { bytes := bytes, sp := last } ∨
        bytes last ≠ 0 ∧ bytes last ∈ delimiters ∧
          program = { bytes := putBytes bytes last [0], sp := last + 1 }) := by
  induction left generalizing ptr with
  | zero => cases h
  | succ left ih =>
      have hnone : ∀ address, ptr ≤ address → address < ptr →
          bytes address ≠ 0 ∧ bytes address ∉ delimiters :=
        fun address hge hlt => absurd hlt (Nat.not_lt_of_le hge)
      rw [strtokEnd] at h
      split_ifs at h with hzero hmem
      · cases h
        exact ⟨ptr, Nat.le_refl _, hnone, Or.inl ⟨hzero, rfl⟩⟩
      · cases h
        exact ⟨ptr, Nat.le_refl _, hnone, Or.inr ⟨hzero, hmem, rfl⟩⟩
      · obtain ⟨last, hle, hchars, hlast⟩ := ih h
        refine ⟨last, Nat.le_of_succ_le hle, fun address hge hlt => ?_, hlast⟩
        rcases Nat.eq_or_lt_of_le hge with rfl | hgt
        · exact ⟨hzero, hmem⟩
        · exact hchars address hgt hlt

theorem exists_strtokEnd (hle : ptr ≤ stop) (hstop : bytes stop = 0) (hleft : stop < ptr + left) :
    ∃ program, strtokEnd bytes delimiters left ptr = some program := by
  induction left generalizing ptr with
  | zero => omega
  | succ left ih =>
      rw [strtokEnd]
      split
      · exact ⟨_, rfl⟩
      · next hne =>
          have hlt : ptr ≠ stop := fun heq => hne (heq ▸ hstop)
          split
          · exact ⟨_, rfl⟩
          · exact ih (by omega) (by omega)

end Loops

section Tokens

variable {bytes : Nat → UInt8} {delimiters str : List UInt8} {ptr left : Nat}

theorem strtokStart_eq (h : StringAt bytes ptr str) (hzero : 0 ∉ delimiters)
    (hleft : str.length < left) : strtokStart bytes delimiters left ptr =
      some (ptr + (str.takeWhile (· ∈ delimiters)).length) := by
  induction left generalizing ptr str with
  | zero => omega
  | succ left ih =>
      cases str with
      | nil =>
          have hend : bytes ptr = 0 := h
          rw [strtokStart, hend, if_neg hzero]
          rfl
      | cons c str =>
          obtain ⟨-, rfl, hrest⟩ := h
          rw [List.length_cons] at hleft
          rw [strtokStart, List.takeWhile_cons]
          by_cases hc : bytes ptr ∈ delimiters
          · rw [if_pos hc, ih hrest (by omega), if_pos (decide_eq_true hc), List.length_cons]
            congr 1
            omega
          · rw [if_neg hc, if_neg (by simpa using hc)]
            rfl

theorem strtokEnd_eq (h : StringAt bytes ptr str) (hleft : str.length < left) :
    ∃ program, strtokEnd bytes delimiters left ptr = some program ∧
      StringAt program.bytes ptr (str.takeWhile (· ∉ delimiters)) ∧
      StringAt program.bytes program.sp ((str.dropWhile (· ∉ delimiters)).drop 1) ∧
      ptr ≤ program.sp ∧ ∀ address < ptr, program.bytes address = bytes address := by
  induction left generalizing ptr str with
  | zero => omega
  | succ left ih =>
      cases str with
      | nil =>
          have hend : bytes ptr = 0 := h
          rw [strtokEnd, if_pos hend]
          exact ⟨_, rfl, h, h, Nat.le_refl _, fun _ _ => rfl⟩
      | cons c str =>
          obtain ⟨hne, rfl, hrest⟩ := h
          rw [List.length_cons] at hleft
          rw [strtokEnd, if_neg hne, List.takeWhile_cons, List.dropWhile_cons]
          by_cases hc : bytes ptr ∈ delimiters
          · rw [if_pos hc, if_neg (by simpa using hc), if_neg (by simpa using hc)]
            refine ⟨_, rfl, ?_, ?_, Nat.le_succ _, fun address hlt => ?_⟩
            · exact @putBytes_of_lt bytes ptr [0] 0 (by decide)
            · refine hrest.congr fun address hge _ => putBytes_of_not_mem ?_
              rw [List.length_singleton]
              omega
            · refine putBytes_of_not_mem ?_
              rw [List.length_singleton]
              omega
          · rw [if_neg hc, if_pos (by simpa using hc), if_pos (by simpa using hc)]
            obtain ⟨program, hend, htoken, hnext, hle, hbelow⟩ := ih hrest (by omega)
            refine ⟨program, hend, ⟨hne, hbelow ptr (Nat.lt_succ_self _), htoken⟩, hnext, by omega, ?_⟩
            exact fun address hlt => hbelow address (by omega)

section Calls

variable {program : ProgramMemory} {c : UInt8} (hfrom : strtokFrom program ptr ≠ 0)
  (h : StringAt program.bytes (strtokFrom program ptr) str) (hzero : 0 ∉ delimiters)
  (hlength : str.length < addressSpace)

include hfrom h hzero hlength

theorem strtok_none (hall : str.dropWhile (· ∈ delimiters) = []) :
    strtok program ptr delimiters = some (0, { program with sp := 0 }) := by
  have hsplit := List.takeWhile_append_dropWhile (p := (· ∈ delimiters)) (l := str)
  rw [hall, List.append_nil] at hsplit
  have hstart := strtokStart_eq h hzero hlength
  rw [hsplit] at hstart
  have hend : program.bytes (strtokFrom program ptr + str.length) = 0 :=
    @StringAt.drop _ _ _ [] (by rwa [List.append_nil])
  rw [strtok, if_neg hfrom]
  simp only [hstart, hend, if_true]

theorem strtok_some (hmem : c ∈ str.dropWhile (· ∈ delimiters)) :
    ∃ token program', strtok program ptr delimiters = some (token, program') ∧ token ≠ 0 ∧
      StringAt program'.bytes token ((str.dropWhile (· ∈ delimiters)).takeWhile (· ∉ delimiters)) ∧
      program'.sp ≠ 0 ∧ StringAt program'.bytes program'.sp
        (((str.dropWhile (· ∈ delimiters)).dropWhile (· ∉ delimiters)).drop 1) := by
  have hstart := strtokStart_eq h hzero hlength
  have hsplit := List.takeWhile_append_dropWhile (p := (· ∈ delimiters)) (l := str)
  rw [← hsplit] at h
  have hrest := h.drop
  have hshorter : (str.dropWhile (· ∈ delimiters)).length < addressSpace := by
    have hsub := (List.dropWhile_sublist (· ∈ delimiters) (l := str)).length_le
    omega
  have hpos : strtokFrom program ptr + (str.takeWhile (· ∈ delimiters)).length ≠ 0 := by omega
  generalize strtokFrom program ptr + (str.takeWhile (· ∈ delimiters)).length = token
    at hstart hrest hpos
  obtain ⟨program', hend, htoken, hnext, hge, -⟩ :=
    @strtokEnd_eq _ delimiters _ _ _ hrest hshorter
  have hne : program.bytes token ≠ 0 := by
    cases hdrop : str.dropWhile (· ∈ delimiters) with
    | nil =>
        rw [hdrop] at hmem
        cases hmem
    | cons c' rest =>
        rw [hdrop] at hrest
        exact hrest.2.1 ▸ hrest.1
  refine ⟨token, program', ?_, hpos, htoken, by omega, hnext⟩
  rw [strtok, if_neg hfrom]
  simp only [hstart, if_neg hne, hend, Option.map_some]

end Calls

end Tokens

def space : UInt8 := 0x20

section Words

variable {program : ProgramMemory} {str : List UInt8} {ptr : Nat}

structure LineLeft (program : ProgramMemory) (ptr : Nat) (str : List UInt8) : Prop where
  ne_null : strtokFrom program ptr ≠ 0
  line : StringAt program.bytes (strtokFrom program ptr) str
  length : str.length < addressSpace

inductive TokenOutcome (program : ProgramMemory) (str : List UInt8) : Nat × ProgramMemory → Prop
  | none : components space str = [] → TokenOutcome program str (0, { program with sp := 0 })
  | some {word rest : List UInt8} {token : Nat} {program' : ProgramMemory} :
      components space str = word :: components space rest → rest.length < str.length → token ≠ 0 →
      StringAt program'.bytes token word → LineLeft program' 0 rest →
      TokenOutcome program str (token, program')

theorem LineLeft.strtok (h : LineLeft program ptr str) : ∃ result,
    strtok program ptr [space] = some result ∧ TokenOutcome program str result := by
  have hmem : (fun c => decide (c ∈ [space])) = (· == space) := by
    funext c
    simp [beq_eq_decide]
  have hnot : (fun c => decide (c ∉ [space])) = (· != space) := by
    funext c
    simp [bne, beq_eq_decide]
  have hzero : (0 : UInt8) ∉ [space] := by decide
  cases hdrop : str.dropWhile (· == space) with
  | nil =>
      refine ⟨_, strtok_none h.ne_null h.line hzero h.length ?_, .none (components_nil _ _ hdrop)⟩
      rw [hmem, hdrop]
  | cons c rest =>
      have hne : str.dropWhile (· == space) ≠ [] := by
        rw [hdrop]
        exact List.cons_ne_nil _ _
      obtain ⟨token, program', hstrtok, htoken, hword, hsp, hline⟩ :=
        @strtok_some _ str _ _ c h.ne_null h.line hzero h.length
          (by rw [hmem, hdrop]; exact List.mem_cons_self)
      rw [hmem, hnot] at hword hline
      have hfrom := strtokFrom_null program'
      have hlt : (Splits.rest space (str.dropWhile (· == space))).length < str.length :=
        Nat.lt_of_lt_of_le (rest_length space _ (part_dropWhile_ne_nil space str hne))
          (List.dropWhile_sublist _).length_le
      exact ⟨_, hstrtok, .some (components_cons space str hne) hlt htoken hword
        ⟨hfrom ▸ hsp, hfrom ▸ hline, Nat.lt_trans hlt h.length⟩⟩

end Words

end SlobOS
