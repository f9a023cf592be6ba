import Mathlib.Data.List.Basic
import SlobOS.Lib.Tracing
import SlobOS.Proof.Fat16
import SlobOS.Strings

/-!
# What `strtok` reads and writes

`strtok` once more, with both of its strings in the memory, the `int` that `strlen` returns, the index `i`
that tells a found delimiter, and every access to the memory written down. A loop that has not ended after
as many rounds as the fuel allows has no result.
-/

namespace SlobOS

open CStrings Tracing

inductive Access
  | read (address : Nat)
  | write (address : Nat)

def loadByte (bytes : Nat → UInt8) (ptr : Nat) : Reading Access UInt8 := read (.read ptr) (bytes ptr)

def storeByte (bytes : Nat → UInt8) (ptr : Nat) (c : UInt8) : Reading Access (Nat → UInt8) :=
  read (.write ptr) (putBytes bytes ptr [c])

def strlenLoop (bytes : Nat → UInt8) : Nat → Nat → Int → Reading Access (Option Int)
  | 0, _, _ => pure none
  | fuel + 1, ptr, i => do
      let c ← loadByte bytes ptr
      if c = 0 then pure (some i) else strlenLoop bytes fuel (ptr + 1) (toInt32 (i + 1))

/-- `for (i = 0; i < len; i++)`, from `i` on with `left` rounds to go, for the character at `ptr`: the value
of `i` with which the loop is left. -/
def delimiterLoop (bytes : Nat → UInt8) (ptr delimiters : Nat) : Nat → Nat → Reading Access Nat
  | 0, i => pure i
  | left + 1, i => do
      let c ← loadByte bytes ptr
      let delimiter ← loadByte bytes (delimiters + i)
      if c = delimiter then pure i else delimiterLoop bytes ptr delimiters left (i + 1)

/-- `while (1)`. The `for` loop has moved `p_start` if it was left by its `break`. -/
def startLoop (bytes : Nat → UInt8) (delimiters : Nat) (len : Int) :
    Nat → Nat → Reading Access (Option Nat)
  | 0, _ => pure none
  | fuel + 1, pStart => do
      let i ← delimiterLoop bytes pStart delimiters len.toNat 0
      if (i : Int) = len then pure (some pStart)
      else startLoop bytes delimiters len fuel (if (i : Int) < len then pStart + 1 else pStart)

def endLoop (delimiters : Nat) (len : Int) : Nat → ProgramMemory → Reading Access (Option ProgramMemory)
  | 0, _ => pure none
  | fuel + 1, program => do
      let c ← loadByte program.bytes program.sp
      if c = 0 then pure (some program)
      else do
        let i ← delimiterLoop program.bytes program.sp delimiters len.toNat 0
        if (i : Int) < len then do
          let bytes ← storeByte program.bytes program.sp 0
          pure (some { bytes := bytes, sp := program.sp + 1 })
        else endLoop delimiters len fuel { program with sp := program.sp + 1 }

def strtokScan (fuel : Nat) (bytes : Nat → UInt8) (sp delimiters : Nat) (len : Int) :
    Reading Access (Option (Nat × ProgramMemory)) := do
  match ← startLoop bytes delimiters len fuel sp with
  | none => pure none
  | some pStart => do
      let c ← loadByte bytes pStart
      if c = 0 then pure (some (0, { bytes := bytes, sp := 0 }))
      else do
        let program ← endLoop delimiters len fuel { bytes := bytes, sp := pStart }
        pure (program.map fun program => (pStart, program))

def strtokTraced (fuel : Nat) (program : ProgramMemory) (str delimiters : Nat) :
    Reading Access (Option (Nat × ProgramMemory)) := do
  match ← strlenLoop program.bytes fuel delimiters 0 with
  | none => pure none
  | some len =>
      let sp := if str ≠ 0 ∧ program.sp = 0 then str else program.sp
      if str = 0 ∧ program.sp = 0 then pure (some (0, program))
      else strtokScan fuel program.bytes sp delimiters len

variable {bytes : Nat → UInt8} {program : ProgramMemory} {delims str : List UInt8}
  {fuel ptr delimiters left i stop : Nat} {len : Int}

section Values

@[simp]
theorem value_loadByte : value (loadByte bytes ptr) = bytes ptr := rfl

@[simp]
theorem value_storeByte {c : UInt8} : value (storeByte bytes ptr c) = putBytes bytes ptr [c] := rfl

theorem value_strlenLoop {i : Int} (h : StringAt bytes ptr str) (hi : toInt32 i = i) :
    value (strlenLoop bytes fuel ptr i) =
      if str.length < fuel then some (toInt32 (i + str.length)) else none := by
  induction fuel generalizing ptr str i with
  | zero => exact (if_neg (Nat.not_lt_zero _)).symm
  | succ fuel ih =>
      rw [strlenLoop, value_bind, value_ite, value_loadByte, value_pure]
      cases str with
      | nil =>
          rw [if_pos (show bytes ptr = 0 from h), List.length_nil, if_pos (Nat.succ_pos fuel),
            Int.natCast_zero, Int.add_zero, hi]
      | cons c str =>
          obtain ⟨hne, rfl, hrest⟩ := h
          rw [if_neg hne, ih hrest (toInt32_toInt32 _), List.length_cons, toInt32_add]
          refine if_congr Nat.succ_lt_succ_iff.symm (congrArg (some ∘ toInt32) ?_) rfl
          rw [Int.natCast_succ]
          omega

theorem value_delimiterLoop (h : StringAt bytes (delimiters + i) delims) :
    value (delimiterLoop bytes ptr delimiters delims.length i) = i + delims.idxOf (bytes ptr) := by
  induction delims generalizing i with
  | nil => rfl
  | cons delimiter delims ih =>
      obtain ⟨-, hfirst, hrest⟩ := h
      rw [List.length_cons, delimiterLoop, value_bind, value_bind, value_ite, value_loadByte,
        value_loadByte, value_pure, hfirst, ih hrest]
      by_cases hc : bytes ptr = delimiter
      · rw [if_pos hc, hc, List.idxOf_cons_self]
        rfl
      · rw [if_neg hc, List.idxOf_cons_ne _ (Ne.symm hc)]
        omega

section Delimiters

variable (h : StringAt bytes delimiters delims)

include h

theorem value_findDelimiter (ptr : Nat) :
    value (delimiterLoop bytes ptr delimiters (delims.length : Int).toNat 0) =
      delims.idxOf (bytes ptr) := by
  rw [Int.toNat_natCast]
  exact (value_delimiterLoop h).trans (Nat.zero_add _)

theorem value_startLoop :
    value (startLoop bytes delimiters delims.length fuel ptr) = strtokStart bytes delims fuel ptr := by
  induction fuel generalizing ptr with
  | zero => rfl
  | succ fuel ih =>
      rw [startLoop, strtokStart, value_bind, value_ite, value_findDelimiter h, value_pure, ih]
      by_cases hmem : bytes ptr ∈ delims
      · have hlt := List.idxOf_lt_length_iff.mpr hmem
        rw [if_pos hmem, if_neg (by omega), if_pos (by omega)]
      · have heq := List.idxOf_eq_length hmem
        rw [if_neg hmem, if_pos (congrArg Nat.cast heq)]

end Delimiters

theorem value_endLoop (h : StringAt program.bytes delimiters delims) :
    value (endLoop delimiters delims.length fuel program) =
      strtokEnd program.bytes delims fuel program.sp := by
  induction fuel generalizing program with
  | zero => rfl
  | succ fuel ih =>
      have hnext := @ih { program with sp := program.sp + 1 } h
      rw [endLoop, strtokEnd, value_bind, value_ite, value_loadByte, value_pure, value_bind, value_ite,
        value_findDelimiter h, value_bind, value_storeByte, value_pure, hnext]
      by_cases hmem : program.bytes program.sp ∈ delims
      · have hlt := List.idxOf_lt_length_iff.mpr hmem
        rw [if_pos hmem, if_pos (Int.ofNat_lt.mpr hlt)]
      · rw [if_neg hmem, List.idxOf_eq_length hmem, if_neg (Int.lt_irrefl delims.length)]

theorem toInt32_length (hlength : delims.length < 0x80000000) :
    toInt32 (0 + delims.length) = delims.length := by
  rw [Int.zero_add]
  exact toInt32_of_range (by omega) (by omega)

theorem strtokFrom_eq (program : ProgramMemory) (str : Nat) :
    (if str ≠ 0 ∧ program.sp = 0 then str else program.sp) = strtokFrom program str := by
  rw [strtokFrom]
  split
  · next hboth => exact (if_pos hboth.2).symm
  · next hnot =>
      split
      · next hsp =>
          by_contra hne
          exact hnot ⟨fun hstr => hne (hsp.trans hstr.symm), hsp⟩
      · rfl

theorem value_strtokScan {sp : Nat} (h : StringAt bytes delimiters delims) :
    value (strtokScan fuel bytes sp delimiters delims.length) =
      match strtokStart bytes delims fuel sp with
      | none => none
      | some pStart =>
          if bytes pStart = 0 then some (0, { bytes := bytes, sp := 0 })
          else (strtokEnd bytes delims fuel pStart).map fun program => (pStart, program) := by
  rw [strtokScan, value_bind, value_startLoop h]
  cases strtokStart bytes delims fuel sp with
  | none => rfl
  | some pStart =>
      have hend := @value_endLoop { bytes := bytes, sp := pStart } _ fuel _ h
      change value (loadByte bytes pStart >>= _) = _
      rw [value_bind, value_ite, value_loadByte, value_pure, value_bind, hend]
      rfl

theorem value_strtokTraced {str : Nat} (h : StringAt program.bytes delimiters delims)
    (hlength : delims.length < 0x80000000) :
    value (strtokTraced addressSpace program str delimiters) = strtok program str delims := by
  have hlen : value (strlenLoop program.bytes addressSpace delimiters 0) = some (delims.length : Int) := by
    rw [value_strlenLoop h rfl, if_pos (hlength.trans (by decide)), toInt32_length hlength]
  rw [strtokTraced, value_bind, hlen, strtok]
  change value (if str = 0 ∧ program.sp = 0 then _ else _) = _
  rw [value_ite, value_pure, strtokFrom_eq, value_strtokScan h]
  exact if_congr (strtokFrom_eq_null_iff program str).symm rfl rfl

/-! A longer string of delimiters makes the `int` negative. Then the `for` loop makes no round, its `i` is
never `len`, and the first loop goes on for ever. -/

theorem value_startLoop_of_neg (hlen : len < 0) :
    value (startLoop bytes delimiters len fuel ptr) = none := by
  induction fuel generalizing ptr with
  | zero => rfl
  | succ fuel ih =>
      have hrounds : len.toNat = 0 := Int.toNat_of_nonpos (Int.le_of_lt hlen)
      rw [startLoop, value_bind, value_ite, hrounds, delimiterLoop, value_pure,
        if_neg (show ((0 : Nat) : Int) ≠ len by omega)]
      exact ih

theorem value_strtokTraced_of_long {str : Nat} (h : StringAt program.bytes delimiters delims)
    (hlong : 0x80000000 ≤ delims.length) (hfits : delims.length < addressSpace)
    (hfrom : strtokFrom program str ≠ 0) :
    value (strtokTraced fuel program str delimiters) = none := by
  have hneg : toInt32 (0 + delims.length) < 0 := by
    simp only [toInt32, addressSpace, Int.bmod] at hfits ⊢
    omega
  rw [strtokTraced, value_bind, value_strlenLoop h rfl]
  by_cases hfuel : delims.length < fuel
  · have hstart := @value_startLoop_of_neg program.bytes fuel (strtokFrom program str) delimiters _ hneg
    rw [if_pos hfuel]
    change value (if str = 0 ∧ program.sp = 0 then _ else _) = none
    rw [value_ite, if_neg (mt (strtokFrom_eq_null_iff program str).mpr hfrom), strtokFrom_eq,
      strtokScan, value_bind, hstart]
    rfl
  · rw [if_neg hfuel]
    rfl

end Values

/-! ### The accesses -/

section Accesses

variable {allowed : Access → Prop}

theorem within_loadByte : Within allowed (loadByte bytes ptr) ↔ allowed (.read ptr) := within_read

theorem within_storeByte {c : UInt8} :
    Within allowed (storeByte bytes ptr c) ↔ allowed (.write ptr) := within_read

theorem within_strlenLoop {i : Int} (h : StringAt bytes ptr str)
    (hread : ∀ address, ptr ≤ address → address ≤ ptr + str.length → allowed (.read address)) :
    Within allowed (strlenLoop bytes fuel ptr i) := by
  induction fuel generalizing ptr str i with
  | zero => exact within_pure
  | succ fuel ih =>
      rw [strlenLoop, within_bind, within_ite, within_loadByte, value_loadByte]
      refine ⟨hread ptr (Nat.le_refl _) (Nat.le_add_right _ _), fun _ => within_pure, fun hne => ?_⟩
      cases str with
      | nil => exact absurd h hne
      | cons c str =>
          rw [List.length_cons] at hread
          exact ih h.2.2 fun address hge hle => hread address (by omega) (by omega)

theorem within_delimiterLoop (hptr : allowed (.read ptr))
    (hread : ∀ j, i ≤ j → j < i + left → allowed (.read (delimiters + j))) :
    Within allowed (delimiterLoop bytes ptr delimiters left i) := by
  induction left generalizing i with
  | zero => exact within_pure
  | succ left ih =>
      rw [delimiterLoop, within_bind, within_bind, within_ite, within_loadByte, within_loadByte]
      refine ⟨hptr, hread i (Nat.le_refl _) (by omega), fun _ => within_pure, fun _ => ?_⟩
      exact ih fun j hge hlt => hread j (by omega) (by omega)

theorem within_findDelimiter (hptr : allowed (.read ptr))
    (hread : ∀ j < delims.length, allowed (.read (delimiters + j))) :
    Within allowed (delimiterLoop bytes ptr delimiters (delims.length : Int).toNat 0) :=
  within_delimiterLoop hptr fun j _ hlt => hread j (by omega)

section Scan

variable (hread : ∀ j < delims.length, allowed (.read (delimiters + j)))
  (hchars : ∀ address, ptr ≤ address → address ≤ stop → allowed (.read address))

include hread hchars

theorem within_startLoop (h : StringAt bytes delimiters delims) (hstop : bytes stop ∉ delims)
    (hle : ptr ≤ stop) : Within allowed (startLoop bytes delimiters delims.length fuel ptr) := by
  induction fuel generalizing ptr with
  | zero => exact within_pure
  | succ fuel ih =>
      rw [startLoop, within_bind, within_ite, value_findDelimiter h]
      refine ⟨within_findDelimiter (hchars ptr (Nat.le_refl _) hle) hread, fun _ => within_pure, fun _ => ?_⟩
      split
      · next hlt =>
          have hmem : bytes ptr ∈ delims := List.idxOf_lt_length_iff.mp (Int.ofNat_lt.mp hlt)
          have hne : ptr ≠ stop := fun heq => hstop (heq ▸ hmem)
          exact ih (fun address hge => hchars address (Nat.le_of_succ_le hge)) (by omega)
      · exact ih hchars hle

theorem within_endLoop {bytes : Nat → UInt8} (hstop : bytes stop = 0)
    (hwrite : ∀ address, ptr ≤ address → address < stop → allowed (.write address)) (hle : ptr ≤ stop) :
    Within allowed (endLoop delimiters delims.length fuel { bytes := bytes, sp := ptr }) := by
  induction fuel generalizing ptr with
  | zero => exact within_pure
  | succ fuel ih =>
      have hptr := hchars ptr (Nat.le_refl _) hle
      rw [endLoop, within_bind, within_ite, value_loadByte]
      refine ⟨within_loadByte.mpr hptr, fun _ => within_pure, fun hne => ?_⟩
      have hlt : ptr < stop := Nat.lt_of_le_of_ne hle fun heq => hne (heq ▸ hstop)
      rw [within_bind, within_ite, within_bind, within_storeByte]
      refine ⟨within_findDelimiter hptr hread, fun _ => ⟨?_, within_pure⟩, fun _ => ?_⟩
      · exact hwrite ptr (Nat.le_refl _) hlt
      · exact ih (fun address hge => hchars address (Nat.le_of_succ_le hge))
          (fun address hge => hwrite address (Nat.le_of_succ_le hge)) hlt

end Scan

theorem within_strtokTraced {str : Nat} (h : StringAt program.bytes delimiters delims)
    (hlength : delims.length < 0x80000000)
    (hread : ∀ address, delimiters ≤ address → address ≤ delimiters + delims.length →
      allowed (.read address))
    (hscan : strtokFrom program str ≠ 0 → Within allowed
      (strtokScan fuel program.bytes (strtokFrom program str) delimiters delims.length)) :
    Within allowed (strtokTraced fuel program str delimiters) := by
  rw [strtokTraced, within_bind, value_strlenLoop h rfl, toInt32_length hlength]
  refine ⟨within_strlenLoop h hread, ?_⟩
  by_cases hfuel : delims.length < fuel
  · rw [if_pos hfuel]
    change Within allowed (if str = 0 ∧ program.sp = 0 then _ else _)
    rw [strtokFrom_eq]
    refine within_ite.mpr ⟨fun _ => within_pure, fun hne => ?_⟩
    exact hscan (mt (strtokFrom_eq_null_iff program str).mp hne)
  · rw [if_neg hfuel]
    exact within_pure

end Accesses

end SlobOS
