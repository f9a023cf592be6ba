import Mathlib.Data.List.GetD
import SlobOS.Lib.Stretches
import SlobOS.StrtokAccesses

/-!
# The tokens of a string

`strtok` is called with a string, and then with a null pointer again and again. The tokens of the string are
its maximal stretches of characters that are no delimiters, given as closed intervals of positions.
-/

namespace SlobOS

open CStrings Stretches Tracing

def tokenChars (str delims : List UInt8) : Set Nat := {i | i < str.length ∧ str.getD i 0 ∉ delims}

/-- The access is to the string and its zero, or it reads the delimiters. -/
def AccessInside (s length delimiters delimsLength : Nat) : Access → Prop
  | .read address => s ≤ address ∧ address ≤ s + length ∨
      delimiters ≤ address ∧ address ≤ delimiters + delimsLength
  | .write address => s ≤ address ∧ address ≤ s + length

/-- A call of `strtok` with the string and `k` calls with a null pointer; the result is that of the last
one. -/
def strtokCalls (fuel delimiters : Nat) :
    Nat → ProgramMemory → Nat → Reading Access (Option (Nat × ProgramMemory))
  | 0, program, str => strtokTraced fuel program str delimiters
  | k + 1, program, str => do
      match ← strtokTraced fuel program str delimiters with
      | none => pure none
      | some (_, program) => strtokCalls fuel delimiters k program 0

/-- The last of the calls returns the token that is due, or a null pointer behind the last one. -/
structure ReturnsToken (s : Nat) (str : List UInt8) (tokens : List (NonemptyInterval Nat)) (k : Nat)
    (result : Nat × ProgramMemory) : Prop where
  token : result.1 = (tokens[k]?).elim 0 fun t => s + t.fst
  given_up : tokens[k]? = none → result.2.sp = 0
  text : ∀ j ≤ k, ∀ t ∈ tokens[j]?,
    StringAt result.2.bytes (s + t.fst) (str.extract t.fst (t.snd + 1))

/-- The calls come back with the tokens of the string, one after the other, and stay inside it. -/
def Tokenizes (bytes : Nat → UInt8) (s delimiters : Nat) (str delims : List UInt8) : Prop :=
  ∃ fuel tokens, Listed (tokenChars str delims) 0 tokens ∧ ∀ k, ∃ result,
    value (strtokCalls fuel delimiters k { bytes := bytes, sp := 0 } s) = some result ∧
    ReturnsToken s str tokens k result ∧
    Within (AccessInside s str.length delimiters delims.length)
      (strtokCalls fuel delimiters k { bytes := bytes, sp := 0 } s)

/-- A string, and a string of delimiters apart from its characters, that lie in the memory. -/
structure StrtokArguments (bytes : Nat → UInt8) (s delimiters : Nat) (str delims : List UInt8) : Prop where
  ne_null : s ≠ 0
  line : StringAt bytes s str
  delimiter_line : StringAt bytes delimiters delims
  apart : s + str.length ≤ delimiters ∨ delimiters + delims.length < s
  line_fits : s + str.length < addressSpace
  delims_fit : delimiters + delims.length < addressSpace

variable {bytes : Nat → UInt8} {str delims : List UInt8} {left ptr stop : Nat} {program : ProgramMemory}

/-- The calls have come to that position: nothing has been stored from there on, and no token goes on
over it. -/
structure Reached (program : ProgramMemory) (ptr s pos : Nat) (str delims : List UInt8) : Prop where
  at_pos : strtokFrom program ptr = s + pos
  le : pos ≤ str.length
  chars : ∀ i, pos ≤ i → i ≤ str.length → program.bytes (s + i) = str.getD i 0
  between : ∀ i, i + 1 = pos → i ∈ tokenChars str delims → pos ∉ tokenChars str delims

/-- The call has found the token, cut it off and come to the next position. -/
structure NextToken (program program' : ProgramMemory) (s pos next : Nat) (str delims : List UInt8)
    (t : NonemptyInterval Nat) : Prop where
  stretch : Stretch (tokenChars str delims) t
  le : pos ≤ t.fst
  skipped : ∀ i, pos ≤ i → i < t.fst → i ∉ tokenChars str delims
  lt : t.snd < next
  passed : ∀ i, t.snd < i → i < next → i ∉ tokenChars str delims
  reached : Reached program' 0 s next str delims
  text : StringAt program'.bytes (s + t.fst) (str.extract t.fst (t.snd + 1))
  same : ∀ address, address ≤ s + t.snd ∨ s + str.length ≤ address →
    program'.bytes address = program.bytes address

inductive TokenStep (program : ProgramMemory) (s pos : Nat) (str delims : List UInt8) :
    Nat × ProgramMemory → Prop
  | none : (∀ i, pos ≤ i → i ∉ tokenChars str delims) →
      TokenStep program s pos str delims (0, { program with sp := 0 })
  | some {program' : ProgramMemory} {next : Nat} {t : NonemptyInterval Nat} :
      NextToken program program' s pos next str delims t →
      TokenStep program s pos str delims (s + t.fst, program')

section Step

variable {program' : ProgramMemory} {s pos next first last i : Nat} {t : NonemptyInterval Nat}

theorem getD_ne_zero (hstr : 0 ∉ str) (hi : i < str.length) : str.getD i 0 ≠ 0 := by
  rw [List.getD_eq_getElem _ _ hi]
  exact fun hzero => hstr (hzero ▸ List.getElem_mem hi)

theorem stringAt_extract (hstr : 0 ∉ str) (hle : first ≤ last) (hlt : last < str.length)
    (hchars : ∀ i, first ≤ i → i ≤ last → bytes (s + i) = str.getD i 0)
    (hend : bytes (s + (last + 1)) = 0) : StringAt bytes (s + first) (str.extract first (last + 1)) := by
  have hlength : (str.extract first (last + 1)).length = last + 1 - first := by
    rw [List.extract_eq_take_drop, List.length_take, List.length_drop]
    omega
  refine stringAt_iff.mpr ⟨fun hmem => ?_, fun j hj => ?_, ?_⟩
  · rw [List.extract_eq_take_drop] at hmem
    exact hstr (List.mem_of_mem_drop (List.mem_of_mem_take hmem))
  · rw [hlength] at hj
    rw [Nat.add_assoc, hchars (first + j) (by omega) (by omega), List.extract_eq_take_drop,
      List.getD_eq_getElem?_getD, List.getD_eq_getElem?_getD, List.getElem?_take_of_lt hj,
      List.getElem?_drop]
  · rw [hlength, show s + first + (last + 1 - first) = s + (last + 1) by omega]
    exact hend

namespace Reached

variable (h : Reached program ptr s pos str delims)

include h

theorem zero : program.bytes (s + str.length) = 0 := by
  rw [h.chars _ h.le (Nat.le_refl _)]
  exact List.getD_eq_default _ _ (Nat.le_refl _)

theorem mem_iff (hi : pos ≤ i) :
    i ∈ tokenChars str delims ↔ i < str.length ∧ program.bytes (s + i) ∉ delims :=
  and_congr_right fun hlt => by rw [h.chars i hi (Nat.le_of_lt hlt)]

theorem ne_zero (hstr : 0 ∉ str) (hi : pos ≤ i) (hlt : i < str.length) : program.bytes (s + i) ≠ 0 := by
  rw [h.chars i hi (Nat.le_of_lt hlt)]
  exact getD_ne_zero hstr hlt

section Token

variable (hfirst : pos ≤ t.fst) (hskip : ∀ i, pos ≤ i → i < t.fst → i ∉ tokenChars str delims)
  (hword : ∀ i, t.fst ≤ i → i ≤ t.snd → program.bytes (s + i) ∉ delims)

include hfirst hskip hword

theorem stretch (hsnd : t.snd < str.length) (hafter : t.snd + 1 ∉ tokenChars str delims) :
    Stretch (tokenChars str delims) t := by
  have hmem : ∀ i, t.fst ≤ i → i ≤ t.snd → i ∈ tokenChars str delims := fun i hge hle =>
    (h.mem_iff (hfirst.trans hge)).mpr ⟨Nat.lt_of_le_of_lt hle hsnd, hword i hge hle⟩
  refine stretch_of_ends (fun i hi => hmem i hi.1 hi.2) (fun i hi himem => ?_) hafter
  rcases Nat.lt_or_ge i pos with hlt | hge
  · have hpos : t.fst = pos := by omega
    exact h.between i (by omega) himem (hpos ▸ hmem _ (Nat.le_refl _) t.fst_le_snd)
  · exact hskip i hge (by omega) himem

theorem nextToken_of_zero (hstr : 0 ∉ str) (hsnd : t.snd + 1 = str.length) :
    NextToken program { program with sp := s + str.length } s pos str.length str delims t where
  stretch := h.stretch hfirst hskip hword (by omega) fun hmem => absurd hmem.1 (by omega)
  le := hfirst
  skipped := hskip
  lt := by omega
  passed := fun i hgt hlt => absurd hlt (by omega)
  reached :=
    { at_pos := strtokFrom_null _
      le := Nat.le_refl _
      chars := fun i hge hle => h.chars i (h.le.trans hge) hle
      between := fun _ _ _ hmem => absurd hmem.1 (Nat.lt_irrefl _) }
  text := by
    refine stringAt_extract hstr t.fst_le_snd (by omega) (fun i hge hle => ?_) ?_
    · exact h.chars i (hfirst.trans hge) (by omega)
    · rw [hsnd]
      exact h.zero
  same := fun _ _ => rfl

theorem nextToken_of_delimiter (hstr : 0 ∉ str) (hsnd : t.snd + 1 < str.length)
    (hmem : program.bytes (s + (t.snd + 1)) ∈ delims) :
    NextToken program { bytes := putBytes program.bytes (s + (t.snd + 1)) [0], sp := s + (t.snd + 2) }
      s pos (t.snd + 2) str delims t := by
  have hle := t.fst_le_snd
  have hafter : t.snd + 1 ∉ tokenChars str delims := fun htoken =>
    ((h.mem_iff (by omega)).mp htoken).2 hmem
  have hput : ∀ address, address ≠ s + (t.snd + 1) →
      putBytes program.bytes (s + (t.snd + 1)) [0] address = program.bytes address := by
    intro address hne
    refine putBytes_of_not_mem ?_
    rw [List.length_singleton]
    omega
  have hchars : ∀ i, pos ≤ i → i ≤ str.length → i ≠ t.snd + 1 →
      putBytes program.bytes (s + (t.snd + 1)) [0] (s + i) = str.getD i 0 := by
    intro i hge hi hne
    rw [hput _ (by omega)]
    exact h.chars i hge hi
  exact
    { stretch := h.stretch hfirst hskip hword (by omega) hafter
      le := hfirst
      skipped := hskip
      lt := by omega
      passed := fun i hgt hlt => by
        obtain rfl : i = t.snd + 1 := by omega
        exact hafter
      reached :=
        { at_pos := strtokFrom_null _
          le := hsnd
          chars := fun i hge hi => hchars i (by omega) hi (by omega)
          between := fun i hi himem => by
            obtain rfl : i = t.snd + 1 := by omega
            exact absurd himem hafter }
      text := by
        refine stringAt_extract hstr hle (by omega) (fun i hge hi => ?_) ?_
        · exact hchars i (by omega) (by omega) (by omega)
        · exact @putBytes_of_lt program.bytes (s + (t.snd + 1)) [0] 0 Nat.one_pos
      same := fun address haddress => hput address (by omega) }

end Token

theorem strtokEnd (hstr : 0 ∉ str) (hfits : s + str.length < addressSpace) (hfirst : pos ≤ first)
    (hbound : first ≤ str.length) (hskip : ∀ i, pos ≤ i → i < first → i ∉ tokenChars str delims)
    (hmem : program.bytes (s + first) ∉ delims) (hne : program.bytes (s + first) ≠ 0) :
    ∃ program' next t, t.fst = first ∧
      SlobOS.strtokEnd program.bytes delims addressSpace (s + first) = some program' ∧
      NextToken program program' s pos next str delims t := by
  obtain ⟨program', hprogram⟩ := @exists_strtokEnd program.bytes delims addressSpace (s + first)
    (s + str.length) (by omega) h.zero (by omega)
  obtain ⟨stop, hstop, hchars, hcase⟩ := strtokEnd_found hprogram
  have hmore : stop ≤ s + str.length := by
    by_contra hlt
    exact (hchars _ (by omega) (by omega)).1 h.zero
  have hword : stop ≠ s + first := by
    rintro rfl
    rcases hcase with ⟨hzero, -⟩ | ⟨-, hdelimiter, -⟩
    · exact hne hzero
    · exact hmem hdelimiter
  obtain ⟨last, rfl⟩ : ∃ last, stop = s + (last + 1) := ⟨stop - s - 1, by omega⟩
  have ht : first ≤ last := by omega
  have hfree : ∀ i, first ≤ i → i ≤ last → program.bytes (s + i) ∉ delims := fun i hge hle =>
    (hchars _ (by omega) (by omega)).2
  refine ⟨program', ?_⟩
  rcases hcase with ⟨hzero, rfl⟩ | ⟨hnonzero, hdelimiter, rfl⟩
  · have hlast : last + 1 = str.length := by
      by_contra hlt
      exact h.ne_zero hstr (by omega) (by omega) hzero
    rw [hlast] at hprogram ⊢
    exact ⟨_, ⟨(first, last), ht⟩, rfl, hprogram,
      h.nextToken_of_zero (t := ⟨(first, last), ht⟩) hfirst hskip hfree hstr hlast⟩
  · have hlast : last + 1 < str.length := by
      by_contra hge
      obtain hlast : last + 1 = str.length := by omega
      exact hnonzero (hlast ▸ h.zero)
    exact ⟨_, ⟨(first, last), ht⟩, rfl, hprogram,
      h.nextToken_of_delimiter (t := ⟨(first, last), ht⟩) hfirst hskip hfree hstr hlast hdelimiter⟩

theorem strtok (hs : s ≠ 0) (hstr : 0 ∉ str) (hdelims : 0 ∉ delims)
    (hfits : s + str.length < addressSpace) : ∃ result,
    SlobOS.strtok program ptr delims = some result ∧ TokenStep program s pos str delims result := by
  have hle := h.le
  have hfrom : strtokFrom program ptr ≠ 0 := by
    rw [h.at_pos]
    omega
  have hzero : program.bytes (s + str.length) ∉ delims := h.zero ▸ hdelims
  obtain ⟨p, hstart⟩ := @exists_strtokStart program.bytes delims addressSpace (s + pos)
    (s + str.length) (by omega) hzero (by omega)
  have hbound := strtokStart_le_stop hstart (by omega) hzero
  obtain ⟨hge, hskip, hp⟩ := strtokStart_found hstart
  obtain ⟨first, rfl⟩ := Nat.exists_eq_add_of_le (show s ≤ p by omega)
  have hskipped : ∀ i, pos ≤ i → i < first → i ∉ tokenChars str delims := fun i hi hlt hmem =>
    ((h.mem_iff hi).mp hmem).2 (hskip _ (by omega) (by omega))
  rw [SlobOS.strtok, if_neg hfrom, h.at_pos]
  simp only [hstart]
  by_cases hend : program.bytes (s + first) = 0
  · have hlast : first = str.length := by
      by_contra hne
      exact h.ne_zero hstr (by omega) (by omega) hend
    rw [if_pos hend]
    refine ⟨_, rfl, .none fun i hi hmem => ?_⟩
    exact hskipped i hi (hlast ▸ hmem.1) hmem
  · obtain ⟨program', next, t, rfl, hprogram, hnext⟩ :=
      h.strtokEnd hstr hfits (by omega) (by omega) hskipped hp hend
    rw [if_neg hend, hprogram]
    exact ⟨_, rfl, .some hnext⟩

end Reached

theorem NextToken.listed {tokens : List (NonemptyInterval Nat)}
    (h : NextToken program program' s pos next str delims t)
    (hrest : Listed (tokenChars str delims) next tokens) :
    Listed (tokenChars str delims) pos (t :: tokens) :=
  (Listed.cons h.stretch (hrest.skip h.lt h.passed)).skip h.le h.skipped

theorem NextToken.text_of_same (h : NextToken program program' s pos next str delims t)
    (hsame : ∀ address ≤ s + next, bytes address = program'.bytes address) :
    StringAt bytes (s + t.fst) (str.extract t.fst (t.snd + 1)) := by
  refine h.text.congr fun address _ hle => hsame address ?_
  have hlt := h.lt
  have ht := t.fst_le_snd
  rw [List.extract_eq_take_drop, List.length_take] at hle
  omega

theorem NextToken.delimiter_line {delimiters : Nat}
    (h : NextToken program program' s pos next str delims t)
    (hline : StringAt program.bytes delimiters delims)
    (hapart : s + str.length ≤ delimiters ∨ delimiters + delims.length < s) :
    StringAt program'.bytes delimiters delims :=
  hline.congr fun address hge hle => h.same address (by omega)

end Step

section Inside

variable {s delimiters pos fuel : Nat}

theorem within_strtokScan (h : Reached program ptr s pos str delims)
    (hline : StringAt program.bytes delimiters delims) :
    Within (AccessInside s str.length delimiters delims.length)
      (strtokScan fuel program.bytes (s + pos) delimiters delims.length) := by
  have hle := h.le
  have hzero : program.bytes (s + str.length) ∉ delims := fun hmem =>
    hline.zero_not_mem (h.zero ▸ hmem)
  have hread : ∀ j < delims.length,
      AccessInside s str.length delimiters delims.length (.read (delimiters + j)) :=
    fun j hj => Or.inr ⟨Nat.le_add_right _ _, by omega⟩
  have hchars : ∀ address, s + pos ≤ address → address ≤ s + str.length →
      AccessInside s str.length delimiters delims.length (.read address) :=
    fun address hge hle => Or.inl ⟨by omega, hle⟩
  rw [strtokScan, within_bind, value_startLoop hline]
  refine ⟨within_startLoop hread hchars hline hzero (by omega), ?_⟩
  cases hstart : strtokStart program.bytes delims fuel (s + pos) with
  | none => exact within_pure
  | some pStart =>
      have hge := (strtokStart_found hstart).1
      have hbound := strtokStart_le_stop hstart (by omega) hzero
      have hrest : ∀ address, pStart ≤ address → address ≤ s + str.length →
          AccessInside s str.length delimiters delims.length (.read address) :=
        fun address hle => hchars address (hge.trans hle)
      refine within_bind.mpr ⟨within_loadByte.mpr (hrest pStart (Nat.le_refl _) hbound), ?_⟩
      refine within_ite.mpr ⟨fun _ => within_pure, fun _ => within_bind.mpr ⟨?_, within_pure⟩⟩
      exact within_endLoop hread hrest h.zero (fun address hle hlt => ⟨by omega, hlt.le⟩) hbound

theorem accessInside_delimiters (s length : Nat) {delimiters address delimsLength : Nat}
    (hge : delimiters ≤ address) (hle : address ≤ delimiters + delimsLength) :
    AccessInside s length delimiters delimsLength (.read address) := Or.inr ⟨hge, hle⟩

theorem Reached.inside (h : Reached program ptr s pos str delims)
    (hline : StringAt program.bytes delimiters delims) (hlength : delims.length < 0x80000000) :
    Within (AccessInside s str.length delimiters delims.length)
      (strtokTraced fuel program ptr delimiters) := by
  refine within_strtokTraced hline hlength (fun _ => accessInside_delimiters _ _) fun _ => ?_
  rw [h.at_pos]
  exact within_strtokScan h hline

end Inside

/-! ### All calls -/

section Returns

variable {s k : Nat} {tokens : List (NonemptyInterval Nat)} {t : NonemptyInterval Nat}
  {result : Nat × ProgramMemory}

theorem returnsToken_nil (k : Nat) (bytes : Nat → UInt8) :
    ReturnsToken s str [] k (0, { bytes := bytes, sp := 0 }) where
  token := rfl
  given_up := fun _ => rfl
  text := fun j _ t ht => by
    rw [List.getElem?_nil] at ht
    cases ht

theorem returnsToken_first (htext : StringAt result.2.bytes (s + t.fst) (str.extract t.fst (t.snd + 1)))
    (hresult : result.1 = s + t.fst) : ReturnsToken s str (t :: tokens) 0 result where
  token := hresult
  given_up := fun hnone => by cases hnone
  text := fun j hj t' ht' => by
    obtain rfl := Nat.le_zero.mp hj
    cases ht'
    exact htext

theorem ReturnsToken.cons (h : ReturnsToken s str tokens k result)
    (htext : StringAt result.2.bytes (s + t.fst) (str.extract t.fst (t.snd + 1))) :
    ReturnsToken s str (t :: tokens) (k + 1) result where
  token := h.token
  given_up := h.given_up
  text := fun j hj t' ht' => by
    cases j with
    | zero =>
        cases ht'
        exact htext
    | succ j => exact h.text j (Nat.le_of_succ_le_succ hj) t' ht'

end Returns

section Calls

variable {s delimiters pos fuel k token : Nat} {program' : ProgramMemory} {allowed : Access → Prop}

theorem value_strtokCalls_succ
    (h : value (strtokTraced fuel program ptr delimiters) = some (token, program')) :
    value (strtokCalls fuel delimiters (k + 1) program ptr) =
      value (strtokCalls fuel delimiters k program' 0) := by
  rw [strtokCalls, value_bind, h]

theorem within_strtokCalls_succ
    (h : value (strtokTraced fuel program ptr delimiters) = some (token, program')) :
    Within allowed (strtokCalls fuel delimiters (k + 1) program ptr) ↔
      Within allowed (strtokTraced fuel program ptr delimiters) ∧
        Within allowed (strtokCalls fuel delimiters k program' 0) := by
  rw [strtokCalls, within_bind, h]

variable (hlength : delims.length < 0x80000000) (hline : StringAt program.bytes delimiters delims)

include hlength hline

theorem strtokCalls_null (hsp : program.sp = 0) :
    value (strtokCalls addressSpace delimiters k program 0) = some (0, program) ∧
      Within (AccessInside s str.length delimiters delims.length)
        (strtokCalls addressSpace delimiters k program 0) := by
  have hfrom : strtokFrom program 0 = 0 := (strtokFrom_null program).trans hsp
  have hvalue : value (strtokTraced addressSpace program 0 delimiters) = some (0, program) := by
    rw [value_strtokTraced hline hlength, strtok, if_pos hfrom]
  have hinside : Within (AccessInside s str.length delimiters delims.length)
      (strtokTraced addressSpace program 0 delimiters) :=
    within_strtokTraced hline hlength (fun _ => accessInside_delimiters _ _) fun hne => absurd hfrom hne
  induction k with
  | zero => exact ⟨hvalue, hinside⟩
  | succ k ih =>
      rw [value_strtokCalls_succ hvalue, within_strtokCalls_succ hvalue]
      exact ⟨ih.1, hinside, ih.2⟩

theorem strtokCalls_none (hvalue : value (strtokTraced addressSpace program ptr delimiters) =
      some (0, { program with sp := 0 }))
    (hinside : Within (AccessInside s str.length delimiters delims.length)
      (strtokTraced addressSpace program ptr delimiters)) (k : Nat) :
    value (strtokCalls addressSpace delimiters k program ptr) = some (0, { program with sp := 0 }) ∧
      Within (AccessInside s str.length delimiters delims.length)
        (strtokCalls addressSpace delimiters k program ptr) := by
  cases k with
  | zero => exact ⟨hvalue, hinside⟩
  | succ k =>
      have hnull := @strtokCalls_null str _ { program with sp := 0 } s _ k hlength hline rfl
      rw [value_strtokCalls_succ hvalue, within_strtokCalls_succ hvalue]
      exact ⟨hnull.1, hinside, hnull.2⟩

theorem strtokCalls_spec (hs : s ≠ 0) (hstr : 0 ∉ str) (hfits : s + str.length < addressSpace)
    (hapart : s + str.length ≤ delimiters ∨ delimiters + delims.length < s)
    (h : Reached program ptr s pos str delims) :
    ∃ tokens, Listed (tokenChars str delims) pos tokens ∧ ∀ k, ∃ result,
      value (strtokCalls addressSpace delimiters k program ptr) = some result ∧
      ReturnsToken s str tokens k result ∧
      (∀ address ≤ s + pos, result.2.bytes address = program.bytes address) ∧
      Within (AccessInside s str.length delimiters delims.length)
        (strtokCalls addressSpace delimiters k program ptr) := by
  induction hleft : str.length - pos using Nat.strong_induction_on generalizing program ptr pos with
  | _ left ih =>
      subst hleft
      obtain ⟨result, hstrtok, hstep⟩ := h.strtok hs hstr hline.zero_not_mem hfits
      have hvalue := (value_strtokTraced hline hlength).trans hstrtok
      have hinside := @Reached.inside _ _ _ _ _ _ _ addressSpace h hline hlength
      cases hstep with
      | none hnone =>
          refine ⟨[], .nil hnone, fun k => ?_⟩
          obtain ⟨hnull, hnullInside⟩ := strtokCalls_none hlength hline hvalue hinside k
          exact ⟨_, hnull, returnsToken_nil k _, fun _ _ => rfl, hnullInside⟩
      | @some program' next t hnext =>
          have hfirst := hnext.le
          have ht := t.fst_le_snd
          have hpos := hnext.lt
          have hnextLe := hnext.reached.le
          have hkept : ∀ address ≤ s + pos, program'.bytes address = program.bytes address :=
            fun address haddress => hnext.same address (by omega)
          obtain ⟨tokens, hlisted, hcalls⟩ := ih (str.length - next) (by omega)
            (hnext.delimiter_line hline hapart) hnext.reached rfl
          refine ⟨t :: tokens, hnext.listed hlisted, fun k => ?_⟩
          cases k with
          | zero => exact ⟨_, hvalue, returnsToken_first hnext.text rfl, hkept, hinside⟩
          | succ k =>
              obtain ⟨result, hresult, hreturns, hsame, hrest⟩ := hcalls k
              rw [value_strtokCalls_succ hvalue, within_strtokCalls_succ hvalue]
              refine ⟨result, hresult, hreturns.cons (hnext.text_of_same hsame), fun address haddress => ?_,
                hinside, hrest⟩
              rw [hsame address (by omega), hkept address haddress]

end Calls

namespace StrtokArguments

variable {s delimiters : Nat} (h : StrtokArguments bytes s delimiters str delims)

include h

theorem reached : Reached { bytes := bytes, sp := 0 } s s 0 str delims where
  at_pos := rfl
  le := Nat.zero_le _
  chars := by
    obtain ⟨-, hchars, hend⟩ := stringAt_iff.mp h.line
    intro i _ hle
    rcases Nat.eq_or_lt_of_le hle with rfl | hlt
    · exact hend.trans (List.getD_eq_default _ _ (Nat.le_refl _)).symm
    · exact hchars i hlt
  between := fun _ hzero => absurd hzero (Nat.succ_ne_zero _)

theorem tokenizes_of_lt (hlength : delims.length < 0x80000000) :
    Tokenizes bytes s delimiters str delims := by
  obtain ⟨tokens, hlisted, hcalls⟩ := strtokCalls_spec hlength h.delimiter_line h.ne_null
    h.line.zero_not_mem h.line_fits h.apart h.reached
  refine ⟨addressSpace, tokens, hlisted, fun k => ?_⟩
  obtain ⟨result, hresult, hreturns, -, hinside⟩ := hcalls k
  exact ⟨result, hresult, hreturns, hinside⟩

theorem not_tokenizes_of_long (hlong : 0x80000000 ≤ delims.length) :
    ¬Tokenizes bytes s delimiters str delims := by
  rintro ⟨fuel, tokens, -, hcalls⟩
  obtain ⟨result, hresult, -⟩ := hcalls 0
  have hfits := h.delims_fit
  have hnone := @value_strtokTraced_of_long { bytes := bytes, sp := 0 } _ fuel _ s h.delimiter_line hlong
    (by omega) h.ne_null
  exact Option.some_ne_none _ (hresult.symm.trans hnone)

end StrtokArguments

/-- The calls return the tokens and stay inside the string exactly if an `int` can count the delimiters. -/
theorem strtok_tokenizes_iff {s delimiters : Nat} (h : StrtokArguments bytes s delimiters str delims) :
    Tokenizes bytes s delimiters str delims ↔ delims.length < 0x80000000 := by
  refine ⟨fun htokenizes => ?_, h.tokenizes_of_lt⟩
  by_contra hlong
  exact h.not_tokenizes_of_long (Nat.le_of_not_lt hlong) htokenizes

def commaMemory (address : Nat) : UInt8 :=
  if address = 2 then 97 else if address = 5 then 98
  else if address = 1 ∨ address = 3 ∨ address = 4 ∨ address = 16 then 44 else 0

theorem commaArguments : StrtokArguments commaMemory 1 16 [44, 97, 44, 44, 98] [44] where
  ne_null := by decide
  line := by simp [StringAt, commaMemory]
  delimiter_line := by simp [StringAt, commaMemory]
  apart := Or.inl (by decide)
  line_fits := by decide
  delims_fit := by decide

theorem strtok_tokenizes_comma : Tokenizes commaMemory 1 16 [44, 97, 44, 44, 98] [44] :=
  (strtok_tokenizes_iff commaArguments).mpr (by decide)

def longMemory (address : Nat) : UInt8 :=
  if address = 1 then 97 else if 16 ≤ address ∧ address < 16 + 0x80000000 then 44 else 0

theorem longArguments : StrtokArguments longMemory 1 16 [97] (List.replicate 0x80000000 44) where
  ne_null := by decide
  line := by simp [StringAt, longMemory]
  delimiter_line := by
    refine stringAt_iff.mpr ⟨fun hmem => ?_, fun j hj => ?_, ?_⟩
    · exact absurd (List.eq_of_mem_replicate hmem) (by decide)
    · rw [List.length_replicate] at hj
      rw [List.getD_replicate _ hj, longMemory, if_neg (by omega), if_pos (by omega)]
    · rw [List.length_replicate, longMemory, if_neg (by omega), if_neg (by omega)]
  apart := Or.inl (by decide)
  line_fits := by decide
  delims_fit := by
    rw [List.length_replicate]
    decide

theorem not_strtok_tokenizes : ¬Tokenizes longMemory 1 16 [97] (List.replicate 0x80000000 44) :=
  longArguments.not_tokenizes_of_long (by rw [List.length_replicate])

end SlobOS
