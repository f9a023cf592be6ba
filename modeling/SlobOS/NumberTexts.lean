import Mathlib.Data.Nat.Digits.Lemmas
import SlobOS.Lib.CStrings
import SlobOS.Lib.Numerals

/-!
# The text of a number

`itoa` of `stdlib.c`, which the user programs are linked with. Every `int` it computes is checked for
overflow, and every character it stores for being inside its static `text`.
-/

namespace SlobOS

open CStrings Numerals

def itoaTextSize : Nat := 12

/-- The value of an `int` operation that does not overflow. -/
def checkedInt (value : Int) : Option Int :=
  if -0x80000000 ≤ value ∧ value < 0x80000000 then some value else none

def storeText (text : Nat → UInt8) (loc : Nat) (c : UInt8) : Option (Nat → UInt8) :=
  if loc < itoaTextSize then some (putBytes text loc [c]) else none

def pushText (text : Nat → UInt8) (loc : Nat) (c : UInt8) : Option (Nat × (Nat → UInt8)) :=
  match loc with
  | 0 => none
  | loc + 1 => (storeText text loc c).map fun text' => (loc, text')

def itoaLoop (text : Nat → UInt8) : Nat → Int → Option (Nat × (Nat → UInt8))
  | 0, i => if i = 0 then some (0, text) else none
  | loc + 1, i =>
      if i = 0 then some (loc + 1, text)
      else
        (checkedInt (i.tmod 10)).bind fun remainder =>
          (checkedInt (48 - remainder)).bind fun digit =>
            (storeText text loc (UInt8.ofInt digit)).bind fun text' =>
              (checkedInt (i.tdiv 10)).bind fun quotient => itoaLoop text' loc quotient

/-- `if (loc == 11) text[--loc] = '0'; if (neg) text[--loc] = '-';` -/
def itoaFinish (neg : Bool) (loc : Nat) (text : Nat → UInt8) : Option (Nat × (Nat → UInt8)) :=
  (if loc = 11 then pushText text loc 48 else some (loc, text)).bind fun (loc, text) =>
    if neg then pushText text loc 45 else some (loc, text)

def itoa (text : Nat → UInt8) (i : Int) : Option (Nat × (Nat → UInt8)) :=
  (storeText text 11 0).bind fun text =>
    (if 0 ≤ i then checkedInt (-i) else some i).bind fun negated =>
      (itoaLoop text 11 negated).bind fun (loc, text) => itoaFinish (decide (i < 0)) loc text

/-- A string starts at the position in the text that has been reached, and nothing was stored behind it. -/
def Writes (text : Nat → UInt8) (loc : Nat) (str : List UInt8)
    (result : Option (Nat × (Nat → UInt8))) : Prop :=
  ∃ text', result = some (loc, text') ∧ StringAt text' loc str ∧
    ∀ j, itoaTextSize ≤ j → text' j = text j

variable {text : Nat → UInt8} {loc : Nat} {str : List UInt8} {c : UInt8}

theorem checkedInt_of_range {value : Int} (hge : -0x80000000 ≤ value) (hlt : value < 0x80000000) :
    checkedInt value = some value :=
  if_pos ⟨hge, hlt⟩

theorem storeText_writes (hloc : loc < itoaTextSize) (hc : c ≠ 0) (hstr : StringAt text (loc + 1) str) :
    ∃ text', storeText text loc c = some text' ∧ StringAt text' loc (c :: str) ∧
      ∀ j, itoaTextSize ≤ j → text' j = text j := by
  have hframe : ∀ j, j ≠ loc → putBytes text loc [c] j = text j := by
    intro j hj
    refine putBytes_of_not_mem ?_
    rw [List.length_singleton]
    omega
  refine ⟨putBytes text loc [c], if_pos hloc, ⟨hc, ?_, ?_⟩, fun j hj => hframe j (by omega)⟩
  · exact @putBytes_of_lt text loc [c] 0 Nat.one_pos
  · exact hstr.congr fun j hge _ => hframe j (by omega)

theorem pushText_writes (hloc : loc < itoaTextSize) (hc : c ≠ 0) (hstr : StringAt text (loc + 1) str) :
    Writes text loc (c :: str) (pushText text (loc + 1) c) := by
  obtain ⟨text', hstore, hstr', hframe⟩ := storeText_writes hloc hc hstr
  refine ⟨text', ?_, hstr', hframe⟩
  rw [pushText, hstore, Option.map_some]

theorem neg_tmod_ten (n : Nat) : (-(n : Int)).tmod 10 = -((n % 10 : Nat) : Int) :=
  Int.neg_tmod n 10

theorem neg_tdiv_ten (n : Nat) : (-(n : Int)).tdiv 10 = -((n / 10 : Nat) : Int) :=
  Int.neg_tdiv n 10

theorem ofInt_sub_remainder (n : Nat) : UInt8.ofInt (48 - -((n % 10 : Nat) : Int)) = digitChar (n % 10) := by
  rw [Int.sub_neg, UInt8.ofInt, digitChar]
  exact congrArg UInt8.ofNat (by omega)

theorem digitChar_ne_zero (n : Nat) : digitChar (n % 10) ≠ 0 := by
  intro hzero
  have hchar := digitChar_toNat (Nat.mod_lt n (show 0 < 10 by decide))
  rw [hzero] at hchar
  exact absurd hchar.symm (Nat.succ_ne_zero _ ∘ (Nat.add_comm 48 _).symm.trans)

theorem itoaLoop_succ {n : Nat} (hn : n ≠ 0) (hle : n ≤ 0x80000000) :
    itoaLoop text (loc + 1) (-(n : Int)) =
      (storeText text loc (digitChar (n % 10))).bind fun text' =>
        itoaLoop text' loc (-((n / 10 : Nat) : Int)) := by
  have hquotient : checkedInt (-((n / 10 : Nat) : Int)) = some (-((n / 10 : Nat) : Int)) :=
    checkedInt_of_range (by omega) (by omega)
  rw [itoaLoop, if_neg (by omega), neg_tmod_ten, neg_tdiv_ten,
    checkedInt_of_range (by omega) (by omega), Option.bind_some,
    checkedInt_of_range (by omega) (by omega), Option.bind_some, ofInt_sub_remainder, hquotient]
  rfl

theorem itoaLoop_writes {n : Nat} (hloc : loc < itoaTextSize) (hle : n ≤ 0x80000000)
    (hfits : (digitChars n).length ≤ loc) (hstr : StringAt text loc str) :
    Writes text (loc - (digitChars n).length) (digitChars n ++ str) (itoaLoop text loc (-(n : Int))) := by
  induction loc generalizing text n str with
  | zero =>
      have hn : n = 0 := by
        by_contra hne
        exact digitChars_ne_nil hne (List.eq_nil_of_length_eq_zero (Nat.le_zero.mp hfits))
      subst hn
      exact ⟨text, rfl, hstr, fun _ _ => rfl⟩
  | succ loc ih =>
      by_cases hn : n = 0
      · subst hn
        exact ⟨text, rfl, hstr, fun _ _ => rfl⟩
      · have hlength := congrArg List.length (digitChars_of_ne_zero hn)
        rw [List.length_append, List.length_singleton] at hlength
        obtain ⟨first, hstore, hfirst, hfirstFrame⟩ :=
          storeText_writes (Nat.lt_of_succ_lt hloc) (digitChar_ne_zero n) hstr
        obtain ⟨text', hloop, hrest, hframe⟩ :=
          @ih first _ (n / 10) (Nat.lt_of_succ_lt hloc) (by omega) (by omega) hfirst
        rw [hlength, Nat.add_sub_add_right]
        refine ⟨text', ?_, ?_, fun j hj => (hframe j hj).trans (hfirstFrame j hj)⟩
        · rw [itoaLoop_succ hn hle, hstore, Option.bind_some, hloop]
        · rw [digitChars_of_ne_zero hn, List.append_assoc]
          exact hrest

theorem length_decimal {n : Nat} (hlt : n < 10 ^ 10) : (decimal n).length ≤ 10 := by
  rw [decimal]
  split
  · exact Nat.le_of_lt_succ (by decide)
  · exact length_digitChars_le hlt

theorem length_numeral (i : Int32) : (numeral i.toInt).length < itoaTextSize := by
  have hge := i.le_toInt
  have hlt := i.toInt_lt
  have hle := @length_decimal i.toInt.natAbs (by omega)
  rw [numeral, itoaTextSize]
  split
  · exact Nat.succ_lt_succ (Nat.lt_succ_of_le hle)
  · exact Nat.lt_succ_of_lt (Nat.lt_succ_of_le hle)

theorem zeroDigit_writes {n : Nat} (hlt : n < 10 ^ 10)
    (hdigits : StringAt text (11 - (digitChars n).length) (digitChars n)) :
    Writes text (11 - (decimal n).length) (decimal n)
      (if 11 - (digitChars n).length = 11 then pushText text (11 - (digitChars n).length) 48
        else some (11 - (digitChars n).length, text)) := by
  have hle := length_digitChars_le hlt
  by_cases hn : n = 0
  · subst hn
    exact pushText_writes (by decide) (by decide) hdigits
  · have hpos := List.length_pos_of_ne_nil (digitChars_ne_nil hn)
    rw [decimal, if_neg hn, if_neg (by omega)]
    exact ⟨text, rfl, hdigits, fun _ _ => rfl⟩

theorem itoaFinish_writes {i : Int} (hlt : i.natAbs < 10 ^ 10)
    (hdigits : StringAt text (11 - (digitChars i.natAbs).length) (digitChars i.natAbs)) :
    Writes text (11 - (numeral i).length) (numeral i)
      (itoaFinish (decide (i < 0)) (11 - (digitChars i.natAbs).length) text) := by
  obtain ⟨unsigned, hzero, hdecimal, hframe⟩ := zeroDigit_writes hlt hdigits
  have hle := length_decimal hlt
  rw [itoaFinish, hzero, Option.bind_some]
  by_cases hi : i < 0
  · have hloc : 11 - (decimal i.natAbs).length = 11 - (45 :: decimal i.natAbs).length + 1 := by
      rw [List.length_cons]
      omega
    rw [hloc] at hdecimal
    have hminus : (45 : UInt8) ≠ 0 := by decide
    obtain ⟨text', hpush, hstr, hsign⟩ := pushText_writes (show _ < 12 by omega) hminus hdecimal
    refine ⟨text', ?_, ?_, fun j hj => (hsign j hj).trans (hframe j hj)⟩
    · rw [numeral, if_pos hi, ← hpush, ← hloc, decide_eq_true hi]
      rfl
    · rw [numeral, if_pos hi]
      exact hstr
  · refine ⟨unsigned, ?_, ?_, hframe⟩
    · rw [numeral, if_neg hi, decide_eq_false hi]
      rfl
    · rw [numeral, if_neg hi]
      exact hdecimal

theorem itoa_writes (text : Nat → UInt8) (i : Int32) :
    Writes text (11 - (numeral i.toInt).length) (numeral i.toInt) (itoa text i.toInt) := by
  have hge := i.le_toInt
  have hlt := i.toInt_lt
  have hnegated : (if 0 ≤ i.toInt then checkedInt (-i.toInt) else some i.toInt) =
      some (-(i.toInt.natAbs : Int)) := by
    split
    · rw [checkedInt_of_range (by omega) (by omega)]
      exact congrArg some (by omega)
    · exact congrArg some (by omega)
  have hdigits := @length_digitChars_le i.toInt.natAbs 10 (by omega)
  have hempty : StringAt (putBytes text 11 [0]) 11 [] := @putBytes_of_lt text 11 [0] 0 Nat.one_pos
  obtain ⟨counted, hloop, hcounted, hcountedFrame⟩ :=
    @itoaLoop_writes _ 11 [] i.toInt.natAbs (by decide) (by omega) (by omega) hempty
  rw [List.append_nil] at hcounted
  obtain ⟨text', hfinish, hstr, hframe⟩ := @itoaFinish_writes counted i.toInt (by omega) hcounted
  refine ⟨text', ?_, hstr, fun j hj => ?_⟩
  · rw [itoa, storeText, if_pos (by decide), Option.bind_some, hnegated, Option.bind_some, hloop]
    exact hfinish
  · rw [hframe j hj, hcountedFrame j hj]
    refine putBytes_of_not_mem ?_
    rw [itoaTextSize] at hj
    rw [List.length_singleton]
    omega

/-- The numeral of every `int` fits into the text, and reading it gives the number back. -/
theorem itoa_canonical (text : Nat → UInt8) (i : Int32) :
    ∃ loc text' str, itoa text i.toInt = some (loc, text') ∧ loc < itoaTextSize ∧
      StringAt text' loc str ∧ Canonical i.toInt str ∧ readNumeral str = some i.toInt ∧
      ∀ j, itoaTextSize ≤ j → text' j = text j := by
  obtain ⟨text', hitoa, hstr, hframe⟩ := itoa_writes text i
  exact ⟨_, text', _, hitoa, by rw [itoaTextSize]; omega, hstr, canonical_numeral, readNumeral_numeral,
    hframe⟩

end SlobOS
