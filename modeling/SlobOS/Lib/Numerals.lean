import Mathlib.Data.Nat.Digits.Defs
import Mathlib.Data.Nat.Digits.Lemmas

/-!
# Decimal numerals

The numeral of a number is the list of its decimal digits as characters, the most significant digit
first, behind a minus sign if the number is negative. It is the only canonical one, and reading it
gives the number back.
-/

namespace Numerals

def digitChar (digit : Nat) : UInt8 := UInt8.ofNat (48 + digit)

def IsDigit (c : UInt8) : Prop := 48 ≤ c.toNat ∧ c.toNat < 58

instance (c : UInt8) : Decidable (IsDigit c) := inferInstanceAs (Decidable (_ ∧ _))

def digitChars (n : Nat) : List UInt8 := ((Nat.digits 10 n).map digitChar).reverse

def decimal (n : Nat) : List UInt8 := if n = 0 then [48] else digitChars n

def numeral (i : Int) : List UInt8 := if i < 0 then 45 :: decimal i.natAbs else decimal i.natAbs

def readDecimal (str : List UInt8) : Option Nat :=
  if str ≠ [] ∧ str.all fun c => IsDigit c then
    some (Nat.ofDigits 10 (str.reverse.map fun c => c.toNat - 48))
  else none

def readNumeral : List UInt8 → Option Int
  | [] => none
  | c :: str =>
      if c = 45 then (readDecimal str).map fun n : Nat => -(n : Int)
      else (readDecimal (c :: str)).map fun n : Nat => (n : Int)

structure CanonicalDecimal (str : List UInt8) : Prop where
  nonempty : str ≠ []
  digits : ∀ c ∈ str, IsDigit c
  leading : str.head? = some 48 → str = [48]

/-- A minus sign stands in front of the digits exactly if the number is negative. -/
structure Canonical (i : Int) (str : List UInt8) : Prop where
  sign : str.head? = some 45 ↔ i < 0
  magnitude : CanonicalDecimal (if i < 0 then str.tail else str)

variable {n : Nat} {i : Int}

section Digits

theorem digitChar_toNat {digit : Nat} (h : digit < 10) : (digitChar digit).toNat = 48 + digit := by
  rw [digitChar, UInt8.toNat_ofNat']
  omega

theorem digitChars_zero : digitChars 0 = [] := by
  rw [digitChars, Nat.digits_zero, List.map_nil, List.reverse_nil]

theorem digitChars_of_ne_zero (hn : n ≠ 0) :
    digitChars n = digitChars (n / 10) ++ [digitChar (n % 10)] := by
  rw [digitChars, Nat.digits_eq_cons_digits_div (by decide) hn, List.map_cons, List.reverse_cons]
  rfl

theorem length_digitChars_le {k : Nat} (hn : n < 10 ^ k) : (digitChars n).length ≤ k := by
  rw [digitChars, List.length_reverse, List.length_map]
  exact (Nat.digits_length_le_iff (by decide) n).mpr hn

theorem isDigit_digitChar {digit : Nat} (h : digit < 10) : IsDigit (digitChar digit) := by
  rw [IsDigit, digitChar_toNat h]
  omega

theorem isDigit_of_mem {c : UInt8} (hc : c ∈ digitChars n) : IsDigit c := by
  obtain ⟨digit, hdigit, rfl⟩ := List.mem_map.mp (List.mem_reverse.mp hc)
  exact isDigit_digitChar (Nat.digits_lt_base (by decide) hdigit)

theorem digitChars_ne_nil (hn : n ≠ 0) : digitChars n ≠ [] := by
  rw [digitChars_of_ne_zero hn]
  exact List.append_ne_nil_of_right_ne_nil _ (List.cons_ne_nil _ _)

theorem head?_digitChars_ne (hn : n ≠ 0) : (digitChars n).head? ≠ some 48 := by
  induction n using Nat.strong_induction_on with
  | _ n ih =>
      rw [digitChars_of_ne_zero hn]
      by_cases hlast : n / 10 = 0
      · rw [hlast, digitChars_zero, List.nil_append, List.head?_cons]
        intro hzero
        have hchar := congrArg UInt8.toNat (Option.some.inj hzero)
        rw [digitChar_toNat (Nat.mod_lt _ (by decide))] at hchar
        have hn10 : 48 + n % 10 = 48 := hchar
        omega
      · rw [List.head?_append_of_ne_nil _ (digitChars_ne_nil hlast)]
        exact ih (n / 10) (by omega) hlast

end Digits

section Decimal

theorem canonicalDecimal_decimal : CanonicalDecimal (decimal n) := by
  by_cases hn : n = 0
  · rw [decimal, if_pos hn]
    refine ⟨List.cons_ne_nil _ _, fun c hc => ?_, fun _ => rfl⟩
    rw [List.mem_singleton.mp hc]
    decide
  · rw [decimal, if_neg hn]
    exact ⟨digitChars_ne_nil hn, fun c hc => isDigit_of_mem hc,
      fun hzero => absurd hzero (head?_digitChars_ne hn)⟩

theorem readDecimal_decimal : readDecimal (decimal n) = some n := by
  have hdigits : (decimal n).all fun c => IsDigit c :=
    List.all_eq_true.mpr fun c hc => decide_eq_true (canonicalDecimal_decimal.digits c hc)
  rw [readDecimal, if_pos ⟨canonicalDecimal_decimal.nonempty, hdigits⟩]
  refine congrArg some ?_
  by_cases hn : n = 0
  · rw [decimal, if_pos hn, hn]
    rfl
  · rw [decimal, if_neg hn, digitChars, List.reverse_reverse, List.map_map]
    calc Nat.ofDigits 10 ((Nat.digits 10 n).map ((fun c : UInt8 => c.toNat - 48) ∘ digitChar))
      _ = Nat.ofDigits 10 ((Nat.digits 10 n).map fun digit => digit) := by
          refine congrArg _ (List.map_congr_left fun digit hdigit => ?_)
          rw [Function.comp_apply, digitChar_toNat (Nat.digits_lt_base (by decide) hdigit)]
          omega
      _ = n := by rw [List.map_id', Nat.ofDigits_digits]

theorem head?_decimal_ne : (decimal n).head? ≠ some 45 := by
  intro hsign
  obtain ⟨str, hstr⟩ := List.head?_eq_some_iff.mp hsign
  have hdigit := canonicalDecimal_decimal.digits 45 (by rw [hstr]; exact List.mem_cons_self)
  exact absurd hdigit (by decide)

end Decimal

theorem canonical_numeral : Canonical i (numeral i) := by
  by_cases hi : i < 0
  · constructor
    · rw [numeral, if_pos hi, List.head?_cons]
      exact iff_of_true rfl hi
    · rw [numeral, if_pos hi, if_pos hi, List.tail_cons]
      exact canonicalDecimal_decimal
  · constructor
    · rw [numeral, if_neg hi]
      exact iff_of_false head?_decimal_ne hi
    · rw [numeral, if_neg hi, if_neg hi]
      exact canonicalDecimal_decimal

theorem readNumeral_numeral : readNumeral (numeral i) = some i := by
  by_cases hi : i < 0
  · rw [numeral, if_pos hi, readNumeral, if_pos rfl, readDecimal_decimal, Option.map_some]
    exact congrArg some (by omega)
  · rw [numeral, if_neg hi]
    cases hstr : decimal i.natAbs with
    | nil => exact absurd hstr canonicalDecimal_decimal.nonempty
    | cons c str =>
        have hsign : c ≠ 45 := by
          intro hc
          refine @head?_decimal_ne i.natAbs ?_
          rw [hstr, hc, List.head?_cons]
        rw [readNumeral, if_neg hsign, ← hstr, readDecimal_decimal, Option.map_some]
        exact congrArg some (by omega)

end Numerals
