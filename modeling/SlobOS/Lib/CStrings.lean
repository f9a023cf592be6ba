import Mathlib.Tactic.Common

/-!
# Strings in memory

A memory is a function from addresses to bytes. A string is a list of characters that are not zero; it
lies at an address if its characters follow each other from there on and a zero follows them.
-/

namespace CStrings

def putBytes (memory : Nat → UInt8) (ptr : Nat) (bytes : List UInt8) : Nat → UInt8 := fun address =>
  if ptr ≤ address ∧ address < ptr + bytes.length then bytes.getD (address - ptr) 0
  else memory address

def StringAt (memory : Nat → UInt8) : Nat → List UInt8 → Prop
  | ptr, [] => memory ptr = 0
  | ptr, c :: str => c ≠ 0 ∧ memory ptr = c ∧ StringAt memory (ptr + 1) str

def stringFrom (memory : Nat → UInt8) (ptr : Nat) : Nat → List UInt8
  | 0 => []
  | limit + 1 => if memory ptr = 0 then [] else memory ptr :: stringFrom memory (ptr + 1) limit

variable {memory memory' : Nat → UInt8} {ptr : Nat} {str rest bytes : List UInt8}

theorem StringAt.zero_not_mem (h : StringAt memory ptr str) : 0 ∉ str := by
  induction str generalizing ptr with
  | nil => exact List.not_mem_nil
  | cons c str ih =>
      obtain ⟨hne, -, hrest⟩ := h
      intro hmem
      rcases List.mem_cons.mp hmem with heq | hmem
      · exact hne heq.symm
      · exact ih hrest hmem

theorem StringAt.congr (h : StringAt memory ptr str)
    (hsame : ∀ address, ptr ≤ address → address ≤ ptr + str.length → memory' address = memory address) :
    StringAt memory' ptr str := by
  induction str generalizing ptr with
  | nil => exact (hsame ptr (Nat.le_refl _) (Nat.le_add_right _ _)).trans h
  | cons c str ih =>
      obtain ⟨hne, hc, hrest⟩ := h
      rw [List.length_cons] at hsame
      refine ⟨hne, (hsame ptr (Nat.le_refl _) (by omega)).trans hc, ih hrest ?_⟩
      intro address hge hle
      exact hsame address (by omega) (by omega)

theorem StringAt.drop (h : StringAt memory ptr (str ++ rest)) :
    StringAt memory (ptr + str.length) rest := by
  induction str generalizing ptr with
  | nil => exact h
  | cons c str ih =>
      rw [List.length_cons, show ptr + (str.length + 1) = ptr + 1 + str.length by omega]
      exact ih h.2.2

theorem stringAt_iff : StringAt memory ptr str ↔ 0 ∉ str ∧
    (∀ j < str.length, memory (ptr + j) = str.getD j 0) ∧ memory (ptr + str.length) = 0 := by
  induction str generalizing ptr with
  | nil => simp [StringAt]
  | cons c str ih =>
      rw [StringAt, ih, List.mem_cons, not_or, List.length_cons,
        show ptr + 1 + str.length = ptr + (str.length + 1) by omega]
      constructor
      · rintro ⟨hne, hc, hzero, hchars, hend⟩
        refine ⟨⟨Ne.symm hne, hzero⟩, fun j hj => ?_, hend⟩
        cases j with
        | zero => exact hc
        | succ j =>
            rw [show ptr + (j + 1) = ptr + 1 + j by omega]
            exact hchars j (by omega)
      · rintro ⟨⟨hne, hzero⟩, hchars, hend⟩
        refine ⟨Ne.symm hne, hchars 0 (Nat.succ_pos _), hzero, fun j hj => ?_, hend⟩
        rw [show ptr + 1 + j = ptr + (j + 1) by omega]
        exact hchars (j + 1) (by omega)

theorem StringAt.byte {i : Nat} (h : StringAt memory ptr str) (hi : i ≤ str.length) :
    memory (ptr + i) = str.getD i 0 := by
  obtain ⟨-, hchars, hend⟩ := stringAt_iff.mp h
  rcases Nat.lt_or_eq_of_le hi with hlt | rfl
  · exact hchars i hlt
  · rw [hend, List.getD_eq_getElem?_getD, List.getElem?_eq_none (Nat.le_refl _), Option.getD_none]

theorem StringAt.unique {str' : List UInt8} (h : StringAt memory ptr str)
    (h' : StringAt memory ptr str') : str = str' := by
  induction str generalizing ptr str' with
  | nil =>
      cases str' with
      | nil => rfl
      | cons c str' => exact absurd (h'.2.1.symm.trans h) h'.1
  | cons c str ih =>
      cases str' with
      | nil => exact absurd (h.2.1.symm.trans h') h.1
      | cons c' str' => rw [h.2.1.symm.trans h'.2.1, ih h.2.2 h'.2.2]

theorem StringAt.stringFrom_eq {limit : Nat} (h : StringAt memory ptr str) (hle : str.length ≤ limit) :
    stringFrom memory ptr limit = str := by
  induction str generalizing ptr limit with
  | nil =>
      cases limit with
      | zero => rfl
      | succ limit => exact if_pos h
  | cons c str ih =>
      obtain ⟨hne, hc, hrest⟩ := h
      obtain ⟨limit, rfl⟩ := Nat.exists_eq_add_one_of_ne_zero (Nat.ne_zero_of_lt hle)
      rw [stringFrom, hc, if_neg hne, ih hrest (Nat.le_of_succ_le_succ hle)]

section PutBytes

variable {address : Nat}

theorem putBytes_of_not_mem (hout : ¬(ptr ≤ address ∧ address < ptr + bytes.length)) :
    putBytes memory ptr bytes address = memory address :=
  if_neg hout

theorem putBytes_of_lt {i : Nat} (hi : i < bytes.length) :
    putBytes memory ptr bytes (ptr + i) = bytes.getD i 0 := by
  rw [putBytes, if_pos ⟨Nat.le_add_right _ _, by omega⟩, Nat.add_sub_cancel_left]

theorem putBytes_cons (memory : Nat → UInt8) (ptr : Nat) (byte : UInt8) (bytes : List UInt8) :
    putBytes memory ptr (byte :: bytes) =
      putBytes (putBytes memory ptr [byte]) (ptr + 1) bytes := by
  funext address
  unfold putBytes
  rw [List.length_cons, List.length_singleton]
  by_cases hfirst : address = ptr
  · subst hfirst
    rw [if_pos (by omega), if_neg (by omega), if_pos (by omega), Nat.sub_self]
    rfl
  by_cases hin : ptr + 1 ≤ address ∧ address < ptr + 1 + bytes.length
  · rw [if_pos (by omega), if_pos hin, show address - ptr = address - (ptr + 1) + 1 by omega,
      List.getD_cons_succ]
  · rw [if_neg (by omega), if_neg hin, if_neg (by omega)]

theorem stringAt_putBytes (hzero : 0 ∉ str) : StringAt (putBytes memory ptr (str ++ [0])) ptr str := by
  induction str generalizing memory ptr with
  | nil => exact @putBytes_of_lt memory ptr [0] 0 (by decide)
  | cons c str ih =>
      rw [List.mem_cons, not_or] at hzero
      rw [List.cons_append, putBytes_cons]
      refine ⟨Ne.symm hzero.1, ?_, ih hzero.2⟩
      rw [putBytes_of_not_mem (by omega)]
      exact @putBytes_of_lt memory ptr [c] 0 (by simp)

end PutBytes

end CStrings
