import SlobOS.PhysicalPaging
import SlobOS.Proof.HeldMemory
import SlobOS.Proof.ArgumentLists

/-!
# Words of memory

What a store changes, and what it leaves: a stretch of memory that it does not meet stays as it is, and
so do the words in it.
-/

namespace SlobOS

namespace Physical

open Faulting Kernel CStrings

variable {kernel middle after : Kernel} {base size index ptr val : Nat}

@[simp]
theorem ends_loadWord {result : Nat} : Ends (loadWord base index) kernel result after ↔
    base ≠ 0 ∧ result = word kernel base index ∧ after = kernel := by
  simp only [loadWord, ends_bind, ends_deref, ends_get, ends_pure, and_assoc, exists_eq_left,
    exists_and_left, exists_const]

@[simp]
theorem ends_storeWord {result : Unit} : Ends (storeWord base index val) kernel result after ↔
    base ≠ 0 ∧ after = putMemory (base + 4 * index) (wordBytes val) kernel := by
  simp only [storeWord, ends_bind, ends_deref, ends_modify, and_assoc, exists_eq_left,
    exists_and_left, exists_const]

theorem bytes_putMemory (ptr : Nat) (stored : List UInt8) (kernel : Kernel) :
    bytes (putMemory ptr stored kernel) = putBytes (bytes kernel) ptr stored := rfl

theorem word_congr_memory (h : bytes after = bytes kernel) (base index : Nat) :
    word after base index = word kernel base index := by
  rw [word, word, h]

theorem word_storeWord (hval : val < addressSpace) (hlt : base + 4 * index + 4 ≤ addressSpace) :
    word (putMemory (base + 4 * index) (wordBytes val) kernel) base index = val := by
  rw [word, bytes_putMemory]
  exact readWord_putBytes hval (by omega)

def SameBytes (base size : Nat) (kernel after : Kernel) : Prop :=
  ∀ i < size, bytes after (base + i) = bytes kernel (base + i)

instance : Frame (SameBytes base size) where
  refl _ _ _ := rfl
  trans h h' i hi := (h' i hi).trans (h i hi)

theorem SameBytes.word (h : SameBytes base size kernel after) (hindex : 4 * index + 4 ≤ size)
    (hlt : base + size ≤ addressSpace) : word after base index = word kernel base index := by
  apply readWord_congr (by omega)
  intro i hi
  rw [Nat.add_assoc]
  exact h _ (by omega)

theorem SameBytes.mono (h : SameBytes base size kernel after) {less : Nat} (hle : less ≤ size) :
    SameBytes base less kernel after :=
  fun i hi => h i (Nat.lt_of_lt_of_le hi hle)

def Disjoint (base size other count : Nat) : Prop := base + size ≤ other ∨ other + count ≤ base

theorem putMemory_sameBytes {stored : List UInt8} (h : Disjoint base size ptr stored.length)
    (kernel : Kernel) : SameBytes base size kernel (putMemory ptr stored kernel) := by
  intro i hi
  rw [bytes_putMemory]
  apply if_neg
  rcases h with hbelow | habove <;> omega

theorem storeWord_sameBytes (h : Disjoint base size (ptr + 4 * index) 4) (val : Nat)
    (kernel : Kernel) :
    SameBytes base size kernel (putMemory (ptr + 4 * index) (wordBytes val) kernel) :=
  putMemory_sameBytes (by rwa [wordBytes_length]) kernel

theorem word_storeWord_of_ne {other : Nat} (hne : index ≠ other)
    (hlt : base + 4 * other + 4 ≤ addressSpace) :
    word (putMemory (base + 4 * index) (wordBytes val) kernel) base other =
      word kernel base other := by
  have hsame : SameBytes (base + 4 * other) 4 kernel
      (putMemory (base + 4 * index) (wordBytes val) kernel) :=
    storeWord_sameBytes (by unfold Disjoint; omega) val kernel
  have hfirst : ∀ state, word state (base + 4 * other) 0 = word state base other := fun _ => rfl
  rw [← hfirst, ← hfirst]
  exact hsame.word (show 4 * 0 + 4 ≤ 4 by decide) hlt

def blockAddress (block : Nat) : Nat := slobosHeapAddress + block * slobosHeapBlockSize

theorem blockAddress_aligned (block : Nat) : blockAddress block % pagingPageSize = 0 := by
  simp only [blockAddress, slobosHeapAddress, slobosHeapBlockSize, pagingPageSize]
  omega

theorem blockAddress_ne_zero (block : Nat) : blockAddress block ≠ 0 := by
  simp only [blockAddress, slobosHeapAddress]
  omega

theorem blockAddress_page (block : Nat) :
    blockAddress block / pagingPageSize * pagingPageSize = blockAddress block :=
  Nat.div_mul_cancel (Nat.dvd_of_mod_eq_zero (blockAddress_aligned block))

theorem blockAddress_lt {block : Nat} (hbelow : blockAddress block + slobosHeapBlockSize ≤ addressSpace) :
    blockAddress block < addressSpace :=
  Nat.lt_of_lt_of_le (Nat.lt_add_of_pos_right (by decide)) hbelow

theorem blockAddress_offset {block j : Nat} (hbelow : blockAddress block + slobosHeapBlockSize ≤ addressSpace)
    (hj : j < slobosHeapBlockSize) : toUint32 (blockAddress block + j) = blockAddress block + j :=
  Nat.mod_eq_of_lt (by omega)

theorem blockAddress_add {block j : Nat} (hj : j < slobosHeapBlockSize) :
    (blockAddress block + j) / pagingPageSize = blockAddress block / pagingPageSize ∧
      (blockAddress block + j) % pagingPageSize = j := by
  have hpage := blockAddress_page block
  simp only [slobosHeapBlockSize, pagingPageSize] at *
  omega

theorem blockAddress_disjoint {block other : Nat} (hne : block ≠ other) :
    Disjoint (blockAddress block) slobosHeapBlockSize (blockAddress other) slobosHeapBlockSize := by
  simp only [Disjoint, blockAddress, slobosHeapBlockSize]
  omega

theorem Disjoint.mono {other count base' size' other' count' : Nat}
    (h : Disjoint base size other count) (hge : base ≤ base') (hle : base' + size' ≤ base + size)
    (hge' : other ≤ other') (hle' : other' + count' ≤ other + count) :
    Disjoint base' size' other' count' := by
  unfold Disjoint at h ⊢
  omega

theorem storeCell_sameBytes {block other : Nat} (hne : other ≠ block)
    (hcell : 4 * index + 4 ≤ slobosHeapBlockSize) (val : Nat) (kernel : Kernel) :
    SameBytes (blockAddress other) slobosHeapBlockSize kernel
      (putMemory (blockAddress block + 4 * index) (wordBytes val) kernel) :=
  storeWord_sameBytes ((blockAddress_disjoint hne).mono (Nat.le_refl _) (Nat.le_refl _)
    (Nat.le_add_right _ _) (by omega)) val kernel

theorem kzalloc_sameBytes {block : Nat} (h : Ends (kzalloc size) kernel ptr after)
    (hblock : Holds kernel.heap block) :
    SameBytes (blockAddress block) slobosHeapBlockSize kernel after := by
  intro i hi
  rw [bytes, (ends_kzalloc h).2.2.1.pages]
  exact kzalloc_untouched h hblock kernel.pages i hi

end Physical

end SlobOS
