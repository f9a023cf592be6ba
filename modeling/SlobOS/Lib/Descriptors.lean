import Mathlib.Data.Nat.Bitwise

/-!
# Segment descriptors

How the processor reads the eight bytes of an entry of a descriptor table, and how the bytes of a 32-bit
word are found in it.
-/

namespace Descriptors

structure Segment where
  base : Nat
  limit : Nat
  access : UInt8

def limitField (bytes : Nat → UInt8) : Nat :=
  (bytes 0).toNat + 0x100 * (bytes 1).toNat + 0x10000 * ((bytes 6).toNat % 16)

def Granular (bytes : Nat → UInt8) : Prop := 0x80 ≤ (bytes 6).toNat

instance (bytes : Nat → UInt8) : Decidable (Granular bytes) := inferInstanceAs (Decidable (_ ≤ _))

/-- With the granularity bit the limit counts pages. -/
def segmentOf (bytes : Nat → UInt8) : Segment where
  base := (bytes 2).toNat + 0x100 * (bytes 3).toNat + 0x10000 * (bytes 4).toNat +
    0x1000000 * (bytes 7).toNat
  limit := if Granular bytes then limitField bytes * 4096 + 4095 else limitField bytes
  access := bytes 5

theorem segmentOf_congr {bytes bytes' : Nat → UInt8} (hsame : ∀ k < 8, bytes' k = bytes k) :
    segmentOf bytes' = segmentOf bytes := by
  have hfield : limitField bytes' = limitField bytes := by
    rw [limitField, limitField, hsame 0 (by decide), hsame 1 (by decide), hsame 6 (by decide)]
  have hgranular : Granular bytes' ↔ Granular bytes := by
    rw [Granular, Granular, hsame 6 (by decide)]
  rw [segmentOf, segmentOf, Segment.mk.injEq, hfield, hsame 2 (by decide), hsame 3 (by decide),
    hsame 4 (by decide), hsame 7 (by decide)]
  exact ⟨rfl, if_congr hgranular rfl rfl, hsame 5 (by decide)⟩

variable (word : UInt32)

theorem lowByte_toNat : (word &&& 0xFF).toUInt8.toNat = word.toNat % 0x100 := by
  rw [UInt32.toNat_toUInt8, UInt32.toNat_and]
  change (word.toNat &&& (2 ^ 8 - 1)) % 2 ^ 8 = word.toNat % 2 ^ 8
  rw [Nat.and_two_pow_sub_one_eq_mod, Nat.mod_mod]

theorem shiftedByte_toNat {k : UInt32} (hk : k.toNat < 32) :
    (word >>> k &&& 0xFF).toUInt8.toNat = word.toNat / 2 ^ k.toNat % 0x100 := by
  rw [lowByte_toNat, UInt32.toNat_shiftRight, Nat.mod_eq_of_lt hk, Nat.shiftRight_eq_div_pow]

theorem bytes_toNat : (word &&& 0xFF).toUInt8.toNat +
    0x100 * (word >>> 8 &&& 0xFF).toUInt8.toNat + 0x10000 * (word >>> 16 &&& 0xFF).toUInt8.toNat +
    0x1000000 * (word >>> 24 &&& 0xFF).toUInt8.toNat = word.toNat := by
  have hlt : word.toNat < 0x100000000 := word.toNat_lt
  rw [lowByte_toNat, @shiftedByte_toNat word 8 (by decide), @shiftedByte_toNat word 16 (by decide),
    @shiftedByte_toNat word 24 (by decide)]
  change word.toNat % 0x100 + 0x100 * (word.toNat / 0x100 % 0x100) +
    0x10000 * (word.toNat / 0x10000 % 0x100) + 0x1000000 * (word.toNat / 0x1000000 % 0x100) = word.toNat
  omega

theorem flagged_toNat {flags : UInt8} {high : Nat} (hflags : flags.toNat = high <<< 4) :
    (flags ||| (word >>> 16 &&& 0x0F).toUInt8).toNat = 16 * high + word.toNat / 0x10000 % 16 := by
  have hfield : (word >>> 16 &&& 0x0F).toUInt8.toNat = word.toNat / 0x10000 % 2 ^ 4 := by
    rw [UInt32.toNat_toUInt8, UInt32.toNat_and, UInt32.toNat_shiftRight]
    change (word.toNat >>> 16 &&& (2 ^ 4 - 1)) % 2 ^ 8 = _
    rw [Nat.and_two_pow_sub_one_eq_mod, Nat.shiftRight_eq_div_pow]
    omega
  have hlt : word.toNat / 0x10000 % 2 ^ 4 < 2 ^ 4 := Nat.mod_lt _ (by decide)
  rw [UInt8.toNat_or, hflags, hfield, ← Nat.shiftLeft_add_eq_or_of_lt hlt]
  omega

end Descriptors
