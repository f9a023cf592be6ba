import SlobOS.Lib.CStrings
import SlobOS.Lib.Descriptors

/-!
# The descriptor table

`gdt.c` over the bytes of the memory in which the table lies: the entries that the kernel writes down in
`kernel.c` are encoded one after the other, eight bytes each.
-/

namespace SlobOS

open CStrings Descriptors

structure GdtStructured where
  base : UInt32
  limit : UInt32
  type : UInt8

/-- The limits for which `encodeGdtEntry` panics. -/
def GdtRejects (limit : UInt32) : Prop := limit > 65536 ∧ limit &&& 0xFFF ≠ 0xFFF

instance (limit : UInt32) : Decidable (GdtRejects limit) := inferInstanceAs (Decidable (_ ∧ _))

/-- `encodeGdtEntry`; it does not return from `panic`. -/
def encodeGdtEntry (memory : Nat → UInt8) (target : Nat) (source : GdtStructured) :
    Option (Nat → UInt8) :=
  if GdtRejects source.limit then none
  else
    let memory := Function.update memory (target + 6) 0x40
    let limit := if source.limit > 65536 then source.limit >>> 12 else source.limit
    let memory := if source.limit > 65536 then Function.update memory (target + 6) 0xC0 else memory
    let memory := Function.update memory target (limit &&& 0xFF).toUInt8
    let memory := Function.update memory (target + 1) (limit >>> 8 &&& 0xFF).toUInt8
    let memory := Function.update memory (target + 6)
      (memory (target + 6) ||| (limit >>> 16 &&& 0x0F).toUInt8)
    let memory := Function.update memory (target + 2) (source.base &&& 0xFF).toUInt8
    let memory := Function.update memory (target + 3) (source.base >>> 8 &&& 0xFF).toUInt8
    let memory := Function.update memory (target + 4) (source.base >>> 16 &&& 0xFF).toUInt8
    let memory := Function.update memory (target + 7) (source.base >>> 24 &&& 0xFF).toUInt8
    some (Function.update memory (target + 5) source.type)

def gdtEntrySize : Nat := 8

def gdtStructuredToGdt (memory : Nat → UInt8) (gdt : Nat) (structuredGdt : Nat → GdtStructured)
    (totalEntries : Int) : Option (Nat → UInt8) :=
  (List.range totalEntries.toNat).foldlM
    (fun memory i => encodeGdtEntry memory (gdt + gdtEntrySize * i) (structuredGdt i)) memory

def GdtStructured.segment (source : GdtStructured) : Segment where
  base := source.base.toNat
  limit := source.limit.toNat
  access := source.type

variable {memory : Nat → UInt8} {target : Nat} {source : GdtStructured}

def GdtStructured.limitField (source : GdtStructured) : UInt32 :=
  if source.limit > 65536 then source.limit >>> 12 else source.limit

def GdtStructured.bytes (source : GdtStructured) : List UInt8 :=
  [(source.limitField &&& 0xFF).toUInt8, (source.limitField >>> 8 &&& 0xFF).toUInt8,
    (source.base &&& 0xFF).toUInt8, (source.base >>> 8 &&& 0xFF).toUInt8,
    (source.base >>> 16 &&& 0xFF).toUInt8, source.type,
    (if source.limit > 65536 then (0xC0 : UInt8) else 0x40) ||| (source.limitField >>> 16 &&& 0x0F).toUInt8,
    (source.base >>> 24 &&& 0xFF).toUInt8]

theorem encodeGdtEntry_eq (haccepts : ¬GdtRejects source.limit) :
    encodeGdtEntry memory target source = some (putBytes memory target source.bytes) := by
  rw [encodeGdtEntry, if_neg haccepts]
  refine congrArg some (funext fun address => ?_)
  by_cases hin : target ≤ address ∧ address < target + 8
  · obtain ⟨k, rfl⟩ := Nat.exists_eq_add_of_le hin.1
    have hk : k < source.bytes.length := show k < 8 by omega
    have hcases : k = 0 ∨ k = 1 ∨ k = 2 ∨ k = 3 ∨ k = 4 ∨ k = 5 ∨ k = 6 ∨ k = 7 := by omega
    rw [putBytes_of_lt hk, GdtStructured.bytes, GdtStructured.limitField]
    -- The flags are stored twice if the limit counts pages.
    by_cases hpages : source.limit > 65536
    · rcases hcases with rfl | rfl | rfl | rfl | rfl | rfl | rfl | rfl
      all_goals simp [hpages]
    · rcases hcases with rfl | rfl | rfl | rfl | rfl | rfl | rfl | rfl
      all_goals simp [hpages]
  · have hne : ∀ k < 8, address ≠ target + k := by omega
    rw [putBytes_of_not_mem hin, Function.update_of_ne (hne 5 (by decide)),
      Function.update_of_ne (hne 7 (by decide)), Function.update_of_ne (hne 4 (by decide)),
      Function.update_of_ne (hne 3 (by decide)), Function.update_of_ne (hne 2 (by decide)),
      Function.update_of_ne (hne 6 (by decide)), Function.update_of_ne (hne 1 (by decide)),
      Function.update_of_ne (show address ≠ target from hne 0 (by decide))]
    split
    · rw [Function.update_of_ne (hne 6 (by decide)), Function.update_of_ne (hne 6 (by decide))]
    · exact Function.update_of_ne (hne 6 (by decide)) _ _

theorem limit_eq (haccepts : ¬GdtRejects source.limit) :
    (if source.limit > 65536 then source.limitField.toNat % 0x100000 * 4096 + 4095
      else source.limitField.toNat % 0x100000) = source.limit.toNat := by
  have hlt : source.limit.toNat < 0x100000000 := source.limit.toNat_lt
  by_cases hpages : source.limit > 65536
  · have hlow : source.limit &&& 0xFFF = 0xFFF := by
      by_contra hlow
      exact haccepts ⟨hpages, hlow⟩
    have hmod : source.limit.toNat % 0x1000 = 0xFFF := by
      calc source.limit.toNat % 0x1000
        _ = source.limit.toNat &&& 0xFFF := (Nat.and_two_pow_sub_one_eq_mod _ 12).symm
        _ = 0xFFF := congrArg UInt32.toNat hlow
    have hfield : (source.limit >>> 12).toNat = source.limit.toNat / 0x1000 := by
      rw [UInt32.toNat_shiftRight]
      exact Nat.shiftRight_eq_div_pow _ 12
    rw [if_pos hpages, GdtStructured.limitField, if_pos hpages, hfield]
    omega
  · have hle : source.limit.toNat ≤ 65536 := Nat.le_of_not_lt hpages
    rw [if_neg hpages, GdtStructured.limitField, if_neg hpages]
    omega

theorem flags_toNat : (source.bytes.getD 6 0).toNat =
    (if source.limit > 65536 then 0xC0 else 0x40) + source.limitField.toNat / 0x10000 % 16 := by
  rw [GdtStructured.bytes]
  by_cases hpages : source.limit > 65536
  · rw [if_pos hpages, if_pos hpages]
    exact @flagged_toNat source.limitField 0xC0 12 rfl
  · rw [if_neg hpages, if_neg hpages]
    exact @flagged_toNat source.limitField 0x40 4 rfl

theorem segment_bytes (haccepts : ¬GdtRejects source.limit) :
    segmentOf (fun k => source.bytes.getD k 0) = source.segment := by
  have hfield : limitField (fun k => source.bytes.getD k 0) = source.limitField.toNat % 0x100000 := by
    have h0 : (source.bytes.getD 0 0).toNat = source.limitField.toNat % 0x100 :=
      lowByte_toNat source.limitField
    have h1 : (source.bytes.getD 1 0).toNat = source.limitField.toNat / 0x100 % 0x100 :=
      @shiftedByte_toNat source.limitField 8 (by decide)
    rw [limitField, h0, h1, flags_toNat]
    split <;> omega
  have hgranular : Granular (fun k => source.bytes.getD k 0) ↔ source.limit > 65536 := by
    rw [Granular, flags_toNat]
    split
    · next hpages => exact iff_of_true (by omega) hpages
    · next hpages => exact iff_of_false (by omega) hpages
  rw [segmentOf, GdtStructured.segment, Segment.mk.injEq]
  refine ⟨bytes_toNat source.base, ?_, rfl⟩
  rw [hfield, ← limit_eq haccepts]
  exact if_congr hgranular rfl rfl

theorem segment_putBytes (haccepts : ¬GdtRejects source.limit) :
    segmentOf (fun k => putBytes memory target source.bytes (target + k)) = source.segment := by
  rw [← segment_bytes haccepts]
  exact segmentOf_congr fun k hk => putBytes_of_lt (show k < source.bytes.length from hk)

variable {gdt n : Nat} {structuredGdt : Nat → GdtStructured}

def entrySegment (memory : Nat → UInt8) (gdt i : Nat) : Segment :=
  segmentOf fun k => memory (gdt + gdtEntrySize * i + k)

structure Encodes (memory memory' : Nat → UInt8) (gdt : Nat) (structuredGdt : Nat → GdtStructured)
    (n : Nat) : Prop where
  entries : ∀ i < n, entrySegment memory' gdt i = (structuredGdt i).segment
  others : ∀ address, address < gdt ∨ gdt + gdtEntrySize * n ≤ address →
    memory' address = memory address

theorem Encodes.step {memory' : Nat → UInt8} (h : Encodes memory memory' gdt structuredGdt n)
    (haccepts : ¬GdtRejects (structuredGdt n).limit) :
    ∃ next, encodeGdtEntry memory' (gdt + gdtEntrySize * n) (structuredGdt n) = some next ∧
      Encodes memory next gdt structuredGdt (n + 1) := by
  refine ⟨_, encodeGdtEntry_eq haccepts, ?_, ?_⟩
  · intro i hi
    rcases Nat.lt_succ_iff_lt_or_eq.mp hi with hlt | rfl
    · rw [← h.entries i hlt]
      refine segmentOf_congr fun k hk => putBytes_of_not_mem ?_
      rw [gdtEntrySize]
      omega
    · exact segment_putBytes haccepts
  · intro address hout
    rw [← h.others address (by rw [gdtEntrySize] at *; omega)]
    exact putBytes_of_not_mem (show ¬(_ ∧ _ < _ + 8) by rw [gdtEntrySize] at *; omega)

theorem gdtStructuredToGdt_encodes
    (haccepts : ∀ i < n, ¬GdtRejects (structuredGdt i).limit) :
    ∃ memory', gdtStructuredToGdt memory gdt structuredGdt n = some memory' ∧
      Encodes memory memory' gdt structuredGdt n := by
  rw [gdtStructuredToGdt, Int.toNat_natCast]
  induction n with
  | zero => exact ⟨memory, rfl, fun i hi => absurd hi (Nat.not_lt_zero i), fun _ _ => rfl⟩
  | succ n ih =>
      obtain ⟨memory', hfold, hencodes⟩ := ih fun i hi => haccepts i (Nat.lt_succ_of_lt hi)
      obtain ⟨next, hnext, hencodes'⟩ := hencodes.step (haccepts n (Nat.lt_succ_self n))
      refine ⟨next, ?_, hencodes'⟩
      rw [List.range_succ, List.foldlM_append, hfold]
      exact (bind_pure _).trans hnext

/-- Every segment that is not rejected is decoded as it was asked for, and a table of them as well. -/
theorem gdtStructuredToGdt_decodes (memory : Nat → UInt8) :
    (∀ target source, ¬GdtRejects source.limit → ∃ memory',
      encodeGdtEntry memory target source = some memory' ∧
        segmentOf (fun k => memory' (target + k)) = source.segment ∧
        ∀ address, address < target ∨ target + gdtEntrySize ≤ address →
          memory' address = memory address) ∧
    ∀ gdt structuredGdt (totalEntries : Nat),
      (∀ i < totalEntries, ¬GdtRejects (structuredGdt i).limit) → ∃ memory',
        gdtStructuredToGdt memory gdt structuredGdt totalEntries = some memory' ∧
          Encodes memory memory' gdt structuredGdt totalEntries := by
  refine ⟨fun target source haccepts => ⟨_, encodeGdtEntry_eq haccepts, segment_putBytes haccepts, ?_⟩, ?_⟩
  · intro address hout
    exact putBytes_of_not_mem (show ¬(_ ∧ _ < _ + 8) by rw [gdtEntrySize] at hout; omega)
  · intro gdt structuredGdt totalEntries haccepts
    exact gdtStructuredToGdt_encodes haccepts

end SlobOS
