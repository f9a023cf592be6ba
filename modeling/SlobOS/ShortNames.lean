import Mathlib.Data.List.DropRight
import Mathlib.Data.List.GetD
import SlobOS.FatVolume
import SlobOS.Lib.Stores

/-!
# The names of directory items

The copy of a name or of an extension ends at a space or a zero byte, and not at the end of its field.
So a field that is full is followed by what lies behind it in memory.
-/

namespace SlobOS

open Stores

def EndsCopy (c : UInt8) : Prop := c = 0x00 ∨ c = 0x20

def itemField (bytes : Nat → UInt8) (pos width : Nat) : List UInt8 :=
  ((List.range width).map fun k => bytes (pos + k)).rdropWhile (· = 0x20)

def itemName (bytes : Nat → UInt8) : List UInt8 := itemField bytes 0 8

def itemExt (bytes : Nat → UInt8) : List UInt8 := itemField bytes 8 3

def itemText (bytes : Nat → UInt8) : List UInt8 :=
  itemName bytes ++ if itemExt bytes = [] then [] else 0x2e :: itemExt bytes

def bufferText (memory : Nat → UInt8) (maxLen : Nat) : List UInt8 :=
  ((List.range maxLen).map memory).takeWhile (· ≠ 0x00)

/-- The name comes out as it is in the item, with a zero byte behind it, and nothing is stored outside
of the buffer. -/
def FilenameRight (bytes : Nat → UInt8) (maxLen : Nat) : Prop :=
  ∃ left stores, fat16GetFullRelativeFilename bytes left maxLen = some stores ∧
    (∀ store ∈ stores, store.1 < maxLen) ∧ (itemText bytes).length < maxLen ∧
      ∀ memory, bufferText (applyStores memory stores) maxLen = itemText bytes

/-- The fields hold no zero bytes and no spaces but their padding, a full name has no extension, a full
extension is followed by a zero byte or a space, and the buffer is longer than the text. -/
structure FieldsEnd (bytes : Nat → UInt8) (maxLen : Nat) : Prop where
  name : ∀ c ∈ itemName bytes, ¬EndsCopy c
  ext : ∀ c ∈ itemExt bytes, ¬EndsCopy c
  nameEnds : (itemName bytes).length = 8 → itemExt bytes = []
  extEnds : (itemExt bytes).length = 3 → EndsCopy (bytes 11)
  room : (itemText bytes).length < maxLen

section Copy

variable {bytes memory : Nat → UInt8} {left out out' pos n n' maxLen : Nat}
  {stores : List (Nat × UInt8)} {text : List UInt8}

/-- The copy from the position on ends after that many characters. -/
structure CopyEnds (bytes : Nat → UInt8) (pos n : Nat) : Prop where
  copied : ∀ k < n, ¬EndsCopy (bytes (pos + k))
  ends : EndsCopy (bytes (pos + n))

def copiedText (bytes : Nat → UInt8) (pos n : Nat) : List UInt8 :=
  (List.range n).map fun k => bytes (pos + k)

theorem CopyEnds.unique (h : CopyEnds bytes pos n) (h' : CopyEnds bytes pos n') : n = n' := by
  by_contra hne
  rcases Nat.lt_or_gt_of_ne hne with hlt | hgt
  · exact h'.copied n hlt h.ends
  · exact h.copied n' hgt h'.ends

theorem CopyEnds.le (h : CopyEnds bytes pos n) (hcopied : ∀ k < n', ¬EndsCopy (bytes (pos + k))) :
    n' ≤ n := by
  by_contra hgt
  exact hcopied n (by omega) h.ends

theorem copyEnds_zero : CopyEnds bytes pos 0 ↔ EndsCopy (bytes pos) :=
  ⟨fun h => h.ends, fun h => ⟨by omega, h⟩⟩

theorem copyEnds_succ : CopyEnds bytes pos (n + 1) ↔
    ¬EndsCopy (bytes pos) ∧ CopyEnds bytes (pos + 1) n := by
  have hshift : ∀ k, pos + 1 + k = pos + (k + 1) := by omega
  constructor
  · intro h
    refine ⟨h.copied 0 (Nat.succ_pos n), fun k hk => ?_, ?_⟩
    · rw [hshift]
      exact h.copied (k + 1) (Nat.succ_lt_succ hk)
    · rw [hshift]
      exact h.ends
  · rintro ⟨hfirst, hcopied, hends⟩
    refine ⟨fun k hk => ?_, ?_⟩
    · cases k with
      | zero => exact hfirst
      | succ k =>
          rw [← hshift]
          exact hcopied k (Nat.lt_of_succ_lt_succ hk)
    · rw [← hshift]
      exact hends

theorem copiedText_length (bytes : Nat → UInt8) (pos n : Nat) :
    (copiedText bytes pos n).length = n := by
  rw [copiedText, List.length_map, List.length_range]

theorem copiedText_succ (bytes : Nat → UInt8) (pos n : Nat) :
    copiedText bytes pos (n + 1) = bytes pos :: copiedText bytes (pos + 1) n := by
  rw [copiedText, List.range_succ_eq_map, List.map_cons, List.map_map]
  congr 1
  apply List.map_congr_left
  intro k _
  exact congrArg bytes (by omega)

def HoldsText (memory : Nat → UInt8) (maxLen : Nat) (text : List UInt8) : Prop :=
  ∀ i < maxLen, memory i = text.getD i 0

/-- What a copy does: it ends somewhere, moves `out` on by the number of characters, and appends them
to the text of the buffer. -/
structure Copies (bytes : Nat → UInt8) (pos out n : Nat) (stores : List (Nat × UInt8)) : Prop where
  ends : CopyEnds bytes pos n
  inside : ∀ store ∈ stores, store.1 ≤ out + n
  holds : ∀ memory maxLen text, text.length = out → HoldsText memory maxLen text →
    HoldsText (applyStores memory stores) maxLen (text ++ copiedText bytes pos n)

theorem not_endsCopy_iff {c : UInt8} : ¬EndsCopy c ↔ c ≠ 0x00 ∧ c ≠ 0x20 := by
  rw [EndsCopy, not_or]

theorem HoldsText.snoc {c : UInt8} (h : HoldsText memory maxLen text) :
    HoldsText (fun i => if i = text.length then c else memory i) maxLen (text ++ [c]) := by
  intro i hi
  change (if i = text.length then c else memory i) = _
  by_cases heq : i = text.length
  · subst heq
    simp
  · rw [if_neg heq, h i hi]
    by_cases hlt : i < text.length
    · rw [List.getD_append _ _ _ _ hlt]
    · rw [List.getD_eq_default _ _ (by omega), List.getD_eq_default _ _ (by simp; omega)]

theorem HoldsText.terminate (h : HoldsText memory maxLen text) :
    HoldsText (fun i => if i = text.length then 0x00 else memory i) maxLen text := by
  intro i hi
  change (if i = text.length then 0x00 else memory i) = _
  by_cases heq : i = text.length
  · rw [if_pos heq, List.getD_eq_default _ _ (by omega)]
  · rw [if_neg heq, h i hi]

theorem Copies.cons (h : Copies bytes (pos + 1) (out + 1) n stores) (hfirst : ¬EndsCopy (bytes pos)) :
    Copies bytes pos out (n + 1) ((out, bytes pos) :: stores) where
  ends := copyEnds_succ.mpr ⟨hfirst, h.ends⟩
  inside store hstore := by
    rcases List.mem_cons.mp hstore with rfl | hmem
    · exact Nat.le_add_right _ _
    · have hle := h.inside store hmem
      omega
  holds memory maxLen text hlength hholds := by
    subst hlength
    rw [copiedText_succ, List.append_cons, applyStores]
    exact h.holds _ _ _ (by simp) hholds.snoc

theorem copies_zero (hend : EndsCopy (bytes pos)) (hinside : ∀ store ∈ stores, store.1 ≤ out)
    (hholds : ∀ memory maxLen text, text.length = out → HoldsText memory maxLen text →
      HoldsText (applyStores memory stores) maxLen text) : Copies bytes pos out 0 stores where
  ends := copyEnds_zero.mpr hend
  inside := hinside
  holds memory maxLen text hlength htext := by
    rw [copiedText, List.range_zero, List.map_nil, List.append_nil]
    exact hholds memory maxLen text hlength htext

theorem fat16ToProperString_copies
    (h : fat16ToProperString bytes left out pos = some (stores, out')) :
    ∃ n, out' = out + n ∧ Copies bytes pos out n stores := by
  induction left generalizing out pos stores with
  | zero => cases h
  | succ left ih =>
      rw [fat16ToProperString] at h
      split at h
      case isTrue hcopied =>
        cases hrest : fat16ToProperString bytes left (out + 1) (pos + 1) with
        | none =>
            rw [hrest] at h
            cases h
        | some rest =>
            obtain ⟨rest, out''⟩ := rest
            rw [hrest] at h
            cases h
            obtain ⟨n, rfl, hcopies⟩ := ih hrest
            exact ⟨n + 1, by omega, hcopies.cons (not_endsCopy_iff.mpr hcopied)⟩
      case isFalse hends =>
        have hend : EndsCopy (bytes pos) := by
          by_contra hnot
          exact hends (not_endsCopy_iff.mp hnot)
        split at h
        case isTrue hspace =>
          cases h
          refine ⟨0, rfl, copies_zero hend (by simp) ?_⟩
          intro memory maxLen text hlength hholds
          subst hlength
          exact hholds.terminate
        case isFalse hspace =>
          cases h
          exact ⟨0, rfl, copies_zero hend (by simp) fun _ _ _ _ hholds => hholds⟩

theorem fat16ToProperString_isSome (h : CopyEnds bytes pos n) (hleft : n < left) (out : Nat) :
    (fat16ToProperString bytes left out pos).isSome := by
  induction left generalizing pos n out with
  | zero => omega
  | succ left ih =>
      rw [fat16ToProperString]
      cases n with
      | zero =>
          have hend : ¬(bytes pos ≠ 0x00 ∧ bytes pos ≠ 0x20) :=
            fun hcopied => not_endsCopy_iff.mpr hcopied (copyEnds_zero.mp h)
          rw [if_neg hend]
          split <;> rfl
      | succ n =>
          obtain ⟨hfirst, hnext⟩ := copyEnds_succ.mp h
          obtain ⟨rest, hrest⟩ := Option.isSome_iff_exists.mp (ih hnext (by omega) (out + 1))
          obtain ⟨stores, out'⟩ := rest
          rw [if_pos (not_endsCopy_iff.mp hfirst), hrest]
          rfl

end Copy

/-! ### The whole name -/

section Name

variable {bytes memory : Nat → UInt8} {left maxLen n : Nat} {stores : List (Nat × UInt8)}

theorem applyStores_cleared (memory : Nat → UInt8) (maxLen : Nat) :
    HoldsText (applyStores memory ((List.range maxLen).map fun i => (i, 0x00))) maxLen [] := by
  induction maxLen with
  | zero => exact fun i hi => absurd hi (Nat.not_lt_zero i)
  | succ maxLen ih =>
      intro i hi
      rw [List.range_succ, List.map_append, applyStores_append]
      change (if i = maxLen then 0x00 else _) = _
      by_cases heq : i = maxLen
      · rw [if_pos heq]
        rfl
      · rw [if_neg heq]
        exact ih i (by omega)

def storedText (bytes : Nat → UInt8) (name ext : Nat) : List UInt8 :=
  copiedText bytes 0 name ++ if ext = 0 then [] else 0x2e :: copiedText bytes 8 ext

/-- The two copies end, the second one at once if the extension starts with a zero byte or a space. -/
def NameEnds (bytes : Nat → UInt8) (name ext : Nat) : Prop :=
  CopyEnds bytes 0 name ∧ CopyEnds bytes 8 ext

theorem copyEnds_zero_iff {pos : Nat} (h : CopyEnds bytes pos n) : n = 0 ↔ EndsCopy (bytes pos) := by
  constructor
  · rintro rfl
    exact h.ends
  · intro hend
    by_contra hne
    exact h.copied 0 (by omega) hend

theorem cleared_inside {maxLen : Nat} {store : Nat × UInt8}
    (h : store ∈ (List.range maxLen).map fun i => (i, (0x00 : UInt8))) : store.1 < maxLen := by
  obtain ⟨i, hi, rfl⟩ := List.mem_map.mp h
  exact List.mem_range.mp hi

theorem Copies.name (h : Copies bytes 0 0 n stores) (memory : Nat → UInt8) (maxLen : Nat) :
    HoldsText (applyStores memory (((List.range maxLen).map fun i => (i, 0x00)) ++ stores)) maxLen
      (copiedText bytes 0 n) := by
  have hfirst := h.holds _ _ _ rfl (applyStores_cleared memory maxLen)
  rwa [List.nil_append, ← applyStores_append] at hfirst

theorem Copies.nameExt {ext : Nat} {extStores : List (Nat × UInt8)} (h : Copies bytes 0 0 n stores)
    (hext : Copies bytes 8 (n + 1) ext extStores) (memory : Nat → UInt8) (maxLen : Nat) :
    HoldsText (applyStores memory (((List.range maxLen).map fun i => (i, 0x00)) ++ stores ++
      (n, 0x2e) :: extStores)) maxLen (copiedText bytes 0 n ++ 0x2e :: copiedText bytes 8 ext) := by
  have hdot := @HoldsText.snoc _ _ _ 0x2e (h.name memory maxLen)
  rw [copiedText_length] at hdot
  have hsecond := hext.holds _ _ _ (by simp [copiedText_length]) hdot
  rwa [List.append_assoc, List.singleton_append, ← applyStores, ← applyStores_append] at hsecond

theorem fat16GetFullRelativeFilename_holds
    (h : fat16GetFullRelativeFilename bytes left maxLen = some stores) :
    ∃ name ext, NameEnds bytes name ext ∧
      ((storedText bytes name ext).length < maxLen → ∀ store ∈ stores, store.1 < maxLen) ∧
      ∀ memory, HoldsText (applyStores memory stores) maxLen (storedText bytes name ext) := by
  rw [fat16GetFullRelativeFilename] at h
  cases hname : fat16ToProperString bytes left 0 0 with
  | none =>
      rw [hname] at h
      cases h
  | some result =>
      obtain ⟨nameStores, outTmp⟩ := result
      obtain ⟨name, rfl, hcopies⟩ := fat16ToProperString_copies hname
      rw [hname] at h
      simp only [Nat.zero_add] at h hcopies
      split at h
      case isTrue hext =>
        cases hrest : fat16ToProperString bytes left (name + 1) 8 with
        | none =>
            rw [hrest] at h
            cases h
        | some result =>
            obtain ⟨extStores, out'⟩ := result
            obtain ⟨ext, rfl, hcopies'⟩ := fat16ToProperString_copies hrest
            rw [hrest] at h
            cases h
            have hne : ext ≠ 0 := by
              rw [ne_eq, copyEnds_zero_iff hcopies'.ends]
              exact not_endsCopy_iff.mpr hext
            have htext : storedText bytes name ext =
                copiedText bytes 0 name ++ 0x2e :: copiedText bytes 8 ext := by
              rw [storedText, if_neg hne]
            refine ⟨name, ext, ⟨hcopies.ends, hcopies'.ends⟩, ?_, ?_⟩
            · intro hlength store hstore
              rw [htext, List.length_append, List.length_cons, copiedText_length,
                copiedText_length] at hlength
              rw [List.mem_append, List.mem_append, List.mem_cons] at hstore
              rcases hstore with (hcleared | hstored) | (rfl | hstored)
              · exact cleared_inside hcleared
              · have hle := hcopies.inside store hstored
                omega
              · simp only
                omega
              · have hle := hcopies'.inside store hstored
                omega
            · intro memory
              rw [htext]
              exact hcopies.nameExt hcopies' memory maxLen
      case isFalse hext =>
        cases h
        have hend : CopyEnds bytes 8 0 := by
          apply copyEnds_zero.mpr
          by_contra hnot
          exact hext (not_endsCopy_iff.mp hnot)
        have htext : storedText bytes name 0 = copiedText bytes 0 name := by
          rw [storedText, if_pos rfl, List.append_nil]
        refine ⟨name, 0, ⟨hcopies.ends, hend⟩, ?_, ?_⟩
        · intro hlength store hstore
          rw [htext, copiedText_length] at hlength
          rcases List.mem_append.mp hstore with hcleared | hstored
          · exact cleared_inside hcleared
          · have hle := hcopies.inside store hstored
            omega
        · intro memory
          rw [htext]
          exact hcopies.name memory maxLen

theorem fat16GetFullRelativeFilename_isSome {name ext : Nat} (h : NameEnds bytes name ext)
    (maxLen : Nat) :
    ∃ left stores, fat16GetFullRelativeFilename bytes left maxLen = some stores := by
  refine ⟨name + ext + 1, ?_⟩
  obtain ⟨result, hname⟩ := Option.isSome_iff_exists.mp
    (fat16ToProperString_isSome h.1 (show name < name + ext + 1 by omega) 0)
  obtain ⟨nameStores, outTmp⟩ := result
  obtain ⟨result, hext⟩ := Option.isSome_iff_exists.mp
    (fat16ToProperString_isSome h.2 (show ext < name + ext + 1 by omega) (outTmp + 1))
  obtain ⟨extStores, out'⟩ := result
  rw [fat16GetFullRelativeFilename, hname]
  simp only [hext]
  split
  · exact ⟨_, rfl⟩
  · exact ⟨_, rfl⟩

end Name

/-! ### When the name is right -/

section Right

variable {bytes : Nat → UInt8} {pos width n maxLen : Nat}

theorem itemField_eq (bytes : Nat → UInt8) (pos width : Nat) :
    ∃ n ≤ width, itemField bytes pos width = copiedText bytes pos n ∧
      ∀ k, n ≤ k → k < width → bytes (pos + k) = 0x20 := by
  induction width with
  | zero => exact ⟨0, Nat.le_refl 0, rfl, by omega⟩
  | succ width ih =>
      obtain ⟨n, hn, hfield, hpadding⟩ := ih
      rw [itemField, List.range_succ, List.map_append, List.map_singleton,
        List.rdropWhile_concat]
      by_cases hspace : bytes (pos + width) = 0x20
      · rw [if_pos (by simpa using hspace)]
        refine ⟨n, by omega, hfield, ?_⟩
        intro k hge hlt
        by_cases hlast : k = width
        · rw [hlast, hspace]
        · exact hpadding k hge (by omega)
      · rw [if_neg (by simpa using hspace)]
        refine ⟨width + 1, Nat.le_refl _, ?_, by omega⟩
        rw [copiedText, List.range_succ, List.map_append, List.map_singleton]

theorem mem_copiedText {c : UInt8} :
    c ∈ copiedText bytes pos n ↔ ∃ k < n, bytes (pos + k) = c := by
  rw [copiedText, List.mem_map]
  constructor
  · rintro ⟨k, hk, heq⟩
    exact ⟨k, List.mem_range.mp hk, heq⟩
  · rintro ⟨k, hk, heq⟩
    exact ⟨k, List.mem_range.mpr hk, heq⟩

theorem CopyEnds.notMem (h : CopyEnds bytes pos n) {c : UInt8} (hc : c ∈ copiedText bytes pos n) :
    ¬EndsCopy c := by
  obtain ⟨k, hk, rfl⟩ := mem_copiedText.mp hc
  exact h.copied k hk

/-- The field ends where the copy does, when none of its characters end the copy and the byte behind a
full field does. -/
theorem itemField_copyEnds (hchars : ∀ c ∈ itemField bytes pos width, ¬EndsCopy c)
    (hends : (itemField bytes pos width).length = width → EndsCopy (bytes (pos + width))) :
    CopyEnds bytes pos (itemField bytes pos width).length ∧
      itemField bytes pos width = copiedText bytes pos (itemField bytes pos width).length := by
  obtain ⟨n, hn, hfield, hpadding⟩ := itemField_eq bytes pos width
  rw [hfield] at hchars hends ⊢
  rw [copiedText_length] at hends ⊢
  refine ⟨⟨?_, ?_⟩, rfl⟩
  · intro k hk
    exact hchars _ (mem_copiedText.mpr ⟨k, hk, rfl⟩)
  · by_cases hfull : n = width
    · rw [hfull]
      exact hends hfull
    · exact .inr (hpadding n (Nat.le_refl n) (by omega))

theorem itemExt_nil_iff : itemExt bytes = [] ↔ ∀ k < 3, bytes (8 + k) = 0x20 := by
  rw [itemExt, itemField, List.rdropWhile_eq_nil_iff]
  simp

theorem HoldsText.map_eq {memory : Nat → UInt8} {text : List UInt8}
    (h : HoldsText memory maxLen text) :
    (List.range maxLen).map memory =
      text.take maxLen ++ List.replicate (maxLen - text.length) 0x00 := by
  apply List.ext_getElem?
  intro i
  rw [List.getElem?_map]
  by_cases hi : i < maxLen
  · rw [List.getElem?_range hi, Option.map_some, h i hi]
    by_cases hlt : i < text.length
    · rw [List.getElem?_append_left (by rw [List.length_take]; omega), List.getElem?_take,
        if_pos hi, List.getD_eq_getElem?_getD, List.getElem?_eq_getElem hlt, Option.getD_some]
    · rw [List.getElem?_append_right (by rw [List.length_take]; omega), List.getElem?_replicate,
        if_pos (by rw [List.length_take]; omega), List.getD_eq_default _ _ (by omega)]
  · rw [List.getElem?_eq_none (by rw [List.length_range]; omega), List.getElem?_eq_none]
    · rfl
    · rw [List.length_append, List.length_take, List.length_replicate]
      omega

theorem HoldsText.bufferText_eq {memory : Nat → UInt8} {text : List UInt8}
    (h : HoldsText memory maxLen text) (hchars : ∀ c ∈ text, c ≠ 0x00) :
    bufferText memory maxLen = text.take maxLen := by
  rw [bufferText, h.map_eq, List.takeWhile_append_of_pos]
  · rw [List.takeWhile_eq_nil_iff.mpr, List.append_nil]
    intro hpos
    simp
  · intro c hc
    simpa using hchars c (List.mem_of_mem_take hc)

theorem storedText_not_endsCopy {name ext : Nat} (h : NameEnds bytes name ext) :
    ∀ c ∈ storedText bytes name ext, ¬EndsCopy c := by
  intro c hc
  rw [storedText] at hc
  split at hc
  · rw [List.append_nil] at hc
    exact h.1.notMem hc
  · rw [List.mem_append, List.mem_cons] at hc
    rcases hc with hname | rfl | hext
    · exact h.1.notMem hname
    · exact not_endsCopy_iff.mpr ⟨by decide, by decide⟩
    · exact h.2.notMem hext

theorem filenameRight_iff_storedText :
    FilenameRight bytes maxLen ↔ ∃ name ext, NameEnds bytes name ext ∧
      storedText bytes name ext = itemText bytes ∧ (itemText bytes).length < maxLen := by
  constructor
  · rintro ⟨left, stores, hrun, -, hroom, htext⟩
    obtain ⟨name, ext, hends, -, hholds⟩ := fat16GetFullRelativeFilename_holds hrun
    refine ⟨name, ext, hends, ?_, hroom⟩
    have hchars : ∀ c ∈ storedText bytes name ext, c ≠ 0x00 := fun c hc =>
      (not_endsCopy_iff.mp (storedText_not_endsCopy hends c hc)).1
    have hsame := htext fun _ => 0x00
    rw [(hholds fun _ => 0x00).bufferText_eq hchars] at hsame
    rw [← hsame, List.length_take] at hroom
    rw [← hsame, List.take_of_length_le (by omega)]
  · rintro ⟨name, ext, hends, hsame, hroom⟩
    obtain ⟨left, stores, hrun⟩ := fat16GetFullRelativeFilename_isSome hends maxLen
    obtain ⟨name', ext', hends', hinside, hholds⟩ := fat16GetFullRelativeFilename_holds hrun
    cases hends.1.unique hends'.1
    cases hends.2.unique hends'.2
    have hchars : ∀ c ∈ storedText bytes name ext, c ≠ 0x00 := fun c hc =>
      (not_endsCopy_iff.mp (storedText_not_endsCopy hends c hc)).1
    rw [hsame] at hinside hholds hchars
    refine ⟨left, stores, hrun, hinside hroom, hroom, ?_⟩
    intro memory
    rw [(hholds memory).bufferText_eq hchars, List.take_of_length_le (by omega)]

/-- An extension that holds a character is not the end of the copy of a full name, so it is appended
twice. -/
theorem storedText_ne_of_full {name ext : Nat} (hends : NameEnds bytes name ext)
    (hchars : ∀ c ∈ itemText bytes, ¬EndsCopy c) (hfull : (itemName bytes).length = 8)
    (hext : itemExt bytes ≠ []) : storedText bytes name ext ≠ itemText bytes := by
  intro hsame
  obtain ⟨n, hn, hname, -⟩ := itemField_eq bytes 0 8
  obtain ⟨m, hm, hfield, -⟩ := itemField_eq bytes 8 3
  rw [← itemName] at hname
  rw [← itemExt] at hfield
  have hne : m ≠ 0 := by
    rintro rfl
    exact hext hfield
  rw [itemText, if_neg hext] at hchars hsame
  have hnameChars : ∀ k < 8, ¬EndsCopy (bytes (0 + k)) := by
    intro k hk
    apply hchars
    rw [hname, List.mem_append]
    rw [hname, copiedText_length] at hfull
    exact .inl (mem_copiedText.mpr ⟨k, by omega, rfl⟩)
  have hextChars : ∀ k < m, ¬EndsCopy (bytes (8 + k)) := by
    intro k hk
    apply hchars
    rw [hfield, List.mem_append, List.mem_cons]
    exact .inr (.inr (mem_copiedText.mpr ⟨k, hk, rfl⟩))
  -- The copy of the name goes on to where the copy of the extension ends.
  have hgoes : name = 8 + ext := by
    apply hends.1.unique
    constructor
    · intro k hk
      by_cases hlt : k < 8
      · exact hnameChars k hlt
      · have hcopied := hends.2.copied (k - 8) (by omega)
        rwa [show 8 + (k - 8) = 0 + k by omega] at hcopied
    · rw [Nat.zero_add]
      exact hends.2.ends
  have hlong := hends.2.le hextChars
  have hlengths := congrArg List.length hsame
  rw [storedText, if_neg (by omega), List.length_append, List.length_append, List.length_cons,
    List.length_cons, copiedText_length, copiedText_length, hfull, hfield, copiedText_length,
    hgoes] at hlengths
  omega

theorem FieldsEnd.copied (h : FieldsEnd bytes maxLen) :
    NameEnds bytes (itemName bytes).length (itemExt bytes).length ∧
      itemName bytes = copiedText bytes 0 (itemName bytes).length ∧
      itemExt bytes = copiedText bytes 8 (itemExt bytes).length := by
  have hname := @itemField_copyEnds bytes 0 8 h.name fun hfull =>
    .inr (itemExt_nil_iff.mp (h.nameEnds hfull) 0 (by omega))
  have hext := @itemField_copyEnds bytes 8 3 h.ext h.extEnds
  exact ⟨⟨hname.1, hext.1⟩, hname.2, hext.2⟩

theorem extEnds_of_storedText {name ext : Nat} (hends : NameEnds bytes name ext)
    (hname : ∀ c ∈ itemName bytes, ¬EndsCopy c)
    (hnameEnds : (itemName bytes).length = 8 → itemExt bytes = [])
    (hsame : storedText bytes name ext = itemText bytes) (hfull : (itemExt bytes).length = 3) :
    EndsCopy (bytes 11) := by
  have hne : itemExt bytes ≠ [] := List.ne_nil_of_length_pos (by omega)
  have hfirst := @itemField_copyEnds bytes 0 8 hname fun hlong => absurd (hnameEnds hlong) hne
  have hlength : name = (itemName bytes).length := hends.1.unique hfirst.1
  have hlengths := congrArg List.length hsame
  rw [storedText, itemText, if_neg hne, List.length_append, List.length_append, List.length_cons,
    copiedText_length, hfull, hlength] at hlengths
  have hext : ext = 3 := by
    split at hlengths
    · rw [List.length_nil] at hlengths
      omega
    · rw [List.length_cons, copiedText_length] at hlengths
      omega
  have hend := hends.2.ends
  rwa [hext] at hend

/-- The name of an item comes out right when the fields end where they should. -/
theorem filenameRight_iff : FilenameRight bytes maxLen ↔ FieldsEnd bytes maxLen := by
  rw [filenameRight_iff_storedText]
  constructor
  · rintro ⟨name, ext, hends, hsame, hroom⟩
    have hchars : ∀ c ∈ itemText bytes, ¬EndsCopy c := by
      rw [← hsame]
      exact storedText_not_endsCopy hends
    have hnameChars : ∀ c ∈ itemName bytes, ¬EndsCopy c := by
      intro c hc
      apply hchars
      rw [itemText, List.mem_append]
      exact .inl hc
    have hextChars : ∀ c ∈ itemExt bytes, ¬EndsCopy c := by
      intro c hc
      apply hchars
      rw [itemText, if_neg (List.ne_nil_of_mem hc), List.mem_append, List.mem_cons]
      exact .inr (.inr hc)
    have hnameEnds : (itemName bytes).length = 8 → itemExt bytes = [] := by
      intro hfull
      by_contra hext
      exact storedText_ne_of_full hends hchars hfull hext hsame
    exact ⟨hnameChars, hextChars, hnameEnds, extEnds_of_storedText hends hnameChars hnameEnds hsame,
      hroom⟩
  · intro h
    obtain ⟨hends, hname, hext⟩ := h.copied
    refine ⟨_, _, hends, ?_, h.room⟩
    rw [storedText, itemText, ← hname, ← hext]
    by_cases hempty : itemExt bytes = []
    · rw [if_pos hempty, if_pos (by rw [hempty]; rfl)]
    · rw [if_neg hempty, if_neg (by rwa [List.length_eq_zero_iff])]

def kernelItem (i : Nat) : UInt8 :=
  ([0x4b, 0x45, 0x52, 0x4e, 0x45, 0x4c, 0x30, 0x31, 0x42, 0x49, 0x4e, 0x20] : List UInt8).getD i 0

/-- Its name comes out as `KERNEL01BIN.BIN`. -/
theorem not_filenameRight : ¬∀ bytes, FilenameRight bytes 108 := by
  intro hall
  obtain ⟨name, ext, hends, hsame, -⟩ := filenameRight_iff_storedText.mp (hall kernelItem)
  refine storedText_ne_of_full hends ?_ (by decide) (by decide) hsame
  rw [← hsame]
  exact storedText_not_endsCopy hends

end Right

end SlobOS
