import SlobOS.Lib.Splits
import SlobOS.LoadFailures
import SlobOS.Proof.SingleBlocks

/-!
# Paths

The parser takes an empty part for the end of the path. A path that has none but at its end is split
into all of its components, each in a buffer of its own.
-/

namespace SlobOS

namespace Kernel

open Faulting Splits

variable {kernel after : Kernel} {path : List UInt8}

theorem pathparserGetPathPart_cases {result : Nat × List UInt8 × List UInt8}
    (h : Ends (pathparserGetPathPart path) kernel result after) (hsound : HeapSound kernel.heap) :
    result.2 = (part slash path, rest slash path) ∧
      (part slash path = [] ∧ result.1 = 0 ∨ part slash path ≠ [] ∧
        (result.1 = 0 ∧ ¬FreeBlocks kernel.heap 1 ∧ after.heap = kernel.heap ∨
          result.1 ≠ 0 ∧ TakesFree kernel.heap after.heap 1)) := by
  simp only [pathparserGetPathPart, ends_bind] at h
  obtain ⟨ptr, middle, halloc, h⟩ := h
  rw [ends_ite] at h
  simp only [ends_bind, ends_kfree, ends_storeTo, ends_modify, ends_pure, exists_eq_left,
    exists_const] at h
  rcases h with ⟨hnil, rfl, -⟩ | ⟨hne, rfl, rfl⟩
  · exact ⟨rfl, Or.inl ⟨hnil, rfl⟩⟩
  · refine ⟨rfl, Or.inr ⟨hne, ?_⟩⟩
    rcases kzalloc_counted hsound (by decide) (by decide) halloc with ⟨rfl, hnone, rfl⟩ | htaken
    · exact Or.inl ⟨rfl, hnone, rfl⟩
    · exact Or.inr htaken

theorem pathparserParsePathPart_cases {result : Option PathPart × List UInt8}
    (h : Ends (pathparserParsePathPart path) kernel result after) (hsound : HeapSound kernel.heap) :
    result.2 = rest slash path ∧
      (part slash path = [] ∧ result.1 = none ∨ part slash path ≠ [] ∧
        (result.1 = none ∧ ¬FreeBlocks kernel.heap 2 ∧ ¬FreeBlocks after.heap 1 ∨
          ∃ found, result.1 = some found ∧ found.text = part slash path ∧
            TakesFree kernel.heap after.heap 2)) := by
  simp only [pathparserParsePathPart, ends_bind] at h
  obtain ⟨⟨ptr, text, rest'⟩, middle, hget, h⟩ := h
  obtain ⟨hresult, hcases⟩ := pathparserGetPathPart_cases hget hsound
  obtain ⟨rfl, rfl⟩ := Prod.mk.inj hresult
  change Ends (if ptr = 0 then _ else _) _ _ _ at h
  rw [ends_ite] at h
  rcases h with ⟨hptr, h⟩ | ⟨hptr, h⟩
  · obtain ⟨rfl, rfl⟩ := ends_pure.mp h
    refine ⟨rfl, ?_⟩
    rcases hcases with ⟨hnil, -⟩ | ⟨hne, ⟨-, hnone, hheap⟩ | ⟨htaken, -⟩⟩
    · exact Or.inl ⟨hnil, rfl⟩
    · exact Or.inr ⟨hne, Or.inl ⟨rfl, fun hfree => hnone (hfree.mono (by decide)), hheap ▸ hnone⟩⟩
    · exact absurd hptr htaken
  rcases hcases with ⟨-, hnull⟩ | ⟨hne, ⟨hnull, -⟩ | ⟨-, hfirst⟩⟩
  · exact absurd hnull hptr
  · exact absurd hnull hptr
  rw [ends_bind] at h
  obtain ⟨address, second, halloc, h⟩ := h
  rw [ends_storeTo_bind, ends_ite] at h
  simp only [ends_pure] at h
  rcases kzalloc_counted hfirst.sound (by decide) (by decide) halloc with
    ⟨rfl, hnone, rfl⟩ | ⟨haddress, hsecond⟩
  · rcases h with ⟨-, rfl, rfl⟩ | ⟨hother, -⟩
    · exact ⟨rfl, Or.inr ⟨hne, Or.inl ⟨rfl, fun hfree => hnone ((hfirst.left 1).mp hfree), hnone⟩⟩⟩
    · exact absurd rfl hother
  · rcases h with ⟨hother, -⟩ | ⟨-, rfl, rfl⟩
    · exact absurd hother haddress
    · exact ⟨rfl, Or.inr ⟨hne, Or.inr ⟨_, rfl, rfl, hfirst.trans hsecond⟩⟩⟩

/-- The parts are the first names, and all of them if there are two blocks for each. -/
structure PartsFound (heap after : Heap) (names texts : List (List UInt8)) : Prop where
  initial : texts <+: names
  all : texts = names ↔ FreeBlocks heap (2 * names.length)
  exhausted : texts = names ∨ ¬FreeBlocks after 1

theorem pathparserParseParts_found {left : Nat} {parts : List PathPart}
    (h : Ends (pathparserParseParts left path) kernel parts after) (hsound : HeapSound kernel.heap)
    (hleft : path.length < left) :
    PartsFound kernel.heap after.heap (scanned slash path) (parts.map PathPart.text) := by
  induction left generalizing kernel path parts after with
  | zero => omega
  | succ left ih =>
      simp only [pathparserParseParts, ends_bind] at h
      obtain ⟨⟨found, rest'⟩, middle, hpart, h⟩ := h
      obtain ⟨hrest, hcases⟩ := pathparserParsePathPart_cases hpart hsound
      obtain rfl : rest' = rest slash path := hrest
      rw [scanned_eq]
      rcases hcases with ⟨hnil, hfound⟩ | ⟨hne, ⟨hfound, hnone, hlast⟩ | ⟨first, hfound, htext, htaken⟩⟩
      · obtain rfl : found = none := hfound
        obtain ⟨rfl, rfl⟩ := ends_pure.mp h
        rw [if_pos hnil]
        exact ⟨List.nil_prefix, iff_of_true rfl (.zero hsound), Or.inl rfl⟩
      · obtain rfl : found = none := hfound
        obtain ⟨rfl, rfl⟩ := ends_pure.mp h
        rw [if_neg hne]
        refine ⟨List.nil_prefix, iff_of_false (List.cons_ne_nil _ _).symm fun hfree => ?_, Or.inr hlast⟩
        exact hnone (hfree.mono (by rw [List.length_cons]; omega))
      · obtain rfl : found = some first := hfound
        obtain ⟨parts', last, hparts, h⟩ := ends_bind.mp h
        obtain ⟨rfl, rfl⟩ := ends_pure.mp h
        have hlength := rest_length slash path hne
        obtain ⟨hinitial, hall, hexhausted⟩ :=
          ih hparts htaken.sound (by change (rest slash path).length < left; omega)
        rw [if_neg hne, List.map_cons, htext]
        refine ⟨List.cons_prefix_cons.mpr ⟨rfl, hinitial⟩, ?_, hexhausted.imp_left (congrArg _)⟩
        rw [List.cons_inj_right, hall, ← htaken.left, List.length_cons, Nat.mul_succ, Nat.add_comm 2]

theorem pathparserParse_found {root : PathRoot}
    (h : Ends (pathparserParse path) kernel (some root) after) (hsound : HeapSound kernel.heap) :
    ∃ first, TakesFree kernel.heap first 1 ∧
      PartsFound first after.heap (scanned slash (path.drop 3)) (root.parts.map PathPart.text) := by
  rcases pathparserParse_cases h with ⟨hnone, -⟩ | ⟨root, first, -, -, halloc, hcases⟩
  · cases hnone
  rcases hcases with ⟨-, hnone, -⟩ | ⟨hne, parts, hparts, heq⟩
  · cases hnone
  obtain rfl := Option.some.inj heq
  rcases kzalloc_counted hsound (by decide) (by decide) halloc with ⟨hnull, -⟩ | ⟨-, htaken⟩
  · exact absurd hnull hne
  · exact ⟨first.heap, htaken, pathparserParseParts_found hparts htaken.sound
      (by rw [List.length_drop]; omega)⟩

/-- The text stands at the start of a block in use, with zeros up to the length of a buffer. -/
structure Terminated (kernel : Kernel) (ptr : Nat) (text : List UInt8) : Prop where
  block : ∃ block, ptr = slobosHeapAddress + block * slobosHeapBlockSize ∧ Holds kernel.heap block
  short : text.length < slobosMaxPath
  bytes : ∀ pages, ∀ i < slobosMaxPath, kernel.memory pages (ptr + i) = text.getD i 0

theorem Terminated.preserves {ptr : Nat} {text : List UInt8} (h : Terminated kernel ptr text)
    (hpreserves : Preserves kernel after) : Terminated after ptr text := by
  obtain ⟨block, rfl, hblock⟩ := h.block
  obtain ⟨hholds, hbytes⟩ := hpreserves block hblock
  refine ⟨⟨block, rfl, hholds⟩, h.short, fun pages i hi => ?_⟩
  rw [hbytes pages i (by simp only [slobosMaxPath, slobosHeapBlockSize] at *; omega),
    h.bytes pages i hi]

variable {count : Nat} {supply : Heap → Nat → Prop} [Supply supply]

theorem pathparserGetPathPart_ends (hfree : supply kernel.heap (count + 1))
    (hne : part slash path ≠ []) (hlength : path.length < slobosMaxPath) :
    ∃ ptr after, Ends (pathparserGetPathPart path) kernel (ptr, part slash path, rest slash path)
      after ∧ ptr ≠ 0 ∧ supply after.heap count ∧ Preserves kernel after ∧
        Terminated after ptr (part slash path) := by
  obtain ⟨ptr, middle, halloc, hptr, hcount⟩ :=
    kzalloc_block hfree (show 0 < slobosMaxPath by decide) (by decide)
  obtain ⟨htakes, hzero⟩ :=
    kzalloc_takes (Supply.sound hfree) halloc (by decide) (by decide) hptr
  have hshort := part_length slash path
  have hwritten := htakes.writeBytes
    (show (part slash path).length ≤ slobosHeapBlockSize by
      simp only [slobosMaxPath, slobosHeapBlockSize] at *; omega)
    fun i => (part slash path).getD i 0
  refine ⟨ptr, writeBytes ptr (part slash path).length (fun i => (part slash path).getD i 0) middle,
    ?_, hptr, hcount, hwritten.preserves, ?_, by omega, fun pages i hi => ?_⟩
  · refine ends_bind.mpr ⟨ptr, middle, halloc, ?_⟩
    change Ends (if part slash path = [] then _ else _) _ _ _
    rw [if_neg hne]
    rw [ends_storeTo_bind, noteStore_eq hptr, ends_modify_bind]
    exact ends_pure.mpr ⟨rfl, rfl⟩
  · obtain ⟨block, haddress, hblock, -⟩ := hwritten.taken
    exact ⟨block, haddress, hblock⟩
  · by_cases hi' : i < (part slash path).length
    · exact (if_pos ⟨by omega, by omega⟩).trans (by rw [Nat.add_sub_cancel_left])
    · rw [List.getD_eq_default _ _ (by omega), ← hzero pages i hi]
      exact if_neg (by omega)

theorem pathparserGetPathPart_empty (hfree : supply kernel.heap (count + 1))
    (hnil : part slash path = []) :
    ∃ after, Ends (pathparserGetPathPart path) kernel (0, part slash path, rest slash path) after ∧
      supply after.heap count ∧ Preserves kernel after := by
  obtain ⟨ptr, middle, halloc, hptr, hcount⟩ :=
    kzalloc_block hfree (show 0 < slobosMaxPath by decide) (by decide)
  obtain ⟨htakes, -⟩ := kzalloc_takes (Supply.sound hfree) halloc (by decide) (by decide) hptr
  refine ⟨{ middle with heap := heapFree middle.heap ptr }, ?_, Supply.release hcount ptr,
    fun block hblock => ?_⟩
  · refine ends_bind.mpr ⟨ptr, middle, halloc, ?_⟩
    change Ends (if part slash path = [] then _ else _) _ _ _
    rw [if_pos hnil]
    exact ends_bind.mpr ⟨(), _, ends_kfree.mpr rfl, ends_pure.mpr ⟨rfl, rfl⟩⟩
  · obtain ⟨hholds, hbytes⟩ := htakes.preserves block hblock
    obtain ⟨-, hguards⟩ := kzalloc_spares halloc hblock
    exact ⟨(hholds.free hguards).holds, hbytes⟩

theorem pathparserParseParts_ends {left : Nat}
    (hfree : supply kernel.heap (2 * (scanned slash path).length + count + 1))
    (hlength : path.length < slobosMaxPath) (hleft : path.length < left) :
    ∃ parts after, Ends (pathparserParseParts left path) kernel parts after ∧
      supply after.heap count ∧ Preserves kernel after ∧
      parts.map PathPart.text = scanned slash path ∧
      ∀ part ∈ parts, Terminated after part.part part.text := by
  induction left generalizing kernel path with
  | zero => omega
  | succ left ih =>
      rw [scanned_eq] at hfree ⊢
      by_cases hnil : part slash path = []
      · rw [if_pos hnil] at hfree ⊢
        obtain ⟨after, hget, hcount, hpreserves⟩ := pathparserGetPathPart_empty hfree hnil
        refine ⟨[], after, ?_, Supply.mono hcount (Nat.le_add_left _ _), hpreserves, rfl, by simp⟩
        refine ends_bind.mpr ⟨(none, rest slash path), after, ?_, ends_pure.mpr ⟨rfl, rfl⟩⟩
        exact ends_bind.mpr ⟨_, after, hget, ends_pure.mpr ⟨rfl, rfl⟩⟩
      · rw [if_neg hnil] at hfree ⊢
        obtain ⟨ptr, first, hget, hptr, hcount, hpreserves, hterminated⟩ :=
          pathparserGetPathPart_ends (Supply.mono hfree (show 2 * (scanned slash (rest slash path)).length +
            count + 1 + 1 + 1 ≤ _ by rw [List.length_cons]; omega)) hnil hlength
        obtain ⟨address, second, halloc, haddress, hcount'⟩ :=
          kzalloc_block hcount (show 0 < pathPartSize by decide) (by decide)
        obtain ⟨htakes, -⟩ := kzalloc_takes (Supply.sound hcount) halloc (by decide) (by decide) haddress
        have hshorter := rest_length slash path hnil
        obtain ⟨parts, after, hparts, hleft', hpreserves', htexts, hall⟩ :=
          ih hcount' (by omega) (by omega)
        refine ⟨{ address := address, part := ptr, text := part slash path } :: parts, after, ?_,
          hleft', Frame.trans (Frame.trans hpreserves htakes.preserves) hpreserves',
          congrArg (List.cons _) htexts, fun found hfound => ?_⟩
        · refine ends_bind.mpr ⟨(some _, rest slash path), second, ?_,
            ends_bind.mpr ⟨parts, after, hparts, ends_pure.mpr ⟨rfl, rfl⟩⟩⟩
          refine ends_bind.mpr ⟨_, first, hget, ?_⟩
          change Ends (if ptr = 0 then _ else _) _ _ _
          rw [if_neg hptr]
          refine ends_bind.mpr ⟨address, second, halloc, ?_⟩
          rw [ends_storeTo_bind, noteStore_eq haddress, if_neg haddress]
          exact ends_pure.mpr ⟨rfl, rfl⟩
        · rcases List.mem_cons.mp hfound with rfl | hfound
          · exact hterminated.preserves (Frame.trans htakes.preserves hpreserves')
          · exact hall found hfound

theorem pathparserParse_ends (hformat : pathparserPathValidFormat path = true)
    (hlength : path.length ≤ slobosMaxPath)
    (hfree : supply kernel.heap (2 * (scanned slash (path.drop 3)).length + count + 2)) :
    ∃ root after, Ends (pathparserParse path) kernel (some root) after ∧
      supply after.heap count ∧ root.driveNo = tonumericdigit (path.headD 0) ∧
      root.parts.map PathPart.text = scanned slash (path.drop 3) ∧
      ∀ part ∈ root.parts, Terminated after part.part part.text := by
  obtain ⟨address, first, halloc, hne, hcount⟩ :=
    kzalloc_block hfree (show 0 < pathRootSize by decide) (by decide)
  have hshort : (path.drop 3).length < slobosMaxPath := by
    rw [List.length_drop]
    simp only [slobosMaxPath] at *
    omega
  obtain ⟨parts, after, hparts, hcount', -, htexts, hall⟩ := @pathparserParseParts_ends first
    (path.drop 3) count supply _ (path.length + 1) hcount hshort (by rw [List.length_drop]; omega)
  refine ⟨{ address := address, driveNo := tonumericdigit (path.headD 0), parts := parts }, after,
    ?_, hcount', rfl, htexts, hall⟩
  rw [pathparserParse, if_neg (by omega), hformat]
  refine ends_bind.mpr ⟨address, first, ?_, ?_⟩
  · refine ends_bind.mpr ⟨address, first, halloc, ?_⟩
    rw [ends_storeTo_bind, noteStore_eq hne]
    exact ends_pure.mpr ⟨rfl, rfl⟩
  · rw [if_neg hne]
    exact ends_bind.mpr ⟨parts, after, hparts, ends_pure.mpr ⟨rfl, rfl⟩⟩

/-! ### Components that are dropped -/

theorem idleKernel_freeBlocks (volume : Volume) {count : Nat} (hcount : count ≤ 25600) :
    FreeBlocks (idleKernel bootBytes volume).heap count := by
  refine ⟨idleKernel_sound volume, List.range count, List.nodup_range,
    Nat.le_of_eq List.length_range.symm, fun block hblock => ?_⟩
  have htotal : (kheapInit bootBytes).table.total = 25600 := kheapInit_total bootBytes
  have hlt : block < (kheapInit bootBytes).table.total := by
    rw [htotal]
    have := List.mem_range.mp hblock
    omega
  refine ⟨hlt, HeapTable.isFree_of_eq_free ?_⟩
  exact (kheapInit_inv bootBytes).entries_of_nil hlt

/-- `0:/a//b`. -/
def doubledSlash : List UInt8 := [0x30, 0x3a, 0x2f, 0x61, 0x2f, 0x2f, 0x62]

theorem doubledSlash_scanned : scanned slash (doubledSlash.drop 3) = [[0x61]] := by decide

theorem doubledSlash_parsed : ∃ root after,
    Ends (pathparserParse doubledSlash) (idleKernel bootBytes unmountedVolume) (some root) after ∧
      root.parts.map PathPart.text = scanned slash (doubledSlash.drop 3) := by
  obtain ⟨root, after, hparse, -, -, htexts, -⟩ := @pathparserParse_ends _ doubledSlash 0 FreeBlocks _ (by decide) (by decide)
    (idleKernel_freeBlocks unmountedVolume (by rw [doubledSlash_scanned]; decide))
  exact ⟨root, after, hparse, htexts⟩

/-- On a heap in order an accepted path keeps all of its components exactly when no component comes after
an empty one and there is a block for the root and two for each component. -/
theorem pathparserParse_complete_iff {root : PathRoot} (hsound : HeapSound kernel.heap)
    (h : Ends (pathparserParse path) kernel (some root) after) :
    root.parts.map PathPart.text = components slash (path.drop 3) ↔
      (((path.drop 3).splitOn slash).Pairwise fun first later => first = [] → later = []) ∧
        FreeBlocks kernel.heap (2 * (components slash (path.drop 3)).length + 1) := by
  obtain ⟨first, htaken, hinitial, hall, -⟩ := pathparserParse_found h hsound
  rw [← scanned_eq_components_iff, Nat.add_comm, htaken.left]
  constructor
  · intro hcomplete
    -- What is scanned lies between the parts and the components.
    have hscanned : scanned slash (path.drop 3) = components slash (path.drop 3) := by
      rw [hcomplete] at hinitial
      exact (scanned_prefix_components slash _).eq_of_length_le hinitial.length_le
    exact ⟨hscanned, hscanned ▸ hall.mp (hcomplete.trans hscanned.symm)⟩
  · rintro ⟨hscanned, hfree⟩
    rw [← hscanned] at hfree ⊢
    exact hall.mpr hfree

theorem doubledSlash_complete_iff : ∃ root after,
    Ends (pathparserParse doubledSlash) (idleKernel bootBytes unmountedVolume) (some root) after ∧
      (root.parts.map PathPart.text = components slash (doubledSlash.drop 3) ↔
        (((doubledSlash.drop 3).splitOn slash).Pairwise
            fun first later => first = [] → later = []) ∧
          FreeBlocks (idleKernel bootBytes unmountedVolume).heap
            (2 * (components slash (doubledSlash.drop 3)).length + 1)) := by
  obtain ⟨root, after, hparse, -⟩ := doubledSlash_parsed
  exact ⟨root, after, hparse, pathparserParse_complete_iff (idleKernel_sound _) hparse⟩

/-- The component after a doubled separator is dropped. -/
theorem not_pathparserParse_complete : ¬∀ path kernel root after,
    Ends (pathparserParse path) kernel (some root) after →
      root.parts.map PathPart.text = components slash (path.drop 3) := by
  intro hall
  obtain ⟨root, after, hparse, htexts⟩ := doubledSlash_parsed
  have hcomplete := hall _ _ _ _ hparse
  rw [htexts, doubledSlash_scanned] at hcomplete
  exact absurd hcomplete (by decide)

/-! ### Printed paths -/

def printPath (drive : Nat) (names : List (List UInt8)) (trailing : Bool) : List UInt8 :=
  UInt8.ofNat (48 + drive) :: 0x3a :: slash ::
    ([slash].intercalate names ++ if trailing then [slash] else [])

def readString (bytes : Nat → UInt8) (size : Nat) : List UInt8 :=
  ((List.range size).map bytes).takeWhile (· != 0)

theorem readString_eq {bytes : Nat → UInt8} {size : Nat} {text : List UInt8}
    (hbytes : ∀ i < size, bytes i = text.getD i 0) (hshort : text.length < size)
    (hzero : 0 ∉ text) : readString bytes size = text := by
  have hsplit : (List.range size).map bytes = text ++ List.replicate (size - text.length) 0 := by
    apply List.ext_getElem (by simp; omega)
    intro i hi _
    rw [List.length_map, List.length_range] at hi
    rw [List.getElem_map, List.getElem_range, hbytes i hi, List.getElem_append]
    by_cases hi' : i < text.length
    · rw [dif_pos hi', List.getD_eq_getElem _ _ hi']
    · rw [dif_neg hi', List.getElem_replicate, List.getD_eq_default _ _ (by omega)]
  have hall : ∀ c ∈ text, (c != 0) = true := fun c hc => bne_iff_ne.mpr fun heq => hzero (heq ▸ hc)
  rw [readString, hsplit, List.takeWhile_append_of_pos hall]
  simp

variable {drive : Nat} {names : List (List UInt8)} {trailing : Bool}

theorem scanned_printPath (hne : names ≠ [])
    (hnames : ∀ name ∈ names, name ≠ [] ∧ slash ∉ name ∧ 0 ∉ name) :
    scanned slash ((printPath drive names trailing).drop 3) = names := by
  have hparts : ∀ name ∈ names, name ≠ [] ∧ slash ∉ name :=
    fun name hname => ⟨(hnames name hname).1, (hnames name hname).2.1⟩
  change scanned slash ([slash].intercalate names ++ _) = names
  cases trailing with
  | true => exact scanned_intercalate_append hne hparts
  | false =>
      rw [if_neg (by decide), List.append_nil]
      exact scanned_intercalate hne hparts

theorem toNat_drive (hdrive : drive < 10) : (UInt8.ofNat (48 + drive)).toNat = 48 + drive := by
  rw [UInt8.toNat_ofNat']
  omega

theorem printPath_format (hdrive : drive < 10) :
    pathparserPathValidFormat (printPath drive names trailing) = true := by
  have hdigit := toNat_drive hdrive
  simp only [printPath, slash, pathparserPathValidFormat, isdigit, Bool.and_eq_true,
    decide_eq_true_eq, UInt8.le_iff_toNat_le, hdigit]
  exact ⟨Nat.le_add_right _ _, by change 48 + drive ≤ 57; omega⟩

/-- Parsing a printed path gives back the drive and the components, each of them ended by a zero
within its buffer. -/
theorem pathparserParse_printPath (hdrive : drive < 10) (hne : names ≠ [])
    (hnames : ∀ name ∈ names, name ≠ [] ∧ slash ∉ name ∧ 0 ∉ name)
    (hlength : (printPath drive names trailing).length ≤ slobosMaxPath)
    (hfree : FreeBlocks kernel.heap (2 * names.length + 2)) :
    ∃ root after, Ends (pathparserParse (printPath drive names trailing)) kernel (some root) after ∧
      root.driveNo = drive ∧ root.parts.map PathPart.text = names ∧
      ∀ part ∈ root.parts, part.text.length < slobosMaxPath ∧
        ∀ pages, readString (fun i => after.memory pages (part.part + i)) slobosMaxPath =
          part.text := by
  obtain ⟨root, after, hparse, -, hdriveNo, hscanned, hall⟩ := @pathparserParse_ends kernel _ 0 FreeBlocks _
    (printPath_format hdrive) hlength (by rw [scanned_printPath hne hnames]; exact hfree)
  have htexts := hscanned.trans (scanned_printPath hne hnames)
  refine ⟨root, after, hparse, ?_, htexts, fun part hpart => ?_⟩
  · rw [hdriveNo]
    change (UInt8.ofNat (48 + drive)).toNat - 48 = drive
    rw [toNat_drive hdrive]
    omega
  · have hname : part.text ∈ names := htexts ▸ List.mem_map_of_mem hpart
    have hterminated := hall part hpart
    refine ⟨hterminated.short, fun pages => ?_⟩
    exact readString_eq (hterminated.bytes pages) hterminated.short (hnames part.text hname).2.2

theorem pathparserParse_printPath_idle : ∃ root after,
    Ends (pathparserParse (printPath 0 [[0x61], [0x62]] true)) (idleKernel bootBytes unmountedVolume)
      (some root) after ∧ root.driveNo = 0 ∧ root.parts.map PathPart.text = [[0x61], [0x62]] ∧
      ∀ part ∈ root.parts, part.text.length < slobosMaxPath ∧
        ∀ pages, readString (fun i => after.memory pages (part.part + i)) slobosMaxPath =
          part.text :=
  pathparserParse_printPath (by decide) (by decide) (by decide) (by decide)
    (idleKernel_freeBlocks unmountedVolume (by decide))

end Kernel

end SlobOS
