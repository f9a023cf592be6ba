import Mathlib.Data.List.Pairwise
import Mathlib.Tactic.Common

/-!
# Tables cut into marked spans

A table of cells is tiled by a list of spans when the spans lie inside it, do not overlap, carry
their marks, and every other cell is blank. Marks that show where a span begins and where it ends
make the spans a function of the table: a second tiling of the same table has the same spans.
-/

namespace Tilings

structure Span where
  start : Nat
  len : Nat
  deriving DecidableEq, Repr

def Span.stop (span : Span) : Nat := span.start + span.len

def Span.Covers (span : Span) (i : Nat) : Prop := span.start ≤ i ∧ i < span.stop

def Span.Apart (left right : Span) : Prop := left.stop ≤ right.start ∨ right.stop ≤ left.start

instance : Std.Symm Span.Apart where
  symm _ _ := Or.symm

theorem Span.Apart.not_covers {left right : Span} (h : left.Apart right) {i : Nat}
    (hi : left.Covers i) : ¬right.Covers i := by
  simp only [Apart, Covers, stop] at h hi ⊢
  omega

theorem Span.apart_of_not_covers {left right : Span} (hleft : 0 < left.len) (hright : 0 < right.len)
    (h : ∀ i, left.Covers i → ¬right.Covers i) : left.Apart right := by
  simp only [Apart, Covers, stop] at h ⊢
  have hstart := h left.start ⟨Nat.le_refl _, by omega⟩
  by_contra hcross
  have := h right.start ⟨by omega, by omega⟩
  omega

variable {Cell : Type*}

/-- The spans cut up the first `total` cells: `mark len k` is the cell at offset `k` of a span of
that length, and `blank` is every cell outside the spans. -/
structure Tiles (mark : Nat → Nat → Cell) (blank : Cell) (cell : Nat → Cell) (total : Nat)
    (spans : List Span) : Prop where
  nonempty : ∀ span ∈ spans, 0 < span.len
  inside : ∀ span ∈ spans, span.stop ≤ total
  apart : spans.Pairwise Span.Apart
  marked : ∀ span ∈ spans, ∀ k < span.len, cell (span.start + k) = mark span.len k
  outside : ∀ i < total, (∀ span ∈ spans, ¬span.Covers i) → cell i = blank

variable {mark : Nat → Nat → Cell} {blank : Cell} {cell cell' : Nat → Cell} {total : Nat}
  {spans spans' : List Span} {span : Span}

theorem Tiles.nil (hblank : ∀ i < total, cell i = blank) : Tiles mark blank cell total [] where
  nonempty := by simp
  inside := by simp
  apart := .nil
  marked := by simp
  outside := fun i hi _ => hblank i hi

theorem Tiles.apart_of_ne (h : Tiles mark blank cell total spans) {left right : Span}
    (hleft : left ∈ spans) (hright : right ∈ spans) (hne : left ≠ right) : left.Apart right :=
  h.apart.forall hleft hright hne

theorem Tiles.nodup (h : Tiles mark blank cell total spans) : spans.Nodup := by
  refine h.apart.imp_of_mem fun {left right} hleft hright hapart heq => ?_
  subst heq
  have hpos := h.nonempty _ hleft
  simp only [Span.Apart, Span.stop] at hapart
  omega

theorem Tiles.cell_eq_mark (h : Tiles mark blank cell total spans) (hspan : span ∈ spans) {i : Nat}
    (hi : span.Covers i) : cell i = mark span.len (i - span.start) := by
  simp only [Span.Covers, Span.stop] at hi
  have hmark := h.marked span hspan (i - span.start) (by omega)
  rwa [show span.start + (i - span.start) = i by omega] at hmark

theorem Tiles.cons (h : Tiles mark blank cell total spans) (hpos : 0 < span.len)
    (hstop : span.stop ≤ total) (hblank : ∀ i, span.Covers i → ∀ other ∈ spans, ¬other.Covers i)
    (hmark : ∀ k < span.len, cell' (span.start + k) = mark span.len k)
    (hframe : ∀ i < total, ¬span.Covers i → cell' i = cell i) :
    Tiles mark blank cell' total (span :: spans) where
  nonempty := by simpa using ⟨hpos, h.nonempty⟩
  inside := by simpa using ⟨hstop, h.inside⟩
  apart := by
    refine List.pairwise_cons.mpr ⟨fun other hother => ?_, h.apart⟩
    exact Span.apart_of_not_covers hpos (h.nonempty other hother)
      fun i hi => hblank i hi other hother
  marked := by
    intro other hother k hk
    rcases List.mem_cons.mp hother with rfl | hother
    · exact hmark k hk
    · have hcover : other.Covers (other.start + k) := by
        simp only [Span.Covers, Span.stop]
        omega
      have hstop' := h.inside other hother
      have hlt : other.start + k < total := by
        simp only [Span.stop] at hstop'
        omega
      rw [hframe _ hlt fun hin => hblank _ hin other hother hcover]
      exact h.marked other hother k hk
  outside := by
    intro i hi hnone
    rw [hframe i hi (hnone span List.mem_cons_self)]
    exact h.outside i hi fun other hother => hnone other (List.mem_cons_of_mem _ hother)

theorem Tiles.erase (h : Tiles mark blank cell total spans) (hspan : span ∈ spans)
    (hblank : ∀ i, span.Covers i → cell' i = blank)
    (hframe : ∀ i < total, ¬span.Covers i → cell' i = cell i) :
    Tiles mark blank cell' total (spans.erase span) := by
  have hmem : ∀ {other}, other ∈ spans.erase span ↔ other ≠ span ∧ other ∈ spans :=
    fun {other} => h.nodup.mem_erase_iff
  refine ⟨fun other hother => h.nonempty other (hmem.mp hother).2,
    fun other hother => h.inside other (hmem.mp hother).2,
    h.apart.sublist List.erase_sublist, fun other hother k hk => ?_, fun i hi hnone => ?_⟩
  · obtain ⟨hne, hother⟩ := hmem.mp hother
    have hcover : other.Covers (other.start + k) := by
      simp only [Span.Covers, Span.stop]
      omega
    have hstop := h.inside other hother
    have hlt : other.start + k < total := by
      simp only [Span.stop] at hstop
      omega
    rw [hframe _ hlt ((h.apart_of_ne hother hspan hne).not_covers hcover)]
    exact h.marked other hother k hk
  · by_cases hcover : span.Covers i
    · exact hblank i hcover
    · rw [hframe i hi hcover]
      apply h.outside i hi
      intro other hother
      by_cases hne : other = span
      · rwa [hne]
      · exact hnone other (hmem.mpr ⟨hne, hother⟩)

/-- The first cell of a span, and only that one, is marked as first; the last, and only that one,
as last; a blank cell is neither. -/
structure Delimits (mark : Nat → Nat → Cell) (blank : Cell) (first last : Cell → Prop) : Prop where
  first_iff : ∀ {len k}, k < len → (first (mark len k) ↔ k = 0)
  last_iff : ∀ {len k}, k < len → (last (mark len k) ↔ k + 1 = len)
  blank_not_first : ¬first blank

variable {first last : Cell → Prop}

private theorem mem_of_mem (hdelim : Delimits mark blank first last)
    (h : Tiles mark blank cell total spans) (h' : Tiles mark blank cell total spans')
    (hspan : span ∈ spans) : span ∈ spans' := by
  have hpos := h.nonempty span hspan
  have hstop := h.inside span hspan
  simp only [Span.stop] at hstop
  have hfirst : first (cell span.start) := by
    have hmark := h.marked span hspan 0 hpos
    rw [Nat.add_zero] at hmark
    rw [hmark]
    exact (hdelim.first_iff hpos).mpr rfl
  obtain ⟨other, hother, hcover⟩ : ∃ other ∈ spans', other.Covers span.start := by
    by_contra hnone
    push Not at hnone
    rw [h'.outside span.start (by omega) hnone] at hfirst
    exact hdelim.blank_not_first hfirst
  have hstart : other.start = span.start := by
    have hlt := hcover
    simp only [Span.Covers, Span.stop] at hlt
    rw [h'.cell_eq_mark hother hcover] at hfirst
    have := (hdelim.first_iff (by omega)).mp hfirst
    omega
  -- The shorter of the two would end on a cell that the longer one does not end on.
  have hlast : ∀ k, k < span.len → k < other.len → (k + 1 = span.len ↔ k + 1 = other.len) := by
    intro k hk hk'
    rw [← hdelim.last_iff hk, ← hdelim.last_iff hk', ← h.marked span hspan k hk,
      ← h'.marked other hother k hk', hstart]
  have hpos' := h'.nonempty other hother
  have hlen : other.len = span.len := by
    have hshort := hlast (span.len - 1) (by omega)
    have hshort' := hlast (other.len - 1)
    omega
  have heq : other = span := by
    cases other
    cases span
    simp_all
  exact heq ▸ hother

theorem Tiles.mem_iff (hdelim : Delimits mark blank first last)
    (h : Tiles mark blank cell total spans) (h' : Tiles mark blank cell total spans') (span : Span) :
    span ∈ spans ↔ span ∈ spans' :=
  ⟨mem_of_mem hdelim h h', mem_of_mem hdelim h' h⟩

theorem Tiles.perm (hdelim : Delimits mark blank first last)
    (h : Tiles mark blank cell total spans) (h' : Tiles mark blank cell total spans') :
    spans.Perm spans' :=
  (List.perm_ext_iff_of_nodup h.nodup h'.nodup).mpr (h.mem_iff hdelim h')

end Tilings
