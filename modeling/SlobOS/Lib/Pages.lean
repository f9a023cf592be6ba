import Mathlib.Tactic.Common
import Mathlib.Data.List.Basic

/-!
# Pages of text

A page is written line by line, from the top. The last line is open: it grows and shrinks at its end,
and a line that is as wide as the page is closed.
-/

namespace Pages

structure Page (Cell : Type) where
  closed : List (List Cell)
  line : List Cell

variable {Cell : Type}

namespace Page

def blank : Page Cell := { closed := [], line := [] }

def cellAt (page : Page Cell) (row col : Nat) : Option Cell :=
  (page.closed ++ [page.line])[row]?.bind fun cells => cells[col]?

def newLine (page : Page Cell) : Page Cell :=
  { closed := page.closed ++ [page.line], line := [] }

def eraseLast (page : Page Cell) : Page Cell := { page with line := page.line.dropLast }

def append (page : Page Cell) (cell : Cell) : Page Cell := { page with line := page.line ++ [cell] }

def put (width : Nat) (cell : Cell) (page : Page Cell) : Page Cell :=
  if page.line.length + 1 = width then (page.append cell).newLine else page.append cell

def Within (width : Nat) (page : Page Cell) : Prop := page.line.length < width

variable {page : Page Cell} {cell : Cell} {width row col : Nat}

theorem cellAt_blank : (blank : Page Cell).cellAt row col = none := by
  cases row <;> rfl

theorem cellAt_closed (hrow : row < page.closed.length) :
    page.cellAt row col = page.closed[row][col]? := by
  rw [cellAt, List.getElem?_append_left hrow, List.getElem?_eq_getElem hrow, Option.bind_some]

theorem cellAt_line : page.cellAt page.closed.length col = page.line[col]? := by
  rw [cellAt, List.getElem?_concat_length, Option.bind_some]

theorem cellAt_below (hrow : page.closed.length < row) : page.cellAt row col = none := by
  have hlength : (page.closed ++ [page.line]).length ≤ row := by
    rw [List.length_append, List.length_singleton]
    exact hrow
  rw [cellAt, List.getElem?_eq_none hlength, Option.bind_none]

theorem cellAt_congr {page' : Page Cell} (hclosed : page'.closed = page.closed)
    (hrow : row ≠ page.closed.length) : page'.cellAt row col = page.cellAt row col := by
  rcases Nat.lt_or_gt_of_ne hrow with hlt | hgt
  · rw [cellAt_closed hlt, cellAt_closed (hclosed ▸ hlt)]
    simp only [hclosed]
  · rw [cellAt_below hgt, cellAt_below (hclosed ▸ hgt)]

theorem cellAt_newLine : page.newLine.cellAt row col = page.cellAt row col := by
  rcases Nat.lt_trichotomy row (page.closed ++ [page.line]).length with hlt | heq | hgt
  · rw [cellAt, cellAt, newLine, List.getElem?_append_left hlt]
  · have hbelow : page.closed.length < row := by
      rw [heq, List.length_append]
      exact Nat.lt_succ_self _
    rw [cellAt_below hbelow, heq]
    exact cellAt_line
  · rw [cellAt_below hgt]
    refine (cellAt_below ?_).symm
    rw [List.length_append] at hgt
    exact Nat.lt_of_succ_lt hgt

theorem cellAt_append : (page.append cell).cellAt row col =
    if row = page.closed.length ∧ col = page.line.length then some cell
    else page.cellAt row col := by
  by_cases hrow : row = page.closed.length
  · subst hrow
    have hline : (page.append cell).cellAt page.closed.length col = (page.line ++ [cell])[col]? :=
      cellAt_line
    rw [hline, cellAt_line]
    rcases Nat.lt_trichotomy col page.line.length with hlt | rfl | hgt
    · rw [List.getElem?_append_left hlt, if_neg fun h => Nat.ne_of_lt hlt h.2]
    · rw [List.getElem?_concat_length, if_pos ⟨rfl, rfl⟩]
    · have hlength : (page.line ++ [cell]).length ≤ col := by
        rw [List.length_append]
        exact hgt
      rw [List.getElem?_eq_none hlength, if_neg fun h => Nat.ne_of_gt hgt h.2,
        List.getElem?_eq_none (Nat.le_of_lt hgt)]
  · rw [if_neg fun h => hrow h.1]
    exact cellAt_congr rfl hrow

theorem cellAt_put : (page.put width cell).cellAt row col =
    if row = page.closed.length ∧ col = page.line.length then some cell
    else page.cellAt row col := by
  unfold put
  split
  · rw [cellAt_newLine, cellAt_append]
  · exact cellAt_append

theorem cellAt_eraseLast : page.eraseLast.cellAt row col =
    if row = page.closed.length ∧ col + 1 = page.line.length then none
    else page.cellAt row col := by
  by_cases hrow : row = page.closed.length
  · subst hrow
    have hline : page.eraseLast.cellAt page.closed.length col = page.line.dropLast[col]? := cellAt_line
    rw [hline, cellAt_line, List.getElem?_dropLast]
    by_cases hlt : col < page.line.length - 1
    · rw [if_pos hlt, if_neg (by omega)]
    · rw [if_neg hlt]
      by_cases hlast : col + 1 = page.line.length
      · rw [if_pos ⟨rfl, hlast⟩]
      · rw [if_neg fun h => hlast h.2, List.getElem?_eq_none (by omega)]
  · rw [if_neg fun h => hrow h.1]
    exact cellAt_congr rfl hrow

theorem within_put (hwithin : page.Within width) : (page.put width cell).Within width := by
  unfold put
  split
  · exact Nat.lt_of_le_of_lt (Nat.zero_le _) hwithin
  · rename_i hne
    rw [Within, append, List.length_append]
    exact Nat.lt_of_le_of_ne hwithin hne

end Page

end Pages
