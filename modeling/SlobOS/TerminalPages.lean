import SlobOS.Lib.Pages
import SlobOS.TerminalRuns

/-!
# What a stream of characters shows

While the cursor is on the screen, the terminal is a page of text that is edited at its end: a newline
closes the line, a backspace takes its last character away, and a line of 80 characters is closed.
-/

namespace SlobOS

open Runs Pages

def clearRow (terminal : Terminal) (y : Nat) : Terminal :=
  (List.range vgaWidth).foldl (fun terminal x => terminalPutchar x y 0x20 0 terminal) terminal

/-- The cursor is left where it is: the row and the column that are set are variables of the function
itself. -/
def terminalInitialize (terminal : Terminal) : Terminal :=
  (List.range vgaHeight).foldl clearRow terminal

abbrev ScreenChar : Type := UInt8 × UInt8

def writePage (page : Page ScreenChar) (char : ScreenChar) : Page ScreenChar :=
  if char.1 = newline then page.newLine
  else if char.1 = backspace then page.eraseLast
  else page.put vgaWidth char

def pageOf (chars : List ScreenChar) : Page ScreenChar := chars.foldl writePage .blank

/-- The cursor is on the screen, and a backspace finds a character in its row, or the first row
empty. -/
def KeepsToPage (terminal : Terminal) (char : ScreenChar) : Prop :=
  terminal.row < vgaHeight ∧ (char.1 = backspace → 0 < terminal.col ∨ terminal.row = 0)

def ShowsCell (erase : EraseChar) (before shown : BitVec 16) : Option ScreenChar → Prop
  | some char => shown = terminalMakeChar char.1 char.2
  | none => shown = before ∨ shown = terminalMakeChar erase.val 15

/-- The terminal shows the page, from the upper left corner on, and the cursor is at its end. -/
structure Shows (erase : EraseChar) (videoMem : Nat → BitVec 16) (page : Page ScreenChar)
    (terminal : Terminal) : Prop where
  within : page.Within vgaWidth
  row : terminal.row = page.closed.length
  col : terminal.col = page.line.length
  cells : ∀ row col, col < vgaWidth → ShowsCell erase (videoMem (row * vgaWidth + col))
    (terminal.videoMem (row * vgaWidth + col)) (page.cellAt row col)

variable {erase : EraseChar} {videoMem : Nat → BitVec 16} {page : Page ScreenChar}
  {terminal after : Terminal} {c colour : UInt8} {row col row' col' : Nat}

theorem cellIndex_eq_iff (hcol : col < vgaWidth) (hcol' : col' < vgaWidth) :
    row * vgaWidth + col = row' * vgaWidth + col' ↔ row = row' ∧ col = col' := by
  simp only [vgaWidth] at *
  omega

theorem terminalPutchar_videoMem (hcol : col < vgaWidth) (hcol' : col' < vgaWidth) :
    (terminalPutchar col' row' c colour terminal).videoMem (row * vgaWidth + col) =
      if row = row' ∧ col = col' then terminalMakeChar c colour
      else terminal.videoMem (row * vgaWidth + col) := by
  simp only [terminalPutchar, cellIndex_eq_iff hcol hcol']

theorem nextRow_eq (hrow : row < vgaHeight) : toUint16 (row + 1) = row + 1 := by
  simp only [vgaHeight] at hrow
  simp only [toUint16]
  omega

theorem Shows.writeNewline (h : Shows erase videoMem page terminal) (hrow : terminal.row < vgaHeight) :
    Shows erase videoMem page.newLine (terminalWritechar erase newline colour terminal) := by
  rw [terminalWritechar_newline]
  refine ⟨Nat.zero_lt_of_lt h.within, ?_, rfl, fun row col hcol => ?_⟩
  · rw [Page.newLine, List.length_append, ← h.row]
    exact nextRow_eq hrow
  · rw [Page.cellAt_newLine]
    exact h.cells row col hcol

theorem Shows.writeBackspace (h : Shows erase videoMem page terminal)
    (hstays : 0 < terminal.col ∨ terminal.row = 0) :
    Shows erase videoMem page.eraseLast (terminalWritechar erase backspace colour terminal) := by
  have hwithin : terminal.col < vgaWidth := h.col ▸ h.within
  rcases Nat.eq_zero_or_pos terminal.col with hzero | hpos
  · -- At the upper left corner there is nothing to take away.
    have hline : page.line = [] := List.eq_nil_of_length_eq_zero (h.col.symm.trans hzero)
    have hpage : page.eraseLast = page := by
      rw [Page.eraseLast, hline, List.dropLast_nil, ← hline]
    rw [hpage, terminalWritechar_backspace_start (hstays.resolve_left (by omega)) hzero]
    exact h
  · have hcol := h.col
    rw [terminalWritechar_backspace_inside hpos hwithin]
    refine ⟨?_, h.row, ?_, fun row col hlt => ?_⟩
    · rw [Page.Within, Page.eraseLast, List.length_dropLast]
      exact Nat.lt_of_le_of_lt (Nat.sub_le _ _) h.within
    · rw [Page.eraseLast, List.length_dropLast, ← hcol]
    · have hcell : row = page.closed.length ∧ col + 1 = page.line.length ↔
          row = terminal.row ∧ col = terminal.col - 1 := by
        rw [← h.row, ← hcol]
        omega
      rw [Page.cellAt_eraseLast, if_congr hcell rfl rfl]
      dsimp only
      rw [terminalPutchar_videoMem hlt (Nat.lt_of_le_of_lt (Nat.sub_le _ _) hwithin)]
      split
      · exact Or.inr rfl
      · exact h.cells row col hlt

theorem Shows.writePrintable (h : Shows erase videoMem page terminal) (hrow : terminal.row < vgaHeight)
    (hnewline : c ≠ newline) (hbackspace : c ≠ backspace) :
    Shows erase videoMem (page.put vgaWidth (c, colour))
      (terminalWritechar erase c colour terminal) := by
  have hwithin : terminal.col < vgaWidth := h.col ▸ h.within
  have hlast : page.line.length + 1 = vgaWidth ↔ terminal.col = vgaWidth - 1 := by
    rw [← h.col]
    omega
  rw [terminalWritechar_printable hnewline hbackspace hwithin]
  refine ⟨Page.within_put h.within, ?_, ?_, fun row col hlt => ?_⟩
  · dsimp only
    rw [Page.put, if_congr hlast rfl rfl]
    split
    · rw [Page.newLine, Page.append, List.length_append, ← h.row]
      exact nextRow_eq hrow
    · exact h.row
  · dsimp only
    rw [Page.put, if_congr hlast rfl rfl]
    split
    · rfl
    · rw [Page.append, List.length_append, ← h.col]
      rfl
  · dsimp only
    rw [Page.cellAt_put, ← h.row, ← h.col, terminalPutchar_videoMem hlt hwithin]
    split
    · rfl
    · exact h.cells row col hlt

theorem Shows.writechar {char : ScreenChar} (h : Shows erase videoMem page terminal)
    (hkeeps : KeepsToPage terminal char) :
    Shows erase videoMem (writePage page char) (terminalWritechar erase char.1 char.2 terminal) := by
  obtain ⟨c, colour⟩ := char
  obtain ⟨hrow, hback⟩ := hkeeps
  unfold writePage
  by_cases hnewline : c = newline
  · subst hnewline
    rw [if_pos rfl]
    exact h.writeNewline hrow
  rw [if_neg hnewline]
  by_cases hbackspace : c = backspace
  · subst hbackspace
    rw [if_pos rfl]
    exact h.writeBackspace (hback rfl)
  rw [if_neg hbackspace]
  exact h.writePrintable hrow hnewline hbackspace

structure Blanked (start stop : Nat) (before after : Terminal) : Prop where
  row : after.row = before.row
  col : after.col = before.col
  cells : ∀ i, after.videoMem i =
    if start ≤ i ∧ i < stop then terminalMakeChar 0x20 0 else before.videoMem i

theorem Blanked.trans {start middle stop : Nat} {before between : Terminal}
    (h : Blanked start middle before between) (h' : Blanked middle stop between after)
    (hle : start ≤ middle) (hle' : middle ≤ stop) : Blanked start stop before after := by
  refine ⟨h'.row.trans h.row, h'.col.trans h.col, fun i => ?_⟩
  rw [h'.cells, h.cells]
  by_cases hlast : middle ≤ i ∧ i < stop
  · rw [if_pos hlast, if_pos ⟨Nat.le_trans hle hlast.1, hlast.2⟩]
  · rw [if_neg hlast]
    exact if_congr (by omega) rfl rfl

theorem blanked_putchar (x y : Nat) (terminal : Terminal) :
    Blanked (y * vgaWidth + x) (y * vgaWidth + (x + 1)) terminal
      (terminalPutchar x y 0x20 0 terminal) :=
  ⟨rfl, rfl, fun _ => if_congr (by omega) rfl rfl⟩

theorem blanked_range {round : Terminal → Nat → Terminal} {start size : Nat}
    (hround : ∀ n terminal,
      Blanked (start + n * size) (start + (n + 1) * size) terminal (round terminal n))
    (count : Nat) (terminal : Terminal) :
    Blanked start (start + count * size) terminal ((List.range count).foldl round terminal) := by
  induction count with
  | zero => exact ⟨rfl, rfl, fun i => (if_neg (by omega)).symm⟩
  | succ count ih =>
      rw [List.range_succ, List.foldl_append]
      refine ih.trans (hround count _) (Nat.le_add_right _ _) ?_
      exact Nat.add_le_add_left (Nat.mul_le_mul_right _ (Nat.le_succ count)) _

theorem clearRow_blanked (y : Nat) (terminal : Terminal) :
    Blanked (y * vgaWidth) ((y + 1) * vgaWidth) terminal (clearRow terminal y) := by
  have hrow := @blanked_range (fun terminal x => terminalPutchar x y 0x20 0 terminal) (y * vgaWidth) 1
    (fun x terminal => by simpa only [Nat.mul_one] using blanked_putchar x y terminal) vgaWidth terminal
  rw [Nat.add_mul, Nat.one_mul]
  rwa [Nat.mul_one] at hrow

theorem terminalInitialize_blanked (terminal : Terminal) :
    Blanked 0 (vgaHeight * vgaWidth) terminal (terminalInitialize terminal) := by
  have hrows := @blanked_range clearRow 0 vgaWidth
    (fun y terminal => by simpa only [Nat.zero_add] using clearRow_blanked y terminal) vgaHeight terminal
  rwa [Nat.zero_add] at hrows

def cleared (videoMem : Nat → BitVec 16) (i : Nat) : BitVec 16 :=
  if i < vgaHeight * vgaWidth then terminalMakeChar 0x20 0 else videoMem i

theorem shows_terminalInitialize : Shows erase (cleared videoMem) .blank
    (terminalInitialize (initialTerminal videoMem)) := by
  have hblanked := terminalInitialize_blanked (initialTerminal videoMem)
  refine ⟨Nat.zero_lt_succ 79, hblanked.row, hblanked.col, fun row col _ => ?_⟩
  rw [Page.cellAt_blank]
  refine Or.inl ((hblanked.cells _).trans (if_congr ?_ rfl rfl))
  exact and_iff_right (Nat.zero_le _)

def PageStep (page : Page ScreenChar) (char : ScreenChar) (page' : Page ScreenChar) : Prop :=
  page' = writePage page char

theorem run_pageStep {first last : Page ScreenChar} {chars : List ScreenChar}
    (hrun : Run PageStep first chars last) : last = chars.foldl writePage first := by
  induction hrun with
  | nil => rfl
  | snoc _ hlast ih =>
      rw [List.foldl_append, ← ih]
      exact hlast

theorem Shows.keeps {char : ScreenChar} (h : Shows erase videoMem page terminal)
    (hrow : page.closed.length < vgaHeight)
    (hback : char.1 = backspace → 0 < page.line.length ∨ page.closed.length = 0) :
    KeepsToPage terminal char :=
  ⟨h.row ▸ hrow, h.row ▸ h.col ▸ hback⟩

end SlobOS
