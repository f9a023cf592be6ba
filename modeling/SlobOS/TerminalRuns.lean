import SlobOS.Terminal
import Mathlib.Data.List.Induction

/-!
# What a stream of characters writes

A stream stays on the screen as long as nothing is printed below the last row and no row but the first
is left backwards: there the erasing character wraps to the next row, and the column before its start
is the last one that sixteen bits can hold.
-/

namespace SlobOS

open Runs

def WriteStep (erase : EraseChar) (before : Terminal) (char : UInt8 × UInt8)
    (after : Terminal) : Prop :=
  after = terminalWritechar erase char.1 char.2 before

/-- A newline, a backspace within a row or in the first one, or a character printed above the end of
the screen. -/
def StaysOnScreen (terminal : Terminal) (char : UInt8 × UInt8) : Prop :=
  if char.1 = newline then True
  else if char.1 = backspace then 0 < terminal.col ∨ terminal.row = 0
  else terminal.row < vgaHeight

def OnScreen (cell : Nat × Nat) : Prop := cell.1 < vgaWidth ∧ cell.2 < vgaHeight

/-- The cursor is in a row of the screen, or at the start of a row. -/
structure CursorOk (terminal : Terminal) : Prop where
  col_lt : terminal.col < vgaWidth
  row_lt : 0 < terminal.col → terminal.row < vgaHeight

structure ScreenSafe (videoMem : Nat → BitVec 16) (terminal : Terminal) : Prop where
  cells : ∀ cell ∈ terminal.cells, OnScreen cell
  outside : ∀ i, vgaHeight * vgaWidth ≤ i → terminal.videoMem i = videoMem i

variable {erase : EraseChar} {terminal after : Terminal} {videoMem : Nat → BitVec 16}
  {c colour x y row col : _}

theorem ScreenSafe.putchar (h : ScreenSafe videoMem terminal) (hcell : OnScreen (x, y)) :
    ScreenSafe videoMem
      { terminalPutchar x y c colour terminal with row := row, col := col } where
  cells := by
    intro cell hmem
    rcases List.mem_cons.mp hmem with rfl | hmem
    · exact hcell
    · exact h.cells cell hmem
  outside := by
    intro i hi
    obtain ⟨hx, hy⟩ := hcell
    simp only [vgaWidth, vgaHeight] at hi hx hy
    have hne : ¬i = y * vgaWidth + x := by
      simp only [vgaWidth]
      omega
    simp only [terminalPutchar, if_neg hne]
    exact h.outside i (by simpa only [vgaWidth, vgaHeight] using hi)

theorem terminalWritechar_backspace_inside (hpos : 0 < terminal.col)
    (hcol : terminal.col < vgaWidth) : terminalWritechar erase backspace colour terminal =
      { terminalPutchar (terminal.col - 1) terminal.row erase.val 15 terminal with
        col := terminal.col - 1, row := terminal.row } := by
  have hback : toUint16 (terminal.col + 0xffff) = terminal.col - 1 := by
    simp only [vgaWidth] at hcol
    simp only [toUint16]
    omega
  rw [terminalWritechar_backspace, terminalBackspace, if_neg (by omega),
    if_neg (show ¬terminal.col = 0 by omega)]
  simp only [hback]
  rw [terminalWritechar_printable erase.ne_newline erase.ne_backspace
    (by simp only [vgaWidth] at *; omega)]
  have hne : ¬terminal.col - 1 = vgaWidth - 1 := by
    simp only [vgaWidth] at *
    omega
  simp only [terminalPutchar, if_neg hne, show terminal.col - 1 + 1 = terminal.col by omega, hback]

theorem terminalWritechar_backspace_start (hrow : terminal.row = 0) (hcol : terminal.col = 0) :
    terminalWritechar erase backspace colour terminal = terminal := by
  rw [terminalWritechar_backspace, terminalBackspace, if_pos ⟨hrow, hcol⟩]

/-- At the start of another row the erasing character ends up where the cursor was, and the cursor
outside of the screen. -/
theorem terminalWritechar_backspace_wrap (hcol : terminal.col = 0) (hrow : 0 < terminal.row)
    (hlt : terminal.row < 0x10000) : terminalWritechar erase backspace colour terminal =
      { terminalPutchar 79 (terminal.row - 1) erase.val 15 terminal with
        col := 0xffff, row := terminal.row } := by
  have hback : toUint16 (terminal.row + 0xffff) = terminal.row - 1 := by
    simp only [toUint16]
    omega
  have hnext : toUint16 (terminal.row - 1 + 1) = terminal.row := by
    simp only [toUint16]
    omega
  rw [terminalWritechar_backspace, terminalBackspace, if_neg (by omega), if_pos hcol]
  simp only [hback, show toUint16 (vgaWidth + 0xffff) = 79 by decide]
  rw [terminalWritechar_printable erase.ne_newline erase.ne_backspace
    (show 79 < vgaWidth by decide)]
  simp only [terminalPutchar, hnext]
  rfl

theorem terminalWritechar_stays (hcursor : CursorOk terminal) (hsafe : ScreenSafe videoMem terminal)
    (hstays : StaysOnScreen terminal (c, colour)) :
    CursorOk (terminalWritechar erase c colour terminal) ∧
      ScreenSafe videoMem (terminalWritechar erase c colour terminal) := by
  obtain ⟨hcol, hrow⟩ := hcursor
  unfold StaysOnScreen at hstays
  by_cases hnewline : c = newline
  · subst hnewline
    rw [terminalWritechar_newline]
    exact ⟨⟨by simp [vgaWidth], fun hpos => absurd hpos (by simp)⟩, ⟨hsafe.cells, hsafe.outside⟩⟩
  rw [if_neg hnewline] at hstays
  by_cases hbackspace : c = backspace
  · subst hbackspace
    rw [if_pos rfl] at hstays
    by_cases hpos : 0 < terminal.col
    · rw [terminalWritechar_backspace_inside hpos hcol]
      have hlt := hrow hpos
      refine ⟨⟨?_, fun _ => hlt⟩, hsafe.putchar ⟨?_, hlt⟩⟩ <;> dsimp only <;> omega
    · have hzero : terminal.col = 0 := by omega
      rw [terminalWritechar_backspace_start (hstays.resolve_left hpos) hzero]
      exact ⟨⟨hcol, hrow⟩, hsafe⟩
  · rw [if_neg hbackspace] at hstays
    rw [terminalWritechar_printable hnewline hbackspace hcol]
    refine ⟨⟨?_, fun hpos => ?_⟩, hsafe.putchar ⟨hcol, hstays⟩⟩
    · dsimp only
      split <;> simp only [vgaWidth] at * <;> omega
    · dsimp only at hpos ⊢
      split at hpos
      · omega
      · rename_i hne
        rwa [if_neg hne]

theorem terminalWritechar_cells (hnewline : c ≠ newline) (hbackspace : c ≠ backspace) :
    (terminalWritechar erase c colour terminal).cells =
      (terminal.col, terminal.row) :: terminal.cells := by
  rw [terminalWritechar, if_neg hnewline, if_neg hbackspace]
  dsimp only
  split <;> rfl

/-- The condition cannot be weakened: after any other character the next one that is printed leaves
the screen, unless that one did. -/
theorem terminalWritechar_leaves (hrow : terminal.row < 0x10000)
    (hleaves : ¬StaysOnScreen terminal (c, colour)) {next colour' : UInt8}
    (hnewline : next ≠ newline) (hbackspace : next ≠ backspace) :
    ∃ cell ∈ (terminalWritechar erase next colour'
      (terminalWritechar erase c colour terminal)).cells, ¬OnScreen cell := by
  rw [terminalWritechar_cells hnewline hbackspace]
  unfold StaysOnScreen at hleaves
  by_cases hc : c = newline
  · exact absurd trivial (by rwa [if_pos hc] at hleaves)
  rw [if_neg hc] at hleaves
  by_cases hc' : c = backspace
  · subst hc'
    rw [if_pos rfl, not_or] at hleaves
    rw [terminalWritechar_backspace_wrap (by omega) (by omega) hrow]
    refine ⟨(0xffff, terminal.row), List.mem_cons_self, fun honScreen => ?_⟩
    exact absurd honScreen.1 (show ¬0xffff < vgaWidth by decide)
  · rw [if_neg hc'] at hleaves
    rw [terminalWritechar_cells hc hc']
    refine ⟨(terminal.col, terminal.row), ?_, fun honScreen => hleaves honScreen.2⟩
    exact List.mem_cons_of_mem _ List.mem_cons_self

theorem print_run (str : List UInt8) :
    Run (WriteStep erase) terminal (str.map fun c => (c, 15)) (print erase str terminal) := by
  induction str using List.reverseRecOn with
  | nil => exact .nil terminal
  | append_singleton str c ih =>
      rw [List.map_append, print, List.foldl_append]
      exact ih.snoc rfl

/-- In a stream whose characters stay on the screen, every cell that is written is one of the
screen's. -/
theorem terminal_history_on_screen {chars : List (UInt8 × UInt8)}
    (hrun : Run (Guarded StaysOnScreen (WriteStep erase)) (initialTerminal videoMem) chars after) :
    ScreenSafe videoMem after := by
  have hinv : CursorOk after ∧ ScreenSafe videoMem after := by
    refine hrun.invariant (fun terminal => CursorOk terminal ∧ ScreenSafe videoMem terminal)
      (fun before char next hinv hstep => ?_) ?_
    · obtain ⟨hstays, rfl⟩ := hstep
      exact terminalWritechar_stays hinv.1 hinv.2 hstays
    · exact ⟨⟨by simp [initialTerminal, vgaWidth], by simp [initialTerminal]⟩,
        ⟨by simp [initialTerminal], fun _ _ => rfl⟩⟩
  exact hinv.2

def spaceErase : EraseChar where
  val := 0x20
  ne_newline := by decide
  ne_backspace := by decide

def blankTerminal : Terminal := initialTerminal fun _ => 0

theorem terminalWritechar_cursor (hnewline : c ≠ newline) (hbackspace : c ≠ backspace)
    (hcol : terminal.col + 1 < vgaWidth) :
    (terminalWritechar erase c colour terminal).col = terminal.col + 1 ∧
      (terminalWritechar erase c colour terminal).row = terminal.row := by
  have hlast : ¬terminal.col = vgaWidth - 1 := by omega
  rw [terminalWritechar_printable hnewline hbackspace (by omega)]
  simp only [if_neg hlast, and_self]

theorem terminal_history_on_screen_erased :
    ScreenSafe (fun _ => 0) (print spaceErase [0x61, newline, 0x62, backspace] blankTerminal) := by
  obtain ⟨-, hrow⟩ := @terminalWritechar_cursor spaceErase blankTerminal 0x61 15 (by decide)
    (by decide) (by decide)
  have hnext : print spaceErase [0x61, newline] blankTerminal =
      { print spaceErase [0x61] blankTerminal with row := 1, col := 0 } := by
    have hnewline := @terminalWritechar_newline spaceErase 15 (print spaceErase [0x61] blankTerminal)
    rw [show (print spaceErase [0x61] blankTerminal).row = 0 from hrow] at hnewline
    exact hnewline
  obtain ⟨hcol', -⟩ := @terminalWritechar_cursor spaceErase
    (print spaceErase [0x61, newline] blankTerminal) 0x62 15 (by decide) (by decide)
    (by rw [hnext]; decide)
  have hletter : StaysOnScreen blankTerminal (0x61, 15) := show (0 : Nat) < vgaHeight by decide
  have hletter' : StaysOnScreen (print spaceErase [0x61, newline] blankTerminal) (0x62, 15) := by
    rw [hnext]
    exact show (1 : Nat) < vgaHeight by decide
  have hback : StaysOnScreen (print spaceErase [0x61, newline, 0x62] blankTerminal)
      (backspace, 15) := Or.inl (hcol' ▸ Nat.succ_pos _)
  have hrun : Run (Guarded StaysOnScreen (WriteStep spaceErase)) blankTerminal
      [(0x61, 15), (newline, 15), (0x62, 15), (backspace, 15)]
      (print spaceErase [0x61, newline, 0x62, backspace] blankTerminal) :=
    (((Run.single ⟨hletter, rfl⟩).snoc ⟨trivial, rfl⟩).snoc ⟨hletter', rfl⟩).snoc ⟨hback, rfl⟩
  exact terminal_history_on_screen hrun

/-- The letter that follows a newline and a backspace is written far to the right of the screen. -/
theorem terminal_history_leaves_screen : ¬∀ chars after,
    Run (WriteStep spaceErase) blankTerminal chars after → ScreenSafe (fun _ => 0) after := by
  intro hall
  have hsafe := hall _ _ (print_run [newline, backspace, 0x61])
  simp only [print, List.foldl_cons, List.foldl_nil] at hsafe
  rw [terminalWritechar_newline, terminalWritechar_backspace_wrap rfl (by decide) (by decide)] at hsafe
  have hcell := hsafe.cells (0xffff, 1) (by
    rw [terminalWritechar_cells (by decide) (by decide)]
    exact List.mem_cons_self)
  exact absurd hcell.1 (by decide)

/-- The cursor is back where it was, and only the cell under it has changed, to a blank. -/
structure Erased (blank : UInt8) (before after : Terminal) : Prop where
  row : after.row = before.row
  col : after.col = before.col
  cell : after.videoMem (before.row * vgaWidth + before.col) = terminalMakeChar blank 15
  others : ∀ i, i ≠ before.row * vgaWidth + before.col → after.videoMem i = before.videoMem i

/-- A backspace behind the last column does not come back to it: the cursor is left in column 65535, or,
behind the last of all rows, at the start of the screen. -/
theorem backspace_after_wrap (hrow : terminal.row < 0x10000) (hcol : terminal.col = 0) :
    (terminalWritechar erase backspace colour terminal).col ≠ vgaWidth - 1 := by
  rcases Nat.eq_zero_or_pos terminal.row with hzero | hpos
  · rw [terminalWritechar_backspace_start hzero hcol, hcol]
    decide
  · rw [terminalWritechar_backspace_wrap hcol hpos hrow]
    show 0xffff ≠ vgaWidth - 1
    decide

/-- A backspace undoes a printable character that was written in front of the last column, and no
other. -/
theorem terminalBackspace_erases_iff (hcol : terminal.col < vgaWidth)
    (hnewline : c ≠ newline) (hbackspace : c ≠ backspace) :
    Erased erase.val terminal (terminalBackspace (terminalWritechar erase erase.val 15)
      (terminalWritechar erase c colour terminal)) ↔ terminal.col ≠ vgaWidth - 1 := by
  rw [← @terminalWritechar_backspace erase colour, terminalWritechar_printable hnewline hbackspace hcol]
  constructor
  · intro h hlast
    refine absurd (h.col.trans hlast) (backspace_after_wrap ?_ (if_pos hlast))
    have hnext : toUint16 (terminal.row + 1) < 0x10000 := by
      simp only [toUint16]
      omega
    simpa only [if_pos hlast] using hnext
  · intro hinside
    have hbelow : terminal.col + 1 < vgaWidth := by
      simp only [vgaWidth] at *
      omega
    simp only [if_neg hinside]
    rw [terminalWritechar_backspace_inside (Nat.succ_pos _) hbelow]
    refine ⟨rfl, rfl, ?_, fun i hi => ?_⟩
    · simp [terminalPutchar]
    · simp [terminalPutchar, hi]

theorem terminalBackspace_erases_first : Erased spaceErase.val blankTerminal
    (terminalBackspace (terminalWritechar spaceErase spaceErase.val 15)
      (terminalWritechar spaceErase 0x61 15 blankTerminal)) :=
  (terminalBackspace_erases_iff (by decide) (by decide) (by decide)).mpr (by decide)

/-- In column 79 the cursor ends up far to the right of the next row. -/
theorem not_terminalBackspace_erases : ¬∀ terminal : Terminal, terminal.col < vgaWidth →
    Erased spaceErase.val terminal (terminalBackspace (terminalWritechar spaceErase spaceErase.val 15)
      (terminalWritechar spaceErase 0x61 15 terminal)) := by
  intro hall
  have hcol := (hall { blankTerminal with col := 79 } (by decide)).col
  rw [← @terminalWritechar_backspace spaceErase 15] at hcol
  refine absurd hcol (backspace_after_wrap ?_ ?_)
  all_goals rw [terminalWritechar_printable (by decide) (by decide) (by decide)]
  all_goals decide

end SlobOS
