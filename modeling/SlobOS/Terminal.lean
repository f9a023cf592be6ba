import SlobOS.Config
import SlobOS.Lib.Runs

/-!
# The terminal

The cursor and the video memory of `kernel.c`. Nothing scrolls: the rows below the last one are cells
of other memory, and so are the columns that a cursor of 16 bits reaches when it is moved to the left
of a row.
-/

namespace SlobOS

open Runs

def vgaWidth : Nat := 80
def vgaHeight : Nat := 20

def newline : UInt8 := 0x0a
def backspace : UInt8 := 0x08

def toUint16 (value : Nat) : Nat := value % 0x10000

/-- `video_mem` by index, with `terminal_row` and `terminal_col`. -/
structure Terminal where
  videoMem : Nat → BitVec 16
  row : Nat
  col : Nat
  /-- Ghost: the columns and rows that `terminal_putchar` has been called for, latest first. -/
  cells : List (Nat × Nat)

/-- Both are `char`, which is signed. -/
def terminalMakeChar (c colour : UInt8) : BitVec 16 :=
  (colour.toBitVec.signExtend 16 <<< 8) ||| c.toBitVec.signExtend 16

def terminalPutchar (x y : Nat) (c colour : UInt8) (terminal : Terminal) : Terminal :=
  { terminal with
    videoMem := fun i =>
      if i = y * vgaWidth + x then terminalMakeChar c colour else terminal.videoMem i
    cells := (x, y) :: terminal.cells }

/-- The character that `terminal_backspace` hands to `terminal_writechar`: the low byte of the address
of a string literal, taken for a printable one. -/
structure EraseChar where
  val : UInt8
  ne_newline : val ≠ newline
  ne_backspace : val ≠ backspace

def terminalBackspace (erase : Terminal → Terminal) (terminal : Terminal) : Terminal :=
  if terminal.row = 0 ∧ terminal.col = 0 then terminal
  else
    let terminal :=
      if terminal.col = 0 then
        { terminal with row := toUint16 (terminal.row + 0xffff), col := vgaWidth }
      else terminal
    let terminal := erase { terminal with col := toUint16 (terminal.col + 0xffff) }
    { terminal with col := toUint16 (terminal.col + 0xffff) }

def terminalWritechar (erase : EraseChar) (c colour : UInt8) (terminal : Terminal) : Terminal :=
  if c = newline then { terminal with row := toUint16 (terminal.row + 1), col := 0 }
  else if c = backspace then
    terminalBackspace (terminalWritechar erase erase.val 15) terminal
  else
    let terminal := terminalPutchar terminal.col terminal.row c colour terminal
    let terminal := { terminal with col := toUint16 (terminal.col + 1) }
    if terminal.col ≥ vgaWidth then
      { terminal with col := 0, row := toUint16 (terminal.row + 1) }
    else terminal
termination_by if c = backspace then 1 else 0
decreasing_by simp [*, erase.ne_backspace]

def print (erase : EraseChar) (str : List UInt8) (terminal : Terminal) : Terminal :=
  str.foldl (fun terminal c => terminalWritechar erase c 15 terminal) terminal

def initialTerminal (videoMem : Nat → BitVec 16) : Terminal where
  videoMem := videoMem
  row := 0
  col := 0
  cells := []

section Writechar

variable {erase : EraseChar} {c colour : UInt8} {terminal after : Terminal}

theorem terminalWritechar_newline : terminalWritechar erase newline colour terminal =
    { terminal with row := toUint16 (terminal.row + 1), col := 0 } := by
  rw [terminalWritechar, if_pos rfl]

theorem terminalWritechar_backspace : terminalWritechar erase backspace colour terminal =
    terminalBackspace (terminalWritechar erase erase.val 15) terminal := by
  rw [terminalWritechar, if_neg (by decide), if_pos rfl]

theorem terminalWritechar_printable (hnewline : c ≠ newline) (hbackspace : c ≠ backspace)
    (hcol : terminal.col < vgaWidth) : terminalWritechar erase c colour terminal =
      { terminalPutchar terminal.col terminal.row c colour terminal with
        col := if terminal.col = vgaWidth - 1 then 0 else terminal.col + 1
        row := if terminal.col = vgaWidth - 1 then toUint16 (terminal.row + 1)
          else terminal.row } := by
  have hnext : toUint16 (terminal.col + 1) = terminal.col + 1 := by
    simp only [vgaWidth] at hcol
    simp only [toUint16]
    omega
  rw [terminalWritechar, if_neg hnewline, if_neg hbackspace]
  simp only [terminalPutchar, hnext]
  by_cases hlast : terminal.col = vgaWidth - 1
  · rw [if_pos (by simp only [vgaWidth] at *; omega), if_pos hlast, if_pos hlast]
  · rw [if_neg (by simp only [vgaWidth] at *; omega), if_neg hlast, if_neg hlast]

end Writechar

end SlobOS
