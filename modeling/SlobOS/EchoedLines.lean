import SlobOS.ReadLines
import SlobOS.TerminalPages

/-!
# What is shown of a line that is typed

`slobos_terminal_readline` hands the keys to the terminal before it looks at them. The line that stands
behind the prompt is the one in the buffer as long as no backspace finds it empty and it does not reach
the end of the row.
-/

namespace SlobOS

open CStrings LineEditors Pages

def withLine (page : Page ScreenChar) (line : List UInt8) : Page ScreenChar :=
  { page with line := page.line ++ line.map fun c => (c, 15) }

def echoedTerminal (erase : EraseChar) (terminal : Terminal) (read : LineRead) : Terminal :=
  print erase read.echoed.reverse terminal

variable {erase : EraseChar} {videoMem : Nat → BitVec 16} {page : Page ScreenChar}
  {terminal : Terminal} {polls line : List UInt8} {key : UInt8} {read : LineRead} {limit : Nat}
  {out : Int → UInt8}

theorem withLine_nil : withLine page [] = page := by
  rw [withLine, List.map_nil, List.append_nil]

theorem echoedTerminal_putchar : echoedTerminal erase terminal (read.putchar key) =
    terminalWritechar erase key 15 (echoedTerminal erase terminal read) := by
  rw [echoedTerminal, LineRead.putchar, List.reverse_cons, print, List.foldl_append]
  rfl

theorem writePage_append (hnewline : key ≠ newline) (hbackspace : key ≠ backspace)
    (hroom : page.line.length + line.length + 1 < vgaWidth) :
    writePage (withLine page line) (key, 15) = withLine page (line ++ [key]) := by
  have hopen : ¬(withLine page line).line.length + 1 = vgaWidth := by
    rw [withLine, List.length_append, List.length_map]
    exact Nat.ne_of_lt hroom
  rw [writePage, if_neg hnewline, if_neg hbackspace, Page.put, if_neg hopen, Page.append, withLine,
    withLine, List.map_append, List.append_assoc]
  rfl

theorem writePage_erase (hline : line ≠ []) :
    writePage (withLine page line) (backspace, 15) = withLine page line.dropLast := by
  have hmap : (line.map fun c => ((c, 15) : ScreenChar)) ≠ [] := fun hnil =>
    hline (List.map_eq_nil_iff.mp hnil)
  rw [writePage, if_neg (by decide), if_pos rfl, Page.eraseLast, withLine, withLine,
    List.dropLast_append_of_ne_nil hmap, List.map_dropLast]

/-- The line that is typed stands in the buffer, and behind the prompt. -/
structure Echoed (erase : EraseChar) (videoMem : Nat → BitVec 16) (page : Page ScreenChar)
    (terminal : Terminal) (limit : Nat) (line : List UInt8) (read : LineRead) : Prop where
  typed : Typed limit line read
  nonzero : 0 ∉ line
  le : line.length ≤ limit
  shows : Shows erase videoMem (withLine page line) (echoedTerminal erase terminal read)

section Keys

variable (hrow : page.closed.length < vgaHeight) (hroom : page.line.length + limit < vgaWidth)

include hrow in
theorem Echoed.erased (h : Echoed erase videoMem page terminal limit line read) (hline : line ≠ []) :
    Echoed erase videoMem page terminal limit line.dropLast
      ((read.putchar backspace).store (line.length - 1) 0x00) := by
  have hpos := List.length_pos_iff.mpr hline
  have hkeeps : KeepsToPage (echoedTerminal erase terminal read) (backspace, 15) := by
    refine h.shows.keeps hrow fun _ => Or.inl ?_
    rw [withLine, List.length_append, List.length_map]
    omega
  refine ⟨h.typed.putchar.dropLast h.le hline,
    fun hmem => h.nonzero (List.dropLast_subset _ hmem), ?_, ?_⟩
  · rw [List.length_dropLast]
    exact Nat.le_trans (Nat.sub_le _ _) h.le
  · have hshows := h.shows.writechar hkeeps
    rw [writePage_erase hline, ← echoedTerminal_putchar] at hshows
    exact hshows

include hrow hroom in
theorem Echoed.appended (h : Echoed erase videoMem page terminal limit line read) (hkey : key ≠ 0)
    (hnewline : key ≠ newline) (hbackspace : key ≠ backspace) (hlt : line.length < limit) :
    Echoed erase videoMem page terminal limit (line ++ [key])
      ((read.putchar key).store line.length key) := by
  refine ⟨h.typed.putchar.append h.le, ?_, ?_, ?_⟩
  · rw [List.mem_append, List.mem_singleton]
    exact not_or.mpr ⟨h.nonzero, Ne.symm hkey⟩
  · rw [List.length_append]
    exact hlt
  · have hkeeps : KeepsToPage (echoedTerminal erase terminal read) (key, 15) :=
      h.shows.keeps hrow fun heq => absurd heq hbackspace
    have hshows := h.shows.writechar hkeeps
    rw [writePage_append hnewline hbackspace (by omega), ← echoedTerminal_putchar] at hshows
    exact hshows

/-- Where the loop leaves the buffer, a line stands in it and on the screen; if it ends, then behind the
line. -/
def LoopEchoes (erase : EraseChar) (videoMem : Nat → BitVec 16) (page : Page ScreenChar)
    (terminal : Terminal) (limit : Nat) (result : LineRead × Option (Int × List UInt8)) : Prop :=
  ∃ line, Echoed erase videoMem page terminal limit line result.1 ∧
    ∀ i rest, result.2 = some (i, rest) → i = line.length

include hrow hroom in
theorem readlineLoop_echoes (h : Echoed erase videoMem page terminal limit line read)
    (hnewline : newline ∉ keysOf polls) (hremoves : RemovesTyped 13 0x08 limit (keysOf polls) line) :
    LoopEchoes erase videoMem page terminal limit
      (readlineLoop (limit + 1) true polls line.length read) := by
  induction hn : polls.length using Nat.strongRecOn generalizing polls line read with
  | ind n ih =>
      subst hn
      have hended : ∀ rest, LoopEchoes erase videoMem page terminal limit
          (read, some ((line.length : Int), rest)) := fun rest =>
        ⟨line, h, fun i rest' hsome => by
          cases hsome
          rfl⟩
      rw [readlineLoop]
      by_cases hfull : limit ≤ line.length
      · rw [if_neg (by omega)]
        exact hended polls
      rw [if_pos (by omega)]
      split
      · exact ⟨line, h, fun i rest hsome => by cases hsome⟩
      · next key rest hkey =>
          have hlt := slobosGetkeyblock_length hkey
          obtain ⟨hne, hkeys⟩ := slobosGetkeyblock_some hkey
          rw [hkeys] at hnewline hremoves
          rw [List.mem_cons, not_or] at hnewline
          obtain ⟨hplain, hnewline⟩ := hnewline
          by_cases henter : key = 13
          · rw [if_pos henter]
            exact hended rest
          rw [if_neg henter]
          simp only [if_true]
          by_cases hbackspace : key = 0x08
          · subst hbackspace
            obtain ⟨hline, hremoves⟩ := hremoves.erased hfull (by decide)
            have hpos := List.length_pos_iff.mpr hline
            have hindex : ((line.length : Int) - 2 + 1) = (line.dropLast.length : Nat) := by
              rw [List.length_dropLast]
              omega
            rw [if_pos ⟨rfl, by omega⟩, hindex]
            exact ih _ hlt (h.erased hrow hline) hnewline hremoves rfl
          · have hlength : (line.length : Int) + 1 = ((line ++ [key]).length : Nat) := by
              rw [List.length_append, List.length_singleton]
              rfl
            rw [if_neg fun hboth => hbackspace hboth.1, hlength]
            have hechoed :=
              h.appended hrow hroom hne (Ne.symm hplain) hbackspace (Nat.lt_of_not_le hfull)
            exact ih _ hlt hechoed hnewline (hremoves.appended hfull henter hbackspace) rfl

/-- A line stands behind the prompt and at the start of the buffer, and it is the string in the buffer
when the function has returned. -/
structure ShowsLine (erase : EraseChar) (videoMem : Nat → BitVec 16) (page : Page ScreenChar)
    (terminal : Terminal) (line : List UInt8) (result : LineRead × Option (List UInt8)) : Prop where
  shows : Shows erase videoMem (withLine page line) (echoedTerminal erase terminal result.1)
  chars : ∀ j : Nat, j < line.length → result.1.out j = line.getD j 0
  string : ∀ rest, result.2 = some rest → StringAt (fun j => result.1.out j) 0 line

end Keys

end SlobOS
