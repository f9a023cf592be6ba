import SlobOS.Lib.CStrings
import SlobOS.Lib.LineEditors
import Mathlib.Data.List.GetD

/-!
# A line from the keyboard

`slobos_terminal_readline` of the programs' library, against an editor that keeps the line as a stack of
characters. A backspace that finds the line empty is stored like any other key.
-/

namespace SlobOS

open CStrings LineEditors

/-- The buffer by index, which is a part of the memory of the program. -/
structure LineRead where
  out : Int → UInt8
  /-- Ghost: the indices that have been stored to, latest first. -/
  stores : List Int
  /-- What was handed to `slobos_putchar`, latest first. -/
  echoed : List UInt8

def LineRead.start (out : Int → UInt8) : LineRead where
  out := out
  stores := []
  echoed := []

def LineRead.store (read : LineRead) (i : Int) (c : UInt8) : LineRead :=
  { read with out := fun j => if j = i then c else read.out j, stores := i :: read.stores }

def LineRead.putchar (read : LineRead) (c : UInt8) : LineRead :=
  { read with echoed := c :: read.echoed }

/-- `slobos_getkeyblock`: the first key of those that `slobos_getkey` returns one after the other, and
what follows it. Nothing while there is none. -/
def slobosGetkeyblock : List UInt8 → Option (UInt8 × List UInt8)
  | [] => none
  | val :: polls => if val = 0 then slobosGetkeyblock polls else some (val, polls)

theorem slobosGetkeyblock_length {polls rest : List UInt8} {key : UInt8}
    (hkey : slobosGetkeyblock polls = some (key, rest)) : rest.length < polls.length := by
  induction polls with
  | nil => cases hkey
  | cons val polls ih =>
      rw [slobosGetkeyblock] at hkey
      split at hkey
      · exact Nat.lt_succ_of_lt (ih hkey)
      · cases hkey
        exact Nat.lt_succ_self _

/-- The loop of `slobos_terminal_readline`: how it leaves the buffer, and the index that it ends with. It
does not end while it waits for a key. -/
def readlineLoop (size : Int) (outputWhileTyping : Bool) (polls : List UInt8) (i : Int)
    (read : LineRead) : LineRead × Option (Int × List UInt8) :=
  if i < size - 1 then
    match _hkey : slobosGetkeyblock polls with
    | none => (read, none)
    | some (key, rest) =>
        if key = 13 then (read, some (i, rest))
        else
          let read := if outputWhileTyping then read.putchar key else read
          if key = 0x08 ∧ i ≥ 1 then
            readlineLoop size outputWhileTyping rest (i - 2 + 1) (read.store (i - 1) 0x00)
          else readlineLoop size outputWhileTyping rest (i + 1) (read.store i key)
  else (read, some (i, polls))
termination_by polls.length
decreasing_by all_goals exact slobosGetkeyblock_length _hkey

/-- The buffer, and the polls that are left when the function has returned. -/
def slobosTerminalReadline (size : Int) (outputWhileTyping : Bool) (polls : List UInt8)
    (read : LineRead) : LineRead × Option (List UInt8) :=
  let (read, ended) := readlineLoop size outputWhileTyping polls 0 read
  match ended with
  | none => (read, none)
  | some (i, rest) => (read.store i 0x00, some rest)

def keysOf (polls : List UInt8) : List UInt8 := polls.filter (· ≠ 0)

variable {polls rest line : List UInt8} {key : UInt8} {read : LineRead} {limit : Nat} {echo : Bool}
  {out : Int → UInt8}

theorem slobosGetkeyblock_none (hkey : slobosGetkeyblock polls = none) : keysOf polls = [] := by
  induction polls with
  | nil => rfl
  | cons val polls ih =>
      rw [slobosGetkeyblock] at hkey
      split at hkey
      · next hzero =>
          rw [keysOf, List.filter_cons_of_neg (by simpa using hzero)]
          exact ih hkey
      · cases hkey

theorem slobosGetkeyblock_some (hkey : slobosGetkeyblock polls = some (key, rest)) :
    key ≠ 0 ∧ keysOf polls = key :: keysOf rest := by
  induction polls with
  | nil => cases hkey
  | cons val polls ih =>
      rw [slobosGetkeyblock] at hkey
      split at hkey
      · next hzero =>
          rw [keysOf, List.filter_cons_of_neg (by simpa using hzero)]
          exact ih hkey
      · next hne =>
          cases hkey
          exact ⟨hne, List.filter_cons_of_pos (by simpa using hne)⟩

/-- The buffer holds the line, and has been stored to between its start and the place of the last
zero. -/
structure Typed (limit : Nat) (line : List UInt8) (read : LineRead) : Prop where
  chars : ∀ j : Nat, j < line.length → read.out j = line.getD j 0
  stores : ∀ j ∈ read.stores, 0 ≤ j ∧ j ≤ limit

theorem Typed.putchar (h : Typed limit line read) : Typed limit line (read.putchar key) :=
  ⟨h.chars, h.stores⟩

theorem Typed.append (h : Typed limit line read) (hroom : line.length ≤ limit) :
    Typed limit (line ++ [key]) (read.store line.length key) where
  chars := by
    intro j hj
    rw [List.length_append, List.length_singleton] at hj
    by_cases hlast : j = line.length
    · subst hlast
      simp [LineRead.store]
    · have hne : ¬(j : Int) = line.length := by omega
      rw [LineRead.store, List.getD_append _ _ _ _ (by omega)]
      exact (if_neg hne).trans (h.chars j (by omega))
  stores := by
    intro j hj
    rcases List.mem_cons.mp hj with rfl | hj
    · omega
    · exact h.stores j hj

theorem Typed.dropLast (h : Typed limit line read) (hle : line.length ≤ limit) (hne : line ≠ []) :
    Typed limit line.dropLast (read.store (line.length - 1) 0x00) where
  chars := by
    intro j hj
    rw [List.length_dropLast] at hj
    have hchar := h.chars j (by omega)
    rw [LineRead.store]
    refine (if_neg (by omega)).trans (hchar.trans ?_)
    rw [List.getD_eq_getElem _ _ (by omega), List.getD_eq_getElem _ _ (by rw [List.length_dropLast]; omega),
      List.getElem_dropLast]
  stores := by
    intro j hj
    have hpos := List.length_pos_iff.mpr hne
    rcases List.mem_cons.mp hj with rfl | hj
    · omega
    · exact h.stores j hj

/-- The loop ends as the editor does, with the same line and in front of the same keys. -/
structure LoopEdits (limit : Nat) (edited : Option (List UInt8 × List UInt8))
    (result : LineRead × Option (Int × List UInt8)) : Prop where
  stores : ∀ j ∈ result.1.stores, 0 ≤ j ∧ j ≤ limit
  waits : edited = none → result.2 = none
  ends : ∀ line rest, edited = some (line, rest) → Typed limit line result.1 ∧
    ∃ polls, result.2 = some ((line.length : Int), polls) ∧ keysOf polls = rest

theorem LoopEdits.of_end (h : Typed limit line read) :
    LoopEdits limit (some (line, keysOf polls)) (read, some ((line.length : Int), polls)) where
  stores := h.stores
  waits := by
    intro hnone
    cases hnone
  ends := by
    intro line' rest' hsome
    cases hsome
    exact ⟨h, polls, rfl, rfl⟩

theorem readlineLoop_edits (h : Typed limit line read) (hle : line.length ≤ limit) :
    LoopEdits limit (edit 13 0x08 [0x08] limit (keysOf polls) line)
      (readlineLoop (limit + 1) echo polls line.length read) := by
  induction hn : polls.length using Nat.strongRecOn generalizing polls line read with
  | ind n ih =>
      subst hn
      rw [readlineLoop]
      by_cases hfull : limit ≤ line.length
      · rw [if_neg (by omega), edit_full hfull]
        exact .of_end h
      rw [if_pos (by omega)]
      split
      · next hkey =>
          rw [slobosGetkeyblock_none hkey, edit, if_neg hfull]
          exact ⟨h.stores, fun _ => rfl, fun _ _ hsome => by cases hsome⟩
      · next key rest hkey =>
          have hlt := slobosGetkeyblock_length hkey
          rw [(slobosGetkeyblock_some hkey).2]
          by_cases henter : key = 13
          · rw [if_pos henter, henter, edit_enter hfull]
            exact .of_end h
          rw [if_neg henter]
          have hechoed : Typed limit line (if echo then read.putchar key else read) := by
            split
            · exact h.putchar
            · exact h
          dsimp only
          generalize (if echo then read.putchar key else read) = read at hechoed ⊢
          by_cases herase : key = 0x08 ∧ line ≠ []
          · obtain ⟨rfl, hne⟩ := herase
            have hpos := List.length_pos_iff.mpr hne
            have hindex : ((line.length : Int) - 2 + 1) = (line.dropLast.length : Nat) := by
              rw [List.length_dropLast]
              omega
            rw [edit_erase hfull (by decide) hne, if_pos ⟨rfl, by omega⟩, hindex]
            exact ih _ hlt (hechoed.dropLast hle hne) (by rw [List.length_dropLast]; omega) rfl
          · have hnot : ¬(key = 0x08 ∧ (line.length : Int) ≥ 1) := by
              rintro ⟨hkey, hpos⟩
              exact herase ⟨hkey, List.length_pos_iff.mp (by omega)⟩
            have hlength : (line.length : Int) + 1 = ((line ++ [key]).length : Nat) := by
              rw [List.length_append, List.length_singleton]
              rfl
            rw [edit_append hfull henter herase, if_neg hnot, hlength]
            exact ih _ hlt (hechoed.append hle)
              (by rw [List.length_append, List.length_singleton]; omega) rfl

/-- The buffer holds the line that an editor makes of the keys, which removes nothing from an empty line.
Nothing outside of the buffer is stored to, and the keys behind the line are left. -/
structure ReadsLine (size : Nat) (polls : List UInt8) (result : LineRead × Option (List UInt8)) :
    Prop where
  within : ∀ j ∈ result.1.stores, 0 ≤ j ∧ j < size
  waits : edit 13 0x08 [] (size - 1) (keysOf polls) [] = none → result.2 = none
  line : ∀ line rest, edit 13 0x08 [] (size - 1) (keysOf polls) [] = some (line, rest) →
    result.2.map keysOf = some rest ∧ StringAt (fun j => result.1.out j) 0 line ∧
      13 ∉ line ∧ 0x08 ∉ line

/-- The function returns the line of the editor that stores a backspace on an empty line. -/
structure Edits (limit : Nat) (edited : Option (List UInt8 × List UInt8))
    (result : LineRead × Option (List UInt8)) : Prop where
  stores : ∀ j ∈ result.1.stores, 0 ≤ j ∧ j ≤ limit
  waits : edited = none → result.2 = none
  line : ∀ line rest, edited = some (line, rest) →
    result.2.map keysOf = some rest ∧ StringAt (fun j => result.1.out j) 0 line

theorem zero_not_mem_line {emptied after : List UInt8} (hemptied : 0 ∉ emptied)
    (hedit : edit 13 0x08 emptied limit (keysOf polls) [] = some (after, rest)) : 0 ∉ after := by
  refine edit_mem hemptied List.not_mem_nil (fun hmem => ?_) hedit
  exact absurd (List.mem_filter.mp hmem).2 (by decide)

theorem slobosTerminalReadline_edits :
    Edits limit (edit 13 0x08 [0x08] limit (keysOf polls) [])
      (slobosTerminalReadline (limit + 1) echo polls (.start out)) := by
  have hempty : Typed limit [] (.start out) :=
    ⟨fun _ hj => absurd hj (Nat.not_lt_zero _), fun _ hj => absurd hj List.not_mem_nil⟩
  have hedits : LoopEdits limit (edit 13 0x08 [0x08] limit (keysOf polls) [])
      (readlineLoop (limit + 1) echo polls 0 (.start out)) :=
    readlineLoop_edits hempty (Nat.zero_le _)
  rw [slobosTerminalReadline]
  generalize readlineLoop (limit + 1) echo polls 0 (.start out) = looped at hedits ⊢
  obtain ⟨after, ended⟩ := looped
  cases hedit : edit 13 0x08 [0x08] limit (keysOf polls) [] with
  | none =>
      obtain rfl := hedits.waits hedit
      exact ⟨hedits.stores, fun _ => rfl, fun _ _ hsome => by cases hsome⟩
  | some edited =>
      obtain ⟨line, rest⟩ := edited
      obtain ⟨htyped, polls', hended, hrest⟩ := hedits.ends line rest hedit
      obtain rfl := hended
      have hle : line.length ≤ limit := length_edit_le (Nat.zero_le _) (by decide) hedit
      constructor
      · intro j hj
        rcases List.mem_cons.mp hj with rfl | hj
        · omega
        · exact hedits.stores j hj
      · intro hnone
        cases hnone
      · intro line' rest' hsome
        cases hsome
        refine ⟨congrArg some hrest, stringAt_iff.mpr ⟨zero_not_mem_line (by decide) hedit, ?_, ?_⟩⟩
        · intro j hj
          rw [Nat.zero_add]
          exact (if_neg (by omega)).trans (htyped.chars j hj)
        · rw [Nat.zero_add]
          exact if_pos rfl

theorem readsLine_iff {result : LineRead × Option (List UInt8)}
    (hedits : Edits limit (edit 13 0x08 [0x08] limit (keysOf polls) []) result) :
    ReadsLine (limit + 1) polls result ↔
      edit 13 0x08 [0x08] limit (keysOf polls) [] = edit 13 0x08 [] limit (keysOf polls) [] := by
  constructor
  · intro h
    cases hcode : edit 13 0x08 [0x08] limit (keysOf polls) [] with
    | none =>
        cases hedit : edit 13 0x08 [] limit (keysOf polls) [] with
        | none => rfl
        | some edited =>
            have hrest := (h.line edited.1 edited.2 hedit).1
            rw [hedits.waits hcode] at hrest
            cases hrest
    | some coded =>
        have hcoded := hedits.line coded.1 coded.2 hcode
        cases hedit : edit 13 0x08 [] limit (keysOf polls) [] with
        | none =>
            rw [h.waits hedit] at hcoded
            cases hcoded.1
        | some edited =>
            obtain ⟨hrest, hline, -⟩ := h.line edited.1 edited.2 hedit
            have hsame := Option.some.inj (hcoded.1.symm.trans hrest)
            exact congrArg some (Prod.ext (hcoded.2.unique hline) hsame)
  · intro hsame
    rw [hsame] at hedits
    constructor
    · intro j hj
      have hbound := hedits.stores j hj
      push_cast
      omega
    · exact hedits.waits
    · intro line rest hedit
      obtain ⟨hrest, hline⟩ := hedits.line line rest hedit
      exact ⟨hrest, hline, edit_mem List.not_mem_nil List.not_mem_nil (fun _ => Or.inl rfl) hedit,
        edit_mem List.not_mem_nil List.not_mem_nil (fun _ => Or.inr rfl) hedit⟩

/-- The line is right exactly if an even number of backspaces has found it empty when it ends. -/
theorem slobosTerminalReadline_readsLine_iff (limit : Nat) (echo : Bool) (polls : List UInt8)
    (out : Int → UInt8) :
    ReadsLine (limit + 1) polls (slobosTerminalReadline (limit + 1) echo polls (.start out)) ↔
      Unspoiled 13 0x08 limit (keysOf polls) [] false := by
  rw [readsLine_iff slobosTerminalReadline_edits]
  exact @edit_eq_iff UInt8 _ 13 0x08 limit (keysOf polls) [] false List.not_mem_nil

/-- A backspace before anything is typed, in a buffer of ten bytes, is read as a character. -/
theorem not_slobosTerminalReadline_readsLine : ¬∀ polls : List UInt8,
    ReadsLine 10 polls (slobosTerminalReadline 10 false polls (.start fun _ => 0)) := by
  intro hall
  have hsame := (readsLine_iff slobosTerminalReadline_edits).mp (hall [0x08, 13])
  exact absurd hsame (by decide)

end SlobOS
