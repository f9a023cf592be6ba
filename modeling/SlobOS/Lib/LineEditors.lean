import Mathlib.Tactic.Common

/-!
# Line editors

A line is typed key by key. One key ends it, one removes its last character, and it also ends when it
is full. Editors differ in what a removal from an empty line leaves.
-/

namespace LineEditors

variable {Key : Type}

section Edit

variable [DecidableEq Key]

/-- The line, and the keys that are left behind it. `emptied` is what a removal from the empty line
leaves. -/
def edit (enter erase : Key) (emptied : List Key) (limit : Nat) :
    List Key → List Key → Option (List Key × List Key)
  | [], line => if limit ≤ line.length then some (line, []) else none
  | key :: keys, line =>
      if limit ≤ line.length then some (line, key :: keys)
      else if key = enter then some (line, keys)
      else if key = erase then
        edit enter erase emptied limit keys (if line = [] then emptied else line.dropLast)
      else edit enter erase emptied limit keys (line ++ [key])

/-- Whenever the line is ended, the removals that have found it empty are even in number: `stray` is
their parity. -/
def Unspoiled (enter erase : Key) (limit : Nat) : List Key → List Key → Bool → Prop
  | [], line, stray => limit ≤ line.length + stray.toNat → stray = false
  | key :: keys, line, stray =>
      if limit ≤ line.length + stray.toNat ∨ key = enter then stray = false
      else if key = erase then
        Unspoiled enter erase limit keys line.dropLast (if line = [] then !stray else stray)
      else Unspoiled enter erase limit keys (line ++ [key]) stray

def RemovesTyped (enter erase : Key) (limit : Nat) : List Key → List Key → Prop
  | [], _ => True
  | key :: keys, line => ¬limit ≤ line.length → key ≠ enter →
      if key = erase then line ≠ [] ∧ RemovesTyped enter erase limit keys line.dropLast
      else RemovesTyped enter erase limit keys (line ++ [key])

end Edit

/-- The line of an editor that stores a removal from the empty line. -/
def spoil (erase : Key) (stray : Bool) (line : List Key) : List Key :=
  if stray then erase :: line else line

@[simp] theorem length_spoil {erase : Key} {stray : Bool} {line : List Key} :
    (spoil erase stray line).length = line.length + stray.toNat := by
  cases stray <;> simp [spoil]

section Spoil

variable {erase : Key} {line : List Key} {stray : Bool}

theorem spoil_append (key : Key) :
    spoil erase stray line ++ [key] = spoil erase stray (line ++ [key]) := by
  cases stray <;> rfl

/-- A removal from the spoiled line: one that finds the other line empty changes the parity. -/
theorem spoil_dropLast :
    (if spoil erase stray line = [] then [erase] else (spoil erase stray line).dropLast) =
      spoil erase (if line = [] then !stray else stray) line.dropLast := by
  cases line with
  | nil => cases stray <;> rfl
  | cons c line => cases stray <;> rfl

end Spoil

variable [DecidableEq Key] {enter erase : Key} {limit : Nat} {keys line : List Key} {stray : Bool}

theorem edit_full {emptied : List Key} (hfull : limit ≤ line.length) :
    edit enter erase emptied limit keys line = some (line, keys) := by
  cases keys <;> rw [edit] <;> exact if_pos hfull

theorem edit_enter {emptied : List Key} (hroom : ¬limit ≤ line.length) :
    edit enter erase emptied limit (enter :: keys) line = some (line, keys) := by
  rw [edit, if_neg hroom, if_pos rfl]

theorem edit_erase {emptied : List Key} (hroom : ¬limit ≤ line.length) (hne : erase ≠ enter)
    (hline : line ≠ []) : edit enter erase emptied limit (erase :: keys) line =
      edit enter erase emptied limit keys line.dropLast := by
  rw [edit, if_neg hroom, if_neg hne, if_pos rfl, if_neg hline]

theorem edit_append {key : Key} (hroom : ¬limit ≤ line.length) (hne : key ≠ enter)
    (hstored : ¬(key = erase ∧ line ≠ [])) : edit enter erase [erase] limit (key :: keys) line =
      edit enter erase [erase] limit keys (line ++ [key]) := by
  rw [edit, if_neg hroom, if_neg hne]
  split
  · next hkey =>
      have hnil : line = [] := by
        by_contra hline
        exact hstored ⟨hkey, hline⟩
      rw [if_pos hnil, hnil, hkey, List.nil_append]
  · rfl

theorem RemovesTyped.erased (h : RemovesTyped enter erase limit (erase :: keys) line)
    (hroom : ¬limit ≤ line.length) (hne : erase ≠ enter) :
    line ≠ [] ∧ RemovesTyped enter erase limit keys line.dropLast := by
  have hnext := h hroom hne
  rwa [if_pos rfl] at hnext

theorem RemovesTyped.appended {key : Key} (h : RemovesTyped enter erase limit (key :: keys) line)
    (hroom : ¬limit ≤ line.length) (hne : key ≠ enter) (hstored : key ≠ erase) :
    RemovesTyped enter erase limit keys (line ++ [key]) := by
  have hnext := h hroom hne
  rwa [if_neg hstored] at hnext

theorem edit_more {emptied after rest : List Key} (more : List Key)
    (hedit : edit enter erase emptied limit keys line = some (after, rest)) :
    edit enter erase emptied limit (keys ++ more) line = some (after, rest ++ more) := by
  induction keys generalizing line with
  | nil =>
      rw [edit] at hedit
      split at hedit
      · next hfull =>
          cases hedit
          exact edit_full hfull
      · cases hedit
  | cons next keys ih =>
      rw [edit] at hedit
      rw [List.cons_append, edit]
      split_ifs at hedit ⊢
      · cases hedit
        rfl
      · cases hedit
        rfl
      · exact ih hedit
      · exact ih hedit
      · exact ih hedit

theorem edit_mem {emptied after rest : List Key} {key : Key} (hne : key ∉ emptied)
    (hline : key ∉ line) (hkey : key ∈ keys → key = enter ∨ key = erase)
    (hedit : edit enter erase emptied limit keys line = some (after, rest)) : key ∉ after := by
  induction keys generalizing line with
  | nil =>
      rw [edit] at hedit
      split at hedit
      · cases hedit
        exact hline
      · cases hedit
  | cons next keys ih =>
      rw [edit] at hedit
      split_ifs at hedit with hfull henter herase hempty
      · cases hedit
        exact hline
      · cases hedit
        exact hline
      · exact ih hne (fun hmem => hkey (List.mem_cons_of_mem _ hmem)) hedit
      · refine ih ?_ (fun hmem => hkey (List.mem_cons_of_mem _ hmem)) hedit
        exact fun hmem => hline (List.dropLast_subset _ hmem)
      · refine ih ?_ (fun hmem => hkey (List.mem_cons_of_mem _ hmem)) hedit
        rw [List.mem_append, List.mem_singleton, not_or]
        refine ⟨hline, ?_⟩
        rintro rfl
        exact (hkey List.mem_cons_self).elim henter herase

theorem length_edit_le {emptied after rest : List Key} (hline : line.length ≤ limit)
    (hemptied : emptied.length ≤ 1)
    (hedit : edit enter erase emptied limit keys line = some (after, rest)) :
    after.length ≤ limit := by
  induction keys generalizing line with
  | nil =>
      rw [edit] at hedit
      split at hedit
      · cases hedit
        exact hline
      · cases hedit
  | cons next keys ih =>
      rw [edit] at hedit
      split_ifs at hedit with hfull henter herase hempty
      · cases hedit
        exact hline
      · cases hedit
        exact hline
      · exact ih (by omega) hedit
      · exact ih (by rw [List.length_dropLast]; omega) hedit
      · exact ih (by rw [List.length_append, List.length_singleton]; omega) hedit

theorem spoiled_end_iff (hline : erase ∉ line) {rest : List Key}
    (hclean : stray = false → edit enter erase [] limit keys line = some (line, rest)) :
    some (spoil erase stray line, rest) = edit enter erase [] limit keys line ↔ stray = false := by
  cases stray with
  | false => simp [hclean rfl, spoil]
  | true =>
      refine ⟨fun heq => ?_, fun hstray => absurd hstray (by decide)⟩
      have hnot := edit_mem List.not_mem_nil hline (fun _ => Or.inr rfl) heq.symm
      exact absurd List.mem_cons_self hnot

/-- An editor that stores the removals from an empty line is right exactly on the unspoiled keys: every
second one of these removals takes away what the one before it has stored. -/
theorem edit_eq_iff (hline : erase ∉ line) :
    edit enter erase [erase] limit keys (spoil erase stray line) = edit enter erase [] limit keys line ↔
      Unspoiled enter erase limit keys line stray := by
  induction keys generalizing line stray with
  | nil =>
      rw [Unspoiled]
      by_cases hfull : limit ≤ line.length + stray.toNat
      · rw [edit, length_spoil, if_pos hfull, spoiled_end_iff hline]
        · exact ⟨fun hstray _ => hstray, fun hstray => hstray hfull⟩
        · rintro rfl
          exact edit_full hfull
      · rw [edit, length_spoil, if_neg hfull, edit, if_neg (by omega)]
        exact iff_of_true rfl fun hfull' => absurd hfull' hfull
  | cons key keys ih =>
      rw [Unspoiled]
      by_cases hfull : limit ≤ line.length + stray.toNat
      · rw [edit, length_spoil, if_pos hfull, if_pos (Or.inl hfull), spoiled_end_iff hline]
        rintro rfl
        exact edit_full hfull
      have hroom : ¬limit ≤ line.length := by omega
      by_cases henter : key = enter
      · rw [edit, length_spoil, if_neg hfull, if_pos henter, if_pos (Or.inr henter),
          spoiled_end_iff hline]
        intro _
        rw [edit, if_neg hroom, if_pos henter]
      rw [edit, length_spoil, if_neg hfull, if_neg henter, edit, if_neg hroom, if_neg henter,
        if_neg (not_or.mpr ⟨hfull, henter⟩)]
      by_cases herase : key = erase
      · have hempty : (if line = [] then [] else line.dropLast) = line.dropLast := by
          split
          · next hnil => rw [hnil, List.dropLast_nil]
          · rfl
        rw [if_pos herase, if_pos herase, if_pos herase, spoil_dropLast, hempty]
        exact ih fun hmem => hline (List.dropLast_subset _ hmem)
      · rw [if_neg herase, if_neg herase, if_neg herase, spoil_append]
        apply ih
        rw [List.mem_append, List.mem_singleton, not_or]
        exact ⟨hline, Ne.symm herase⟩

end LineEditors
