import SlobOS.NumberTexts

/-!
# Formats

`printf` of `stdio.c`, over the bytes of the memory in which its format lies. The format is scanned with
one pointer that the loop and the `switch` both advance; the addresses it reads are recorded, and the
output is what is handed to `putchar` and `print`. The strings of the arguments lie outside the static
text of `itoa`.
-/

namespace SlobOS

open CStrings Numerals

/-- An argument behind the format: an `int`, or a pointer to a string. -/
inductive PrintfArgument
  | int (value : Int32)
  | string (str : List UInt8)

/-- What is left of the arguments, the static text of `itoa`, the addresses read and the output. -/
structure Printing where
  ap : List PrintfArgument
  text : Nat → UInt8
  reads : List Nat
  out : List UInt8
  returned : Bool

def Printing.read (s : Printing) (p : Nat) : Printing := { s with reads := p :: s.reads }

def Printing.putchar (s : Printing) (c : UInt8) : Printing := { s with out := s.out ++ [c] }

def Printing.print (s : Printing) (str : List UInt8) : Printing := { s with out := s.out ++ str }

/-- The `switch` over the character behind the percent sign. There is no result if the argument that it
takes has not been passed. -/
def Printing.convert (s : Printing) (c : UInt8) : Option Printing :=
  if c = 105 then
    match s.ap with
    | .int ival :: ap =>
        (itoa s.text ival.toInt).map fun (loc, text) =>
          { s with ap, text }.print (stringFrom text loc itoaTextSize)
    | _ => none
  else if c = 115 then
    match s.ap with
    | .string sval :: ap => some ({ s with ap }.print sval)
    | _ => none
  else some (s.putchar c)

def printfLoop (memory : Nat → UInt8) : Nat → Nat → Printing → Printing
  | 0, _, s => s
  | fuel + 1, p, s =>
      let s := s.read p
      if memory p = 0 then { s with returned := true }
      else if memory p ≠ 37 then printfLoop memory fuel (p + 1) (s.putchar (memory p))
      else
        match (s.read (p + 1)).convert (memory (p + 1)) with
        | none => s.read (p + 1)
        | some s => printfLoop memory fuel (p + 2) s

def printf (memory : Nat → UInt8) (fuel fmt : Nat) (ap : List PrintfArgument) (text : Nat → UInt8) :
    Printing :=
  printfLoop memory fuel fmt ⟨ap, text, [], [], false⟩

inductive Directive
  | char (c : UInt8)
  | int
  | string

def conversion (c : UInt8) : Directive :=
  if c = 105 then .int else if c = 115 then .string else .char c

/-- A percent sign and the character behind it are one directive; at the end it is none. -/
def directives : List UInt8 → List Directive
  | [] => []
  | [c] => if c = 37 then [] else [.char c]
  | c :: d :: format =>
      if c = 37 then conversion d :: directives format else .char c :: directives (d :: format)

def formatted : List Directive → List PrintfArgument → Option (List UInt8)
  | [], _ => some []
  | .char c :: ds, ap => (formatted ds ap).map (c :: ·)
  | .int :: ds, .int ival :: ap => (formatted ds ap).map (numeral ival.toInt ++ ·)
  | .string :: ds, .string sval :: ap => (formatted ds ap).map (sval ++ ·)
  | _ :: _, _ => none

def LonePercent : List UInt8 → Prop
  | [] => False
  | [c] => c = 37
  | c :: d :: format => if c = 37 then LonePercent format else LonePercent (d :: format)

/-- `printf` reads nothing behind the zero at the end, and returns once it has put out what is meant. -/
structure Prints (memory : Nat → UInt8) (fmt length : Nat) (ap : List PrintfArgument)
    (text : Nat → UInt8) (out : List UInt8) : Prop where
  reads : ∀ fuel, ∀ address ∈ (printf memory fuel fmt ap text).reads,
    fmt ≤ address ∧ address ≤ fmt + length
  output : ∀ fuel, length < fuel → (printf memory fuel fmt ap text).returned = true ∧
    (printf memory fuel fmt ap text).out = out

variable {memory : Nat → UInt8} {fuel p : Nat} {s s' : Printing} {c : UInt8} {format out : List UInt8}
  {ds : List Directive} {ap : List PrintfArgument} {text : Nat → UInt8}

theorem directives_cons (hc : c ≠ 37) : directives (c :: format) = .char c :: directives format := by
  cases format with
  | nil => exact if_neg hc
  | cons d format => exact if_neg hc

theorem lonePercent_cons (hc : c ≠ 37) : LonePercent (c :: format) ↔ LonePercent format := by
  cases format with
  | nil => exact iff_of_false hc id
  | cons d format => exact iff_of_eq (if_neg hc)

theorem lonePercent_pair {d : UInt8} : LonePercent (37 :: d :: format) ↔ LonePercent format :=
  iff_of_eq (if_pos rfl)

theorem exists_of_percent (hformat : StringAt memory p format) (hp : memory p = 37)
    (hlone : ¬LonePercent format) : ∃ d rest, format = 37 :: d :: rest := by
  cases format with
  | nil => exact absurd (hp.symm.trans hformat) (by decide)
  | cons c format =>
      obtain rfl : c = 37 := hformat.2.1.symm.trans hp
      cases format with
      | nil => exact absurd rfl hlone
      | cons d rest => exact ⟨d, rest, rfl⟩

theorem Printing.convert_reads (h : s.convert c = some s') : s'.reads = s.reads := by
  rw [Printing.convert] at h
  split at h
  · split at h
    · obtain ⟨result, -, rfl⟩ := Option.map_eq_some_iff.mp h
      rfl
    · cases h
  · split at h
    · split at h
      · cases h
        rfl
      · cases h
    · cases h
      rfl

theorem Printing.convert_int {ival : Int32} (hap : s.ap = .int ival :: ap) :
    ∃ text, s.convert 105 = some ({ s with ap, text }.print (numeral ival.toInt)) := by
  obtain ⟨text, hitoa, hstr, -⟩ := itoa_writes s.text ival
  have hprinted := hstr.stringFrom_eq (Nat.le_of_lt (length_numeral ival))
  refine ⟨text, ?_⟩
  rw [Printing.convert, if_pos rfl, hap]
  change (itoa s.text ival.toInt).map _ = _
  rw [hitoa, Option.map_some]
  exact congrArg (fun str => some (Printing.print _ str)) hprinted

theorem Printing.convert_string {sval : List UInt8} (hap : s.ap = .string sval :: ap) :
    s.convert 115 = some ({ s with ap }.print sval) := by
  rw [Printing.convert, if_neg (by decide), if_pos rfl, hap]

theorem Printing.convert_char (hint : c ≠ 105) (hstring : c ≠ 115) :
    s.convert c = some (s.putchar c) := by
  rw [Printing.convert, if_neg hint, if_neg hstring]

theorem Printing.convert_formatted (h : formatted (conversion c :: ds) s.ap = some out) :
    ∃ s' rest, s.convert c = some s' ∧ formatted ds s'.ap = some rest ∧
      s'.out ++ rest = s.out ++ out := by
  rw [conversion] at h
  split at h
  · next hc =>
      subst hc
      cases hap : s.ap with
      | nil =>
          rw [hap] at h
          cases h
      | cons arg ap =>
          cases arg with
          | string sval =>
              rw [hap] at h
              cases h
          | int ival =>
              rw [hap, formatted] at h
              obtain ⟨rest, hrest, rfl⟩ := Option.map_eq_some_iff.mp h
              obtain ⟨text, hconvert⟩ := Printing.convert_int hap
              exact ⟨_, rest, hconvert, hrest, List.append_assoc _ _ _⟩
  split at h
  · next hint hc =>
      subst hc
      cases hap : s.ap with
      | nil =>
          rw [hap] at h
          cases h
      | cons arg ap =>
          cases arg with
          | int ival =>
              rw [hap] at h
              cases h
          | string sval =>
              rw [hap, formatted] at h
              obtain ⟨rest, hrest, rfl⟩ := Option.map_eq_some_iff.mp h
              exact ⟨_, rest, Printing.convert_string hap, hrest, List.append_assoc _ _ _⟩
  · next hint hstring =>
      rw [formatted] at h
      obtain ⟨rest, hrest, rfl⟩ := Option.map_eq_some_iff.mp h
      exact ⟨_, rest, Printing.convert_char hint hstring, hrest, List.append_assoc _ _ _⟩

/-! ### The loop -/

theorem printfLoop_end (hp : memory p = 0) :
    printfLoop memory (fuel + 1) p s = { s.read p with returned := true } :=
  if_pos hp

theorem printfLoop_char (hzero : memory p ≠ 0) (hp : memory p ≠ 37) :
    printfLoop memory (fuel + 1) p s =
      printfLoop memory fuel (p + 1) ((s.read p).putchar (memory p)) := by
  rw [printfLoop, if_neg hzero, if_pos hp]

theorem printfLoop_convert (hp : memory p = 37)
    (h : ((s.read p).read (p + 1)).convert (memory (p + 1)) = some s') :
    printfLoop memory (fuel + 1) p s = printfLoop memory fuel (p + 2) s' := by
  rw [printfLoop, hp, if_neg (by decide), if_neg (by decide), h]

theorem printfLoop_cases (memory : Nat → UInt8) (fuel p : Nat) (s : Printing) :
    (memory p = 0 ∧ printfLoop memory (fuel + 1) p s = { s.read p with returned := true }) ∨
    (memory p ≠ 0 ∧ memory p ≠ 37 ∧ printfLoop memory (fuel + 1) p s =
      printfLoop memory fuel (p + 1) ((s.read p).putchar (memory p))) ∨
    (memory p = 37 ∧ printfLoop memory (fuel + 1) p s = (s.read p).read (p + 1)) ∨
    ∃ s', memory p = 37 ∧ s'.reads = (p + 1) :: p :: s.reads ∧
      printfLoop memory (fuel + 1) p s = printfLoop memory fuel (p + 2) s' := by
  by_cases hzero : memory p = 0
  · exact Or.inl ⟨hzero, printfLoop_end hzero⟩
  by_cases hp : memory p = 37
  · cases hconvert : ((s.read p).read (p + 1)).convert (memory (p + 1)) with
    | none =>
        refine Or.inr (Or.inr (Or.inl ⟨hp, ?_⟩))
        rw [printfLoop, hp, if_neg (by decide), if_neg (by decide), hconvert]
    | some s' =>
        exact Or.inr (Or.inr (Or.inr ⟨s', hp, Printing.convert_reads hconvert,
          printfLoop_convert hp hconvert⟩))
  · exact Or.inr (Or.inl ⟨hzero, hp, printfLoop_char hzero hp⟩)

theorem mem_printfLoop_of_mem {address : Nat} (hmem : address ∈ s.reads) :
    address ∈ (printfLoop memory fuel p s).reads := by
  induction fuel generalizing p s with
  | zero => exact hmem
  | succ fuel ih =>
      have hread : address ∈ p :: s.reads := List.mem_cons_of_mem _ hmem
      rcases printfLoop_cases memory fuel p s with
        ⟨-, hloop⟩ | ⟨-, -, hloop⟩ | ⟨-, hloop⟩ | ⟨s', -, hreads, hloop⟩
      · rw [hloop]
        exact hread
      · rw [hloop]
        exact ih hread
      · rw [hloop]
        exact List.mem_cons_of_mem _ hread
      · rw [hloop]
        refine ih ?_
        rw [hreads]
        exact List.mem_cons_of_mem _ hread

theorem mem_printfLoop : p ∈ (printfLoop memory (fuel + 1) p s).reads := by
  have hread : p ∈ p :: s.reads := List.mem_cons_self
  rcases printfLoop_cases memory fuel p s with
    ⟨-, hloop⟩ | ⟨-, -, hloop⟩ | ⟨-, hloop⟩ | ⟨s', -, hreads, hloop⟩
  · rw [hloop]
    exact hread
  · rw [hloop]
    exact mem_printfLoop_of_mem hread
  · rw [hloop]
    exact List.mem_cons_of_mem _ hread
  · rw [hloop]
    refine mem_printfLoop_of_mem ?_
    rw [hreads]
    exact List.mem_cons_of_mem _ hread

theorem read_pair {address length : Nat} (hmem : address ∈ (p + 1) :: p :: s.reads) :
    address ∈ s.reads ∨ p ≤ address ∧ address ≤ p + (length + 1 + 1) := by
  rcases List.mem_cons.mp hmem with rfl | hmem
  · exact Or.inr (by omega)
  rcases List.mem_cons.mp hmem with rfl | hmem
  · exact Or.inr (by omega)
  · exact Or.inl hmem

theorem printfLoop_reads (hformat : StringAt memory p format) (hlone : ¬LonePercent format)
    {address : Nat} (hmem : address ∈ (printfLoop memory fuel p s).reads) :
    address ∈ s.reads ∨ p ≤ address ∧ address ≤ p + format.length := by
  induction fuel generalizing p s format with
  | zero => exact Or.inl hmem
  | succ fuel ih =>
      rcases printfLoop_cases memory fuel p s with
        ⟨-, hloop⟩ | ⟨hzero, hchar, hloop⟩ | ⟨hp, hloop⟩ | ⟨s', hp, hreads, hloop⟩
      · rw [hloop] at hmem
        rcases List.mem_cons.mp hmem with rfl | hmem
        · exact Or.inr ⟨Nat.le_refl _, Nat.le_add_right _ _⟩
        · exact Or.inl hmem
      · cases format with
        | nil => exact absurd hformat hzero
        | cons c format =>
            obtain ⟨-, hc, hrest⟩ := hformat
            rw [hloop] at hmem
            rw [List.length_cons]
            rcases ih hrest (mt (lonePercent_cons (hc ▸ hchar)).mpr hlone) hmem with hmem | hbounds
            · rcases List.mem_cons.mp hmem with rfl | hmem
              · exact Or.inr (by omega)
              · exact Or.inl hmem
            · exact Or.inr (by omega)
      · obtain ⟨d, rest, rfl⟩ := exists_of_percent hformat hp hlone
        rw [hloop] at hmem
        exact read_pair hmem
      · obtain ⟨d, rest, rfl⟩ := exists_of_percent hformat hp hlone
        rw [hloop] at hmem
        rw [List.length_cons, List.length_cons]
        rcases ih hformat.2.2.2.2 (mt lonePercent_pair.mpr hlone) hmem with hmem | hbounds
        · rw [hreads] at hmem
          exact read_pair hmem
        · exact Or.inr (by omega)

theorem printfLoop_formatted {d : UInt8} (hp : memory p = 37) (hd : memory (p + 1) = d)
    (hout : formatted (conversion d :: ds) s.ap = some out) :
    ∃ s' rest, (∀ fuel, printfLoop memory (fuel + 1) p s = printfLoop memory fuel (p + 2) s') ∧
      formatted ds s'.ap = some rest ∧ s'.out ++ rest = s.out ++ out := by
  obtain ⟨s', rest, hconvert, hrest, hout'⟩ :=
    @Printing.convert_formatted ((s.read p).read (p + 1)) _ _ _ hout
  refine ⟨s', rest, fun fuel => printfLoop_convert hp ?_, hrest, hout'⟩
  rw [hd]
  exact hconvert

theorem printfLoop_output (hformat : StringAt memory p format) (hlone : ¬LonePercent format)
    (hout : formatted (directives format) s.ap = some out) (hfuel : format.length < fuel) :
    (printfLoop memory fuel p s).returned = true ∧
      (printfLoop memory fuel p s).out = s.out ++ out := by
  induction fuel generalizing p s format out with
  | zero => exact absurd hfuel (Nat.not_lt_zero _)
  | succ fuel ih =>
      by_cases hp : memory p = 37
      · obtain ⟨d, format, rfl⟩ := exists_of_percent hformat hp hlone
        rw [directives, if_pos rfl] at hout
        obtain ⟨s', rest, hloop, hrest, hout'⟩ := printfLoop_formatted hp hformat.2.2.2.1 hout
        rw [hloop fuel, ← hout']
        rw [List.length_cons, List.length_cons] at hfuel
        exact ih hformat.2.2.2.2 (mt lonePercent_pair.mpr hlone) hrest (by omega)
      · cases format with
        | nil =>
            rw [printfLoop_end hformat]
            rw [directives, formatted] at hout
            obtain rfl := Option.some.inj hout
            exact ⟨rfl, (List.append_nil _).symm⟩
        | cons c format =>
            obtain ⟨hzero, rfl, hformat⟩ := hformat
            rw [directives_cons hp, formatted] at hout
            obtain ⟨rest, hrest, rfl⟩ := Option.map_eq_some_iff.mp hout
            rw [printfLoop_char hzero hp]
            obtain ⟨hreturned, hlast⟩ := ih (s := (s.read p).putchar (memory p)) hformat
              (mt (lonePercent_cons hp).mpr hlone) hrest (Nat.lt_of_succ_lt_succ hfuel)
            exact ⟨hreturned, hlast.trans (List.append_assoc _ _ _)⟩

/-- Behind a lone percent sign the zero is taken for a character, and the byte after it is read. -/
theorem printfLoop_overreads (hformat : StringAt memory p format) (hlone : LonePercent format)
    (hout : formatted (directives format) s.ap = some out) :
    ∃ fuel, p + format.length + 1 ∈ (printfLoop memory fuel p s).reads := by
  induction format using directives.induct generalizing p s out with
  | case1 => exact absurd hlone id
  | case2 =>
      have hconvert : ((s.read p).read (p + 1)).convert (memory (p + 1)) =
          some (((s.read p).read (p + 1)).putchar 0) := by
        rw [show memory (p + 1) = 0 from hformat.2.2]
        rfl
      refine ⟨2, ?_⟩
      rw [printfLoop_convert hformat.2.1 hconvert]
      exact mem_printfLoop
  | case3 c hc => exact absurd hlone hc
  | case4 d format ih =>
      rw [directives, if_pos rfl] at hout
      obtain ⟨-, hp, -, hd, hrest⟩ := hformat
      obtain ⟨s', rest, hloop, hrestOut, -⟩ := printfLoop_formatted hp hd hout
      obtain ⟨fuel, hmem⟩ := ih hrest (lonePercent_pair.mp hlone) hrestOut
      refine ⟨fuel + 1, ?_⟩
      rw [hloop, List.length_cons, List.length_cons,
        show p + (format.length + 1 + 1) + 1 = p + 2 + format.length + 1 by omega]
      exact hmem
  | case5 c d format hc ih =>
      obtain ⟨hzero, hp, hrest⟩ := hformat
      rw [directives_cons hc, formatted] at hout
      obtain ⟨out, hrestOut, -⟩ := Option.map_eq_some_iff.mp hout
      obtain ⟨fuel, hmem⟩ := @ih (p + 1) ((s.read p).putchar (memory p)) out hrest
        ((lonePercent_cons hc).mp hlone) hrestOut
      refine ⟨fuel + 1, ?_⟩
      rw [printfLoop_char (hp ▸ hzero) (hp ▸ hc), List.length_cons,
        show p + ((d :: format).length + 1) + 1 = p + 1 + (d :: format).length + 1 by omega]
      exact hmem

/-- The format is printed right exactly if it does not end with a lone percent sign. -/
theorem printf_prints_iff {fmt : Nat} (hformat : StringAt memory fmt format)
    (hout : formatted (directives format) ap = some out) :
    Prints memory fmt format.length ap text out ↔ ¬LonePercent format := by
  constructor
  · intro hprints hlone
    obtain ⟨fuel, hover⟩ := @printfLoop_overreads _ _ ⟨ap, text, [], [], false⟩ _ _ hformat hlone hout
    have hbound := (hprints.reads fuel _ hover).2
    omega
  · intro hlone
    constructor
    · intro fuel address hmem
      rcases printfLoop_reads hformat hlone hmem with hnone | hbounds
      · exact absurd hnone List.not_mem_nil
      · exact hbounds
    · intro fuel hfuel
      exact @printfLoop_output _ _ _ ⟨ap, text, [], [], false⟩ _ _ hformat hlone hout hfuel

theorem printf_prints_percent : Prints (putBytes (fun _ => 0) 4 [37, 105, 37, 37, 0]) 4 4
    [.int (-40)] (fun _ => 0) [45, 52, 48, 37] :=
  (printf_prints_iff (@stringAt_putBytes _ 4 [37, 105, 37, 37] (by decide)) (by decide)).mpr
    (mt lonePercent_pair.mp (mt lonePercent_pair.mp id))

/-- The format `"%"` makes it read the byte behind its zero. -/
theorem not_printf_prints : ¬∀ (memory : Nat → UInt8) (fmt : Nat) (format out : List UInt8)
    (ap : List PrintfArgument) (text : Nat → UInt8), StringAt memory fmt format →
      formatted (directives format) ap = some out → Prints memory fmt format.length ap text out := by
  intro hall
  have hprints := hall (putBytes (fun _ => 0) 4 [37, 0]) 4 [37] [] [] (fun _ => 0)
    (@stringAt_putBytes _ 4 [37] (by decide)) rfl
  exact absurd (hprints.reads 2 6 (by decide)).2 (by decide)

end SlobOS
