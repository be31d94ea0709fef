import PwshPy.Text.Lines
import PwshPy.Toml.Syntax

/-! # The scanner of the script block

The block's TOML is not parsed. It is scanned line by line, and the only thing
carried from a line to the next is the multi-line string left open. The scanner
is compared with the grammar: on the lines of every document it finds the
characters outside strings, the comment, and the string left open at the end of
each line as the grammar has them.
-/

namespace PwshPy.Packing

open Toml (Quote Mark Line Role lines row)

/-! ## Scanning one line -/

/-- A string's delimiter: its quotation mark, once or three times. -/
structure Delimiter where
  mark : Quote
  multi_line : Bool
  deriving DecidableEq

def Delimiter.length (quote : Delimiter) : Nat := if quote.multi_line then 3 else 1

/-- The delimiter of a multi-line string. -/
def delimiter (mark : Quote) : Delimiter := ⟨mark, true⟩

def MULTI_LINE_DELIMITER : Nat := 3

def LONGEST_CLOSING_RUN : Nat := 5

/-- `_string_end(line, start, quote)`, for the text from `start` on: an index is
counted from there. -/
def string_end (quote : Delimiter) : PyStr → Nat × Option Delimiter
  | [] => (0, some quote)
  | c :: rest =>
      if quote.mark = .basic ∧ c = 0x5c then
        match rest with
        | [] => (1, some quote)
        | _ :: rest =>
            let found := string_end quote rest
            (found.1 + 2, found.2)
      else if c ≠ quote.mark.char then
        let found := string_end quote rest
        (found.1 + 1, found.2)
      else if !quote.multi_line then (1, none)
      else
        let run := (rest.takeWhile (· == quote.mark.char)).length + 1
        if MULTI_LINE_DELIMITER ≤ run then (min run LONGEST_CLOSING_RUN, none)
        else
          let found := string_end quote (rest.drop (run - 1))
          (found.1 + run, found.2)
  termination_by line => line.length

theorem string_end_pos (quote : Delimiter) (c : Nat) (rest : PyStr) :
    0 < (string_end quote (c :: rest)).1 := by
  rw [string_end.eq_def]
  simp only
  split
  · cases rest <;> simp
  · split
    · simp
    · split
      · simp
      · split
        · simp only [LONGEST_CLOSING_RUN]
          omega
        · omega

/-- One line as the scanner reads it. -/
structure TomlLineScan where
  /-- the characters outside every string and before any comment -/
  code : PyStr
  /-- where its comment starts -/
  comment : Nat
  /-- the multi-line string still open at its end -/
  open_string : Option Delimiter
  deriving DecidableEq

/-- The scan of a line whose first `n` characters belong to a string. -/
def TomlLineScan.behind (n : Nat) (scan : TomlLineScan) : TomlLineScan :=
  { scan with comment := n + scan.comment }

def quotation_mark (c : Nat) : Option Quote :=
  if c = Quote.basic.char then some .basic
  else if c = Quote.literal.char then some .literal
  else none

/-- `_scan_toml_characters(line, open_string)` -/
def scan_toml_characters (quote : Option Delimiter) : PyStr → TomlLineScan
  | [] => { code := [], comment := 0, open_string := quote.filter (·.multi_line) }
  | c :: rest =>
      match quote with
      | some quote =>
          let found := string_end quote (c :: rest)
          (scan_toml_characters found.2 ((c :: rest).drop found.1)).behind found.1
      | none =>
          if c = 0x23 then { code := [], comment := 0, open_string := none }
          else
            match quotation_mark c with
            | some mark =>
                let quote : Delimiter := ⟨mark, rest.take 2 == [c, c]⟩
                (scan_toml_characters (some quote) ((c :: rest).drop quote.length)).behind
                  quote.length
            | none =>
                let scan := scan_toml_characters none rest
                { scan with code := c :: scan.code, comment := scan.comment + 1 }
  termination_by line => line.length
  decreasing_by
    · have := string_end_pos quote c rest
      simp only [List.length_drop, List.length_cons]
      omega
    · simp only [List.length_drop, List.length_cons, Delimiter.length]
      split <;> omega
    · simp

/-- The scans of consecutive lines, the string a line leaves open carried to the next. -/
def scan_lines (quote : Option Delimiter) : List PyStr → List TomlLineScan
  | [] => []
  | line :: rest =>
      let scan := scan_toml_characters quote line
      scan :: scan_lines scan.open_string rest

/-! ## What the scan of a line begins with -/

theorem scan_code {c : Nat} (hcomment : c ≠ 0x23) (hmark : quotation_mark c = none)
    (rest : PyStr) :
    scan_toml_characters none (c :: rest) =
      { scan_toml_characters none rest with
        code := c :: (scan_toml_characters none rest).code
        comment := (scan_toml_characters none rest).comment + 1 } := by
  rw [scan_toml_characters.eq_def]
  simp only [hcomment, if_false, hmark]

theorem scan_comment (rest : PyStr) :
    scan_toml_characters none (0x23 :: rest) = { code := [], comment := 0, open_string := none } := by
  rw [scan_toml_characters.eq_def]
  simp

theorem scan_opening {c : Nat} {mark : Quote} (hcomment : c ≠ 0x23)
    (hmark : quotation_mark c = some mark) (rest : PyStr) :
    let quote : Delimiter := ⟨mark, rest.take 2 == [c, c]⟩
    scan_toml_characters none (c :: rest) =
      (scan_toml_characters (some quote) ((c :: rest).drop quote.length)).behind
        quote.length := by
  rw [scan_toml_characters.eq_def]
  simp only [hcomment, if_false, hmark]

/-- Inside a string, the scan goes on where the string ends. -/
theorem scan_inside (quote : Delimiter) (line : PyStr) :
    scan_toml_characters (some quote) line =
      (scan_toml_characters (string_end quote line).2 (line.drop (string_end quote line).1)).behind
        (string_end quote line).1 := by
  cases line with
  | nil => simp [string_end, scan_toml_characters, TomlLineScan.behind]
  | cons c rest => rw [scan_toml_characters.eq_def]

@[simp] theorem behind_behind (n k : Nat) (scan : TomlLineScan) :
    (scan.behind n).behind k = scan.behind (n + k) := by
  simp [TomlLineScan.behind, Nat.add_comm, Nat.add_left_comm]

theorem scan_string_char {quote : Delimiter} {c : Nat} (hmark : c ≠ quote.mark.char)
    (hescape : ¬(quote.mark = .basic ∧ c = 0x5c)) (rest : PyStr) :
    scan_toml_characters (some quote) (c :: rest) =
      (scan_toml_characters (some quote) rest).behind 1 := by
  have hend : string_end quote (c :: rest) =
      ((string_end quote rest).1 + 1, (string_end quote rest).2) := by
    rw [string_end.eq_def]
    simp only [hescape, hmark, if_false, ne_eq, not_false_eq_true, if_true]
  rw [scan_inside quote (c :: rest), scan_inside quote rest, hend, behind_behind,
    List.drop_succ_cons]

theorem scan_string_escape (multi_line : Bool) (c : Nat) (rest : PyStr) :
    scan_toml_characters (some ⟨.basic, multi_line⟩) (0x5c :: c :: rest) =
      (scan_toml_characters (some ⟨.basic, multi_line⟩) rest).behind 2 := by
  have hend : string_end ⟨.basic, multi_line⟩ (0x5c :: c :: rest) =
      ((string_end ⟨.basic, multi_line⟩ rest).1 + 2, (string_end ⟨.basic, multi_line⟩ rest).2) := by
    rw [string_end.eq_def]
    simp
  rw [scan_inside _ (0x5c :: c :: rest), scan_inside _ rest, hend, behind_behind,
    List.drop_succ_cons, List.drop_succ_cons]

/-- A backslash at the end of a line escapes nothing of the next. -/
theorem scan_string_backslash (multi_line : Bool) :
    scan_toml_characters (some ⟨.basic, multi_line⟩) [0x5c] =
      (scan_toml_characters (some ⟨.basic, multi_line⟩) []).behind 1 := by
  have hend : string_end ⟨.basic, multi_line⟩ [0x5c] = (1, some ⟨.basic, multi_line⟩) := by
    rw [string_end.eq_def]
    simp
  rw [scan_inside, hend]
  rfl

theorem scan_string_close (mark : Quote) (rest : PyStr) :
    scan_toml_characters (some ⟨mark, false⟩) (mark.char :: rest) =
      (scan_toml_characters none rest).behind 1 := by
  have hend : string_end ⟨mark, false⟩ (mark.char :: rest) = (1, none) := by
    have hescape : ¬(mark = .basic ∧ mark.char = 0x5c) := by cases mark <;> decide
    rw [string_end.eq_def]
    simp [hescape]
  rw [scan_inside, hend]
  rfl

private theorem takeWhile_run {c : Nat} {rest : PyStr} (hrest : rest.head? ≠ some c) (n : Nat) :
    (List.replicate n c ++ rest).takeWhile (· == c) = List.replicate n c := by
  have hstop : rest.takeWhile (· == c) = [] := by
    cases rest with
    | nil => rfl
    | cons d rest =>
        have : d ≠ c := fun h => hrest (by rw [h]; rfl)
        simp [this]
  rw [List.takeWhile_append_of_pos (by simp [List.mem_replicate]), hstop, List.append_nil]

/-- Where the string goes on behind a run of its quotation marks. -/
theorem string_end_run (mark : Quote) {rest : PyStr} (hrest : rest.head? ≠ some mark.char)
    (n : Nat) :
    string_end (delimiter mark) (List.replicate (n + 1) mark.char ++ rest) =
      if MULTI_LINE_DELIMITER ≤ n + 1 then (min (n + 1) LONGEST_CLOSING_RUN, none)
      else ((string_end (delimiter mark) rest).1 + (n + 1),
        (string_end (delimiter mark) rest).2) := by
  have hescape : ¬(mark = .basic ∧ mark.char = 0x5c) := by cases mark <;> decide
  have hdrop : (List.replicate n mark.char ++ rest).drop n = rest := by simp
  rw [List.replicate_succ, List.cons_append, string_end.eq_def]
  simp only [delimiter, hescape, if_false, ne_eq, not_true_eq_false, Bool.not_true,
    Bool.false_eq_true, takeWhile_run hrest, List.length_replicate, Nat.add_sub_cancel, hdrop]

/-- One or two quotation marks in a multi-line string do not close it. -/
theorem scan_string_quotes (mark : Quote) {rest : PyStr} (hrest : rest.head? ≠ some mark.char)
    {n : Nat} (hn : n < MULTI_LINE_DELIMITER) :
    scan_toml_characters (some (delimiter mark)) (List.replicate n mark.char ++ rest) =
      (scan_toml_characters (some (delimiter mark)) rest).behind n := by
  cases n with
  | zero => simp [TomlLineScan.behind]
  | succ n =>
      have hdrop : (List.replicate (n + 1) mark.char ++ rest).drop
          ((string_end (delimiter mark) rest).1 + (n + 1)) =
          rest.drop (string_end (delimiter mark) rest).1 := by
        rw [Nat.add_comm, List.drop_append]
        simp
      rw [scan_inside, string_end_run mark hrest, if_neg (by omega), hdrop,
        scan_inside _ rest, behind_behind]

/-- Three to five close it: the first of them are its last characters. -/
theorem scan_string_closing_run (mark : Quote) {rest : PyStr}
    (hrest : rest.head? ≠ some mark.char) {n : Nat} (hn : MULTI_LINE_DELIMITER ≤ n)
    (hlong : n ≤ LONGEST_CLOSING_RUN) :
    scan_toml_characters (some (delimiter mark)) (List.replicate n mark.char ++ rest) =
      (scan_toml_characters none rest).behind n := by
  cases n with
  | zero => exact absurd hn (by decide)
  | succ n =>
      have hmin : min (n + 1) LONGEST_CLOSING_RUN = n + 1 := by omega
      rw [scan_inside, string_end_run mark hrest, if_pos hn, hmin]
      simp

/-! ## Lines read as the grammar has them -/

/-- The scan of a line finds what the grammar has in it. -/
structure Agrees (l : Line) (scan : TomlLineScan) : Prop where
  code : scan.code = l.code
  uncommented : l.text.take scan.comment = l.uncommented
  open_string : scan.open_string = l.within.map delimiter

/-- The scanner, started inside `quote`, reads every line of a text as the grammar has it. -/
def ReadsLines (quote : Option Delimiter) (m : List Mark) : Prop :=
  List.Forall₂ Agrees (lines m) (scan_lines quote ((lines m).map (·.text)))

/-- The same from the middle of a line on. -/
def Reads (quote : Option Delimiter) (m : List Mark) : Prop := m ≠ [] ∧ ReadsLines quote m

end PwshPy.Packing
