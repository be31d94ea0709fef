import PwshPy.Packing.Runner
import PwshPy.Packing.ScannedDocument
import PwshPy.Packing.ScriptBlock

/-! # The `requires-python` of a script block

The packer looks for the key line by line, the lines stripped: at the first
line that spells it, or at the first table header, the search is over. Which
lines may decide depends on the scanner, by the arrays and the multi-line
string it has open at the line's start.
-/

namespace PwshPy.Packing

open Toml (Quote Line lines)

/-! ## The key and its value -/

def KEY_SPELLINGS : List PyStr :=
  [py "requires-python", py "\"requires-python\"", py "'requires-python'"]

/-- `_REQUIRES_PYTHON_KEY.match(line)` -/
def requires_python_key (line : PyStr) : Bool :=
  KEY_SPELLINGS.any fun k =>
    k.isPrefixOf line && ((line.drop k.length).dropWhile isSpace).head? == some 0x3d

/-- `"(?P<basic>[^"\\]*)"|'(?P<literal>[^']*)'`: the value and what follows it. -/
def quoted_value : PyStr → Option (PyStr × PyStr)
  | 0x22 :: rest =>
      let value := rest.takeWhile fun c => c != 0x22 && c != 0x5c
      match rest.drop value.length with
      | 0x22 :: after => some (value, after)
      | _ => none
  | 0x27 :: rest =>
      let value := rest.takeWhile (· != 0x27)
      match rest.drop value.length with
      | 0x27 :: after => some (value, after)
      | _ => none
  | _ => none

/-- `\s*(?:#.*)?` up to the end of the line -/
def ends_line (s : PyStr) : Bool :=
  match s.dropWhile isSpace with
  | [] => true
  | 0x23 :: comment => !comment.contains LF
  | _ => false

/-- What `\s*=\s*` and the quoted value of a line spell, from behind the key. -/
def assigned_value (s : PyStr) : Option PyStr :=
  match s.dropWhile isSpace with
  | 0x3d :: rest =>
      match quoted_value (rest.dropWhile isSpace) with
      | some (value, after) => if ends_line after then some value else none
      | none => none
  | _ => none

/-- `_REQUIRES_PYTHON_LINE.fullmatch(line)`, for its value -/
def requires_python_line (line : PyStr) : Option PyStr :=
  (KEY_SPELLINGS.find? (·.isPrefixOf line)).bind fun k => assigned_value (line.drop k.length)

def UNREADABLE (line : PyStr) : PyError :=
  packError [.text (py "the entry's requires-python must be one quoted string of version specifiers, got: "),
    .repr (strip line)]

def requires_python_value (line : PyStr) : Except PyError PyStr :=
  match requires_python_line line with
  | none => .error (UNREADABLE line)
  | some value =>
      if value.all isSpecifierChar then .ok (strip value) else .error (UNREADABLE line)

/-! ## The search -/

def bracket (c : Nat) : Int := if c = 0x5b then 1 else if c = 0x5d then -1 else 0

/-- Arrays opened minus closed. -/
def change : PyStr → Int
  | [] => 0
  | c :: code => bracket c + change code

def scan_toml_line (line : PyStr) (open_string : Option Delimiter) : Int × Option Delimiter :=
  let scan := scan_toml_characters open_string line
  (change scan.code, scan.open_string)

/-- The loop of `extract_requires_python` over the lines of the block. -/
def find_requires_python (depth : Int) (open_string : Option Delimiter) :
    List PyStr → Except PyError PyStr
  | [] => .ok []
  | raw :: rest =>
      let line := strip (uncomment raw)
      if open_string = none ∧ (py "[").isPrefixOf line ∧ depth = 0 then .ok []
      else if open_string = none ∧ requires_python_key line then requires_python_value line
      else
        let scan := scan_toml_line line open_string
        find_requires_python (max (depth + scan.1) 0) scan.2 rest

def extract_requires_python (metadata : PyStr) : Except PyError PyStr :=
  find_requires_python 0 none (block_lines metadata)

/-! ## What spells the key -/

theorem requires_python_key_iff {line : PyStr} :
    requires_python_key line = true ↔ ∃ k ∈ KEY_SPELLINGS, ∃ blanks rest : PyStr,
      blanks.all isSpace = true ∧ line = k ++ (blanks ++ 0x3d :: rest) := by
  simp only [requires_python_key, List.any_eq_true, Bool.and_eq_true, beq_iff_eq]
  constructor
  · intro h
    obtain ⟨k, hk, hbegins, hhead⟩ := h
    obtain ⟨tail, rfl⟩ := List.isPrefixOf_iff_prefix.mp hbegins
    rw [List.drop_left] at hhead
    obtain ⟨rest, hrest⟩ : ∃ rest, tail.dropWhile isSpace = 0x3d :: rest := by
      cases hdrop : tail.dropWhile isSpace with
      | nil => simp [hdrop] at hhead
      | cons c rest =>
          rw [hdrop, List.head?_cons] at hhead
          exact ⟨rest, by rw [Option.some.inj hhead]⟩
    refine ⟨k, hk, tail.takeWhile isSpace, rest, ?_, ?_⟩
    · exact List.all_eq_true.mpr fun c hc => List.mem_takeWhile_imp hc
    · rw [← hrest, List.takeWhile_append_dropWhile]
  · intro h
    obtain ⟨k, hk, blanks, rest, hblanks, rfl⟩ := h
    refine ⟨k, hk, by simp, ?_⟩
    rw [List.drop_left, List.dropWhile_append_of_pos fun c hc => List.all_eq_true.mp hblanks c hc]
    rfl

theorem find_spelling {k : PyStr} (hk : k ∈ KEY_SPELLINGS) (tail : PyStr) :
    KEY_SPELLINGS.find? (·.isPrefixOf (k ++ tail)) = some k := by
  simp only [KEY_SPELLINGS, List.mem_cons, List.not_mem_nil, or_false] at hk
  rcases hk with rfl | rfl | rfl <;> rfl

theorem strip_eq_rdropWhile {c : Nat} (hc : isSpace c = false) (line : PyStr) :
    strip (c :: line) = (c :: line).rdropWhile isSpace := by
  rw [strip, stripBy, List.dropWhile_cons_of_neg (by simp [hc])]

/-- What is read of a stripped line ends at its last character that is no blank. -/
theorem rdropWhile_append {c : Nat} (hc : isSpace c = false) (front back : PyStr) :
    (front ++ c :: back).rdropWhile isSpace = front ++ c :: back.rdropWhile isSpace := by
  induction back using List.reverseRecOn with
  | nil =>
      rw [List.rdropWhile_nil, List.rdropWhile_concat_neg _ _ _ (by simp [hc])]
  | append_singleton back d ih =>
      rw [← List.cons_append, ← List.append_assoc]
      by_cases hd : isSpace d = true
      · rw [List.rdropWhile_concat_pos _ _ _ hd, List.rdropWhile_concat_pos _ _ _ hd, ih]
      · rw [List.rdropWhile_concat_neg _ _ _ hd, List.rdropWhile_concat_neg _ _ _ hd,
          List.append_assoc, List.cons_append]

/-- The blanks a line ends with do not decide whether it spells the key. -/
theorem requires_python_key_rdropWhile (line : PyStr) :
    requires_python_key (line.rdropWhile isSpace) = requires_python_key line := by
  rw [Bool.eq_iff_iff, requires_python_key_iff, requires_python_key_iff]
  constructor
  · intro h
    obtain ⟨k, hk, blanks, rest, hblanks, heq⟩ := h
    refine ⟨k, hk, blanks, rest ++ line.rtakeWhile isSpace, hblanks, ?_⟩
    calc line = line.rdropWhile isSpace ++ line.rtakeWhile isSpace :=
          (List.rdropWhile_append_rtakeWhile ..).symm
      _ = k ++ (blanks ++ 0x3d :: rest) ++ line.rtakeWhile isSpace := by rw [heq]
      _ = k ++ (blanks ++ 0x3d :: (rest ++ line.rtakeWhile isSpace)) := by simp
  · intro h
    obtain ⟨k, hk, blanks, rest, hblanks, rfl⟩ := h
    refine ⟨k, hk, blanks, rest.rdropWhile isSpace, hblanks, ?_⟩
    rw [← List.append_assoc, rdropWhile_append (by decide), List.append_assoc]

/-! ## Blanks around a line -/

theorem scan_toml_line_space {c : Nat} (hc : isSpace c = true) (line : PyStr)
    (quote : Option Delimiter) : scan_toml_line (c :: line) quote = scan_toml_line line quote := by
  have hcomment : c ≠ 0x23 := by
    intro h
    rw [h] at hc
    exact absurd hc (by decide)
  have hmark : ∀ mark : Quote, c ≠ mark.char := by
    intro mark h
    rw [h] at hc
    cases mark <;> exact absurd hc (by decide)
  unfold scan_toml_line
  cases quote with
  | none =>
      have hnone : quotation_mark c = none := by
        rw [quotation_mark, if_neg (hmark .basic), if_neg (hmark .literal)]
      have hbracket : bracket c = 0 := by
        unfold bracket
        by_cases hopen : c = 0x5b
        · rw [hopen] at hc
          exact absurd hc (by decide)
        · by_cases hclose : c = 0x5d
          · rw [hclose] at hc
            exact absurd hc (by decide)
          · rw [if_neg hopen, if_neg hclose]
      rw [scan_code hcomment hnone]
      simp [change, hbracket]
  | some quote =>
      have hescape : ¬(quote.mark = .basic ∧ c = 0x5c) := by
        intro h
        rw [h.2] at hc
        exact absurd hc (by decide)
      rw [scan_string_char (hmark quote.mark) hescape]
      rfl

theorem scan_toml_line_dropWhile (line : PyStr) (quote : Option Delimiter) :
    scan_toml_line (line.dropWhile isSpace) quote = scan_toml_line line quote := by
  induction line with
  | nil => rfl
  | cons c line ih =>
      by_cases hc : isSpace c = true
      · rw [List.dropWhile_cons_of_pos hc, ih, scan_toml_line_space hc]
      · rw [List.dropWhile_cons_of_neg hc]

theorem scan_toml_line_of_behind {line line' : PyStr} {quote quote' : Option Delimiter} {n : Nat}
    (h : scan_toml_characters quote line = (scan_toml_characters quote' line').behind n) :
    scan_toml_line line quote = scan_toml_line line' quote' := by
  rw [scan_toml_line, h]
  rfl

theorem exists_run (c : Nat) (line : PyStr) :
    ∃ n rest, line = List.replicate n c ++ rest ∧ rest.head? ≠ some c := by
  induction line with
  | nil => exact ⟨0, [], rfl, by simp⟩
  | cons d line ih =>
      by_cases hd : d = c
      · obtain ⟨n, rest, rfl, hrest⟩ := ih
        exact ⟨n + 1, rest, by rw [hd, List.replicate_succ, List.cons_append], hrest⟩
      · exact ⟨0, d :: line, rfl, by simpa using hd⟩

theorem head?_append_blanks {line blanks : PyStr} (hblanks : blanks.all isSpace = true) {c : Nat}
    (hc : isSpace c = false) (hline : line.head? ≠ some c) : (line ++ blanks).head? ≠ some c := by
  cases line with
  | cons d line => exact hline
  | nil =>
      intro hhead
      have hspace := List.all_eq_true.mp hblanks c (List.mem_of_mem_head? hhead)
      rw [hc] at hspace
      exact Bool.noConfusion hspace

theorem quotation_mark_eq_some {c : Nat} {mark : Quote} (h : quotation_mark c = some mark) :
    c = mark.char := by
  unfold quotation_mark at h
  split at h
  · rename_i hc
    rw [hc, ← Option.some.inj h]
  · split at h
    · rename_i hc
      rw [hc, ← Option.some.inj h]
    · cases h

theorem isSpace_mark (mark : Quote) : isSpace mark.char = false := by cases mark <;> decide

/-- Blanks behind a line do not make its quotation mark a longer one. -/
theorem take_two_append {blanks : PyStr} (hblanks : blanks.all isSpace = true) {c : Nat}
    (hc : isSpace c = false) (rest : PyStr) :
    ((rest ++ blanks).take 2 == [c, c]) = (rest.take 2 == [c, c]) := by
  have hfree : c ∉ blanks := by
    intro hmem
    have hspace := List.all_eq_true.mp hblanks c hmem
    rw [hc] at hspace
    exact Bool.noConfusion hspace
  rcases rest with _ | ⟨d, _ | ⟨e, rest⟩⟩
  · have hne : blanks.take 2 ≠ [c, c] := by
      intro h
      exact hfree (List.mem_of_mem_take (show c ∈ blanks.take 2 by rw [h]; simp))
    simpa using hne
  · have hne : blanks.take 1 ≠ [c] := by
      intro h
      exact hfree (List.mem_of_mem_take (show c ∈ blanks.take 1 by rw [h]; simp))
    simp [hne]
  · rfl

theorem opening_length (mark : Quote) (c : Nat) (rest : PyStr) :
    0 < (Delimiter.mk mark (rest.take 2 == [c, c])).length ∧
      (Delimiter.mk mark (rest.take 2 == [c, c])).length ≤ (c :: rest).length := by
  cases hlong : (rest.take 2 == [c, c]) with
  | false => simp [Delimiter.length]
  | true =>
      have hlen := congrArg List.length (eq_of_beq hlong)
      simp only [List.length_take, List.length_cons, List.length_nil] at hlen
      simp only [Delimiter.length, List.length_cons, if_true]
      omega

/-- A backslash that ends a line, and one that blanks follow. -/
theorem scan_toml_line_backslash {blanks : PyStr} (hblanks : blanks.all isSpace = true)
    (long : Bool) :
    scan_toml_line (0x5c :: ([] ++ blanks)) (some ⟨.basic, long⟩) =
      scan_toml_line [0x5c] (some ⟨.basic, long⟩) := by
  cases blanks with
  | nil => rfl
  | cons b bs =>
      rw [List.all_cons, Bool.and_eq_true] at hblanks
      have hempty : bs.dropWhile isSpace = [] :=
        List.dropWhile_eq_nil_iff.mpr fun c hc => List.all_eq_true.mp hblanks.2 c hc
      rw [List.nil_append, scan_toml_line_of_behind (scan_string_escape long b bs),
        scan_toml_line_of_behind (scan_string_backslash long), ← scan_toml_line_dropWhile bs, hempty]

/-- Blanks behind a run of quotation marks in a multi-line string change nothing
if they change nothing of what follows the run. -/
theorem scan_toml_line_run {blanks : PyStr} (hblanks : blanks.all isSpace = true) (mark : Quote)
    {rest : PyStr} (hrest : rest.head? ≠ some mark.char) (k : Nat)
    (ih : ∀ line quote, line.length < k + 1 + rest.length →
      scan_toml_line (line ++ blanks) quote = scan_toml_line line quote) :
    scan_toml_line (List.replicate (k + 1) mark.char ++ rest ++ blanks) (some (delimiter mark)) =
      scan_toml_line (List.replicate (k + 1) mark.char ++ rest) (some (delimiter mark)) := by
  have hrest' := head?_append_blanks hblanks (isSpace_mark mark) hrest
  by_cases hcloses : MULTI_LINE_DELIMITER ≤ k + 1
  · have hrun := string_end_run mark hrest k
    have hrun' := string_end_run mark hrest' k
    rw [if_pos hcloses] at hrun hrun'
    have hscan := scan_inside (delimiter mark) (List.replicate (k + 1) mark.char ++ rest)
    have hscan' := scan_inside (delimiter mark)
      (List.replicate (k + 1) mark.char ++ (rest ++ blanks))
    rw [hrun] at hscan
    rw [hrun', ← List.append_assoc] at hscan'
    rw [scan_toml_line_of_behind hscan, scan_toml_line_of_behind hscan']
    have hpos : 0 < min (k + 1) LONGEST_CLOSING_RUN := by
      unfold LONGEST_CLOSING_RUN
      omega
    have hle : min (k + 1) LONGEST_CLOSING_RUN ≤ k + 1 := Nat.min_le_left _ _
    generalize min (k + 1) LONGEST_CLOSING_RUN = closing at hpos hle
    have hlen : (List.replicate (k + 1) mark.char ++ rest).length = k + 1 + rest.length := by
      rw [List.length_append, List.length_replicate]
    rw [List.drop_append_of_le_length (by omega)]
    apply ih
    rw [List.length_drop]
    omega
  · have hfew : k + 1 < MULTI_LINE_DELIMITER := by omega
    rw [List.append_assoc, scan_toml_line_of_behind (scan_string_quotes mark hrest hfew),
      scan_toml_line_of_behind (scan_string_quotes mark hrest' hfew)]
    exact ih rest _ (by omega)

/-- Blanks at the end of a line add nothing to its scan but code that is no bracket. -/
theorem scan_toml_line_append {blanks : PyStr} (hblanks : blanks.all isSpace = true)
    (line : PyStr) (quote : Option Delimiter) :
    scan_toml_line (line ++ blanks) quote = scan_toml_line line quote := by
  induction hn : line.length using Nat.strong_induction_on generalizing line quote with
  | _ n ih =>
  have ih' : ∀ rest quote, rest.length < n →
      scan_toml_line (rest ++ blanks) quote = scan_toml_line rest quote :=
    fun rest quote hlt => ih rest.length hlt rest quote rfl
  cases line with
  | nil =>
      have hempty : blanks.dropWhile isSpace = [] :=
        List.dropWhile_eq_nil_iff.mpr fun c hc => List.all_eq_true.mp hblanks c hc
      rw [List.nil_append, ← scan_toml_line_dropWhile, hempty]
  | cons c rest =>
      rw [List.length_cons] at hn
      rw [List.cons_append]
      cases quote with
      | none =>
          by_cases hcomment : c = 0x23
          · rw [hcomment, scan_toml_line, scan_toml_line, scan_comment, scan_comment]
          · cases hquote : quotation_mark c with
            | none =>
                have hrest := ih' rest none (by omega)
                simp only [scan_toml_line, Prod.mk.injEq] at hrest ⊢
                rw [scan_code hcomment hquote, scan_code hcomment hquote]
                simp only [change] at hrest ⊢
                rw [hrest.1, hrest.2]
                exact ⟨rfl, rfl⟩
            | some mark =>
                have hspace : isSpace c = false := by
                  rw [quotation_mark_eq_some hquote]
                  exact isSpace_mark mark
                have hopen := scan_opening hcomment hquote rest
                have hopen' := scan_opening hcomment hquote (rest ++ blanks)
                simp only [take_two_append hblanks hspace] at hopen hopen'
                rw [scan_toml_line_of_behind hopen, scan_toml_line_of_behind hopen']
                have hbounds := opening_length mark c rest
                rw [← List.cons_append, List.drop_append_of_le_length hbounds.2]
                apply ih'
                rw [List.length_drop, List.length_cons] at *
                omega
      | some quote =>
          obtain ⟨mark, long⟩ := quote
          by_cases hmark : c = mark.char
          · rw [hmark]
            cases long with
            | false =>
                rw [scan_toml_line_of_behind (scan_string_close mark _),
                  scan_toml_line_of_behind (scan_string_close mark _)]
                exact ih' rest _ (by omega)
            | true =>
                obtain ⟨k, rest, rfl, hrest⟩ := exists_run mark.char rest
                rw [List.length_append, List.length_replicate] at hn
                refine scan_toml_line_run hblanks mark hrest k ?_
                intro line quote hlt
                exact ih' line quote (by omega)
          · by_cases hescape : mark = .basic ∧ c = 0x5c
            · obtain ⟨rfl, rfl⟩ := hescape
              cases rest with
              | nil => exact scan_toml_line_backslash hblanks long
              | cons d rest =>
                  rw [List.cons_append, scan_toml_line_of_behind (scan_string_escape long d _),
                    scan_toml_line_of_behind (scan_string_escape long d _)]
                  rw [List.length_cons] at hn
                  exact ih' rest _ (by omega)
            · rw [scan_toml_line_of_behind (scan_string_char hmark hescape _),
                scan_toml_line_of_behind (scan_string_char hmark hescape _)]
              exact ih' rest _ (by omega)

theorem scan_toml_line_strip (line : PyStr) (quote : Option Delimiter) :
    scan_toml_line (strip line) quote = scan_toml_line line quote := by
  obtain ⟨before, behind, hline, hbefore, hbehind⟩ := strip_decompose line
  have hskip : line.dropWhile isSpace = (strip line ++ behind).dropWhile isSpace := by
    calc line.dropWhile isSpace = (before ++ (strip line ++ behind)).dropWhile isSpace := by
          rw [← hline]
      _ = (strip line ++ behind).dropWhile isSpace := List.dropWhile_append_of_pos hbefore
  rw [← scan_toml_line_dropWhile line, hskip, scan_toml_line_dropWhile,
    scan_toml_line_append (List.all_eq_true.mpr hbehind)]

end PwshPy.Packing
