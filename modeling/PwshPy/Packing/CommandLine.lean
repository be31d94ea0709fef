import PwshPy.Shell.WindowsCommandLine

/-! # The command line of an elevated child

The `.ps1` writes the arguments of its child into one text, and the child splits
it as every Windows program does.
-/

namespace PwshPy.Packing

open Shell.Windows

/-- `\s` -/
def isRegexSpace (c : Nat) : Bool := isSpace c && !(0x1c ≤ c && c ≤ 0x1f)

/-- The loop of `ConvertTo-PwshPyCommandLineArgument`, with what follows it. -/
def quoted_characters (count : Nat) : PyStr → PyStr
  | [] => backslashes (2 * count) ++ [MARK]
  | c :: rest =>
      if c = SOLIDUS then quoted_characters (count + 1) rest
      else if c = MARK then backslashes (2 * count + 1) ++ c :: quoted_characters 0 rest
      else backslashes count ++ c :: quoted_characters 0 rest

/-- `ConvertTo-PwshPyCommandLineArgument` -/
def command_line_argument (value : PyStr) : PyStr :=
  if value.length > 0 ∧ value.any (fun c => isRegexSpace c || c == MARK) = false then value
  else MARK :: quoted_characters 0 value

/-- `Join-PwshPyCommandLine` -/
def join_command_line (args : List PyStr) : PyStr :=
  [SPACE].intercalate (args.map command_line_argument)

section

variable {rule : Doubled} {current : PyStr} {tail : PyStr}

theorem split_quoted (h : Ends tail) (value : PyStr) (count : Nat) :
    split rule true 0 (some current) (quoted_characters count value ++ tail) =
      (current ++ backslashes count ++ value) :: following rule tail := by
  induction value generalizing count current with
  | nil =>
      rw [quoted_characters, List.append_assoc, split_backslashes, Nat.zero_add,
        List.singleton_append, split_closing_mark count h, List.append_nil]
  | cons c value ih =>
      unfold quoted_characters
      by_cases hslash : c = SOLIDUS
      · rw [if_pos hslash, ih, hslash, backslashes, List.replicate_succ']
        simp [backslashes]
      · rw [if_neg hslash]
        by_cases hmark : c = MARK
        · rw [if_pos hmark, List.append_assoc, split_backslashes, Nat.zero_add, List.cons_append,
            hmark, split_escaped_mark, ih]
          simp [backslashes]
        · rw [if_neg hmark, List.append_assoc, split_backslashes, Nat.zero_add, List.cons_append,
            split_char hslash hmark (Or.inl rfl), ih]
          simp [backslashes]

/-- What is left as it is holds no blank and no mark. -/
theorem plain_char {c : Nat} (h : (isRegexSpace c || c == MARK) = false) :
    c ≠ MARK ∧ c ≠ SPACE ∧ c ≠ TAB := by
  refine ⟨?_, ?_, ?_⟩
  · intro hc
    rw [hc] at h
    cases h
  · intro hc
    rw [hc] at h
    cases h
  · intro hc
    rw [hc] at h
    cases h

theorem split_plain (h : Ends tail) {value : PyStr}
    (hplain : value.any (fun c => isRegexSpace c || c == MARK) = false) (run : Nat) :
    split rule false run (some current) (value ++ tail) =
      (current ++ backslashes run ++ value) :: following rule tail := by
  induction value generalizing run current with
  | nil => rw [List.nil_append, split_end h, List.append_nil]
  | cons c value ih =>
      rw [List.any_cons, Bool.or_eq_false_iff] at hplain
      obtain ⟨hchar, hvalue⟩ := hplain
      obtain ⟨hmark, hblank⟩ := plain_char hchar
      by_cases hslash : c = SOLIDUS
      · rw [hslash, List.cons_append, split_backslash, ih hvalue, backslashes,
          List.replicate_succ']
        simp [backslashes]
      · rw [List.cons_append, split_char hslash hmark (Or.inr hblank), ih hvalue]
        simp [backslashes]

/-- One argument is read back, up to the space or the end behind it. -/
theorem arguments_command_line_argument (h : Ends tail) (value : PyStr) :
    arguments rule (command_line_argument value ++ tail) = value :: following rule tail := by
  unfold command_line_argument arguments
  split
  · rename_i hplain
    obtain ⟨hlength, hchars⟩ := hplain
    cases value with
    | nil => cases hlength
    | cons c value =>
        have hfirst : (isRegexSpace c || c == MARK) = false :=
          Bool.eq_false_iff.mpr (List.any_eq_false.mp hchars c (List.mem_cons_self ..))
        obtain ⟨hmark, hblank⟩ := plain_char hfirst
        have hread := @split_plain rule [] tail h (c :: value) hchars 0
        rw [List.cons_append] at hread ⊢
        rw [split_begin hmark hblank, hread]
        rfl
  · rw [List.cons_append, split_opening_mark, split_quoted h]
    rfl

end

/-- The child gets the arguments it was given, by whichever rules it splits its
command line. -/
theorem command_line_round_trips (rule : Doubled) (args : List PyStr) :
    arguments rule (join_command_line args) = args := by
  unfold join_command_line
  induction args with
  | nil => rfl
  | cons value args ih =>
      cases args with
      | nil =>
          rw [List.map_singleton, List.intercalate_singleton]
          have hread := @arguments_command_line_argument rule [] .nil value
          rw [List.append_nil] at hread
          exact hread
      | cons next args =>
          rw [List.map_cons, List.map_cons, List.intercalate_cons_cons, List.append_assoc,
            List.singleton_append, arguments_command_line_argument (.space _), ← List.map_cons]
          show value :: arguments rule _ = _
          rw [ih]

example : join_command_line [py "a b\\", [], py "c\"d", py "e\\"] =
    py "\"a b\\\\\" \"\" \"c\\\"d\" e\\" := by decide

end PwshPy.Packing
