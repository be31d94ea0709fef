import PwshPy.Text.PyStr

/-! # What a shell makes of a program's output

A command substitution takes the output without the line ends behind it; an
unquoted value is split into words. Texts hold no NUL.
-/

namespace PwshPy.Shell

/-- `$(…)` -/
def captured (text : PyStr) : PyStr := text.rdropWhile (· == LF)

/-- The default `IFS`. -/
def isFieldSpace (c : Nat) : Bool := c == 0x20 || c == 0x09 || c == LF

/-- The words of an unquoted value, for an `IFS` of white space. -/
def fields (ifs : Nat → Bool) (value : PyStr) : List PyStr :=
  (value.splitOnP ifs).filter (· ≠ [])

theorem of_mem_splitOnP {α : Type} {p : α → Bool} {xs piece : List α} (h : piece ∈ xs.splitOnP p) :
    ∀ x ∈ piece, p x = false := by
  induction xs generalizing piece with
  | nil =>
      obtain rfl := List.mem_singleton.mp h
      exact List.forall_mem_nil _
  | cons x xs ih =>
      rw [List.splitOnP_cons_eq_if_modifyHead] at h
      cases hpieces : xs.splitOnP p with
      | nil => exact absurd hpieces (List.splitOnP_ne_nil _ _)
      | cons first pieces =>
          rw [hpieces] at h ih
          split_ifs at h with hx
          · rcases List.mem_cons.mp h with rfl | hmem
            · exact List.forall_mem_nil _
            · exact ih hmem
          · rcases List.mem_cons.mp h with rfl | hmem
            · exact List.forall_mem_cons.mpr ⟨Bool.not_eq_true _ ▸ hx, ih List.mem_cons_self⟩
            · exact ih (List.mem_cons_of_mem _ hmem)

section

variable {ifs : Nat → Bool}

theorem fields_append {c : Nat} (hc : ifs c = true) (a b : PyStr) :
    fields ifs (a ++ c :: b) = fields ifs a ++ fields ifs b := by
  rw [fields, List.splitOnP_append_cons _ _ hc, List.filter_append]
  rfl

@[simp] theorem fields_nil : fields ifs [] = [] := rfl

theorem fields_word {word : PyStr} (hne : word ≠ []) (h : ∀ c ∈ word, ifs c = false) :
    fields ifs word = [word] := by
  rw [fields, List.splitOnP_eq_singleton h]
  exact List.filter_cons_of_pos (by simpa using hne)

theorem fields_unlines (hlf : ifs LF = true) {words : List PyStr}
    (h : ∀ word ∈ words, word ≠ [] ∧ ∀ c ∈ word, ifs c = false) :
    fields ifs (unlines words) = words := by
  induction words with
  | nil => rfl
  | cons word words ih =>
      obtain ⟨hword, hlater⟩ := List.forall_mem_cons.mp h
      rw [unlines_cons, fields_append hlf, fields_word hword.1 hword.2, ih hlater]
      rfl

/-- The line ends behind a text hold no word. -/
theorem fields_captured (hlf : ifs LF = true) (text : PyStr) :
    fields ifs (captured text) = fields ifs text := by
  unfold captured
  induction text using List.reverseRecOn with
  | nil => rfl
  | append_singleton text c ih =>
      by_cases hc : (c == LF) = true
      · have hdrop := List.rdropWhile_concat_pos (· == LF) text c hc
        have hends : c = LF := by simpa using hc
        rw [hdrop, ih, hends, fields_append hlf]
        simp
      · have hkeep := List.rdropWhile_concat_neg (· == LF) text c hc
        rw [hkeep]

/-- The line a command printed. -/
theorem captured_line {text : PyStr} (h : text.getLast? ≠ some LF) :
    captured (text ++ [LF]) = text := by
  rw [captured, List.rdropWhile_concat_pos _ _ _ rfl, List.rdropWhile_eq_self_iff]
  intro hne hlast
  rw [List.getLast?_eq_some_getLast hne] at h
  exact h (congrArg some (beq_iff_eq.mp hlast))

/-- A substitution keeps a text up to its last character that is no line end. -/
theorem captured_append {c : Nat} (hc : c ≠ LF) (a b : PyStr) :
    captured (a ++ c :: b) = a ++ c :: captured b := by
  unfold captured
  have hstop : ¬(c == LF) = true := by simpa using hc
  induction b using List.reverseRecOn with
  | nil => exact List.rdropWhile_concat_neg (· == LF) a c hstop
  | append_singleton b d ih =>
      have hwhole : a ++ c :: (b ++ [d]) = (a ++ c :: b) ++ [d] := by simp
      by_cases hd : (d == LF) = true
      · have hdrop := List.rdropWhile_concat_pos (· == LF) (a ++ c :: b) d hd
        have hlater := List.rdropWhile_concat_pos (· == LF) b d hd
        rw [hwhole, hdrop, ih, hlater]
      · have hkeep := List.rdropWhile_concat_neg (· == LF) (a ++ c :: b) d hd
        have hlater := List.rdropWhile_concat_neg (· == LF) b d hd
        rw [hwhole, hkeep, hlater]
        simp

end

end PwshPy.Shell
