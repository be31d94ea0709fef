import PwshPy.Text.PyStr
import PwshPy.Text.Runs

/-! # Where a line of a text stands

`str.splitlines` reads a text line by line, and what it returns for a line are
factors of it with a boundary, or the end of the line, on either side. A
stripped piece stands between white space in the same way.
-/

namespace PwshPy

def CR : Nat := 0x0d

/-! ## Line by line -/

/-- A text behind an LF is read on its own. -/
theorem joinCrLf_append_lf (a b : PyStr) :
    ∃ x, joinCrLf (a ++ [LF]) = x ++ [LF] ∧ joinCrLf (a ++ LF :: b) = x ++ LF :: joinCrLf b := by
  induction a using joinCrLf.induct with
  | case1 => exact ⟨[], rfl, by rw [List.nil_append, joinCrLf_cons (by decide)]; rfl⟩
  | case2 c =>
      by_cases hc : c = 0x0d
      · subst hc
        refine ⟨[], by decide, ?_⟩
        simp only [List.cons_append, List.nil_append, joinCrLf]
        rw [if_pos (by decide), joinCrLf_cons (by decide)]
      · refine ⟨[c], ?_, ?_⟩
        · rw [List.cons_append, joinCrLf_cons hc]
          rfl
        · rw [List.cons_append, joinCrLf_cons hc, List.nil_append, joinCrLf_cons (by decide)]
          rfl
  | case3 c d s hcd ih =>
      obtain ⟨x, h, h'⟩ := ih
      refine ⟨x, ?_, ?_⟩
      · simp only [List.cons_append, joinCrLf, hcd, and_self, if_true] at h ⊢
        exact h
      · simp only [List.cons_append, joinCrLf, hcd, and_self, if_true] at h' ⊢
        exact h'
  | case4 c d s hcd ih =>
      obtain ⟨x, h, h'⟩ := ih
      refine ⟨c :: x, ?_, ?_⟩
      · simp only [List.cons_append, joinCrLf, hcd, if_false] at h ⊢
        rw [h]
      · simp only [List.cons_append, joinCrLf, hcd, if_false] at h' ⊢
        rw [h']

/-- A boundary that ends a text begins no piece. -/
theorem splitlines_of_joined {text x : PyStr} (h : joinCrLf text = x ++ [LF]) :
    splitlines text = x.splitOnP isLineBoundary := by
  have hlf : isLineBoundary LF = true := by decide
  have hsplit : (joinCrLf text).splitOnP isLineBoundary = x.splitOnP isLineBoundary ++ [[]] := by
    rw [h, List.splitOnP_append_cons _ _ hlf]
    rfl
  simp [splitlines, hsplit]

theorem splitlines_append_line (a b : PyStr) :
    splitlines (a ++ LF :: b) = splitlines (a ++ [LF]) ++ splitlines b := by
  obtain ⟨x, hx, hxb⟩ := joinCrLf_append_lf a b
  have hlf : isLineBoundary LF = true := by decide
  have hne := List.splitOnP_ne_nil isLineBoundary (joinCrLf b)
  have hline : splitlines (a ++ [LF]) = x.splitOnP isLineBoundary := splitlines_of_joined hx
  have hsplit : (joinCrLf (a ++ LF :: b)).splitOnP isLineBoundary =
      x.splitOnP isLineBoundary ++ (joinCrLf b).splitOnP isLineBoundary := by
    rw [hxb, List.splitOnP_append_cons _ _ hlf]
  rw [hline]
  simp only [splitlines, hsplit, List.getLast?_append_of_ne_nil _ hne]
  split
  · rw [List.dropLast_append_of_ne_nil hne]
  · rfl

/-- The pieces of a text built line by line are the pieces of its lines. -/
theorem splitlines_unlines_lines (ls : List PyStr) :
    splitlines (unlines ls) = ls.flatMap fun l => splitlines (l ++ [LF]) := by
  induction ls with
  | nil => rfl
  | cons l ls ih => rw [unlines_cons, splitlines_append_line, ih, List.flatMap_cons]

/-- A line without a boundary is one piece. -/
theorem splitlines_line {l : PyStr} (h : ∀ c ∈ l, isLineBoundary c = false) :
    splitlines (l ++ [LF]) = [l] := by
  have hcr : 0x0d ∉ l := fun hmem => absurd (h _ hmem) (by decide)
  have hpieces : l.splitOnP isLineBoundary = [l] := List.splitOnP_eq_singleton h
  rw [splitlines_append_lf hcr, hpieces]
  rfl

/-! ## Factors -/

/-- The text begins, or is empty, so that a piece may end before it. -/
def Opens (P : Nat → Bool) (s : PyStr) : Prop := ∀ c, s.head? = some c → P c = true

/-- The text ends, or is empty, so that a piece may begin behind it. -/
def Closes (P : Nat → Bool) (s : PyStr) : Prop := ∀ c, s.getLast? = some c → P c = true

/-- `p` is a factor of the text between two characters of a kind, or its ends. -/
def Stands (P : Nat → Bool) (p text : PyStr) : Prop :=
  ∃ a b, text = a ++ (p ++ b) ∧ Closes P a ∧ Opens P b

private theorem Stands.cons {P : Nat → Bool} {p text : PyStr} (c : Nat)
    (h : ∃ a b, text = a ++ (p ++ b) ∧ a ≠ [] ∧ Closes P a ∧ Opens P b) :
    ∃ a b, c :: text = a ++ (p ++ b) ∧ a ≠ [] ∧ Closes P a ∧ Opens P b := by
  obtain ⟨a, b, rfl, hne, ha, hb⟩ := h
  refine ⟨c :: a, b, rfl, by simp, ?_, hb⟩
  intro d hd
  exact ha d (by rwa [List.getLast?_cons_of_ne_nil hne] at hd)

/-- The first piece is a beginning of the text, the others stand behind a
boundary, and none holds a boundary. -/
private theorem pieces_stand (text : PyStr) :
    ∃ first rest, (joinCrLf text).splitOnP isLineBoundary = first :: rest ∧
      (∃ b, text = first ++ b ∧ Opens isLineBoundary b) ∧
      (∀ p ∈ rest, ∃ a b, text = a ++ (p ++ b) ∧ a ≠ [] ∧ Closes isLineBoundary a ∧
        Opens isLineBoundary b) ∧
      ∀ p ∈ first :: rest, ∀ c ∈ p, isLineBoundary c = false := by
  induction text using joinCrLf.induct with
  | case1 => exact ⟨[], [], rfl, ⟨[], rfl, by simp [Opens]⟩, by simp, by simp⟩
  | case2 c =>
      by_cases hc : isLineBoundary c = true
      · refine ⟨[], [[]], by simp [joinCrLf, List.splitOnP_cons_eq_if_modifyHead, hc],
          ⟨[c], rfl, by simpa [Opens] using hc⟩, ?_, by simp⟩
        intro p hp
        obtain rfl := List.mem_singleton.mp hp
        exact ⟨[c], [], rfl, by simp, by simpa [Closes] using hc, by simp [Opens]⟩
      · refine ⟨[c], [], by simp [joinCrLf, List.splitOnP_cons_eq_if_modifyHead, hc],
          ⟨[], rfl, by simp [Opens]⟩, by simp, by simpa using hc⟩
  | case3 c d s hcd ih =>
      obtain ⟨first, rest, hsplit, ⟨b, hb, hopen⟩, hrest, hclean⟩ := ih
      obtain ⟨rfl, rfl⟩ := hcd
      have hfirst : first = [] := by
        cases first with
        | nil => rfl
        | cons e first =>
            obtain rfl : LF = e := (List.cons.inj hb).1
            have hlf := hclean _ List.mem_cons_self LF List.mem_cons_self
            exact absurd hlf (by decide)
      subst hfirst
      refine ⟨[], rest, by simpa [joinCrLf] using hsplit, ⟨_, rfl, by simp [Opens]; decide⟩, ?_,
        hclean⟩
      exact fun p hp => Stands.cons _ (hrest p hp)
  | case4 c d s hcd ih =>
      obtain ⟨first, rest, hsplit, ⟨b, hb, hopen⟩, hrest, hclean⟩ := ih
      by_cases hc : isLineBoundary c = true
      · refine ⟨[], first :: rest, ?_, ⟨_, rfl, by simpa [Opens] using hc⟩, ?_, ?_⟩
        · simp [joinCrLf, hcd, List.splitOnP_cons_eq_if_modifyHead, hc, hsplit]
        · intro p hp
          rcases List.mem_cons.mp hp with rfl | hp
          · exact ⟨[c], b, by rw [hb]; rfl, by simp, by simpa [Closes] using hc, hopen⟩
          · exact Stands.cons c (hrest p hp)
        · intro p hp
          rcases List.mem_cons.mp hp with rfl | hp
          · simp
          · exact hclean p hp
      · refine ⟨c :: first, rest, ?_, ⟨b, by rw [hb]; rfl, hopen⟩,
          fun p hp => Stands.cons c (hrest p hp), ?_⟩
        · simp [joinCrLf, hcd, List.splitOnP_cons_eq_if_modifyHead, hc, hsplit]
        · intro p hp
          rcases List.mem_cons.mp hp with rfl | hp
          · intro e he
            rcases List.mem_cons.mp he with rfl | he
            · simpa using hc
            · exact hclean _ List.mem_cons_self e he
          · exact hclean p (List.mem_cons_of_mem _ hp)

theorem isSpace_of_isLineBoundary {c : Nat} (h : isLineBoundary c = true) : isSpace c = true := by
  simp only [isLineBoundary, Bool.or_eq_true, Bool.and_eq_true, decide_eq_true_eq,
    beq_iff_eq] at h
  simp only [isSpace, Bool.or_eq_true, Bool.and_eq_true, decide_eq_true_eq, beq_iff_eq]
  omega

/-- A line of a text holds characters of the text. -/
theorem mem_of_mem_splitlines {p text : PyStr} (h : p ∈ splitlines text) {c : Nat} (hc : c ∈ p) :
    c ∈ text := by
  obtain ⟨first, rest, hsplit, ⟨b, hfirst, -⟩, hrest, -⟩ := pieces_stand text
  have hmem : p ∈ first :: rest := by
    rw [← hsplit]
    simp only [splitlines] at h
    split at h
    · exact List.dropLast_subset _ h
    · exact h
  cases List.mem_cons.mp hmem with
  | inl hsame =>
      rw [hfirst, ← hsame]
      exact List.mem_append_left b hc
  | inr hlater =>
      obtain ⟨a, b', htext, -⟩ := hrest p hlater
      rw [htext]
      exact List.mem_append_right a (List.mem_append_left b' hc)

/-- A line of a text holds no boundary. -/
theorem clean_of_mem_splitlines {p text : PyStr} (h : p ∈ splitlines text) :
    ∀ c ∈ p, isLineBoundary c = false := by
  obtain ⟨first, rest, hsplit, -, -, hclean⟩ := pieces_stand text
  refine hclean p ?_
  rw [← hsplit]
  simp only [splitlines] at h
  split at h
  · exact List.dropLast_subset _ h
  · exact h

/-- A piece that is not empty stands in its line between boundaries. -/
theorem stands_of_mem_splitlines {p line : PyStr} (hp : p ≠ [])
    (h : p ∈ splitlines (line ++ [LF])) :
    Stands isLineBoundary p line ∧ ∀ c ∈ p, isLineBoundary c = false := by
  obtain ⟨first, rest, hsplit, ⟨b₀, hb₀, hopen₀⟩, hrest, hclean⟩ := pieces_stand (line ++ [LF])
  have hmem : p ∈ first :: rest := by
    rw [← hsplit]
    simp only [splitlines] at h
    split at h
    · exact List.dropLast_subset _ h
    · exact h
  have hfree := hclean p hmem
  obtain ⟨a, b, heq, ha, hb⟩ : ∃ a b, line ++ [LF] = a ++ (p ++ b) ∧
      Closes isLineBoundary a ∧ Opens isLineBoundary b := by
    rcases List.mem_cons.mp hmem with rfl | hmem
    · exact ⟨[], b₀, hb₀, by simp [Closes], hopen₀⟩
    · obtain ⟨a, b, heq, -, ha, hb⟩ := hrest p hmem
      exact ⟨a, b, heq, ha, hb⟩
  refine ⟨?_, hfree⟩
  cases hlast : b.reverse with
  | nil =>
      -- the piece would end in the LF that ends the line
      obtain rfl : b = [] := List.reverse_eq_nil_iff.mp hlast
      have hend := congrArg List.getLast? heq
      rw [List.append_nil, List.getLast?_append_of_ne_nil _ hp, List.getLast?_concat] at hend
      have hlf := hfree LF (List.mem_of_getLast? hend.symm)
      exact absurd hlf (by decide)
  | cons c b' =>
      obtain rfl : b = b'.reverse ++ [c] := by
        rw [← List.reverse_reverse b, hlast, List.reverse_cons]
      have hline : line = a ++ (p ++ b'.reverse) := by
        have := heq
        rw [← List.append_assoc, ← List.append_assoc, List.append_assoc a] at this
        exact (List.append_inj' this rfl).1
      refine ⟨a, b'.reverse, hline, ha, ?_⟩
      intro d hd
      refine hb d ?_
      rw [List.head?_append, hd]
      rfl

theorem strip_decompose (p : PyStr) :
    ∃ w w', p = w ++ (strip p ++ w') ∧ (∀ c ∈ w, isSpace c = true) ∧ ∀ c ∈ w', isSpace c = true := by
  refine ⟨p.takeWhile isSpace, (p.dropWhile isSpace).rtakeWhile isSpace, ?_, ?_, ?_⟩
  · unfold strip stripBy
    rw [List.rdropWhile_append_rtakeWhile, List.takeWhile_append_dropWhile]
  · exact fun c hc => List.mem_takeWhile_imp hc
  · exact fun c hc => List.mem_rtakeWhile_imp hc

theorem mem_strip_of_not_space {c : Nat} {p : PyStr} (h : c ∈ p) (hc : isSpace c = false) :
    c ∈ strip p := by
  obtain ⟨w, w', hp, hw, hw'⟩ := strip_decompose p
  rw [hp, List.mem_append, List.mem_append] at h
  rcases h with h | h | h
  · exact absurd (hw c h) (by rw [hc]; decide)
  · exact h
  · exact absurd (hw' c h) (by rw [hc]; decide)

/-- What is left of a piece when it is stripped stands between white space. -/
theorem stands_strip {p line : PyStr} (hp : strip p ≠ []) (h : p ∈ splitlines (line ++ [LF])) :
    Stands isSpace (strip p) line := by
  have hne : p ≠ [] := by
    rintro rfl
    exact hp rfl
  obtain ⟨⟨a, b, rfl, ha, hb⟩, -⟩ := stands_of_mem_splitlines hne h
  obtain ⟨w, w', heq, hw, hw'⟩ := strip_decompose p
  refine ⟨a ++ w, w' ++ b, ?_, ?_, ?_⟩
  · calc a ++ (p ++ b) = a ++ ((w ++ (strip p ++ w')) ++ b) := by rw [← heq]
      _ = a ++ w ++ (strip p ++ (w' ++ b)) := by simp only [List.append_assoc]
  · intro c hc
    rcases List.eq_nil_or_concat w with rfl | ⟨w₀, d, rfl⟩
    · rw [List.append_nil] at hc
      exact isSpace_of_isLineBoundary (ha c hc)
    · rw [List.concat_eq_append, ← List.append_assoc, List.getLast?_concat] at hc
      obtain rfl := Option.some.inj hc
      exact hw _ (by simp)
  · intro c hc
    cases w' with
    | nil => exact isSpace_of_isLineBoundary (hb c hc)
    | cons d w' =>
        obtain rfl : d = c := by simpa using hc
        exact hw' _ List.mem_cons_self

/-- A text is stripped at its two ends only. -/
theorem strip_between {before mid after : PyStr} {c d : Nat}
    (hfirst : (before.dropWhile isSpace).head? = some c)
    (hlast : (after.rdropWhile isSpace).getLast? = some d) :
    (strip (before ++ (mid ++ after))).head? = some c ∧
      (strip (before ++ (mid ++ after))).getLast? = some d := by
  obtain ⟨begun, hbegun⟩ := List.head?_eq_some_iff.mp hfirst
  obtain ⟨ended, hended⟩ := List.getLast?_eq_some_iff.mp hlast
  have hne : after.rdropWhile isSpace ≠ [] := by
    rw [hended]
    exact List.append_ne_nil_of_right_ne_nil _ (List.cons_ne_nil d [])
  have hd : isSpace d = false := by
    have hnot := List.rdropWhile_last_not isSpace after hne
    simpa only [hended, List.getLast_concat, Bool.not_eq_true] using hnot
  have hafter : after = ended ++ d :: after.rtakeWhile isSpace := by
    calc after = after.rdropWhile isSpace ++ after.rtakeWhile isSpace :=
          List.rdropWhile_append_rtakeWhile.symm
      _ = ended ++ d :: after.rtakeWhile isSpace := by
          rw [hended, List.append_assoc, List.singleton_append]
  have hspaces : (after.rtakeWhile isSpace).rdropWhile isSpace = [] :=
    List.rdropWhile_eq_nil_iff.mpr fun e he => List.mem_rtakeWhile_imp he
  have hstrip : strip (before ++ (mid ++ after)) = c :: (begun ++ (mid ++ (ended ++ [d]))) := by
    unfold strip stripBy
    rw [List.dropWhile_append, hbegun]
    calc (if (c :: begun).isEmpty then (mid ++ after).dropWhile isSpace
            else c :: begun ++ (mid ++ after)).rdropWhile isSpace
        = (c :: begun ++ (mid ++ ended) ++ d :: after.rtakeWhile isSpace).rdropWhile isSpace := by
          rw [List.isEmpty_cons, if_neg Bool.false_ne_true]
          conv => lhs; rw [hafter]
          simp only [List.append_assoc]
      _ = c :: begun ++ (mid ++ ended) ++ [d] := by
          rw [Runs.rdropWhile_append_stop hd, hspaces]
      _ = c :: (begun ++ (mid ++ (ended ++ [d]))) := by simp
  rw [hstrip]
  refine ⟨rfl, ?_⟩
  simp only [← List.append_assoc, ← List.cons_append, List.getLast?_concat]

end PwshPy
