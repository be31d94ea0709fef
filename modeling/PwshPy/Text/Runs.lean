import Mathlib.Data.List.DropRight

/-! # Runs

A scanner takes the longest run of one kind of character and goes on behind it.
What it takes is settled by the first character that is of another kind.
-/

namespace PwshPy.Runs

variable {α : Type} {p : α → Bool}

/-- A text that does not go on with a run. -/
def Stops (p : α → Bool) (rest : List α) : Prop := ∀ c, rest.head? = some c → p c = false

theorem stops_cons {c : α} {rest : List α} : Stops p (c :: rest) ↔ p c = false := by
  constructor
  · intro h
    exact h c rfl
  · intro h d hd
    cases hd
    exact h

theorem Stops.append {run rest : List α} (hrun : ∀ c ∈ run, p c = false) (h : Stops p rest) :
    Stops p (run ++ rest) := by
  cases run with
  | nil => exact h
  | cons c run => exact stops_cons.mpr (hrun c List.mem_cons_self)

theorem stops_dropWhile (p : α → Bool) (s : List α) : Stops p (s.dropWhile p) := by
  intro c hc
  have hne : s.dropWhile p ≠ [] := by
    intro hnil
    rw [hnil] at hc
    cases hc
  have hnot := List.head_dropWhile_not p hne
  rw [List.head?_eq_some_head hne] at hc
  cases hc
  simpa using hnot

theorem takeWhile_stops {rest : List α} (h : Stops p rest) : rest.takeWhile p = [] := by
  cases rest with
  | nil => rfl
  | cons c rest => exact List.takeWhile_cons_of_neg (by simp [stops_cons.mp h])

theorem dropWhile_stops {rest : List α} (h : Stops p rest) : rest.dropWhile p = rest := by
  cases rest with
  | nil => rfl
  | cons c rest => exact List.dropWhile_cons_of_neg (by simp [stops_cons.mp h])

/-- A run is taken whole when nothing behind it goes on with it. -/
theorem takeWhile_run {run rest : List α} (hrun : ∀ c ∈ run, p c = true) (hrest : Stops p rest) :
    (run ++ rest).takeWhile p = run := by
  rw [List.takeWhile_append_of_pos hrun, takeWhile_stops hrest, List.append_nil]

theorem dropWhile_run {run rest : List α} (hrun : ∀ c ∈ run, p c = true) (hrest : Stops p rest) :
    (run ++ rest).dropWhile p = rest := by
  rw [List.dropWhile_append_of_pos hrun, dropWhile_stops hrest]

theorem mem_takeWhile {s : List α} {c : α} (h : c ∈ s.takeWhile p) : p c = true :=
  List.mem_takeWhile_imp h

/-- The last character that is not of the run ends what is kept from the right. -/
theorem rdropWhile_append_stop {c : α} (h : p c = false) (s rest : List α) :
    (s ++ c :: rest).rdropWhile p = s ++ c :: rest.rdropWhile p := by
  induction rest using List.reverseRecOn with
  | nil =>
      have hkept := List.rdropWhile_concat_neg p s c (by simp [h])
      rw [hkept]
      rfl
  | append_singleton rest d ih =>
      have hjoin : s ++ c :: (rest ++ [d]) = s ++ c :: rest ++ [d] := by simp
      by_cases hd : p d = true
      · rw [hjoin, List.rdropWhile_concat_pos _ _ _ hd, List.rdropWhile_concat_pos _ _ _ hd, ih]
      · rw [hjoin, List.rdropWhile_concat_neg _ _ _ hd, List.rdropWhile_concat_neg _ _ _ hd, hjoin]

/-! ## What stands in a text cut at a character of another kind -/

/-- A word without `c` that stands in a text stands on one side of each `c`. -/
theorem infix_append_cons {word a b : List α} {c : α} (hc : c ∉ word) :
    word <:+: a ++ c :: b ↔ word <:+: a ∨ word <:+: b := by
  constructor
  · intro h
    obtain ⟨before, after, heq⟩ := h
    rw [List.append_assoc, List.append_eq_append_iff] at heq
    cases heq with
    | inl h =>
        obtain ⟨piece, ha, hword⟩ := h
        rw [List.append_eq_append_iff] at hword
        cases hword with
        | inl h =>
            obtain ⟨more, hpiece, -⟩ := h
            refine Or.inl ⟨before, more, ?_⟩
            rw [ha, hpiece, List.append_assoc]
        | inr h =>
            obtain ⟨more, hword, hafter⟩ := h
            cases more with
            | nil =>
                refine Or.inl ⟨before, [], ?_⟩
                rw [ha, hword]
                simp
            | cons d more =>
                cases hafter
                exact absurd (by rw [hword]; simp) hc
    | inr h =>
        obtain ⟨piece, hbefore, hcb⟩ := h
        cases piece with
        | nil =>
            cases word with
            | nil => exact Or.inl (List.nil_infix)
            | cons d word =>
                cases hcb
                exact absurd List.mem_cons_self hc
        | cons d piece =>
            cases hcb
            exact Or.inr ⟨piece, after, List.append_assoc ..⟩
  · intro h
    cases h with
    | inl h => exact h.trans (List.infix_append' [] a (c :: b))
    | inr h => exact h.trans ((List.suffix_cons c b).isInfix.trans (List.suffix_append a _).isInfix)

/-- A word without `c` that begins a text begins what stands in front of a `c`. -/
theorem prefix_append_cons {word a b : List α} {c : α} (hc : c ∉ word) :
    word <+: a ++ c :: b ↔ word <+: a := by
  constructor
  · intro h
    obtain hshort | hlong := List.prefix_or_prefix_of_prefix h (List.prefix_append a (c :: b))
    · exact hshort
    · obtain ⟨more, rfl⟩ := hlong
      rw [List.prefix_append_right_inj] at h
      cases more with
      | nil => simp
      | cons d more =>
          obtain ⟨rfl, -⟩ := List.cons_prefix_cons.mp h
          exact absurd (by simp) hc
  · intro h
    exact h.trans (List.prefix_append a _)

/-- Two texts that agree agree on what stands before the first `c` and on what follows it. -/
theorem prefix_of_cut {a b rest more : List α} {c : α} (ha : c ∉ a) (hb : c ∉ b)
    (h : a ++ c :: rest <+: b ++ c :: more) : a = b ∧ rest <+: more := by
  induction a generalizing b with
  | nil =>
      cases b with
      | nil => exact ⟨rfl, (List.cons_prefix_cons.mp h).2⟩
      | cons d b =>
          obtain ⟨rfl, -⟩ := List.cons_prefix_cons.mp h
          exact absurd List.mem_cons_self hb
  | cons d a ih =>
      cases b with
      | nil =>
          obtain ⟨rfl, -⟩ := List.cons_prefix_cons.mp h
          exact absurd List.mem_cons_self ha
      | cons e b =>
          obtain ⟨rfl, htail⟩ := List.cons_prefix_cons.mp h
          obtain ⟨rfl, hrest⟩ := ih (fun hc => ha (List.mem_cons_of_mem _ hc))
            (fun hc => hb (List.mem_cons_of_mem _ hc)) htail
          exact ⟨rfl, hrest⟩

end PwshPy.Runs
