import PwshPy.Text.PyStr

/-! # Regular expressions

A backtracking matcher tries its ways in order: an optional part and a run are tried at their
longest first. What matters to a caller is the first way that reads the whole text.
-/

namespace PwshPy.Regex

inductive Pattern (γ : Type) where
  | char (p : Nat → Bool)
  /-- `(?=…)`, for one character -/
  | ahead (p : Nat → Bool)
  /-- `…{least,most}`, for one character -/
  | run (p : Nat → Bool) (least most : Nat)
  | seq (first second : Pattern γ)
  /-- `(?:…)?` -/
  | optional (inner : Pattern γ)
  /-- `(?P<name>…)` -/
  | group (name : γ) (inner : Pattern γ)

/-- What was captured, and what is left of the text. -/
abbrev Way (γ : Type) : Type := List (γ × PyStr) × PyStr

namespace Pattern

variable {γ : Type}

/-- The ways to match at the front of a text, as they are tried. -/
def ways : Pattern γ → PyStr → List (Way γ)
  | char p, text =>
      match text with
      | c :: rest => if p c then [([], rest)] else []
      | [] => []
  | ahead p, text =>
      match text with
      | c :: _ => if p c then [([], text)] else []
      | [] => []
  | run p least most, text =>
      let longest := min most (text.takeWhile p).length
      ((List.range (longest + 1)).reverse.filter (least ≤ ·)).map fun n => ([], text.drop n)
  | seq first second, text =>
      (first.ways text).flatMap fun way =>
        (second.ways way.2).map fun more => (way.1 ++ more.1, more.2)
  | optional inner, text => inner.ways text ++ [([], text)]
  | group name inner, text =>
      (inner.ways text).map fun way =>
        ((name, text.take (text.length - way.2.length)) :: way.1, way.2)

/-- `re.compile(pattern).fullmatch(text)`, for what it captured -/
def fullmatch (pattern : Pattern γ) (text : PyStr) : Option (List (γ × PyStr)) :=
  ((pattern.ways text).find? fun way => way.2.isEmpty).map Prod.fst

/-! ## What the ways read -/

variable {p : Nat → Bool} {text : PyStr} {way : Way γ}

theorem mem_char : way ∈ (char p).ways text ↔ ∃ c rest, text = c :: rest ∧ p c = true ∧
    way = ([], rest) := by
  cases text with
  | nil => simp [ways]
  | cons c rest =>
      by_cases h : p c = true
      · simp [ways, h]
      · simp [ways, h]

theorem mem_ahead : way ∈ (ahead p).ways text ↔ (∃ c rest, text = c :: rest ∧ p c = true) ∧
    way = ([], text) := by
  cases text with
  | nil => simp [ways]
  | cons c rest =>
      by_cases h : p c = true
      · simp [ways, h]
      · simp [ways, h]

theorem mem_run {least most : Nat} : way ∈ (run p least most).ways text ↔
    ∃ taken rest, text = taken ++ rest ∧ (∀ c ∈ taken, p c = true) ∧ least ≤ taken.length ∧
      taken.length ≤ most ∧ way = ([], rest) := by
  simp only [ways, List.mem_map, List.mem_filter, List.mem_reverse, List.mem_range,
    decide_eq_true_eq]
  constructor
  · intro h
    obtain ⟨n, ⟨hlongest, hleast⟩, rfl⟩ := h
    have hn : n ≤ (text.takeWhile p).length := by omega
    have htaken : text.take n = (text.takeWhile p).take n := by
      rw [← List.takeWhile_append_dropWhile (p := p) (l := text), List.take_append_of_le_length hn]
      simp
    refine ⟨text.take n, text.drop n, (List.take_append_drop n text).symm, ?_, ?_, ?_, rfl⟩
    · intro c hc
      rw [htaken] at hc
      exact List.mem_takeWhile_imp (List.mem_of_mem_take hc)
    · rw [htaken, List.length_take]
      omega
    · rw [htaken, List.length_take]
      omega
  · intro h
    obtain ⟨taken, rest, rfl, htaken, hleast, hmost, rfl⟩ := h
    refine ⟨taken.length, ⟨?_, hleast⟩, by simp⟩
    rw [List.takeWhile_append_of_pos htaken, List.length_append]
    omega

theorem mem_seq {first second : Pattern γ} : way ∈ (seq first second).ways text ↔
    ∃ one ∈ first.ways text, ∃ more ∈ second.ways one.2, way = (one.1 ++ more.1, more.2) := by
  simp only [ways, List.mem_flatMap, List.mem_map, @eq_comm _ way]

theorem mem_char_seq {next : Pattern γ} : way ∈ (seq (char p) next).ways text ↔
    ∃ c rest, text = c :: rest ∧ p c = true ∧ way ∈ next.ways rest := by
  rw [mem_seq]
  constructor
  · intro h
    obtain ⟨one, hone, more, hmore, rfl⟩ := h
    obtain ⟨c, rest, rfl, hc, rfl⟩ := mem_char.mp hone
    exact ⟨c, rest, rfl, hc, hmore⟩
  · intro h
    obtain ⟨c, rest, rfl, hc, hway⟩ := h
    exact ⟨([], rest), mem_char.mpr ⟨c, rest, rfl, hc, rfl⟩, way, hway, rfl⟩

theorem mem_ahead_seq {next : Pattern γ} : way ∈ (seq (ahead p) next).ways text ↔
    (∃ c rest, text = c :: rest ∧ p c = true) ∧ way ∈ next.ways text := by
  rw [mem_seq]
  constructor
  · intro h
    obtain ⟨one, hone, more, hmore, rfl⟩ := h
    obtain ⟨hahead, rfl⟩ := mem_ahead.mp hone
    exact ⟨hahead, hmore⟩
  · intro h
    exact ⟨([], text), mem_ahead.mpr ⟨h.1, rfl⟩, way, h.2, rfl⟩

theorem mem_optional {inner : Pattern γ} : way ∈ (optional inner).ways text ↔
    way ∈ inner.ways text ∨ way = ([], text) := by
  rw [ways, List.mem_append, List.mem_singleton]

theorem mem_group {name : γ} {inner : Pattern γ} : way ∈ (group name inner).ways text ↔
    ∃ one ∈ inner.ways text,
      way = ((name, text.take (text.length - one.2.length)) :: one.1, one.2) := by
  simp only [ways, List.mem_map, @eq_comm _ way]

/-- A full match is one of the ways that leave nothing. -/
theorem mem_of_fullmatch {pattern : Pattern γ} {captures : List (γ × PyStr)}
    (h : pattern.fullmatch text = some captures) : (captures, []) ∈ pattern.ways text := by
  obtain ⟨way, hway, hcaptures⟩ := Option.map_eq_some_iff.mp h
  have hempty := List.find?_some hway
  have hrest : way.2 = [] := List.isEmpty_iff.mp hempty
  rw [← hcaptures, ← hrest]
  exact List.mem_of_find?_eq_some hway

theorem fullmatch_isSome {pattern : Pattern γ} {captures : List (γ × PyStr)}
    (h : (captures, []) ∈ pattern.ways text) : (pattern.fullmatch text).isSome = true := by
  rw [fullmatch, Option.isSome_map, List.find?_isSome]
  exact ⟨_, h, rfl⟩

end Pattern

end PwshPy.Regex
