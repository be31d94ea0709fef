import PwshPy.Files.TextFile

/-! # Texts that can be encoded

UTF-8 spells every character but a surrogate. Python keeps a byte it could not
decode as one, in a file name or an argument, so that such a text may reach an
encoder that has no spelling for it.
-/

namespace PwshPy.Files

/-- A text that UTF-8 can spell. -/
def Clean (text : PyStr) : Prop := ∀ c ∈ text, isSurrogate c = false

/-- A source literal is written in characters, and no surrogate is one. -/
theorem clean_py (s : String) : Clean (py s) := by
  intro c hc
  obtain ⟨char, -, rfl⟩ := List.mem_map.mp hc
  have hvalid : char.toNat < 0xd800 ∨ 0xdfff < char.toNat ∧ char.toNat < 0x110000 := char.valid
  rw [isSurrogate, Bool.and_eq_false_iff, decide_eq_false_iff_not, decide_eq_false_iff_not]
  omega

theorem clean_append {a b : PyStr} : Clean (a ++ b) ↔ Clean a ∧ Clean b := List.forall_mem_append

theorem clean_cons {c : Nat} {text : PyStr} :
    Clean (c :: text) ↔ isSurrogate c = false ∧ Clean text := List.forall_mem_cons

theorem clean_nil : Clean [] := fun _ hc => absurd hc List.not_mem_nil

theorem clean_flatMap {α : Type} {f : α → PyStr} {items : List α} :
    Clean (items.flatMap f) ↔ ∀ item ∈ items, Clean (f item) := by
  constructor
  · intro h item hitem c hc
    exact h c (List.mem_flatMap.mpr ⟨item, hitem, hc⟩)
  · intro h c hc
    obtain ⟨item, hitem, hmem⟩ := List.mem_flatMap.mp hc
    exact h item hitem c hmem

theorem clean_intercalate {sep : PyStr} (hsep : Clean sep) {texts : List PyStr} :
    Clean (sep.intercalate texts) ↔ ∀ text ∈ texts, Clean text := forall_mem_intercalate hsep

theorem not_surrogate_of_lt {c : Nat} (h : c < 0x80) : isSurrogate c = false := by
  rw [isSurrogate, Bool.and_eq_false_iff, decide_eq_false_iff_not]
  exact Or.inl (by omega)

/-- A text all of whose characters are ASCII. -/
theorem clean_of_lt {text : PyStr} (h : ∀ c ∈ text, c < 0x80) : Clean text :=
  fun c hc => not_surrogate_of_lt (h c hc)

theorem encode_char_isSome {c : Nat} :
    (encode_char .utf_8 c).isSome = true ↔ isSurrogate c = false := by
  unfold encode_char
  cases hc : isSurrogate c with
  | true => simp
  | false => simp

theorem encode_isSome_iff {text : PyStr} : (encode .utf_8 text).isSome = true ↔ Clean text := by
  rw [encode_isSome]
  exact forall₂_congr fun c _ => encode_char_isSome

theorem encode_eq_none_iff {text : PyStr} : encode .utf_8 text = none ↔ ¬Clean text := by
  rw [← encode_isSome_iff, Bool.not_eq_true, Option.isSome_eq_false_iff, Option.isNone_iff_eq_none]

theorem mem_joinCrLf_iff {c : Nat} (hc : c ≠ CR) {text : PyStr} : c ∈ joinCrLf text ↔ c ∈ text := by
  induction text using joinCrLf.induct with
  | case1 => rfl
  | case2 d => rfl
  | case3 d e rest hpair ih =>
      have hne : c ≠ d := fun h => hc (h.trans hpair.1)
      rw [joinCrLf, if_pos hpair, ih, List.mem_cons (a := c) (b := d), or_iff_right hne]
  | case4 d e rest hpair ih => rw [joinCrLf, if_neg hpair, List.mem_cons, ih, ← List.mem_cons]

/-- Normalizing the line ends of a text changes none of its surrogates. -/
theorem clean_normalize {text : PyStr} : Clean (normalize_newlines text [LF]) ↔ Clean text := by
  have hchar : ∀ d, Clean (if d = CR then [LF] else [d]) ↔ isSurrogate d = false := by
    intro d
    by_cases hd : d = CR
    · rw [if_pos hd, hd]
      exact iff_of_true (by unfold Clean; decide) (by decide)
    · rw [if_neg hd, clean_cons, and_iff_left clean_nil]
  have hjoin : Clean (joinCrLf text) ↔ Clean text := by
    have hmem : ∀ c, isSurrogate c = true → (c ∈ joinCrLf text ↔ c ∈ text) := by
      intro c hc
      refine mem_joinCrLf_iff fun hcr => ?_
      rw [hcr] at hc
      exact absurd hc (by decide)
    constructor
    · intro h c hc
      by_contra hsurrogate
      rw [Bool.not_eq_false] at hsurrogate
      exact absurd (h c ((hmem c hsurrogate).mpr hc)) (by rw [hsurrogate]; decide)
    · intro h c hc
      by_contra hsurrogate
      rw [Bool.not_eq_false] at hsurrogate
      exact absurd (h c ((hmem c hsurrogate).mp hc)) (by rw [hsurrogate]; decide)
  rw [normalize_newlines, if_pos rfl, replace_char, clean_flatMap, ← hjoin]
  exact forall₂_congr fun d _ => hchar d

end PwshPy.Files
