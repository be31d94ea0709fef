import Mathlib.Tactic.SplitIfs

/-! # Base64

The encoder writes three bytes in four characters and pads a rest of one or two.
The decoder is the lenient one of `binascii`: what is no character of the
alphabet is skipped, and a pad that completes a group ends the text.
-/

namespace PwshPy.Bytes

/-- The character of six bits. -/
def symbol (v : Nat) : Nat :=
  if v < 26 then 0x41 + v
  else if v < 52 then 0x61 + (v - 26)
  else if v < 62 then 0x30 + (v - 52)
  else if v = 62 then 0x2b
  else 0x2f

/-- The six bits of a character. -/
def sixBits (c : Nat) : Option Nat :=
  if 0x41 ≤ c ∧ c ≤ 0x5a then some (c - 0x41)
  else if 0x61 ≤ c ∧ c ≤ 0x7a then some (c - 0x61 + 26)
  else if 0x30 ≤ c ∧ c ≤ 0x39 then some (c - 0x30 + 52)
  else if c = 0x2b then some 62
  else if c = 0x2f then some 63
  else none

/-- The pad character `=`. -/
def PAD : Nat := 0x3d

def base64 : List UInt8 → List Nat
  | [] => []
  | [a] => [symbol (a.toNat / 4), symbol (a.toNat % 4 * 16), PAD, PAD]
  | [a, b] =>
      [symbol (a.toNat / 4), symbol (a.toNat % 4 * 16 + b.toNat / 16),
        symbol (b.toNat % 16 * 4), PAD]
  | a :: b :: c :: rest =>
      symbol (a.toNat / 4) :: symbol (a.toNat % 4 * 16 + b.toNat / 16) ::
        symbol (b.toNat % 16 * 4 + c.toNat / 64) :: symbol (c.toNat % 64) :: base64 rest

/-- `a2b_base64`, behind `quad_pos` characters of a group: `leftchar` holds the
bits not written yet. None where an error is raised. -/
def a2b_base64 (quad_pos leftchar pads : Nat) : List Nat → Option (List UInt8)
  | [] => if quad_pos = 0 then some [] else none
  | c :: text =>
      if c = PAD then
        if 2 ≤ quad_pos then
          if 4 ≤ quad_pos + (pads + 1) then some []
          else a2b_base64 quad_pos leftchar (pads + 1) text
        else a2b_base64 quad_pos leftchar pads text
      else
        match sixBits c with
        | none => a2b_base64 quad_pos leftchar pads text
        | some v =>
            match quad_pos with
            | 0 => a2b_base64 1 v 0 text
            | 1 =>
                (a2b_base64 2 (v % 16) 0 text).map (UInt8.ofNat (leftchar * 4 + v / 16) :: ·)
            | 2 =>
                (a2b_base64 3 (v % 4) 0 text).map (UInt8.ofNat (leftchar * 16 + v / 4) :: ·)
            | _ => (a2b_base64 0 0 0 text).map (UInt8.ofNat (leftchar * 64 + v) :: ·)

/-- `base64.b64decode` of a text. -/
def b64decode (text : List Nat) : Option (List UInt8) :=
  if text.all (· < 0x80) then a2b_base64 0 0 0 text else none

theorem symbol_lt (v : Nat) : symbol v < 0x80 := by
  unfold symbol
  split
  · omega
  · split
    · omega
    · split
      · omega
      · split <;> omega

theorem sixBits_symbol {v : Nat} (h : v < 64) : sixBits (symbol v) = some v := by
  unfold symbol
  by_cases h1 : v < 26
  · have hupper : 0x41 ≤ 0x41 + v ∧ 0x41 + v ≤ 0x5a := by omega
    rw [if_pos h1, sixBits, if_pos hupper]
    congr 1
    omega
  · by_cases h2 : v < 52
    · have hupper : ¬(0x41 ≤ 0x61 + (v - 26) ∧ 0x61 + (v - 26) ≤ 0x5a) := by omega
      have hlower : 0x61 ≤ 0x61 + (v - 26) ∧ 0x61 + (v - 26) ≤ 0x7a := by omega
      rw [if_neg h1, if_pos h2, sixBits, if_neg hupper, if_pos hlower]
      congr 1
      omega
    · by_cases h3 : v < 62
      · have hupper : ¬(0x41 ≤ 0x30 + (v - 52) ∧ 0x30 + (v - 52) ≤ 0x5a) := by omega
        have hlower : ¬(0x61 ≤ 0x30 + (v - 52) ∧ 0x30 + (v - 52) ≤ 0x7a) := by omega
        have hdigit : 0x30 ≤ 0x30 + (v - 52) ∧ 0x30 + (v - 52) ≤ 0x39 := by omega
        rw [if_neg h1, if_neg h2, if_pos h3, sixBits, if_neg hupper, if_neg hlower, if_pos hdigit]
        congr 1
        omega
      · rw [if_neg h1, if_neg h2, if_neg h3]
        by_cases h4 : v = 62
        · subst h4
          rfl
        · have hlast : v = 63 := by omega
          subst hlast
          rfl

theorem symbol_ne_pad {v : Nat} (h : v < 64) : symbol v ≠ PAD := by
  intro hpad
  have hread := sixBits_symbol h
  rw [hpad] at hread
  cases hread

section

variable {v leftchar pads : Nat} (h : v < 64) (text : List Nat)
include h

theorem a2b_first : a2b_base64 0 leftchar pads (symbol v :: text) = a2b_base64 1 v 0 text := by
  rw [a2b_base64, if_neg (symbol_ne_pad h), sixBits_symbol h]
  rfl

theorem a2b_second : a2b_base64 1 leftchar pads (symbol v :: text) =
    (a2b_base64 2 (v % 16) 0 text).map (UInt8.ofNat (leftchar * 4 + v / 16) :: ·) := by
  rw [a2b_base64, if_neg (symbol_ne_pad h), sixBits_symbol h]
  rfl

theorem a2b_third : a2b_base64 2 leftchar pads (symbol v :: text) =
    (a2b_base64 3 (v % 4) 0 text).map (UInt8.ofNat (leftchar * 16 + v / 4) :: ·) := by
  rw [a2b_base64, if_neg (symbol_ne_pad h), sixBits_symbol h]
  rfl

theorem a2b_fourth : a2b_base64 3 leftchar pads (symbol v :: text) =
    (a2b_base64 0 0 0 text).map (UInt8.ofNat (leftchar * 64 + v) :: ·) := by
  rw [a2b_base64, if_neg (symbol_ne_pad h), sixBits_symbol h]
  rfl

end

theorem ofNat_eq {n : Nat} {a : UInt8} (h : n = a.toNat) : UInt8.ofNat n = a := by
  rw [h, UInt8.ofNat_toNat]

/-- Behind whole groups the decoder is where it began. -/
theorem a2b_base64_base64 (data : List UInt8) : a2b_base64 0 0 0 (base64 data) = some data := by
  induction data using base64.induct with
  | case1 => rfl
  | case2 a =>
      have ha := a.toNat_lt
      have hbyte : a.toNat / 4 * 4 + a.toNat % 4 * 16 / 16 = a.toNat := by omega
      rw [base64, a2b_first (by omega), a2b_second (by omega), ofNat_eq hbyte]
      rfl
  | case3 a b =>
      have ha := a.toNat_lt
      have hb := b.toNat_lt
      have hfirst : a.toNat / 4 * 4 + (a.toNat % 4 * 16 + b.toNat / 16) / 16 = a.toNat := by omega
      have hsecond : (a.toNat % 4 * 16 + b.toNat / 16) % 16 * 16 + b.toNat % 16 * 4 / 4 =
          b.toNat := by omega
      rw [base64, a2b_first (by omega), a2b_second (by omega), a2b_third (by omega),
        ofNat_eq hfirst, ofNat_eq hsecond]
      rfl
  | case4 a b c rest ih =>
      have ha := a.toNat_lt
      have hb := b.toNat_lt
      have hc := c.toNat_lt
      have hfirst : a.toNat / 4 * 4 + (a.toNat % 4 * 16 + b.toNat / 16) / 16 = a.toNat := by omega
      have hsecond : (a.toNat % 4 * 16 + b.toNat / 16) % 16 * 16 +
          (b.toNat % 16 * 4 + c.toNat / 64) / 4 = b.toNat := by omega
      have hthird : (b.toNat % 16 * 4 + c.toNat / 64) % 4 * 64 + c.toNat % 64 = c.toNat := by
        omega
      rw [base64, a2b_first (by omega), a2b_second (by omega), a2b_third (by omega),
        a2b_fourth (by omega), ih, ofNat_eq hfirst, ofNat_eq hsecond, ofNat_eq hthird]
      rfl

/-- Every character of an encoded text is one of the alphabet or a pad. -/
theorem mem_base64 {data : List UInt8} {c : Nat} (h : c ∈ base64 data) :
    c = PAD ∨ ∃ v, c = symbol v := by
  induction data using base64.induct with
  | case1 => cases h
  | case2 a =>
      simp only [base64, List.mem_cons, List.not_mem_nil, or_false] at h
      rcases h with h | h | h | h
      · exact Or.inr ⟨_, h⟩
      · exact Or.inr ⟨_, h⟩
      · exact Or.inl h
      · exact Or.inl h
  | case3 a b =>
      simp only [base64, List.mem_cons, List.not_mem_nil, or_false] at h
      rcases h with h | h | h | h
      · exact Or.inr ⟨_, h⟩
      · exact Or.inr ⟨_, h⟩
      · exact Or.inr ⟨_, h⟩
      · exact Or.inl h
  | case4 a b c rest ih =>
      simp only [base64, List.mem_cons] at h
      rcases h with h | h | h | h | h
      · exact Or.inr ⟨_, h⟩
      · exact Or.inr ⟨_, h⟩
      · exact Or.inr ⟨_, h⟩
      · exact Or.inr ⟨_, h⟩
      · exact ih h

/-- The alphabet: letters, digits and two signs. -/
theorem symbol_range (v : Nat) : (0x41 ≤ symbol v ∧ symbol v ≤ 0x5a) ∨
    (0x61 ≤ symbol v ∧ symbol v ≤ 0x7a) ∨ (0x30 ≤ symbol v ∧ symbol v ≤ 0x39) ∨
    symbol v = 0x2b ∨ symbol v = 0x2f := by
  unfold symbol
  split
  · omega
  · split
    · omega
    · split
      · omega
      · split <;> omega

theorem symbol_ne_bar (v : Nat) : symbol v ≠ 0x7c := by
  have hrange := symbol_range v
  omega

theorem lt_of_mem_base64 {data : List UInt8} {c : Nat} (h : c ∈ base64 data) : c < 0x80 := by
  cases mem_base64 h with
  | inl hpad => rw [hpad]; decide
  | inr hsymbol =>
      obtain ⟨v, rfl⟩ := hsymbol
      exact symbol_lt v

theorem b64decode_base64 (data : List UInt8) : b64decode (base64 data) = some data := by
  have hascii : (base64 data).all (· < 0x80) = true :=
    List.all_eq_true.mpr fun c hc => decide_eq_true (lt_of_mem_base64 hc)
  rw [b64decode, if_pos hascii, a2b_base64_base64]

theorem length_a2b_base64 {quad_pos leftchar pads : Nat} {text : List Nat} {data : List UInt8}
    (h : a2b_base64 quad_pos leftchar pads text = some data) : data.length ≤ text.length := by
  induction text generalizing quad_pos leftchar pads data with
  | nil =>
      rw [a2b_base64] at h
      split at h
      · cases h
        exact Nat.le_refl _
      · cases h
  | cons c text ih =>
      have hskip : ∀ {q l p}, a2b_base64 q l p text = some data →
          data.length ≤ (c :: text).length := fun h => Nat.le_succ_of_le (ih h)
      have hwrite : ∀ {q l p} {b : UInt8}, (a2b_base64 q l p text).map (b :: ·) = some data →
          data.length ≤ (c :: text).length := by
        intro q l p b h
        obtain ⟨rest, hrest, rfl⟩ := Option.map_eq_some_iff.mp h
        exact Nat.succ_le_succ (ih hrest)
      rw [a2b_base64] at h
      split_ifs at h
      · cases h
        exact Nat.zero_le _
      · exact hskip h
      · exact hskip h
      · split at h
        · exact hskip h
        · split at h
          · exact hskip h
          · exact hwrite h
          · exact hwrite h
          · exact hwrite h

theorem symbol_sixBits {c v : Nat} (h : sixBits c = some v) : c = symbol v := by
  unfold sixBits at h
  unfold symbol
  split_ifs at h with h1 h2 h3 h4 h5
  · cases h
    rw [if_pos (by omega)]
    omega
  · cases h
    rw [if_neg (by omega), if_pos (by omega)]
    omega
  · cases h
    rw [if_neg (by omega), if_neg (by omega), if_pos (by omega)]
    omega
  · cases h
    exact h4
  · cases h
    exact h5

theorem isSome_sixBits_symbol (v : Nat) : (sixBits (symbol v)).isSome = true := by
  have hrange := symbol_range v
  unfold sixBits
  split_ifs with h1 h2 h3 h4 h5
  · rfl
  · rfl
  · rfl
  · rfl
  · rfl
  · omega

end PwshPy.Bytes
