import PwshPy.Text.Quoting

/-! # Text in PowerShell

An array of single-quoted literals is read character by character. A string is
its UTF-16 units, which is what `Length` and `Substring` count.
-/

namespace PwshPy.PowerShell

def COMMA : Nat := 0x2c

/-! ## Arrays of literals -/

/-- How far an array has been read. Behind a quote, the next character says
whether the two stand for one or the literal has ended. -/
inductive Lexing where
  | first
  | element
  | inside (value : PyStr)
  | quoted (value : PyStr) (c : Nat)

def step (values : List PyStr) : Lexing → Nat → Option (List PyStr × Lexing)
  | .first, c => if isPowerShellQuote c then some (values, .inside []) else none
  | .element, c => if isPowerShellQuote c then some (values, .inside []) else none
  | .inside value, c =>
      if isPowerShellQuote c then some (values, .quoted value c)
      else some (values, .inside (value ++ [c]))
  | .quoted value q, c =>
      if isPowerShellQuote c then some (values, .inside (value ++ [q]))
      else if c = COMMA then some (values ++ [value], .element)
      else none

def read (values : List PyStr) (state : Lexing) (text : PyStr) : Option (List PyStr × Lexing) :=
  text.foldlM (fun (at_ : List PyStr × Lexing) c => step at_.1 at_.2 c) (values, state)

def finish : List PyStr × Lexing → Option (List PyStr)
  | (values, .first) => some values
  | (values, .quoted value _) => some (values ++ [value])
  | _ => none

/-- The elements of `@(text)`. -/
def arrayValues (text : PyStr) : Option (List PyStr) := (read [] .first text).bind finish

section

variable {values values' : List PyStr} {state state' : Lexing}

@[simp] theorem read_nil : read values state [] = some (values, state) := rfl

theorem read_cons (c : Nat) (text : PyStr) :
    read values state (c :: text) = (step values state c).bind fun r => read r.1 r.2 text := rfl

theorem read_of_read {a : PyStr} (h : read values state a = some (values', state')) (b : PyStr) :
    read values state (a ++ b) = read values' state' b := by
  unfold read at h ⊢
  rw [List.foldlM_append, h]
  rfl

theorem read_doubled (w value : PyStr) :
    read values (.inside w) (doubled value) = some (values, .inside (w ++ value)) := by
  induction value generalizing w with
  | nil => rw [List.append_nil]; rfl
  | cons c value ih =>
      have hlater := ih (w ++ [c])
      rw [List.append_assoc, List.singleton_append] at hlater
      simp only [doubled, List.flatMap_cons] at hlater ⊢
      by_cases hc : isPowerShellQuote c = true
      · simp only [hc, if_true, List.cons_append, List.nil_append, read_cons, step,
          Option.bind_some]
        exact hlater
      · simp only [hc, Bool.false_eq_true, if_false, List.singleton_append, read_cons, step,
          Option.bind_some]
        exact hlater

/-- Where an element may stand, a literal is read up to its last quote. -/
theorem read_literal (hstate : state = .first ∨ state = .element) (value : PyStr) :
    read values state (powershell_literal value) = some (values, .quoted value QUOTE) := by
  have hquote : isPowerShellQuote QUOTE = true := by decide
  have hopen : step values state QUOTE = some (values, .inside []) := by
    cases hstate with
    | inl h =>
        subst h
        rw [step, if_pos hquote]
    | inr h =>
        subst h
        rw [step, if_pos hquote]
  have hbody := @read_doubled values [] value
  rw [powershell_literal, read_cons, hopen, Option.bind_some, read_of_read hbody, read_cons, step,
    if_pos hquote]
  rfl

theorem read_array (hstate : state = .first ∨ state = .element) (value : PyStr)
    (later : List PyStr) :
    (read values state
      ([COMMA].intercalate ((value :: later).map powershell_literal))).bind finish =
        some (values ++ value :: later) := by
  induction later generalizing values state value with
  | nil =>
      rw [List.map_singleton, List.intercalate_singleton, read_literal hstate]
      rfl
  | cons next later ih =>
      have hcomma : step values (.quoted value QUOTE) COMMA =
          some (values ++ [value], .element) := rfl
      rw [List.map_cons, List.map_cons, List.intercalate_cons_cons, List.append_assoc,
        read_of_read (read_literal hstate value), List.singleton_append, read_cons, hcomma,
        Option.bind_some, ← List.map_cons, ih (Or.inr rfl), List.append_assoc,
        List.singleton_append]

end

/-! ## UTF-16 -/

/-- The units of one character. -/
def units (c : Nat) : PyStr :=
  if c < 0x10000 then [c]
  else [0xd800 + (c - 0x10000) / 0x400, 0xdc00 + (c - 0x10000) % 0x400]

def utf16 (text : PyStr) : PyStr := text.flatMap units

/-- `value.Substring(0, length)` -/
def substring (value : PyStr) (length : Nat) : PyStr := value.take length

/-- `value.TrimEnd(chars)` -/
def trimEnd (chars : List Nat) (value : PyStr) : PyStr := value.rdropWhile fun c => chars.contains c

theorem utf16_append (a b : PyStr) : utf16 (a ++ b) = utf16 a ++ utf16 b := List.flatMap_append

theorem units_ne_nil (c : Nat) : units c ≠ [] := by
  unfold units
  split <;> exact List.cons_ne_nil _ _

theorem utf16_eq_nil {text : PyStr} : utf16 text = [] ↔ text = [] := by
  cases text with
  | nil => exact ⟨fun _ => rfl, fun _ => rfl⟩
  | cons c text =>
      rw [utf16, List.flatMap_cons, List.append_eq_nil_iff]
      exact ⟨fun h => absurd h.1 (units_ne_nil c), fun h => absurd h (List.cons_ne_nil _ _)⟩

/-- What stands in front of a tail, cut off by the tail's length. -/
theorem substring_utf16 (head tail : PyStr) :
    substring (utf16 (head ++ tail)) ((utf16 (head ++ tail)).length - (utf16 tail).length) =
      utf16 head := by
  rw [substring, utf16_append, List.length_append, Nat.add_sub_cancel, List.take_left]

/-- No unit of a surrogate pair is one of these characters. -/
theorem trimEnd_utf16 {chars : List Nat} (hchars : ∀ c ∈ chars, c < 0xd800) (text : PyStr) :
    trimEnd chars (utf16 text) = utf16 (trimEnd chars text) := by
  unfold trimEnd
  induction text using List.reverseRecOn with
  | nil => rfl
  | append_singleton text c ih =>
      rw [utf16_append]
      by_cases hc : chars.contains c = true
      · have hlow : c < 0x10000 := by
          have hmem := hchars c (List.contains_iff_mem.mp hc)
          omega
        have hunits : utf16 [c] = [c] := by
          simp [utf16, units, hlow]
        rw [hunits, List.rdropWhile_concat_pos _ _ _ hc, ih, List.rdropWhile_concat_pos _ _ _ hc]
      · rw [List.rdropWhile_concat_neg _ _ _ hc, utf16_append]
        by_cases hlow : c < 0x10000
        · have hunits : utf16 [c] = [c] := by
            simp [utf16, units, hlow]
          rw [hunits, List.rdropWhile_concat_neg _ _ _ hc]
        · have hunits : utf16 [c] = [0xd800 + (c - 0x10000) / 0x400] ++
              [0xdc00 + (c - 0x10000) % 0x400] := by
            simp [utf16, units, hlow]
          have hlast : ¬chars.contains (0xdc00 + (c - 0x10000) % 0x400) = true := by
            intro hmem
            have hsmall := hchars _ (List.contains_iff_mem.mp hmem)
            omega
          rw [hunits, ← List.append_assoc, List.rdropWhile_concat_neg _ _ _ hlast]

end PwshPy.PowerShell
