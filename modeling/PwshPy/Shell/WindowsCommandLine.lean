import PwshPy.Text.PyStr

/-! # Windows command lines

A program gets one line and splits it itself. A run of backslashes is plain
unless a quotation mark follows it: then each pair stands for one, and an odd one
makes the mark a character. The readers differ only in what a mark means right
behind the one that closes a quoted part.
-/

namespace PwshPy.Shell.Windows

def SPACE : Nat := 0x20
def TAB : Nat := 0x09
def SOLIDUS : Nat := 0x5c
def MARK : Nat := 0x22

/-- What a quotation mark behind a closing one makes of the two. -/
inductive Doubled where
  /-- one mark, and the part stays quoted: the C runtime since 2008 -/
  | stays
  /-- one mark, and the part is closed: `CommandLineToArgvW` and older runtimes -/
  | leaves
  /-- nothing, the second opens a new part -/
  | reopens

def backslashes (n : Nat) : PyStr := List.replicate n SOLIDUS

/-- The arguments of a text behind the program's name: inside quotation marks or
not, behind a run of backslashes, with what the argument holds so far, if one
has begun. -/
def split (rule : Doubled) (quoted : Bool) (run : Nat) (current : Option PyStr) :
    PyStr → List PyStr
  | [] => (current.map (· ++ backslashes run)).toList
  | c :: rest =>
      if c = SOLIDUS then split rule quoted (run + 1) (some (current.getD [])) rest
      else if c = MARK then
        let before := current.getD [] ++ backslashes (run / 2)
        if run % 2 = 1 then split rule quoted 0 (some (before ++ [MARK])) rest
        else if quoted then
          match rest with
          | [] => split rule false 0 (some before) []
          | d :: later =>
              if d = MARK then
                match rule with
                | .stays => split rule true 0 (some (before ++ [MARK])) later
                | .leaves => split rule false 0 (some (before ++ [MARK])) later
                | .reopens => split rule false 0 (some before) (d :: later)
              else split rule false 0 (some before) (d :: later)
        else split rule true 0 (some before) rest
      else if quoted = false ∧ (c = SPACE ∨ c = TAB) then
        (current.map (· ++ backslashes run)).toList ++ split rule false 0 none rest
      else split rule quoted 0 (some (current.getD [] ++ backslashes run ++ [c])) rest

/-- The arguments of a text. -/
def arguments (rule : Doubled) (text : PyStr) : List PyStr := split rule false 0 none text

/-- What may stand behind an argument. -/
inductive Ends : PyStr → Prop where
  | nil : Ends []
  | space (rest : PyStr) : Ends (SPACE :: rest)

/-- The arguments of a text that begins behind an argument. -/
def following (rule : Doubled) : PyStr → List PyStr
  | [] => []
  | _ :: rest => arguments rule rest

section

variable {rule : Doubled} {quoted : Bool} {run : Nat} {current : PyStr}

theorem split_backslash (rest : PyStr) : split rule quoted run (some current) (SOLIDUS :: rest) =
    split rule quoted (run + 1) (some current) rest := by
  rw [split, if_pos rfl]
  rfl

theorem split_backslashes (n : Nat) (rest : PyStr) :
    split rule quoted run (some current) (backslashes n ++ rest) =
      split rule quoted (run + n) (some current) rest := by
  induction n generalizing run with
  | zero => rfl
  | succ n ih =>
      rw [backslashes, List.replicate_succ, List.cons_append, split_backslash]
      have hrest := @ih (run + 1)
      rw [show run + (n + 1) = run + 1 + n by omega]
      exact hrest

/-- A character that is neither a backslash nor a mark, where it ends nothing. -/
theorem split_char {c : Nat} (hslash : c ≠ SOLIDUS) (hmark : c ≠ MARK)
    (hplain : quoted = true ∨ (c ≠ SPACE ∧ c ≠ TAB)) (rest : PyStr) :
    split rule quoted run (some current) (c :: rest) =
      split rule quoted 0 (some (current ++ backslashes run ++ [c])) rest := by
  have hblank : ¬(quoted = false ∧ (c = SPACE ∨ c = TAB)) := by
    rintro ⟨hquoted, hc⟩
    cases hplain with
    | inl h => rw [h] at hquoted; cases hquoted
    | inr h => cases hc with
      | inl hspace => exact h.1 hspace
      | inr htab => exact h.2 htab
  rw [split, if_neg hslash, if_neg hmark, if_neg hblank]
  rfl

/-- Behind an odd run a mark is a character. -/
theorem split_escaped_mark (n : Nat) (rest : PyStr) :
    split rule quoted (2 * n + 1) (some current) (MARK :: rest) =
      split rule quoted 0 (some (current ++ backslashes n ++ [MARK])) rest := by
  have hslash : MARK ≠ SOLIDUS := by decide
  have hhalf : (2 * n + 1) / 2 = n := by omega
  have hodd : (2 * n + 1) % 2 = 1 := by omega
  rw [split, if_neg hslash, if_pos rfl, hhalf, if_pos hodd]
  rfl

theorem split_end {tail : PyStr} (h : Ends tail) : split rule false run (some current) tail =
    (current ++ backslashes run) :: following rule tail := by
  cases h with
  | nil => rfl
  | space rest =>
      have hslash : SPACE ≠ SOLIDUS := by decide
      have hmark : SPACE ≠ MARK := by decide
      rw [split, if_neg hslash, if_neg hmark, if_pos ⟨rfl, Or.inl rfl⟩]
      rfl

/-- Behind an even run a mark closes, whatever a second one would mean. -/
theorem split_closing_mark (n : Nat) {tail : PyStr} (h : Ends tail) :
    split rule true (2 * n) (some current) (MARK :: tail) =
      (current ++ backslashes n) :: following rule tail := by
  have hslash : MARK ≠ SOLIDUS := by decide
  have hhalf : 2 * n / 2 = n := by omega
  have heven : ¬2 * n % 2 = 1 := by omega
  have hclosed : split rule false 0 (some (current ++ backslashes n)) tail =
      (current ++ backslashes n) :: following rule tail := by
    rw [split_end h]
    simp [backslashes]
  rw [split, if_neg hslash, if_pos rfl, hhalf, if_neg heven, if_pos rfl]
  cases h with
  | nil => exact hclosed
  | space rest => exact hclosed

/-- Where an argument begins, a plain character begins it. -/
theorem split_begin {c : Nat} (hmark : c ≠ MARK) (hblank : c ≠ SPACE ∧ c ≠ TAB) (rest : PyStr) :
    split rule false run none (c :: rest) = split rule false run (some []) (c :: rest) := by
  have hplain : ¬(false = false ∧ (c = SPACE ∨ c = TAB)) := by
    rintro ⟨-, hc⟩
    cases hc with
    | inl hspace => exact hblank.1 hspace
    | inr htab => exact hblank.2 htab
  rw [split, split, if_neg hmark, if_neg hmark, if_neg hplain, if_neg hplain]
  rfl

theorem split_opening_mark (rest : PyStr) :
    split rule false 0 none (MARK :: rest) = split rule true 0 (some []) rest := by
  have hslash : MARK ≠ SOLIDUS := by decide
  rw [split, if_neg hslash, if_pos rfl]
  rfl

end

end PwshPy.Shell.Windows
