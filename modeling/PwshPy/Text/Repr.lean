import PwshPy.Text.Lines
import PwshPy.Text.Quoting

/-! # `repr` of a text

Python writes a `str` between quotes with what is not printable escaped. Which
characters are printable is a table of Unicode's; that none of them ends a line
is all that is taken from it.
-/

namespace PwshPy

open Shlex (DOUBLE_QUOTE)

/-- `str.isprintable` of one character, by a Unicode table. -/
def isprintable (table : Nat → Bool) (c : Nat) : Bool := !isLineBoundary c && table c

def hexDigit (n : Nat) : Nat := if n < 10 then 0x30 + n else 0x57 + n

/-- So many hexadecimal digits. -/
def hex : Nat → Nat → PyStr
  | 0, _ => []
  | width + 1, n => hex width (n / 16) ++ [hexDigit (n % 16)]

def reprChar (table : Nat → Bool) (quote c : Nat) : PyStr :=
  if c = quote ∨ c = BACKSLASH then [BACKSLASH, c]
  else if c = 0x09 then py "\\t"
  else if c = LF then py "\\n"
  else if c = CR then py "\\r"
  else if c < 0x20 ∨ c = 0x7f then py "\\x" ++ hex 2 c
  else if c < 0x7f ∨ isprintable table c = true then [c]
  else if c ≤ 0xff then py "\\x" ++ hex 2 c
  else if c ≤ 0xffff then py "\\u" ++ hex 4 c
  else py "\\U" ++ hex 8 c

/-- Double quotes stand around a text that holds single ones and no double one. -/
def reprQuote (s : PyStr) : Nat := if QUOTE ∈ s ∧ DOUBLE_QUOTE ∉ s then DOUBLE_QUOTE else QUOTE

/-- `repr(s)` -/
def pyRepr (table : Nat → Bool) (s : PyStr) : PyStr :=
  reprQuote s :: (s.flatMap (reprChar table (reprQuote s)) ++ [reprQuote s])

/-- A text of one line. -/
def OneLine (s : PyStr) : Prop := ∀ c ∈ s, isLineBoundary c = false

theorem OneLine.append {a b : PyStr} (ha : OneLine a) (hb : OneLine b) : OneLine (a ++ b) := by
  intro c hc
  cases List.mem_append.mp hc with
  | inl h => exact ha c h
  | inr h => exact hb c h

theorem isLineBoundary_of_visible {c : Nat} (hlow : 0x20 ≤ c) (hhigh : c < 0x7f) :
    isLineBoundary c = false := by
  have hne : c ≠ 0x85 ∧ c ≠ 0x2028 ∧ c ≠ 0x2029 := by omega
  have hlines : ¬c ≤ 0x0d ∧ ¬c ≤ 0x1e := by omega
  simp [isLineBoundary, hne, hlines]

/-! ## The characters of a `repr` -/

theorem mem_hex {width n c : Nat} (h : c ∈ hex width n) :
    (0x30 ≤ c ∧ c ≤ 0x39) ∨ (0x61 ≤ c ∧ c ≤ 0x66) := by
  induction width generalizing n with
  | zero => exact absurd h List.not_mem_nil
  | succ width ih =>
      cases List.mem_append.mp h with
      | inl hrest => exact ih hrest
      | inr hlast =>
          have hdigit : n % 16 < 16 := Nat.mod_lt n (by decide)
          rw [List.mem_singleton.mp hlast, hexDigit]
          split <;> omega

section

variable {P : Nat → Prop} (hvisible : ∀ c, 0x20 ≤ c → c < 0x7f → P c)

include hvisible

theorem forall_mem_hex (width n : Nat) : ∀ c ∈ hex width n, P c := by
  intro c hc
  have hbounds := mem_hex hc
  exact hvisible c (by omega) (by omega)

theorem forall_mem_visible {text : PyStr} (h : ∀ c ∈ text, 0x20 ≤ c ∧ c < 0x7f) :
    ∀ c ∈ text, P c := fun c hc => hvisible c (h c hc).1 (h c hc).2

theorem forall_mem_escape {mark : PyStr} (hmark : ∀ c ∈ mark, 0x20 ≤ c ∧ c < 0x7f)
    (width n : Nat) : ∀ c ∈ mark ++ hex width n, P c := by
  intro c hc
  cases List.mem_append.mp hc with
  | inl h => exact forall_mem_visible hvisible hmark c h
  | inr h => exact forall_mem_hex hvisible width n c h

variable {table : Nat → Bool} (hprintable : ∀ c, isprintable table c = true → P c)

include hprintable

theorem forall_mem_reprChar {quote : Nat} (hquote : 0x20 ≤ quote ∧ quote < 0x7f) (c : Nat) :
    ∀ d ∈ reprChar table quote c, P d := by
  unfold reprChar
  split
  · rename_i h
    refine forall_mem_visible hvisible fun d hd => ?_
    cases List.mem_cons.mp hd with
    | inl hback => exact hback ▸ (by decide)
    | inr hsame =>
        obtain rfl := List.mem_singleton.mp hsame
        cases h with
        | inl h => exact h ▸ hquote
        | inr h => exact h ▸ (by decide)
  · split
    · exact forall_mem_visible hvisible (by decide)
    · split
      · exact forall_mem_visible hvisible (by decide)
      · split
        · exact forall_mem_visible hvisible (by decide)
        · split
          · exact forall_mem_escape hvisible (by decide) 2 c
          · rename_i hcontrol
            split
            · rename_i hshown
              intro d hd
              obtain rfl := List.mem_singleton.mp hd
              cases hshown with
              | inl hascii => exact hvisible d (by omega) hascii
              | inr htable => exact hprintable d htable
            · split
              · exact forall_mem_escape hvisible (by decide) 2 c
              · split
                · exact forall_mem_escape hvisible (by decide) 4 c
                · exact forall_mem_escape hvisible (by decide) 8 c

/-- A `repr` is made of visible ASCII characters and of printable ones. -/
theorem forall_mem_pyRepr (s : PyStr) : ∀ c ∈ pyRepr table s, P c := by
  have hquote : 0x20 ≤ reprQuote s ∧ reprQuote s < 0x7f := by
    unfold reprQuote
    split <;> decide
  intro c hc
  rw [pyRepr, List.mem_cons, List.mem_append, List.mem_singleton] at hc
  obtain rfl | hbody | rfl := hc
  · exact hvisible _ hquote.1 hquote.2
  · obtain ⟨d, -, hd⟩ := List.mem_flatMap.mp hbody
    exact forall_mem_reprChar hvisible hprintable hquote d c hd
  · exact hvisible _ hquote.1 hquote.2

end

/-- Whatever the text, its `repr` is one line. -/
theorem oneLine_pyRepr (table : Nat → Bool) (s : PyStr) : OneLine (pyRepr table s) := by
  refine forall_mem_pyRepr (fun c => isLineBoundary_of_visible) (fun c hc => ?_) s
  rw [isprintable, Bool.and_eq_true, Bool.not_eq_true'] at hc
  exact hc.1

end PwshPy
