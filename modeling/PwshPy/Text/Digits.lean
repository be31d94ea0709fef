import PwshPy.Text.PyStr

/-! # Digits of every script

`str.isdigit` takes more than `int` reads: a superscript or a circled digit is a
digit without a decimal value, and a text of very many digits is refused.
-/

namespace PwshPy

/-- What an interpreter knows of digits: its Unicode tables, and how many digits `int` reads. -/
structure Interpreter where
  /-- `unicodedata.decimal` -/
  decimal : Nat → Option Nat
  /-- whether `str.isdigit` takes the character -/
  digit : Nat → Bool
  /-- `sys.get_int_max_str_digits()`, 0 for no limit -/
  max_str_digits : Nat
  decimal_lt : ∀ c d, decimal c = some d → d < 10
  digit_of_decimal : ∀ c, (decimal c).isSome → digit c = true

namespace Interpreter

variable (python : Interpreter)

def isdigit (text : PyStr) : Bool := !text.isEmpty && text.all python.digit

/-- The number that decimal digits spell. -/
def number (text : PyStr) : Option Nat :=
  (text.mapM python.decimal).map fun digits => digits.foldl (fun n d => 10 * n + d) 0

/-- Whether `int` reads a text of so many digits. -/
def fits (text : PyStr) : Prop :=
  python.max_str_digits = 0 ∨ text.length ≤ python.max_str_digits

instance (text : PyStr) : Decidable (python.fits text) := inferInstanceAs (Decidable (_ ∨ _))

/-- `int(text)` of a text of digits, `none` for its `ValueError`. -/
def int (text : PyStr) : Option Nat := if python.fits text then python.number text else none

theorem int_eq_some {python : Interpreter} {text : PyStr} {n : Nat} :
    python.int text = some n ↔ python.fits text ∧ python.number text = some n := by
  rw [int]
  split <;> simp_all

end Interpreter

/-! ## Unicode 14 -/

/-- The zeros of the decimal digits; each script's ten stand in a row. -/
def decimalZeros : List Nat :=
  [0x30, 0x660, 0x6f0, 0x7c0, 0x966, 0x9e6, 0xa66, 0xae6, 0xb66, 0xbe6, 0xc66, 0xce6, 0xd66, 0xde6,
    0xe50, 0xed0, 0xf20, 0x1040, 0x1090, 0x17e0, 0x1810, 0x1946, 0x19d0, 0x1a80, 0x1a90, 0x1b50,
    0x1bb0, 0x1c40, 0x1c50, 0xa620, 0xa8d0, 0xa900, 0xa9d0, 0xa9f0, 0xaa50, 0xabf0, 0xff10, 0x104a0,
    0x10d30, 0x11066, 0x110f0, 0x11136, 0x111d0, 0x112f0, 0x11450, 0x114d0, 0x11650, 0x116c0,
    0x11730, 0x118e0, 0x11950, 0x11c50, 0x11d50, 0x11da0, 0x16a60, 0x16ac0, 0x16b50, 0x1d7ce,
    0x1d7d8, 0x1d7e2, 0x1d7ec, 0x1d7f6, 0x1e140, 0x1e2f0, 0x1e950, 0x1fbf0]

/-- The digits without a decimal value: superscripts, subscripts, circled ones and the like. -/
def otherDigits : List (Nat × Nat) :=
  [(0xb2, 0xb3), (0xb9, 0xb9), (0x1369, 0x1371), (0x19da, 0x19da), (0x2070, 0x2070),
    (0x2074, 0x2079), (0x2080, 0x2089), (0x2460, 0x2468), (0x2474, 0x247c), (0x2488, 0x2490),
    (0x24ea, 0x24ea), (0x24f5, 0x24fd), (0x24ff, 0x24ff), (0x2776, 0x277e), (0x2780, 0x2788),
    (0x278a, 0x2792), (0x10a40, 0x10a43), (0x10e60, 0x10e68), (0x11052, 0x1105a),
    (0x1f100, 0x1f10a)]

def decimalValue (c : Nat) : Option Nat :=
  (decimalZeros.find? fun first => first ≤ c && c < first + 10).map (c - ·)

/-- The interpreter with its tables and its limit as they come. -/
def unicode14 : Interpreter where
  decimal := decimalValue
  digit c := (decimalValue c).isSome || otherDigits.any fun range => range.1 ≤ c && c ≤ range.2
  max_str_digits := 4300
  decimal_lt := by
    intro c d h
    obtain ⟨first, hfirst, rfl⟩ := Option.map_eq_some_iff.mp h
    have hin := List.find?_some hfirst
    simp only [Bool.and_eq_true, decide_eq_true_eq] at hin
    omega
  digit_of_decimal c h := by rw [h, Bool.true_or]

/-- A superscript two is a digit that `int` does not read. -/
example : unicode14.isdigit [0xb2] = true ∧ unicode14.int [0xb2] = none ∧
    unicode14.int [0x664, 0x32] = some 42 := by decide

end PwshPy
