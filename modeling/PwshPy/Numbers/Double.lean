import Mathlib.Algebra.Order.Floor.Ring
import Mathlib.Data.Int.Log
import Mathlib.Data.Rat.Floor
import Mathlib.Tactic.FieldSimp
import Mathlib.Tactic.NormNum

/-! # Doubles

The quotient of two integers as a floating-point number: rounded to 53 binary digits, to the even
neighbour where two are as near. The exponent is not bounded here.
-/

namespace PwshPy.Double

def roundHalfEven (q : ℚ) : ℤ :=
  let below := ⌊q⌋
  if q - below < 1 / 2 then below
  else if 1 / 2 < q - below then below + 1
  else if below % 2 = 0 then below
  else below + 1

/-- The last of the 53 digits of a number, as its weight. -/
def lastPlace (q : ℚ) : ℚ := 2 ^ (Int.log 2 |q| - 52)

def ofRat (q : ℚ) : ℚ := roundHalfEven (q / lastPlace q) * lastPlace q

theorem roundHalfEven_intCast (k : ℤ) : roundHalfEven k = k := by
  simp [roundHalfEven]

theorem log_natAbs (k : ℤ) : Int.log 2 |(k : ℚ)| = (Nat.log 2 k.natAbs : ℤ) := by
  have habs : |(k : ℚ)| = ((k.natAbs : ℕ) : ℚ) := by rw [Nat.cast_natAbs, Int.cast_abs]
  rw [habs, Int.log_natCast]

/-- The last place of an integer of at most 53 binary digits stands behind the point. -/
theorem lastPlace_intCast {k : ℤ} (h : |k| < 2 ^ 53) :
    ∃ n : ℕ, lastPlace k = ((2 : ℚ) ^ n)⁻¹ := by
  have hlt : k.natAbs < 2 ^ 53 := by
    rw [Int.abs_eq_natAbs] at h
    exact_mod_cast h
  have hlog : Nat.log 2 k.natAbs < 53 := Nat.log_lt_of_lt_pow' (by norm_num) hlt
  refine ⟨52 - Nat.log 2 k.natAbs, ?_⟩
  have hexp : (Nat.log 2 k.natAbs : ℤ) - 52 = -((52 - Nat.log 2 k.natAbs : ℕ) : ℤ) := by omega
  rw [lastPlace, log_natAbs, hexp, zpow_neg, zpow_natCast]

/-- An integer of at most 53 binary digits is a double. -/
theorem ofRat_intCast {k : ℤ} (h : |k| < 2 ^ 53) : ofRat k = k := by
  obtain ⟨n, hplace⟩ := lastPlace_intCast h
  have hwhole : (k : ℚ) / ((2 : ℚ) ^ n)⁻¹ = ((k * 2 ^ n : ℤ) : ℚ) := by
    push_cast
    rw [div_inv_eq_mul]
  rw [ofRat, hplace, hwhole, roundHalfEven_intCast]
  push_cast
  field_simp

end PwshPy.Double
