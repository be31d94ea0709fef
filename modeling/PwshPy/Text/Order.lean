import Mathlib.Data.List.Sort
import PwshPy.Text.PyStr

/-! # The order of texts

Texts are compared code point by code point, so names that were sorted once stay
in their order when they are sorted again.
-/

namespace PwshPy

theorem textLe_total (a b : PyStr) : textLe a b = true ∨ textLe b a = true := by
  induction a generalizing b with
  | nil => exact Or.inl rfl
  | cons c a ih =>
      cases b with
      | nil => exact Or.inr rfl
      | cons d b =>
          simp only [textLe, Bool.or_eq_true, Bool.and_eq_true, decide_eq_true_eq, beq_iff_eq]
          rcases Nat.lt_trichotomy c d with hlt | heq | hgt
          · exact Or.inl (Or.inl hlt)
          · exact (ih b).imp (fun h => Or.inr ⟨heq, h⟩) fun h => Or.inr ⟨heq.symm, h⟩
          · exact Or.inr (Or.inl hgt)

theorem textLe_trans {a b c : PyStr} (hab : textLe a b = true) (hbc : textLe b c = true) :
    textLe a c = true := by
  induction a generalizing b c with
  | nil => rfl
  | cons x a ih =>
      cases b with
      | nil => cases hab
      | cons y b =>
          cases c with
          | nil => cases hbc
          | cons z c =>
              simp only [textLe, Bool.or_eq_true, Bool.and_eq_true, decide_eq_true_eq,
                beq_iff_eq] at hab hbc ⊢
              rcases hab with hxy | ⟨rfl, hab⟩
              · rcases hbc with hyz | ⟨rfl, -⟩
                · exact Or.inl (hxy.trans hyz)
                · exact Or.inl hxy
              · rcases hbc with hxz | ⟨rfl, hbc⟩
                · exact Or.inl hxz
                · exact Or.inr ⟨rfl, ih hab hbc⟩

instance instTotalTextLe {α : Type} (name : α → PyStr) :
    Std.Total fun a b => textLe (name a) (name b) = true :=
  ⟨fun a b => textLe_total (name a) (name b)⟩

instance instTransTextLe {α : Type} (name : α → PyStr) :
    IsTrans α fun a b => textLe (name a) (name b) = true :=
  ⟨fun _ _ _ => textLe_trans⟩

end PwshPy
