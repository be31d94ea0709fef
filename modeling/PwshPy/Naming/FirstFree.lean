import Mathlib.Data.Finset.Card
import Mathlib.Data.Finset.Image

/-! # The first free name

A sequence of names without repetitions, tried one after the other until one is
not taken. Of any `n + 1` of them one is not among `n` taken names, so the
search ends.
-/

namespace PwshPy.Naming

variable {α : Type} [DecidableEq α] {names : Nat → α} {taken : List α}

/-- The first name from the `n`-th on that is not taken, searched for so many rounds. -/
def searchFree (names : Nat → α) (taken : List α) : Nat → Nat → Option α
  | 0, _ => none
  | rounds + 1, n =>
      if names n ∈ taken then searchFree names taken rounds (n + 1) else some (names n)

/-- The first name from the `n`-th on that is not taken. -/
def firstFree (names : Nat → α) (taken : List α) (n : Nat) : α :=
  (searchFree names taken (taken.length + 1) n).getD (names n)

theorem searchFree_eq_some {rounds n : Nat} {a : α}
    (h : searchFree names taken rounds n = some a) : a ∉ taken ∧ ∃ k, a = names k := by
  induction rounds generalizing n with
  | zero => simp [searchFree] at h
  | succ rounds ih =>
      by_cases hn : names n ∈ taken
      · rw [searchFree, if_pos hn] at h
        exact ih h
      · rw [searchFree, if_neg hn] at h
        cases h
        exact ⟨hn, n, rfl⟩

theorem taken_of_searchFree_eq_none {rounds n : Nat}
    (h : searchFree names taken rounds n = none) {k : Nat} (hk : k < rounds) :
    names (n + k) ∈ taken := by
  induction rounds generalizing n k with
  | zero => omega
  | succ rounds ih =>
      by_cases hn : names n ∈ taken
      · rw [searchFree, if_pos hn] at h
        cases k with
        | zero => exact hn
        | succ k =>
            have hlater := ih h (show k < rounds by omega)
            rwa [Nat.add_assoc, Nat.add_comm 1 k] at hlater
      · rw [searchFree, if_neg hn] at h
        cases h

/-- The search ends: the taken names do not go round. -/
theorem searchFree_isSome (hnames : Function.Injective names) {rounds : Nat}
    (hrounds : taken.length < rounds) (n : Nat) : (searchFree names taken rounds n).isSome := by
  rw [← Option.ne_none_iff_isSome]
  intro hnone
  have hsubset : (Finset.range rounds).image (fun k => names (n + k)) ⊆ taken.toFinset := by
    intro a ha
    obtain ⟨k, hk, rfl⟩ := Finset.mem_image.mp ha
    exact List.mem_toFinset.mpr (taken_of_searchFree_eq_none hnone (Finset.mem_range.mp hk))
  have hinjective : Function.Injective (fun k => names (n + k)) := by
    intro i j h
    have := hnames h
    omega
  have hcard := Finset.card_le_card hsubset
  rw [Finset.card_image_of_injective _ hinjective, Finset.card_range] at hcard
  have := taken.toFinset_card_le
  omega

theorem firstFree_eq_search (hnames : Function.Injective names) (n : Nat) :
    searchFree names taken (taken.length + 1) n = some (firstFree names taken n) := by
  obtain ⟨a, ha⟩ := Option.isSome_iff_exists.mp
    (searchFree_isSome hnames (Nat.lt_succ_self taken.length) n)
  rw [firstFree, ha]
  rfl

theorem firstFree_not_mem (hnames : Function.Injective names) (n : Nat) :
    firstFree names taken n ∉ taken :=
  (searchFree_eq_some (firstFree_eq_search hnames n)).1

theorem firstFree_eq_name (hnames : Function.Injective names) (n : Nat) :
    ∃ k, firstFree names taken n = names k :=
  (searchFree_eq_some (firstFree_eq_search hnames n)).2

end PwshPy.Naming
