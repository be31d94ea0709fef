import PwshPy.Unpack.ColdStart

/-! # The clean switch

The switch has the cache directory removed before the lock is taken. What the
lock promises holds in the runs where that removal finds nothing.
-/

namespace PwshPy.Unpack

open Packing (Bytes RunnerFormat)
open Effects.Interleaving (Reaches step step_spec run)
open Effects.Interleaving.Config (shared_set)

variable {host : Host} {pack : Pack}

/-- A runner that comes to the removal of its clean switch finds no cache directory. -/
def FindsNothing {ι : Type} (c : Config ι) (i : ι) : Prop :=
  c.place i = .clean → c.shared.present = false

/-- The cache directory has one writer at a time, and stays as a runner verified it. -/
structure OneWriter (host : Host) (pack : Pack) {ι : Type} [DecidableEq ι]
    (allowed : Config ι → ι → Prop) (c : Config ι) : Prop where
  writers_hold : ∀ i a c', allowed c i → step (next host pack) c i a = some c' →
    c'.shared.tree ≠ c.shared.tree ∨ c'.shared.present ≠ c.shared.present → c.shared.lock = .held i
  no_mismatch : ∀ i, c.place i ≠ .mismatch
  verified_kept : ∀ i j a c', c.place i = .verified → allowed c j →
    step (next host pack) c j a = some c' → ∀ m ∈ pack.members,
      c'.shared.tree.entry m.name = c.shared.tree.entry m.name ∧
        c'.shared.tree.file m.name = c.shared.tree.file m.name

/-- In every configuration that runs lead to, whoever was given the clean switch, from a cache in
any state. -/
def CacheHasOneWriter (host : Host) (pack : Pack)
    (allowed : ∀ {ι : Type}, Config ι → ι → Prop) : Prop :=
  ∀ (ι : Type) [DecidableEq ι] (clean : ι → Bool) (first c : Config ι),
    (∀ i, first.place i = start (clean i)) → Reaches (next host pack) allowed first c →
      OneWriter host pack allowed c

theorem inv_of_reaches (hpacked : Packed host pack) (hcarried : Carried host pack) {ι : Type}
    [DecidableEq ι] {clean : ι → Bool} {first c : Config ι}
    (hfirst : ∀ i, first.place i = start (clean i))
    (hreaches : Reaches (next host pack) FindsNothing first c) : Inv host pack c :=
  hreaches.invariant (inv_start clean hfirst) fun _ _ _ _ _ hinv hfinds hnext =>
    (next_safe hpacked hcarried hinv hfinds hnext).1

section Untouched

variable {ι : Type} [DecidableEq ι] {c s : Cache ι} {i : ι} {place p : Place}

theorem present_give_up : (give_up pack i s).present = s.present := by
  unfold give_up
  split <;> rfl

theorem present_drop_handle : (drop_handle pack i s).present = s.present := by
  unfold drop_handle
  split <;> rfl

theorem proceed_untouched (hextracting : extracting place = false) (hcleaning : place ≠ .cleaning)
    (h : proceed host pack i c place = some (p, s)) : s.tree = c.tree ∧ s.present = c.present := by
  cases place with
  | extract e => cases hextracting
  | cleaning => exact absurd rfl hcleaning
  | acquire attempt =>
      simp only [proceed] at h
      repeat' split at h
      all_goals
        cases h
        exact ⟨rfl, rfl⟩
  | release verified =>
      simp only [proceed] at h
      split at h
      · cases h
        exact ⟨rfl, rfl⟩
      · cases h
        exact ⟨tree_give_up, present_give_up⟩
  | leaving =>
      cases h
      exact ⟨tree_give_up, present_give_up⟩
  | _ =>
      cases h <;> exact ⟨rfl, rfl⟩

/-- Outside an extraction and the removal of the clean switch, a step leaves the cache directory alone. -/
theorem next_untouched {a : Choice} (hextracting : extracting place = false)
    (hcleaning : place ≠ .cleaning) (h : next host pack i place c a = some (p, s)) :
    s.tree = c.tree ∧ s.present = c.present := by
  cases a with
  | go => exact proceed_untouched hextracting hcleaning h
  | unlink name =>
      have hremoving : removing place = false := by
        cases place <;> first | rfl | exact absurd rfl hcleaning | cases hextracting
      simp [next, hremoving] at h
  | bytes n =>
      have hwriting : writing pack place = none := by
        cases place <;> first | rfl | cases hextracting
      simp [next, hwriting] at h
  | leave =>
      simp only [next] at h
      split at h
      · cases h
        exact ⟨rfl, rfl⟩
      · cases h
  | die =>
      cases h
      exact ⟨tree_drop_handle, present_drop_handle⟩

end Untouched

namespace Example

/-- The cache of an earlier run. -/
def warmCache : Cache Bool where
  present := true
  tree := ⟨[(py "__pwshpy_pack_main__.py", 0), (py "a.py", 1)], fun _ => [], 2, by decide⟩
  lock := .free
  absent h := by cases h

/-- One runner verifies the tree; the other was given the clean switch and comes to its removal. -/
def toCleaning : List (Bool × Choice) := List.replicate 8 (false, .go) ++ [(true, .go)]

/-- The lock, the place of the first runner, and the removal of the script it is about to start. -/
def seenByCleaner (c : Config Bool) : Lock Bool × Place × Option Nat × Option (Option Nat) :=
  (c.shared.lock, c.place false, c.shared.tree.entry (py "a.py"),
    (step (next (hostOf plain) plain) c true (.unlink (py "a.py"))).map
      fun c' => c'.shared.tree.entry (py "a.py"))

end Example

end PwshPy.Unpack
