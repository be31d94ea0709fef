import Mathlib.Logic.Function.Basic

/-! # Interleaved processes

Any number of processes run one program against a shared state. A step of one
process changes the shared state and that process's place in the program, and
nothing else; which process steps next, and which of its choices it takes, is
open.
-/

namespace PwshPy.Effects.Interleaving

/-- The shared state and the place of each process in the program. -/
structure Config (ι π σ : Type) where
  place : ι → π
  shared : σ

variable {ι π σ α : Type} [DecidableEq ι]

namespace Config

def set (c : Config ι π σ) (i : ι) (p : π) (s : σ) : Config ι π σ :=
  ⟨Function.update c.place i p, s⟩

variable (c : Config ι π σ) (i : ι) (p : π) (s : σ)

@[simp] theorem shared_set : (c.set i p s).shared = s := rfl

@[simp] theorem place_set_self : (c.set i p s).place i = p := by
  simp [set]

@[simp] theorem place_set_of_ne {j : ι} (h : j ≠ i) : (c.set i p s).place j = c.place j := by
  simp [set, h]

variable {c i p s}

/-- What holds of the process that stepped and of every other holds of each. -/
theorem forall_place_set {P : ι → π → Prop} (hself : P i p)
    (hothers : ∀ j, j ≠ i → P j (c.place j)) : ∀ j, P j ((c.set i p s).place j) := by
  intro j
  by_cases hj : j = i
  · subst hj
    rw [place_set_self]
    exact hself
  · rw [place_set_of_ne _ _ _ _ hj]
    exact hothers j hj

end Config

variable (next : ι → π → σ → α → Option (π × σ))

def step (c : Config ι π σ) (i : ι) (a : α) : Option (Config ι π σ) :=
  match next i (c.place i) c.shared a with
  | some (p, s) => some (c.set i p s)
  | none => none

variable {next}

theorem step_spec {c c' : Config ι π σ} {i : ι} {a : α} (h : step next c i a = some c') :
    ∃ p s, next i (c.place i) c.shared a = some (p, s) ∧ c' = c.set i p s := by
  unfold step at h
  split at h
  · rename_i p s hnext
    cases h
    exact ⟨p, s, hnext, rfl⟩
  · cases h

/-- The configurations runs from `start` lead to, every step taken where it is `allowed`. -/
inductive Reaches (next : ι → π → σ → α → Option (π × σ)) (allowed : Config ι π σ → ι → Prop)
    (start : Config ι π σ) : Config ι π σ → Prop
  | start : Reaches next allowed start start
  | step {c c' : Config ι π σ} {i : ι} {a : α} : Reaches next allowed start c → allowed c i →
      Interleaving.step next c i a = some c' → Reaches next allowed start c'

/-- What every step preserves holds wherever a run leads. -/
theorem Reaches.invariant {allowed : Config ι π σ → ι → Prop} {start c : Config ι π σ}
    (h : Reaches next allowed start c) {I : Config ι π σ → Prop} (hstart : I start)
    (hstep : ∀ c i a p s, I c → allowed c i → next i (c.place i) c.shared a = some (p, s) →
      I (c.set i p s)) : I c := by
  induction h with
  | start => exact hstart
  | step _ hallowed hnext ih =>
      obtain ⟨p, s, hp, rfl⟩ := step_spec hnext
      exact hstep _ _ _ p s ih hallowed hp

/-! ## Schedules -/

/-- The run of a schedule: which process steps, with which choice. -/
def run (next : ι → π → σ → α → Option (π × σ)) (c : Config ι π σ) :
    List (ι × α) → Option (Config ι π σ)
  | [] => some c
  | (i, a) :: schedule =>
    match step next c i a with
    | some c' => run next c' schedule
    | none => none

theorem Reaches.run {start c c' : Config ι π σ} (h : Reaches next (fun _ _ => True) start c)
    {schedule : List (ι × α)} (hrun : run next c schedule = some c') :
    Reaches next (fun _ _ => True) start c' := by
  induction schedule generalizing c with
  | nil =>
      cases hrun
      exact h
  | cons turn schedule ih =>
      unfold Interleaving.run at hrun
      split at hrun
      · rename_i hstep
        exact ih (h.step trivial hstep) hrun
      · cases hrun

end PwshPy.Effects.Interleaving
