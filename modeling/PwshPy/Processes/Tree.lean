import Mathlib.Logic.Function.Basic
import Mathlib.Order.Basic

/-! # Trees of processes

Processes fork, exit, become child subreapers and reap. A process is named by
its place in the order of creation, so no name is ever used again. The children
of a process that exits go to its nearest living ancestor that is a subreaper,
and to the first process where it has none.

One process founds a family: every process it forks from then on may count, and
so do those they fork. A guardian that is a subreaper before the family begins
is an ancestor of each member until it dies itself.
-/

namespace PwshPy.Processes

inductive Life where
  | alive
  | zombie (code : Int)
  | gone
  deriving DecidableEq

structure Process where
  parent : Nat
  life : Life
  subreaper : Bool
  /-- It founded the family, or was forked by a process that belongs to it. -/
  family : Bool

structure System where
  next : Nat
  process : Nat → Process

namespace System

def alive (s : System) (p : Nat) : Prop := (s.process p).life = .alive

def update (s : System) (p : Nat) (process : Process) : System :=
  { s with process := Function.update s.process p process }

/-- A fork; `founds` marks the one that begins the family. -/
def fork (s : System) (p : Nat) (founds : Bool) : System where
  next := s.next + 1
  process := Function.update s.process s.next ⟨p, .alive, false, founds || (s.process p).family⟩

/-- The nearest living subreaper from here up, in so many steps. -/
def reaper (s : System) : Nat → Nat → Nat
  | 0, _ => 0
  | steps + 1, p =>
      if (s.process p).life = .alive ∧ (s.process p).subreaper = true then p
      else s.reaper steps (s.process p).parent

/-- What is left of a process that exits waits for its parent, unless the parent
ignores the end of its children. -/
def exit (s : System) (p : Nat) (code : Int) (ignored : Bool) : System where
  next := s.next
  process c :=
    if c = p then { s.process c with life := if ignored then .gone else .zombie code }
    else if (s.process c).parent = p then
      { s.process c with parent := s.reaper s.next (s.process p).parent }
    else s.process c

def setSubreaper (s : System) (p : Nat) (on : Bool) : System :=
  s.update p { s.process p with subreaper := on }

def reap (s : System) (c : Nat) : System := s.update c { s.process c with life := .gone }

variable {s : System} {p q : Nat}

@[simp] theorem process_update_self (new : Process) : (s.update p new).process p = new :=
  Function.update_self _ _ _

theorem process_update_of_ne (h : q ≠ p) (new : Process) :
    (s.update p new).process q = s.process q := Function.update_of_ne h _ _

@[simp] theorem process_fork_next (founds : Bool) : (s.fork p founds).process s.next =
    ⟨p, .alive, false, founds || (s.process p).family⟩ := Function.update_self _ _ _

theorem process_fork_of_ne (h : q ≠ s.next) (founds : Bool) :
    (s.fork p founds).process q = s.process q := Function.update_of_ne h _ _

section Exit

variable (s p) (code : Int) (ignored : Bool)

theorem process_exit_self : (s.exit p code ignored).process p =
    { s.process p with life := if ignored then .gone else .zombie code } := if_pos rfl

theorem process_exit_child {s : System} {p : Nat} (h : q ≠ p) (hparent : (s.process q).parent = p) :
    (s.exit p code ignored).process q =
      { s.process q with parent := s.reaper s.next (s.process p).parent } :=
  (if_neg h).trans (if_pos hparent)

theorem process_exit_other {s : System} {p : Nat} (h : q ≠ p) (hparent : (s.process q).parent ≠ p) :
    (s.exit p code ignored).process q = s.process q :=
  (if_neg h).trans (if_neg hparent)

theorem life_exit {s : System} {p : Nat} (h : q ≠ p) :
    ((s.exit p code ignored).process q).life = (s.process q).life := by
  by_cases hparent : (s.process q).parent = p
  · rw [process_exit_child code ignored h hparent]
  · rw [process_exit_other code ignored h hparent]

theorem family_exit (q : Nat) :
    ((s.exit p code ignored).process q).family = (s.process q).family := by
  by_cases h : q = p
  · subst h
    rw [process_exit_self]
  · by_cases hparent : (s.process q).parent = p
    · rw [process_exit_child code ignored h hparent]
    · rw [process_exit_other code ignored h hparent]

end Exit

end System

/-- What a process can do, or have done to it. -/
inductive Event where
  | fork (p : Nat)
  | exit (p : Nat) (code : Int) (ignored : Bool)
  | setSubreaper (p : Nat) (on : Bool)
  | reap (p c : Nat)

/-- The process that acts, or dies. -/
def Event.actor : Event → Nat
  | .fork p => p
  | .exit p _ _ => p
  | .setSubreaper p _ => p
  | .reap p _ => p

/-- One event. Only the living act, and only a parent reaps. -/
inductive Step (s : System) : Event → System → Prop
  | fork {p : Nat} : s.alive p → Step s (.fork p) (s.fork p false)
  | exit {p : Nat} {code : Int} {ignored : Bool} : s.alive p →
      Step s (.exit p code ignored) (s.exit p code ignored)
  | setSubreaper {p : Nat} {on : Bool} : s.alive p →
      Step s (.setSubreaper p on) (s.setSubreaper p on)
  | reap {p c : Nat} {code : Int} : s.alive p → (s.process c).parent = p →
      (s.process c).life = .zombie code → Step s (.reap p c) (s.reap c)

/-! ## The family -/

namespace System

/-- A member, alive or not yet reaped. -/
def Member (s : System) (p : Nat) : Prop :=
  (s.process p).life ≠ .gone ∧ (s.process p).family = true

/-- Parents lead from the process up to the other one. -/
inductive Below (s : System) (g : Nat) : Nat → Prop
  | child {p : Nat} : (s.process p).parent = g → s.Below g p
  | further {p : Nat} : s.Below g (s.process p).parent → s.Below g p

/-- No member is alive. -/
def Extinct (s : System) : Prop := ∀ p, s.alive p → (s.process p).family = false

/-- The guardian, or a living member. -/
def Shelter (s : System) (g p : Nat) : Prop := p = g ∨ s.Member p ∧ s.alive p

end System

/-- The guardian lives and is a subreaper, and the parents of each member lead
up to it through living, older members. -/
structure Sheltered (g : Nat) (s : System) : Prop where
  lives : s.alive g
  guards : (s.process g).subreaper = true
  unborn : ∀ p, s.next ≤ p → (s.process p).life = .gone
  parent : ∀ p, s.Member p → s.Shelter g (s.process p).parent
  older : ∀ p, s.Member p → (s.process p).parent < p

variable {s s' : System} {g p c : Nat}

theorem lt_next_of_alive (hunborn : ∀ p, s.next ≤ p → (s.process p).life = .gone)
    (h : (s.process p).life ≠ .gone) : p < s.next := by
  by_contra hle
  exact h (hunborn p (Nat.le_of_not_lt hle))

namespace Sheltered

/-- The reaper that a member's children get is the guardian or a living member
further up. -/
theorem reaper_spec (inv : Sheltered g s) {steps : Nat} (h : s.Shelter g p) (hsteps : p < steps) :
    s.Shelter g (s.reaper steps p) ∧ s.reaper steps p ≤ p := by
  induction steps generalizing p with
  | zero => exact absurd hsteps (Nat.not_lt_zero p)
  | succ steps ih =>
      unfold System.reaper
      split
      · exact ⟨h, Nat.le_refl p⟩
      · rename_i hnot
        cases h with
        | inl hg =>
            subst hg
            exact absurd ⟨inv.lives, inv.guards⟩ hnot
        | inr hmember =>
            have hup := inv.older p hmember.1
            obtain ⟨hshelter, hle⟩ := ih (inv.parent p hmember.1) (by omega)
            exact ⟨hshelter, by omega⟩

theorem lt_next (inv : Sheltered g s) (h : s.Shelter g p) : p < s.next := by
  cases h with
  | inl hg =>
      subst hg
      exact lt_next_of_alive inv.unborn (by rw [inv.lives]; exact Life.noConfusion)
  | inr hmember => exact lt_next_of_alive inv.unborn hmember.1.1

/-- The guardian is an ancestor of every member. -/
theorem below (inv : Sheltered g s) (h : s.Member p) : s.Below g p := by
  induction p using Nat.strongRecOn with
  | ind p ih =>
      cases inv.parent p h with
      | inl hg => exact .child hg
      | inr hparent => exact .further (ih _ (inv.older p h) hparent.1)

/-- Without a child of the guardian there is no member at all. -/
theorem not_member (inv : Sheltered g s)
    (hchildless : ∀ c, (s.process c).life ≠ .gone → (s.process c).parent ≠ g) (p : Nat) :
    ¬s.Member p := by
  induction p using Nat.strongRecOn with
  | ind p ih =>
      intro hmember
      cases inv.parent p hmember with
      | inl hg => exact hchildless p hmember.1 hg
      | inr hparent => exact ih _ (inv.older p hmember) hparent.1

theorem extinct (inv : Sheltered g s)
    (hchildless : ∀ c, (s.process c).life ≠ .gone → (s.process c).parent ≠ g) : s.Extinct := by
  intro p halive
  by_contra hfamily
  rw [Bool.not_eq_false] at hfamily
  exact inv.not_member hchildless p ⟨by rw [halive]; exact Life.noConfusion, hfamily⟩

/-! ## What the operations keep -/

theorem alive_ne (inv : Sheltered g s) (halive : s.alive p) : p ≠ s.next := by
  intro hp
  have hgone := inv.unborn p (Nat.le_of_eq hp.symm)
  rw [System.alive, hgone] at halive
  cases halive

/-- Sheltering depends on the process's life and family only. -/
theorem shelter_of_same (h : s.Shelter g p) (hlife : (s'.process p).life = (s.process p).life)
    (hfamily : (s'.process p).family = (s.process p).family) : s'.Shelter g p := by
  cases h with
  | inl hg => exact Or.inl hg
  | inr hmember =>
      unfold System.Shelter System.Member System.alive
      rw [hlife, hfamily]
      exact Or.inr hmember

theorem fork (inv : Sheltered g s) (halive : s.alive p) {founds : Bool}
    (hfounds : founds = true → p = g) : Sheltered g (s.fork p founds) := by
  have hold : ∀ q, q ≠ s.next → (s.fork p founds).process q = s.process q :=
    fun q hq => System.process_fork_of_ne hq founds
  have hp := lt_next_of_alive inv.unborn (p := p) (by rw [halive]; exact Life.noConfusion)
  have hshelter : ∀ q, s.Shelter g q → (s.fork p founds).Shelter g q := by
    intro q hq
    have hsame := hold q (Nat.ne_of_lt (inv.lt_next hq))
    exact shelter_of_same hq (by rw [hsame]) (by rw [hsame])
  have hg := hold g (inv.alive_ne inv.lives)
  refine ⟨?_, ?_, ?_, ?_, ?_⟩
  · unfold System.alive
    rw [hg]
    exact inv.lives
  · rw [hg]
    exact inv.guards
  · intro q hq
    have hle : s.next + 1 ≤ q := hq
    rw [hold q (by omega)]
    exact inv.unborn q (by omega)
  · intro q hmember
    by_cases hq : q = s.next
    · subst hq
      rw [System.Member, System.process_fork_next] at hmember
      rw [System.process_fork_next]
      by_cases hf : founds = true
      · exact Or.inl (hfounds hf)
      · have hfamily : (s.process p).family = true := by
          simpa [hf] using hmember.2
        exact hshelter p (Or.inr ⟨⟨by rw [halive]; exact Life.noConfusion, hfamily⟩, halive⟩)
    · rw [System.Member, hold q hq] at hmember
      rw [hold q hq]
      exact hshelter _ (inv.parent q hmember)
  · intro q hmember
    by_cases hq : q = s.next
    · subst hq
      rw [System.process_fork_next]
      exact hp
    · rw [System.Member, hold q hq] at hmember
      rw [hold q hq]
      exact inv.older q hmember

/-- The children of a process that exits go further up; nothing else moves. -/
theorem exit (inv : Sheltered g s) (hg : p ≠ g) (halive : s.alive p) (code : Int)
    (ignored : Bool) : Sheltered g (s.exit p code ignored) := by
  have hself := System.process_exit_self s p code ignored
  have hmoved : ∀ q, q ≠ p → (s.process q).parent = p → _ :=
    fun q hq hparent => System.process_exit_child code ignored hq hparent
  have hkept : ∀ q, q ≠ p → (s.process q).parent ≠ p → _ :=
    fun q hq hparent => System.process_exit_other code ignored hq hparent
  have hlife : ∀ q, q ≠ p → ((s.exit p code ignored).process q).life = (s.process q).life :=
    fun q hq => System.life_exit code ignored hq
  have hfamily := System.family_exit s p code ignored
  have hshelter : ∀ q, q ≠ p → s.Shelter g q → (s.exit p code ignored).Shelter g q := by
    intro q hq h
    exact shelter_of_same h (hlife q hq) (hfamily q)
  have hmember : ∀ q, (s.exit p code ignored).Member q → s.Member q := by
    intro q h
    by_cases hq : q = p
    · subst hq
      rw [System.Member, hself] at h
      exact ⟨by rw [halive]; exact Life.noConfusion, h.2⟩
    · rw [System.Member, hlife q hq, hfamily] at h
      exact h
  -- the new parent of a member that is moved lies above the process that exits
  have hreaper : s.Member p → s.Shelter g (s.reaper s.next (s.process p).parent) ∧
      s.reaper s.next (s.process p).parent < p := by
    intro h
    have habove := inv.parent p h
    obtain ⟨hspec, hle⟩ := inv.reaper_spec habove (inv.lt_next habove)
    have hup := inv.older p h
    exact ⟨hspec, by omega⟩
  refine ⟨?_, ?_, ?_, ?_, ?_⟩
  · unfold System.alive
    rw [hlife g (Ne.symm hg)]
    exact inv.lives
  · by_cases hparent : (s.process g).parent = p
    · rw [hmoved g (Ne.symm hg) hparent]
      exact inv.guards
    · rw [hkept g (Ne.symm hg) hparent]
      exact inv.guards
  · intro q hq
    have hqp : q ≠ p := by
      have hlt := lt_next_of_alive inv.unborn (p := p) (by rw [halive]; exact Life.noConfusion)
      have hle : s.next ≤ q := hq
      omega
    rw [hlife q hqp]
    exact inv.unborn q hq
  · intro q h
    have hq := hmember q h
    by_cases hqp : q = p
    · subst hqp
      rw [hself]
      exact hshelter _ (Nat.ne_of_lt (inv.older q hq)) (inv.parent q hq)
    · by_cases hparent : (s.process q).parent = p
      · have hp : s.Member p := by
          cases inv.parent q hq with
          | inl hguard => exact absurd (hparent.symm.trans hguard) hg
          | inr hup => exact hparent ▸ hup.1
        rw [hmoved q hqp hparent]
        exact hshelter _ (Nat.ne_of_lt (hreaper hp).2) (hreaper hp).1
      · rw [hkept q hqp hparent]
        exact hshelter _ hparent (inv.parent q hq)
  · intro q h
    have hq := hmember q h
    have hup := inv.older q hq
    by_cases hqp : q = p
    · subst hqp
      rw [hself]
      exact hup
    · by_cases hparent : (s.process q).parent = p
      · have hp : s.Member p := by
          cases inv.parent q hq with
          | inl hguard => exact absurd (hparent.symm.trans hguard) hg
          | inr hup => exact hparent ▸ hup.1
        have hlt := (hreaper hp).2
        rw [hmoved q hqp hparent]
        show s.reaper s.next (s.process p).parent < q
        omega
      · rw [hkept q hqp hparent]
        exact hup

/-- A change to one process that keeps its parent, and its life and family or
takes it out of the family for good. -/
theorem update (inv : Sheltered g s) {new : Process} (hborn : p < s.next)
    (hparent : new.parent = (s.process p).parent) (hfamily : new.family = (s.process p).family)
    (hlife : new.life = (s.process p).life ∨ (¬s.alive p ∧ new.life = .gone))
    (hguards : p = g → new.subreaper = true) : Sheltered g (s.update p new) := by
  have hself := @System.process_update_self s p new
  have hold : ∀ q, q ≠ p → (s.update p new).process q = s.process q :=
    fun q hq => System.process_update_of_ne hq new
  have halive : ∀ q, s.alive q → ((s.update p new).process q).life = (s.process q).life := by
    intro q hq
    by_cases hqp : q = p
    · subst hqp
      rw [hself]
      cases hlife with
      | inl hsame => exact hsame
      | inr hdead => exact absurd hq hdead.1
    · rw [hold q hqp]
  have hsame : ∀ q, ((s.update p new).process q).family = (s.process q).family ∧
      ((s.update p new).process q).parent = (s.process q).parent := by
    intro q
    by_cases hqp : q = p
    · subst hqp
      rw [hself]
      exact ⟨hfamily, hparent⟩
    · rw [hold q hqp]
      exact ⟨rfl, rfl⟩
  have hmember : ∀ q, (s.update p new).Member q → s.Member q := by
    intro q h
    rw [System.Member, (hsame q).1] at h
    refine ⟨?_, h.2⟩
    by_cases hqp : q = p
    · subst hqp
      rw [hself] at h
      cases hlife with
      | inl hl => exact hl ▸ h.1
      | inr hdead => exact absurd hdead.2 h.1
    · rw [hold q hqp] at h
      exact h.1
  have hshelter : ∀ q, s.Shelter g q → (s.update p new).Shelter g q := by
    intro q h
    have hq : s.alive q := by
      cases h with
      | inl hg => exact hg ▸ inv.lives
      | inr hup => exact hup.2
    exact shelter_of_same h (halive q hq) (hsame q).1
  refine ⟨?_, ?_, ?_, ?_, ?_⟩
  · exact (halive g inv.lives).trans inv.lives
  · by_cases hgp : g = p
    · subst hgp
      rw [hself]
      exact hguards rfl
    · rw [hold g hgp]
      exact inv.guards
  · intro q hq
    have hqp : q ≠ p := by
      have hle : s.next ≤ q := hq
      omega
    rw [hold q hqp]
    exact inv.unborn q hq
  · intro q h
    rw [(hsame q).2]
    exact hshelter _ (inv.parent q (hmember q h))
  · intro q h
    rw [(hsame q).2]
    exact inv.older q (hmember q h)

theorem setSubreaper (inv : Sheltered g s) (halive : s.alive p) {on : Bool}
    (hon : p = g → on = true) : Sheltered g (s.setSubreaper p on) :=
  inv.update (lt_next_of_alive inv.unborn (by rw [halive]; exact Life.noConfusion)) rfl rfl
    (Or.inl rfl) hon

theorem reap (inv : Sheltered g s) {code : Int} (hlife : (s.process c).life = .zombie code) :
    Sheltered g (s.reap c) := by
  have hdead : ¬s.alive c := by
    rw [System.alive, hlife]
    exact Life.noConfusion
  have hg : c ≠ g := by
    intro hc
    exact hdead (hc ▸ inv.lives)
  exact inv.update (lt_next_of_alive inv.unborn (by rw [hlife]; exact Life.noConfusion)) rfl rfl
    (Or.inr ⟨hdead, rfl⟩) fun h => absurd h hg

/-- Whatever the others do, the family stays below its guardian. -/
theorem step (inv : Sheltered g s) {e : Event} (h : Step s e s') (hactor : e.actor ≠ g) :
    Sheltered g s' := by
  cases h with
  | fork halive => exact inv.fork halive fun h => Bool.noConfusion h
  | exit halive => exact inv.exit hactor halive _ _
  | setSubreaper halive => exact inv.setSubreaper halive fun h => absurd h hactor
  | reap halive hparent hlife => exact inv.reap hlife

end Sheltered

/-- Before the family begins: no process belongs to it. -/
structure Unfounded (g : Nat) (s : System) : Prop where
  lives : s.alive g
  unborn : ∀ p, s.next ≤ p → (s.process p).life = .gone
  family : ∀ p, (s.process p).family = false

/-- A guardian that becomes a subreaper before the family begins shelters it. -/
theorem Unfounded.sheltered (h : Unfounded g s) : Sheltered g (s.setSubreaper g true) := by
  have hself := @System.process_update_self s g { s.process g with subreaper := true }
  have hold : ∀ q, q ≠ g → (s.setSubreaper g true).process q = s.process q :=
    fun q hq => System.process_update_of_ne hq _
  have hnone : ∀ q, ¬(s.setSubreaper g true).Member q := by
    intro q hmember
    have hfamily : ((s.setSubreaper g true).process q).family = (s.process q).family := by
      by_cases hq : q = g
      · subst hq
        rw [System.setSubreaper, hself]
      · rw [hold q hq]
    rw [System.Member, hfamily, h.family] at hmember
    cases hmember.2
  have hlives : (s.setSubreaper g true).alive g := by
    rw [System.alive, System.setSubreaper, hself]
    exact h.lives
  refine ⟨hlives, ?_, ?_, fun q hq => absurd hq (hnone q), fun q hq => absurd hq (hnone q)⟩
  · rw [System.setSubreaper, hself]
  · intro q hq
    have hne : q ≠ g := by
      intro hqg
      have hgone := h.unborn q hq
      rw [hqg, h.lives] at hgone
      cases hgone
    rw [hold q hne]
    exact h.unborn q hq

/-- What an event does to the life and the family of any one process. -/
theorem Step.spec {e : Event} (h : Step s e s') (q : Nat) : s.next ≤ s'.next ∧
    ((q = s.next ∧ q < s'.next ∧ ∃ p, s.alive p ∧
        (s'.process q).family = (s.process p).family) ∨
      ((s'.process q).family = (s.process q).family ∧
        ((s'.process q).life = (s.process q).life ∨
          (¬s'.alive q ∧ (s.process q).life ≠ .gone ∧ (s.alive q → q = e.actor))))) := by
  cases h with
  | @fork p halive =>
      refine ⟨Nat.le_succ _, ?_⟩
      by_cases hq : q = s.next
      · subst hq
        rw [System.process_fork_next]
        exact Or.inl ⟨rfl, Nat.lt_succ_self _, p, halive, rfl⟩
      · rw [System.process_fork_of_ne hq]
        exact Or.inr ⟨rfl, Or.inl rfl⟩
  | @exit p code ignored halive =>
      refine ⟨Nat.le_refl _, Or.inr ⟨System.family_exit s p code ignored q, ?_⟩⟩
      by_cases hq : q = p
      · subst hq
        refine Or.inr ⟨?_, by rw [halive]; exact Life.noConfusion, fun _ => rfl⟩
        rw [System.alive, System.process_exit_self]
        cases ignored <;> exact Life.noConfusion
      · exact Or.inl (System.life_exit code ignored hq)
  | @setSubreaper p on halive =>
      refine ⟨Nat.le_refl _, Or.inr ?_⟩
      by_cases hq : q = p
      · subst hq
        rw [System.setSubreaper, System.process_update_self]
        exact ⟨rfl, Or.inl rfl⟩
      · rw [System.setSubreaper, System.process_update_of_ne hq]
        exact ⟨rfl, Or.inl rfl⟩
  | @reap p c code halive hparent hlife =>
      refine ⟨Nat.le_refl _, Or.inr ?_⟩
      by_cases hq : q = c
      · subst hq
        rw [System.alive, System.alive, System.reap, System.process_update_self, hlife]
        exact ⟨rfl, Or.inr ⟨Life.noConfusion, Life.noConfusion, fun h => Life.noConfusion h⟩⟩
      · rw [System.reap, System.process_update_of_ne hq]
        exact ⟨rfl, Or.inl rfl⟩

theorem Unfounded.step (h : Unfounded g s) {e : Event} (hstep : Step s e s')
    (hactor : e.actor ≠ g) : Unfounded g s' := by
  refine ⟨?_, ?_, ?_⟩
  · obtain ⟨-, hnew | ⟨-, hsame | ⟨-, -, hdead⟩⟩⟩ := hstep.spec g
    · have hgone := h.unborn g (Nat.le_of_eq hnew.1.symm)
      rw [h.lives] at hgone
      cases hgone
    · exact hsame.trans h.lives
    · exact absurd (hdead h.lives).symm hactor
  · intro q hq
    obtain ⟨hnext, hnew | ⟨-, hsame | ⟨-, hborn, -⟩⟩⟩ := hstep.spec q
    · omega
    · exact hsame.trans (h.unborn q (by omega))
    · exact absurd (h.unborn q (by omega)) hborn
  · intro q
    obtain ⟨-, ⟨-, -, p, -, hfamily⟩ | ⟨hfamily, -⟩⟩ := hstep.spec q
    · exact hfamily.trans (h.family p)
    · exact hfamily.trans (h.family q)

/-- A family without a living member has none again. -/
theorem System.Extinct.step (h : s.Extinct) {e : Event} (hstep : Step s e s') : s'.Extinct := by
  intro q hq
  obtain ⟨-, ⟨-, -, p, halive, hfamily⟩ | ⟨hfamily, hsame | ⟨hdead, -⟩⟩⟩ := hstep.spec q
  · exact hfamily.trans (h p halive)
  · exact hfamily.trans (h q (hsame.symm.trans hq))
  · exact absurd hq hdead

end PwshPy.Processes
