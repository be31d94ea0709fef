import Mathlib.Logic.Relation
import PwshPy.Processes.Tree

/-! # The helper of `wait_tree` on Linux

The helper becomes a child subreaper, starts the program and reaps until it has
no child left; a SIGTERM makes it kill the tree instead. Every other process
forks, exits, changes its own subreaper flag and reaps as it likes, between any
two of the helper's steps, and may end the helper too.
-/

namespace PwshPy.TreeReaper

open Processes (System Event Sheltered Unfounded)

/-- `_KILL_DEADLINE_SECONDS`, in milliseconds. -/
def KILL_DEADLINE : Nat := 10000

/-! ## The tree that is killed -/

/-- `children.get(pid, [])`, for the parents read from `/proc`. -/
def children (parents : List (Nat × Nat)) (pid : Nat) : List Nat :=
  (parents.filter fun entry => entry.2 == pid).map Prod.fst

/-- The inner loop of `descendants`: the stack, its top first, and what is found. -/
def push_children (cs : List Nat) (stack found : List Nat) : List Nat × List Nat :=
  match cs with
  | [] => (stack, found)
  | child :: cs =>
      if child ∈ found then push_children cs stack found
      else push_children cs (child :: stack) (child :: found)

/-- The loop of `descendants`, for so many turns. -/
def descend (parents : List (Nat × Nat)) : Nat → List Nat → List Nat → List Nat
  | _, [], found => found
  | 0, _ :: _, found => found
  | turns + 1, pid :: stack, found =>
      let (stack, found) := push_children (children parents pid) stack found
      descend parents turns stack found

/-- Every pid is pushed once, so no more turns are needed. -/
def descendants (root : Nat) (parents : List (Nat × Nat)) : List Nat :=
  descend parents (parents.length + 1) [root] []

section Descendants

variable {parents : List (Nat × Nat)} {cs stack found stack' found' : List Nat} {root pid : Nat}

def ChildOf (parents : List (Nat × Nat)) (child pid : Nat) : Prop := (child, pid) ∈ parents

theorem mem_children {child : Nat} : child ∈ children parents pid ↔ ChildOf parents child pid := by
  simp [children, ChildOf]

/-- The pids of the table that are not found yet. -/
def unfound (parents : List (Nat × Nat)) (found : List Nat) : List Nat :=
  (parents.map Prod.fst).filter fun pid => !found.contains pid

theorem length_unfound_lt {child : Nat} (hkey : child ∈ parents.map Prod.fst)
    (hfound : child ∉ found) :
    (unfound parents (child :: found)).length < (unfound parents found).length := by
  have hmem : child ∈ unfound parents found := by
    simpa [unfound, hfound] using hkey
  have hsplit : unfound parents (child :: found) =
      (unfound parents found).filter fun pid => !(pid == child) := by
    rw [unfound, unfound, List.filter_filter]
    congr 1
    funext pid
    by_cases h : pid = child <;> simp [h]
  rw [hsplit]
  exact List.length_filter_lt_length_iff_exists.mpr ⟨child, hmem, by simp⟩

/-- The inner loop finds the children, stacks those it finds, and takes no more
than it stacks from what is left to find. -/
structure Pushed (parents : List (Nat × Nat)) (cs stack found stack' found' : List Nat) : Prop where
  mem_found : ∀ p, p ∈ found' ↔ p ∈ found ∨ p ∈ cs
  mem_stack : ∀ p, p ∈ stack' ↔ p ∈ stack ∨ p ∈ cs ∧ p ∉ found
  turns : (unfound parents found').length + stack'.length ≤
    (unfound parents found).length + stack.length

theorem push_children_spec (hkeys : ∀ c ∈ cs, c ∈ parents.map Prod.fst) :
    Pushed parents cs stack found (push_children cs stack found).1
      (push_children cs stack found).2 := by
  induction cs generalizing stack found with
  | nil => exact ⟨by simp [push_children], by simp [push_children], Nat.le_refl _⟩
  | cons c cs ih =>
      have hlater := fun p hp => hkeys p (List.mem_cons_of_mem c hp)
      unfold push_children
      by_cases hc : c ∈ found
      · have h := @ih stack found hlater
        rw [if_pos hc]
        refine ⟨?_, ?_, h.turns⟩
        · intro p
          rw [h.mem_found, List.mem_cons]
          by_cases hp : p = c
          · subst hp
            simp [hc]
          · simp [hp]
        · intro p
          rw [h.mem_stack, List.mem_cons]
          by_cases hp : p = c
          · subst hp
            simp [hc]
          · simp [hp]
      · have h := @ih (c :: stack) (c :: found) hlater
        rw [if_neg hc]
        refine ⟨?_, ?_, ?_⟩
        · intro p
          rw [h.mem_found, List.mem_cons, List.mem_cons]
          by_cases hp : p = c <;> simp [hp]
        · intro p
          rw [h.mem_stack, List.mem_cons, List.mem_cons, List.mem_cons]
          by_cases hp : p = c
          · subst hp
            simp [hc]
          · simp [hp]
        · have hturns := h.turns
          have hless := length_unfound_lt (hkeys c List.mem_cons_self) hc
          rw [List.length_cons] at hturns
          omega

/-- What the loop has found descends from the root, and whose children it has
not looked at yet is still on the stack. -/
structure Descending (root : Nat) (parents : List (Nat × Nat)) (stack found : List Nat) : Prop where
  sound : ∀ p ∈ found, Relation.TransGen (ChildOf parents) p root
  known : ∀ p ∈ stack, p = root ∨ p ∈ found
  looked : ∀ p, p = root ∨ p ∈ found → p ∈ stack ∨ ∀ c, ChildOf parents c p → c ∈ found

theorem Descending.turn (h : Descending root parents (pid :: stack) found)
    (hpushed : Pushed parents (children parents pid) stack found stack' found') :
    Descending root parents stack' found' := by
  refine ⟨?_, ?_, ?_⟩
  · intro p hp
    cases (hpushed.mem_found p).mp hp with
    | inl hold => exact h.sound p hold
    | inr hchild =>
        have hedge := mem_children.mp hchild
        cases h.known pid List.mem_cons_self with
        | inl hroot => exact .single (hroot ▸ hedge)
        | inr hpid => exact (h.sound pid hpid).head hedge
  · intro p hp
    cases (hpushed.mem_stack p).mp hp with
    | inl hold =>
        cases h.known p (List.mem_cons_of_mem pid hold) with
        | inl hroot => exact Or.inl hroot
        | inr hfound => exact Or.inr ((hpushed.mem_found p).mpr (Or.inl hfound))
    | inr hchild => exact Or.inr ((hpushed.mem_found p).mpr (Or.inr hchild.1))
  · intro p hp
    by_cases hpid : p = pid
    · subst hpid
      exact Or.inr fun c hc => (hpushed.mem_found c).mpr (Or.inr (mem_children.mpr hc))
    · by_cases hold : p = root ∨ p ∈ found
      · cases h.looked p hold with
        | inl hstack =>
            cases List.mem_cons.mp hstack with
            | inl hsame => exact absurd hsame hpid
            | inr hlater => exact Or.inl ((hpushed.mem_stack p).mpr (Or.inl hlater))
        | inr hchildren =>
            exact Or.inr fun c hc => (hpushed.mem_found c).mpr (Or.inl (hchildren c hc))
      · rw [not_or] at hold
        cases hp with
        | inl hroot => exact absurd hroot hold.1
        | inr hnew =>
            cases (hpushed.mem_found p).mp hnew with
            | inl hfound => exact absurd hfound hold.2
            | inr hchild => exact Or.inl ((hpushed.mem_stack p).mpr (Or.inr ⟨hchild, hold.2⟩))

theorem descend_spec {turns : Nat} (h : Descending root parents stack found)
    (hturns : (unfound parents found).length + stack.length ≤ turns) :
    Descending root parents [] (descend parents turns stack found) := by
  induction turns generalizing stack found with
  | zero =>
      cases stack with
      | nil => exact h
      | cons pid stack =>
          rw [List.length_cons] at hturns
          omega
  | succ turns ih =>
      cases stack with
      | nil => exact h
      | cons pid stack =>
          have hpushed := @push_children_spec parents (children parents pid) stack found
            fun c hc => List.mem_map.mpr ⟨(c, pid), mem_children.mp hc, rfl⟩
          have hless := hpushed.turns
          rw [List.length_cons] at hturns
          exact ih (h.turn hpushed) (by omega)

/-- Every pid whose parent chain reaches the root. -/
theorem mem_descendants :
    pid ∈ descendants root parents ↔ Relation.TransGen (ChildOf parents) pid root := by
  have hstart : Descending root parents [root] [] :=
    ⟨fun _ h => absurd h List.not_mem_nil, by simp, by simp⟩
  have hturns : (unfound parents []).length + [root].length ≤ parents.length + 1 := by
    have hle := List.length_filter_le (fun pid => !([] : List Nat).contains pid)
      (parents.map Prod.fst)
    rw [List.length_map] at hle
    exact Nat.add_le_add_right hle 1
  have h := descend_spec hstart hturns
  have hclosed : ∀ p, p = root ∨ p ∈ descendants root parents →
      ∀ c, ChildOf parents c p → c ∈ descendants root parents := by
    intro p hp
    cases h.looked p hp with
    | inl hstack => exact absurd hstack List.not_mem_nil
    | inr hchildren => exact hchildren
  constructor
  · exact h.sound pid
  · intro hchain
    induction hchain using Relation.TransGen.head_induction_on with
    | single hedge => exact hclosed root (Or.inl rfl) _ hedge
    | head hedge hrest ih => exact hclosed _ (Or.inr ih) _ hedge

end Descendants

/-! ## The helper's program -/

/-- What `os.waitpid(-1, …)` comes back with. -/
inductive Waited where
  | child (pid : Nat) (code : Int)
  | none_exited
  | no_child

/-- Where the helper is: in `_run`, in `_wait_tree_linux`, between its return and
that of `_run`, in the loop of `_kill_tree_linux` (its clock, its signals,
`_reap_ready`), or behind one of them. -/
inductive Place where
  | entered
  | starting
  | unstarted
  | waiting (child : Nat) (code : Int)
  | returned (code : Int)
  | exited (code : Int)
  | looping (deadline : Nat)
  | signalling (deadline : Nat) (pids : List Nat)
  | reaping (deadline : Nat)
  | killed (deadline time : Nat)
  | failed
  | dead

/-- The turn of `_wait_tree_linux`; a `waitpid` that blocks comes back with a
child or an error only. -/
def wait_tree_turn (child : Nat) (code : Int) : Waited → Option Place
  | .child pid status => some (.waiting child (if pid = child then status else code))
  | .no_child => some (.returned code)
  | .none_exited => none

/-- The head of the loop of `_kill_tree_linux`. -/
def kill_loop (time deadline : Nat) (pids : List Nat) : Place :=
  if time < deadline then .signalling deadline pids else .killed deadline time

/-- The turn of `_reap_ready`, and what the loop around it does with its answer. -/
def reap_ready_turn (time deadline : Nat) : Waited → Place
  | .child _ _ => .reaping deadline
  | .no_child => .killed deadline time
  | .none_exited => .looping deadline

structure State where
  system : System
  clock : Nat
  place : Place

/-- `os.waitpid(-1, …)`: a child that has exited is reaped; without one the call
says whether there are children at all. -/
inductive Waits (helper : Nat) (s : System) : Waited → System → Prop
  | child {c : Nat} {code : Int} : (s.process c).parent = helper →
      (s.process c).life = .zombie code → Waits helper s (.child c code) (s.reap c)
  | none_exited {c : Nat} : (s.process c).parent = helper → (s.process c).life ≠ .gone →
      (∀ c code, (s.process c).parent = helper → (s.process c).life ≠ .zombie code) →
      Waits helper s .none_exited s
  | no_child : (∀ c, (s.process c).life ≠ .gone → (s.process c).parent ≠ helper) →
      Waits helper s .no_child s

/-- One step of the helper or of anything else. -/
inductive Step (helper : Nat) : State → State → Prop
  /-- `_become_subreaper` -/
  | subreaper {s : System} {t : Nat} :
      Step helper ⟨s, t, .entered⟩ ⟨s.setSubreaper helper true, t, .starting⟩
  /-- `Popen` raises an `OSError`, and `_run` is about to return it. -/
  | unstarted {s : System} {t : Nat} : Step helper ⟨s, t, .starting⟩ ⟨s, t, .unstarted⟩
  /-- `_run` returns that error, or `prctl` or `Popen` raises one that goes up. -/
  | refused {s : System} {t : Nat} {place : Place}
      (h : place = .entered ∨ place = .starting ∨ place = .unstarted) :
      Step helper ⟨s, t, place⟩ ⟨s, t, .failed⟩
  /-- `_start`: the fork that begins the program. -/
  | start {s : System} {t : Nat} :
      Step helper ⟨s, t, .starting⟩ ⟨s.fork helper true, t, .waiting s.next 0⟩
  | wait {s s' : System} {t child : Nat} {code : Int} {w : Waited} {place : Place}
      (hwait : Waits helper s w s') (hturn : wait_tree_turn child code w = some place) :
      Step helper ⟨s, t, .waiting child code⟩ ⟨s', t, place⟩
  /-- `_run` returns the exit code. -/
  | exited {s : System} {t : Nat} {code : Int} :
      Step helper ⟨s, t, .returned code⟩ ⟨s, t, .exited code⟩
  /-- SIGTERM, wherever `_run` catches it: also behind the wait, before `_run` has
  returned. -/
  | term {s : System} {t : Nat} {place : Place}
      (h : place = .starting ∨ place = .unstarted ∨ (∃ child code, place = .waiting child code) ∨
        ∃ code, place = .returned code) :
      Step helper ⟨s, t, place⟩ ⟨s, t, .looping (t + KILL_DEADLINE)⟩
  /-- The entries of `/proc` are read one by one while processes come and go, so
  any table may be what is seen. -/
  | loop {s : System} {t deadline : Nat} (parents : List (Nat × Nat)) :
      Step helper ⟨s, t, .looping deadline⟩
        ⟨s, t, kill_loop t deadline (descendants helper parents)⟩
  /-- `_signal_quietly`: the process that gets SIGKILL may exit from then on, as
  any process may at any time. -/
  | signal {s : System} {t deadline pid : Nat} {pids : List Nat} :
      Step helper ⟨s, t, .signalling deadline (pid :: pids)⟩ ⟨s, t, .signalling deadline pids⟩
  | signalled {s : System} {t deadline : Nat} :
      Step helper ⟨s, t, .signalling deadline []⟩ ⟨s, t, .reaping deadline⟩
  | reap {s s' : System} {t deadline : Nat} {w : Waited} (hwait : Waits helper s w s') :
      Step helper ⟨s, t, .reaping deadline⟩ ⟨s', t, reap_ready_turn t deadline w⟩
  | other {s s' : System} {t : Nat} {place : Place} {e : Event} (hactor : e.actor ≠ helper)
      (h : Processes.Step s e s') : Step helper ⟨s, t, place⟩ ⟨s', t, place⟩
  /-- The helper itself is ended, by the program or another process. -/
  | ended {s : System} {t : Nat} {place : Place} {code : Int} {ignored : Bool} :
      Step helper ⟨s, t, place⟩ ⟨s.exit helper code ignored, t, .dead⟩
  /-- A SIGTERM that `_run` does not catch goes up to `main`. -/
  | raised {s : System} {t : Nat} {place : Place}
      (h : place = .entered ∨ (∃ deadline, place = .looping deadline) ∨
        (∃ deadline pids, place = .signalling deadline pids) ∨
        ∃ deadline, place = .reaping deadline) : Step helper ⟨s, t, place⟩ ⟨s, t, .failed⟩
  | tick {s : System} {t later : Nat} {place : Place} (h : t ≤ later) :
      Step helper ⟨s, t, place⟩ ⟨s, later, place⟩

/-- Runs from a state on. -/
def Reaches (helper : Nat) : State → State → Prop := Relation.ReflTransGen (Step helper)

/-- A run begins at `_run`, with the helper alive and no program started. -/
def Begins (helper : Nat) (st : State) : Prop := st.place = .entered ∧ Unfounded helper st.system

/-! ## What every step keeps -/

/-- As long as a SIGTERM may send the helper into the kill, and in the kill, it
shelters the program's family; once it has waited to the end, or has killed in
time, no member is alive. -/
def Inv (helper : Nat) (st : State) : Prop :=
  match st.place with
  | .entered => Unfounded helper st.system
  | .starting | .unstarted | .waiting _ _ | .looping _ | .signalling _ _ | .reaping _ =>
      Sheltered helper st.system
  | .returned _ => Sheltered helper st.system ∧ st.system.Extinct
  | .exited _ => st.system.Extinct
  | .killed deadline time => time < deadline → st.system.Extinct
  | .failed | .dead => True

section

variable {helper : Nat} {s s' : System} {w : Waited}

theorem Waits.sheltered (h : Waits helper s w s') (inv : Sheltered helper s) :
    Sheltered helper s' := by
  cases h with
  | child hparent hlife => exact inv.reap hlife
  | none_exited => exact inv
  | no_child => exact inv

/-- ECHILD says that the whole family has ended, not only the helper's children. -/
theorem Waits.extinct (h : Waits helper s .no_child s') (inv : Sheltered helper s) :
    s'.Extinct := by
  cases h with
  | no_child hchildless => exact inv.extinct hchildless

theorem Inv.step {st st' : State} (inv : Inv helper st) (h : Step helper st st') :
    Inv helper st' := by
  cases h with
  | subreaper => exact Unfounded.sheltered inv
  | unstarted => exact inv
  | refused hplace => trivial
  | start =>
      have hsheltered : Sheltered helper _ := inv
      exact hsheltered.fork hsheltered.lives fun _ => rfl
  | wait hwait hturn =>
      have hsheltered : Sheltered helper _ := inv
      cases w' : hwait with
      | child hparent hlife =>
          cases hturn
          exact hwait.sheltered hsheltered
      | none_exited => cases hturn
      | no_child hchildless =>
          cases hturn
          exact ⟨hwait.sheltered hsheltered, hwait.extinct hsheltered⟩
  | exited => exact inv.2
  | term hplace =>
      obtain rfl | rfl | ⟨child, code, rfl⟩ | ⟨code, rfl⟩ := hplace
      · exact inv
      · exact inv
      · exact inv
      · exact inv.1
  | @loop s t deadline parents =>
      have hsheltered : Sheltered helper s := inv
      unfold kill_loop
      split
      · exact hsheltered
      · rename_i hlate
        intro hearly
        exact absurd hearly hlate
  | signal => exact inv
  | signalled => exact inv
  | reap hwait =>
      have hsheltered : Sheltered helper _ := inv
      cases w' : hwait with
      | child hparent hlife => exact hwait.sheltered hsheltered
      | none_exited => exact hsheltered
      | no_child hchildless =>
          intro hearly
          exact hwait.extinct hsheltered
  | @other s s' t place e hactor h =>
      cases place with
      | entered => exact Unfounded.step inv h hactor
      | starting => exact Sheltered.step inv h hactor
      | unstarted => exact Sheltered.step inv h hactor
      | waiting => exact Sheltered.step inv h hactor
      | returned => exact ⟨Sheltered.step inv.1 h hactor, System.Extinct.step inv.2 h⟩
      | exited => exact System.Extinct.step inv h
      | looping => exact Sheltered.step inv h hactor
      | signalling => exact Sheltered.step inv h hactor
      | reaping => exact Sheltered.step inv h hactor
      | killed deadline time => exact fun hearly => System.Extinct.step (inv hearly) h
      | failed => trivial
      | dead => trivial
  | ended => trivial
  | raised hplace => trivial
  | @tick s t later place h => cases place <;> exact inv

theorem Reaches.inv {first st : State} (hfirst : Begins helper first)
    (h : Reaches helper first st) : Inv helper st := by
  induction h with
  | refl =>
      obtain ⟨system, clock, place⟩ := first
      obtain ⟨rfl, hunfounded⟩ := hfirst
      exact hunfounded
  | tail _ hstep ih => exact ih.step hstep

end

/-- In every run, whatever the program's processes do: while the helper waits or
kills, each of them descends from it; and when it has waited to the end, or
killed them all in time, none is alive. -/
theorem wait_tree_waits_for_everything (helper : Nat) (first st : State)
    (hfirst : Begins helper first) (hrun : Reaches helper first st) :
    (∀ code, st.place = .returned code → st.system.Extinct) ∧
    (∀ deadline time, st.place = .killed deadline time → time < deadline → st.system.Extinct) ∧
    ((∃ child code, st.place = .waiting child code) ∨ (∃ deadline, st.place = .looping deadline) ∨
        (∃ deadline pids, st.place = .signalling deadline pids) ∨
        (∃ deadline, st.place = .reaping deadline) →
      ∀ p, st.system.Member p → st.system.Below helper p) := by
  have inv := hrun.inv hfirst
  obtain ⟨system, clock, place⟩ := st
  refine ⟨?_, ?_, ?_⟩
  · rintro code rfl
    exact inv.2
  · rintro deadline time rfl
    exact inv
  · intro hplace p hmember
    obtain ⟨child, code, rfl⟩ | ⟨deadline, rfl⟩ | ⟨deadline, pids, rfl⟩ | ⟨deadline, rfl⟩ := hplace
    · exact Sheltered.below inv hmember
    · exact Sheltered.below inv hmember
    · exact Sheltered.below inv hmember
    · exact Sheltered.below inv hmember

/-- The first process and the helper, before it becomes a subreaper. -/
def firstSystem : System where
  next := 2
  process p := ⟨0, if p < 2 then .alive else .gone, p == 0, false⟩

theorem wait_tree_waits_for_everything_exited : ∃ st, Reaches 1 ⟨firstSystem, 0, .entered⟩ st ∧
    st.place = .returned 3 ∧ st.system.Extinct := by
  let s₁ := (firstSystem.setSubreaper 1 true).fork 1 true
  let s₂ := s₁.exit 2 3 false
  have hunborn : ∀ p, firstSystem.next ≤ p → (firstSystem.process p).life = .gone := by
    intro p hp
    have hle : 2 ≤ p := hp
    exact if_neg (by omega)
  have hbegins : Begins 1 ⟨firstSystem, 0, .entered⟩ := ⟨rfl, rfl, hunborn, fun _ => rfl⟩
  have hexit : Processes.Step s₁ (.exit 2 3 false) s₂ := .exit rfl
  have hchild : Waits 1 s₂ (.child 2 3) (s₂.reap 2) := .child rfl rfl
  have hnone : Waits 1 (s₂.reap 2) .no_child (s₂.reap 2) := by
    refine .no_child fun c hlife => ?_
    match c with
    | 0 => exact Nat.zero_ne_one
    | 1 => exact Nat.zero_ne_one
    | 2 => exact absurd rfl hlife
    | c + 3 => exact absurd rfl hlife
  have hrun : Reaches 1 ⟨firstSystem, 0, .entered⟩ ⟨s₂.reap 2, 0, .returned 3⟩ :=
    ((((Relation.ReflTransGen.refl.tail .subreaper).tail .start).tail
      (.other (by decide) hexit)).tail (.wait hchild rfl)).tail (.wait hnone rfl)
  exact ⟨_, hrun, rfl, (wait_tree_waits_for_everything 1 _ _ hbegins hrun).1 3 rfl⟩

end PwshPy.TreeReaper
