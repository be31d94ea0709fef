import Mathlib.Logic.Function.Iterate
import PwshPy.Native.TreeReaper

/-! # The loops of the tree helper

`descendants` searches a table read entry by entry, so parents may run in circles
and through the helper itself; `_wait_tree_linux` reaps pids that may be used
again.
-/

namespace PwshPy.TreeReaper

/-! ## The search -/

section Descendants

variable {parents : List (Nat × Nat)} {stack found : List Nat} {root : Nat}

/-- One turn of the `while` of `descendants`; an empty stack ends it. -/
def turn (parents : List (Nat × Nat)) : List Nat × List Nat → List Nat × List Nat
  | ([], found) => ([], found)
  | (pid :: stack, found) => push_children (children parents pid) stack found

theorem turns_done (turns : Nat) : (turn parents)^[turns] ([], found) = ([], found) :=
  Function.iterate_fixed rfl turns

/-- As many turns as there is left to find and to look at empty the stack; no more are needed. -/
theorem turns_eq_descend {turns : Nat}
    (hturns : (unfound parents found).length + stack.length ≤ turns) :
    (turn parents)^[turns] (stack, found) = ([], descend parents turns stack found) := by
  induction turns generalizing stack found with
  | zero =>
      cases stack with
      | nil => rfl
      | cons pid stack =>
          rw [List.length_cons] at hturns
          omega
  | succ turns ih =>
      cases stack with
      | nil => exact turns_done _
      | cons pid stack =>
          have hpushed := @push_children_spec parents (children parents pid) stack found
            fun c hc => List.mem_map.mpr ⟨(c, pid), mem_children.mp hc, rfl⟩
          have hless := hpushed.turns
          rw [List.length_cons] at hturns
          rw [Function.iterate_succ_apply]
          exact ih (by omega)

/-- The loop of `descendants` ends, with what it returns. -/
def Ends (root : Nat) (parents : List (Nat × Nat)) : Prop :=
  ∃ turns, (turn parents)^[turns] ([root], []) = ([], descendants root parents)

theorem descendants_end (root : Nat) (parents : List (Nat × Nat)) : Ends root parents := by
  refine ⟨parents.length + 1, turns_eq_descend ?_⟩
  have hle := List.length_filter_le (fun pid => !([] : List Nat).contains pid)
    (parents.map Prod.fst)
  rw [List.length_map] at hle
  exact Nat.add_le_add_right hle 1

/-- The parent chain of the root comes back to it. -/
def Circular (root : Nat) (parents : List (Nat × Nat)) : Prop :=
  Relation.TransGen (ChildOf parents) root root

/-- The pids but the root whose parent chain reaches it. -/
def FindsDescendants (root : Nat) (parents : List (Nat × Nat)) : Prop :=
  ∀ pid, pid ∈ descendants root parents ↔
    pid ≠ root ∧ Relation.TransGen (ChildOf parents) pid root

theorem root_mem_descendants : root ∈ descendants root parents ↔ Circular root parents :=
  mem_descendants

theorem findsDescendants_iff : FindsDescendants root parents ↔ ¬ Circular root parents := by
  constructor
  · intro h hcircle
    exact ((h root).mp (root_mem_descendants.mpr hcircle)).1 rfl
  · intro h pid
    rw [mem_descendants]
    constructor
    · intro hchain
      refine ⟨?_, hchain⟩
      rintro rfl
      exact h hchain
    · exact And.right

end Descendants

/-! ## The kill -/

/-- What one round of `_kill_tree_linux` comes upon: its clock, the table read from `/proc`, and
whether no child is left to reap. -/
structure Round where
  time : Nat
  parents : List (Nat × Nat)
  reaped_all : Bool

/-- The rounds that are carried out. -/
def carried_out (deadline : Nat) : List Round → List Round
  | [] => []
  | round :: rounds =>
      if round.time < deadline then
        round :: (if round.reaped_all then [] else carried_out deadline rounds)
      else []

/-- `_kill_tree_linux`: the pids that are signalled. -/
def kill_tree_linux (helper deadline : Nat) : List Round → List Nat
  | [] => []
  | round :: rounds =>
      if round.time < deadline then
        descendants helper round.parents ++
          (if round.reaped_all then [] else kill_tree_linux helper deadline rounds)
      else []

theorem kill_tree_linux_eq (helper deadline : Nat) (rounds : List Round) :
    kill_tree_linux helper deadline rounds =
      (carried_out deadline rounds).flatMap fun round => descendants helper round.parents := by
  induction rounds with
  | nil => rfl
  | cons round rounds ih =>
      rw [kill_tree_linux, carried_out]
      split
      · rw [List.flatMap_cons]
        congr 1
        split
        · rfl
        · exact ih
      · rfl

theorem mem_kill_tree_linux {helper deadline pid : Nat} {rounds : List Round} :
    pid ∈ kill_tree_linux helper deadline rounds ↔
      ∃ round ∈ carried_out deadline rounds,
        Relation.TransGen (ChildOf round.parents) pid helper := by
  rw [kill_tree_linux_eq, List.mem_flatMap]
  simp only [mem_descendants]

/-- The loop ends, and its result is what it should be exactly when the parent chain of the root does
not come back to it; the helper is spared exactly when that holds of its own pid in every round. -/
theorem descendants_spare_root_iff (root : Nat) (parents : List (Nat × Nat)) (helper deadline : Nat)
    (rounds : List Round) :
    (Ends root parents ∧ FindsDescendants root parents ↔ ¬ Circular root parents) ∧
      (helper ∉ kill_tree_linux helper deadline rounds ↔
        ∀ round ∈ carried_out deadline rounds, ¬ Circular helper round.parents) := by
  constructor
  · rw [findsDescendants_iff]
    exact and_iff_right (descendants_end root parents)
  · rw [mem_kill_tree_linux]
    simp only [not_exists, not_and]
    exact Iff.rfl

/-- The helper's parent has ended, and one of the program's processes has its pid: the helper is
signalled. -/
theorem reused_pid_kills_helper :
    100 ∈ descendants 100 [(100, 90), (90, 100)] ∧
      100 ∈ kill_tree_linux 100 10000 [⟨0, [(100, 90), (90, 100)], false⟩] := by decide

/-! ## The wait -/

/-- `os.waitstatus_to_exitcode`, `none` for its `ValueError`. -/
def waitstatus_to_exitcode (status : Nat) : Option Int :=
  if status % 128 = 0 then some ↑(status / 256 % 256)
  else if status % 128 = 127 then none
  else some (-↑(status % 128))

/-- What `os.waitpid(-1, 0)` returns: a child that has ended. -/
structure Reap where
  pid : Nat
  status : Nat
  ended : (waitstatus_to_exitcode status).isSome

def Reap.exit_code (reap : Reap) : Int := (waitstatus_to_exitcode reap.status).get reap.ended

/-- The loop of `_wait_tree_linux`, until no child is left. -/
def wait_tree_loop (child_pid : Nat) (code : Int) : List Reap → Int
  | [] => code
  | reap :: reaps =>
      wait_tree_loop child_pid (if reap.pid = child_pid then reap.exit_code else code) reaps

def wait_tree_linux (child_pid : Nat) (reaps : List Reap) : Int := wait_tree_loop child_pid 0 reaps

/-- The loop does what the helper does at each turn. -/
theorem wait_tree_turn_reap (child_pid : Nat) (code : Int) (reap : Reap) :
    wait_tree_turn child_pid code (.child reap.pid reap.exit_code) =
      some (.waiting child_pid (if reap.pid = child_pid then reap.exit_code else code)) := rfl

/-- The reaps of one pid. -/
def reapsOf (pid : Nat) (reaps : List Reap) : List Reap := reaps.filter fun reap => reap.pid = pid

theorem wait_tree_loop_eq (child_pid : Nat) (code : Int) (reaps : List Reap) :
    wait_tree_loop child_pid code reaps =
      (((reapsOf child_pid reaps).map Reap.exit_code).getLast?).getD code := by
  induction reaps generalizing code with
  | nil => rfl
  | cons reap reaps ih =>
      rw [wait_tree_loop, ih]
      simp only [reapsOf, List.filter_cons]
      by_cases h : reap.pid = child_pid
      · rw [if_pos h, if_pos (by simpa using h), List.map_cons, List.getLast?_cons]
        rfl
      · rw [if_neg h, if_neg (by simpa using h)]

/-- The exit code is that of the first reap of the program exactly when the last process that was
reaped under its pid ended in the same way. -/
theorem exit_code_is_first_reap_iff (child_pid : Nat) (reaps : List Reap) (first : Reap)
    (hfirst : (reapsOf child_pid reaps).head? = some first) :
    wait_tree_linux child_pid reaps = first.exit_code ↔
      ∀ last ∈ (reapsOf child_pid reaps).getLast?, last.exit_code = first.exit_code := by
  rw [wait_tree_linux, wait_tree_loop_eq, List.getLast?_map]
  cases hlast : (reapsOf child_pid reaps).getLast? with
  | none =>
      rw [List.getLast?_eq_none_iff.mp hlast] at hfirst
      cases hfirst
  | some last => simp

/-- The program ends with 0. -/
def programEnds : Reap := ⟨7, 0, by decide⟩

/-- A descendant that was given the same pid ends with 3. -/
def namesakeEnds : Reap := ⟨7, 768, by decide⟩

theorem exit_code_is_first_reap_alone :
    wait_tree_linux 7 [⟨9, 256, by decide⟩, programEnds] = programEnds.exit_code :=
  (exit_code_is_first_reap_iff 7 [⟨9, 256, by decide⟩, programEnds] programEnds rfl).mpr
    (by intro last hlast; cases hlast; rfl)

theorem reused_pid_overwrites_exit_code :
    wait_tree_linux 7 [programEnds, namesakeEnds] = 3 ∧ programEnds.exit_code = 0 := by decide

end PwshPy.TreeReaper
