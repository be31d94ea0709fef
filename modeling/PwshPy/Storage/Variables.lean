import Mathlib.Logic.Function.Basic

/-! # Variables

A store of variables gives a name a value or leaves it unset. Programs that hand
a store on to each other set, unset and copy variables, one after the other.
-/

namespace PwshPy.Storage

abbrev Variables (ν α : Type) := ν → Option α

namespace Variables

variable {ν α κ : Type} [DecidableEq ν]

/-- Set the name to a value, or unset it. -/
def assign (vars : Variables ν α) (n : ν) (value : Option α) : Variables ν α :=
  Function.update vars n value

def set (vars : Variables ν α) (n : ν) (value : α) : Variables ν α := vars.assign n (some value)

def unset (vars : Variables ν α) (n : ν) : Variables ν α := vars.assign n none

/-- Unset every name of a kind. -/
def dropWhere (vars : Variables ν α) (p : ν → Bool) : Variables ν α :=
  fun n => if p n then none else vars n

/-- Unset each of these names. -/
def unsetEach (vars : Variables ν α) : List ν → Variables ν α
  | [] => vars
  | n :: names => (vars.unset n).unsetEach names

/-- Set each of these names to its value. -/
def setEach (vars : Variables ν α) : List (ν × α) → Variables ν α
  | [] => vars
  | (n, value) :: pairs => (vars.set n value).setEach pairs

/-- For each key in turn, its target is what `pass` makes of its source. -/
def copyEach (source target : κ → ν) (pass : α → Option α) :
    List κ → Variables ν α → Variables ν α
  | [], vars => vars
  | k :: keys, vars =>
    copyEach source target pass keys (vars.assign (target k) ((vars (source k)).bind pass))

/-- Give each of these names the value another store has for it. -/
def restoreEach (values : Variables ν α) : List ν → Variables ν α → Variables ν α
  | [], vars => vars
  | n :: names, vars => restoreEach values names (vars.assign n (values n))

variable {vars : Variables ν α} {n m : ν} {value : Option α} {v : α}

@[simp] theorem assign_self : vars.assign n value n = value := by
  simp [assign]

theorem assign_of_ne (h : m ≠ n) : vars.assign n value m = vars m := by
  simp [assign, h]

@[simp] theorem set_self : vars.set n v n = some v := assign_self

theorem set_of_ne (h : m ≠ n) : vars.set n v m = vars m := assign_of_ne h

@[simp] theorem unset_self : vars.unset n n = none := assign_self

theorem unset_of_ne (h : m ≠ n) : vars.unset n m = vars m := assign_of_ne h

omit [DecidableEq ν] in
theorem dropWhere_of_true {p : ν → Bool} (h : p n = true) : vars.dropWhere p n = none := by
  simp [dropWhere, h]

omit [DecidableEq ν] in
theorem dropWhere_of_false {p : ν → Bool} (h : p n = false) : vars.dropWhere p n = vars n := by
  simp [dropWhere, h]

theorem unsetEach_of_not_mem {names : List ν} (h : n ∉ names) : vars.unsetEach names n = vars n := by
  induction names generalizing vars with
  | nil => rfl
  | cons first names ih =>
      simp only [List.mem_cons, not_or] at h
      rw [unsetEach, ih h.2, unset_of_ne h.1]

theorem setEach_of_not_mem {pairs : List (ν × α)} (h : n ∉ pairs.map Prod.fst) :
    vars.setEach pairs n = vars n := by
  induction pairs generalizing vars with
  | nil => rfl
  | cons first pairs ih =>
      simp only [List.map_cons, List.mem_cons, not_or] at h
      rw [setEach, ih h.2, set_of_ne h.1]

section Copying

variable {source target : κ → ν} {pass : α → Option α} {keys : List κ}

theorem copyEach_of_not_target (h : ∀ k ∈ keys, n ≠ target k) :
    copyEach source target pass keys vars n = vars n := by
  induction keys generalizing vars with
  | nil => rfl
  | cons k keys ih =>
      rw [copyEach, ih fun k' hk' => h k' (List.mem_cons_of_mem _ hk'),
        assign_of_ne (h k List.mem_cons_self)]

/-- Copying to names that are no sources copies what was there at the start. -/
theorem copyEach_target (hinjective : Function.Injective target)
    {k : κ} (hapart : ∀ k' ∈ keys, source k ≠ target k') (hk : k ∈ keys) (hnodup : keys.Nodup) :
    copyEach source target pass keys vars (target k) = (vars (source k)).bind pass := by
  induction keys generalizing vars with
  | nil => cases hk
  | cons first keys ih =>
      rw [copyEach]
      rcases List.mem_cons.mp hk with rfl | hk
      · have hlater : ∀ k' ∈ keys, target k ≠ target k' := by
          intro k' hk' heq
          rw [hinjective heq] at hnodup
          exact (List.nodup_cons.mp hnodup).1 hk'
        rw [copyEach_of_not_target hlater, assign_self]
      · rw [ih (fun k' hk' => hapart k' (List.mem_cons_of_mem _ hk')) hk (List.nodup_cons.mp hnodup).2,
          assign_of_ne (hapart first List.mem_cons_self)]

end Copying

theorem restoreEach_of_not_mem {values : Variables ν α} {names : List ν} (h : n ∉ names) :
    restoreEach values names vars n = vars n := by
  induction names generalizing vars with
  | nil => rfl
  | cons first names ih =>
      simp only [List.mem_cons, not_or] at h
      rw [restoreEach, ih h.2, assign_of_ne h.1]

theorem restoreEach_of_mem {values : Variables ν α} {names : List ν} (h : n ∈ names) :
    restoreEach values names vars n = values n := by
  induction names generalizing vars with
  | nil => cases h
  | cons first names ih =>
      rw [restoreEach]
      by_cases hn : n ∈ names
      · exact ih hn
      · have hfirst : n = first := (List.mem_cons.mp h).resolve_right hn
        subst hfirst
        rw [restoreEach_of_not_mem hn, assign_self]

end Variables

end PwshPy.Storage
