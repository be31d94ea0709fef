import Mathlib.Data.List.Basic

/-! # Imports one after another

A module's code asks for other modules by name. A name that was loaded before is answered from the
table of loaded modules, any other is looked for on a search path and run in its turn. As long as no
code changes the path or the table by hand, a name leads to the same module wherever it is asked for.
-/

namespace PwshPy.Importing

variable {π ν μ : Type}

structure State (π ν μ : Type) where
  /-- `sys.path` -/
  path : π
  /-- `sys.modules` -/
  modules : List (ν × μ)
  /-- whether one of the two was changed by hand -/
  touched : Bool

/-- What code does to the imports: it asks for a name and goes on by the answer, changes the state by
hand, and ends or raises. -/
inductive Code (π ν μ : Type) where
  | done
  | raises
  | imports (name : ν) (next : Option μ → Code π ν μ)
  | changes (change : State π ν μ → State π ν μ) (next : Code π ν μ)

/-- What a search path finds for a name, and the code of each module. -/
structure System (π ν μ : Type) where
  find : π → ν → Option μ
  code : μ → Code π ν μ

/-- `import name` of code that cannot do without it. -/
def Code.require (name : ν) (next : μ → Code π ν μ) : Code π ν μ :=
  .imports name fun
    | none => .raises
    | some m => next m

section Run

variable [DecidableEq ν]

/-- `sys.modules.get(name)` -/
def State.loaded (s : State π ν μ) (name : ν) : Option μ := s.modules.lookup name

/-- The code of a module, whose imports are made by `load`: the state it leaves, and whether it came
to its end. -/
def exec (load : State π ν μ → ν → State π ν μ × Bool) :
    Code π ν μ → State π ν μ → State π ν μ × Bool
  | .done, s => (s, true)
  | .raises, s => (s, false)
  | .imports name next, s =>
      let out := load s name
      exec load (next (if out.2 then out.1.loaded name else none)) out.1
  | .changes change next, s => exec load next { change s with touched := true }

/-- `del sys.modules[name]` -/
def State.forget (s : State π ν μ) (name : ν) : State π ν μ :=
  { s with modules := s.modules.filter fun entry => decide (entry.1 ≠ name) }

variable (sys : System π ν μ)

/-- `import name`, with imports inside one another up to a limit. A module is in the table while its
code runs, and is taken out of it again if the code raises. -/
def import_at : Nat → State π ν μ → ν → State π ν μ × Bool
  | 0, s, name => (s, (s.loaded name).isSome)
  | depth + 1, s, name =>
      match s.loaded name with
      | some _ => (s, true)
      | none =>
          match sys.find s.path name with
          | none => (s, false)
          | some m =>
              let out := exec (import_at depth) (sys.code m)
                { s with modules := (name, m) :: s.modules }
              if out.2 then (out.1, true) else (out.1.forget name, false)

/-- The module a name leads to. -/
def State.resolve (s : State π ν μ) (name : ν) : Option μ :=
  match s.loaded name with
  | some m => some m
  | none => sys.find s.path name

/-! ## Where names lead to -/

/-- Without changes by hand a later state has the same path and the same answers. -/
def Onward (s s' : State π ν μ) : Prop :=
  s'.touched = false →
    s.touched = false ∧ s'.path = s.path ∧ ∀ name, s'.resolve sys name = s.resolve sys name

variable {sys} {s s' s'' : State π ν μ}

theorem Onward.refl : Onward sys s s := fun h => ⟨h, rfl, fun _ => rfl⟩

theorem Onward.trans (h : Onward sys s s') (h' : Onward sys s' s'') : Onward sys s s'' := by
  intro huntouched
  obtain ⟨hmid, hpath', hresolve'⟩ := h' huntouched
  obtain ⟨hfirst, hpath, hresolve⟩ := h hmid
  exact ⟨hfirst, hpath'.trans hpath, fun name => (hresolve' name).trans (hresolve name)⟩

theorem lookup_cons_of_ne {name other : ν} {m : μ} {modules : List (ν × μ)} (hne : other ≠ name) :
    ((name, m) :: modules).lookup other = modules.lookup other := by
  rw [List.lookup_cons, beq_eq_false_iff_ne.mpr hne]

theorem loaded_eq_none {name : ν} : s.loaded name = none ↔ name ∉ s.modules.map Prod.fst := by
  rw [State.loaded, List.lookup_eq_none_iff, List.mem_map]
  constructor
  · rintro h ⟨entry, hentry, hname⟩
    exact bne_iff_ne.mp (h entry hentry) hname.symm
  · exact fun h entry hentry => bne_iff_ne.mpr fun hname => h ⟨entry, hentry, hname.symm⟩

theorem resolve_of_not_loaded {name : ν} (h : name ∉ s.modules.map Prod.fst) :
    s.resolve sys name = sys.find s.path name := by
  rw [State.resolve, loaded_eq_none.mpr h]

/-- A module that the path finds may stand in the table. -/
theorem resolve_cons {name : ν} {m : μ} (hnew : s.loaded name = none)
    (hfound : sys.find s.path name = some m) (other : ν) :
    State.resolve sys { s with modules := (name, m) :: s.modules } other = s.resolve sys other := by
  by_cases hsame : other = name
  · rw [State.resolve, State.resolve, hsame, State.loaded, List.lookup_cons_self, hnew, hfound]
  · rw [State.resolve, State.resolve, State.loaded, lookup_cons_of_ne hsame]
    rfl

theorem loaded_forget_self (name : ν) : (s.forget name).loaded name = none := by
  rw [loaded_eq_none, List.mem_map]
  rintro ⟨entry, hentry, hname⟩
  exact of_decide_eq_true (List.mem_filter.mp hentry).2 hname

theorem loaded_forget_of_ne {name other : ν} (hne : other ≠ name) :
    (s.forget name).loaded other = s.loaded other := by
  rw [State.loaded, State.loaded, State.forget]
  generalize s.modules = modules
  induction modules with
  | nil => rfl
  | cons entry rest ih =>
      obtain ⟨key, m⟩ := entry
      by_cases hkey : key = name
      · rw [List.filter_cons_of_neg (by simpa using hkey), ih, lookup_cons_of_ne (hkey ▸ hne)]
      · rw [List.filter_cons_of_pos (by simpa using hkey), List.lookup_cons, List.lookup_cons, ih]

theorem exec_onward {load : State π ν μ → ν → State π ν μ × Bool}
    (hload : ∀ s name, Onward sys s (load s name).1) (code : Code π ν μ) (s : State π ν μ) :
    Onward sys s (exec load code s).1 := by
  induction code generalizing s with
  | done => exact .refl
  | raises => exact .refl
  | imports name next ih => exact (hload s name).trans (ih _ _)
  | changes change next ih =>
      intro huntouched
      obtain ⟨hchanged, -⟩ := ih { change s with touched := true } huntouched
      cases hchanged

/-- An import leads no name elsewhere. -/
theorem import_onward (depth : Nat) (s : State π ν μ) (name : ν) :
    Onward sys s (import_at sys depth s name).1 := by
  induction depth generalizing s name with
  | zero => exact .refl
  | succ depth ih =>
      rw [import_at]
      cases hloaded : s.loaded name with
      | some m => exact .refl
      | none =>
          cases hfound : sys.find s.path name with
          | none => exact .refl
          | some m =>
              have hrun := exec_onward ih (sys.code m) { s with modules := (name, m) :: s.modules }
              have hown := resolve_cons hloaded hfound
              dsimp only
              split
              · intro huntouched
                obtain ⟨hfirst, hpath, hresolve⟩ := hrun huntouched
                exact ⟨hfirst, hpath, fun other => (hresolve other).trans (hown other)⟩
              · intro huntouched
                obtain ⟨hfirst, hpath, hresolve⟩ := hrun huntouched
                refine ⟨hfirst, hpath, fun other => ?_⟩
                by_cases hsame : other = name
                · rw [State.resolve, State.resolve, hsame, loaded_forget_self, hloaded]
                  exact congrArg (sys.find · name) hpath
                · rw [State.resolve, loaded_forget_of_ne hsame]
                  exact (hresolve other).trans (hown other)

theorem run_onward (depth : Nat) (code : Code π ν μ) (s : State π ν μ) :
    Onward sys s (exec (import_at sys depth) code s).1 :=
  exec_onward (import_onward depth) code s

end Run

end PwshPy.Importing
