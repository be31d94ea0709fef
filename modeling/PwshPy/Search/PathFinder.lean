import PwshPy.Text.PyStr

/-! # The path-based finder of CPython

For a directory of the search path and one name, a package directory with an
initialiser comes before a module file, the loaders in their order within each,
and a directory without an initialiser is a portion of a namespace package. A
dotted name is found part by part, each in the package its parents name.
-/

namespace PwshPy.PathFinder

/-- A path is kept as its components. -/
abbrev Path := List PyStr

/-- What a finder asks of a directory tree, links followed. -/
structure Tree (σ : Type) where
  file : Path → Option σ
  isDir : Path → Bool

def INIT : PyStr := py "__init__"

inductive Spec where
  | package (dir init : Path)
  | module (file : Path)
  | portion (dir : Path)
  deriving DecidableEq

namespace Spec

/-- The file a spec loads. -/
def file? : Spec → Option Path
  | package _ init => some init
  | module file => some file
  | portion _ => none

/-- Where submodules are searched. -/
def location : Spec → Option Path
  | package dir _ => some dir
  | module _ => none
  | portion dir => some dir

/-- `ModuleSpec.parent`: the `__package__` of what was found as `name`. -/
def parent (spec : Spec) (name : List PyStr) : List PyStr :=
  match spec with
  | module _ => name.dropLast
  | _ => name

/-- The same spec in a tree mounted below `root`. -/
def under (root : Path) : Spec → Spec
  | package dir init => package (root ++ dir) (root ++ init)
  | module file => module (root ++ file)
  | portion dir => portion (root ++ dir)

theorem file?_under {spec : Spec} {root q : Path} (h : (spec.under root).file? = some q) :
    ∃ name, spec.file? = some name ∧ q = root ++ name := by
  cases spec with
  | package dir init => exact ⟨init, rfl, (Option.some.inj h).symm⟩
  | module file => exact ⟨file, rfl, (Option.some.inj h).symm⟩
  | portion dir => simp [under, file?] at h

end Spec

section Find

variable {σ τ : Type} (t : Tree σ) (suffixes : List PyStr)

def findModule (d : Path) (n : PyStr) : Option Spec :=
  match suffixes.find? fun s => (t.file (d ++ [n ++ s])).isSome with
  | some s => some (.module (d ++ [n ++ s]))
  | none => if t.isDir (d ++ [n]) then some (.portion (d ++ [n])) else none

/-- `FileFinder.find_spec` in one directory. -/
def findIn (d : Path) (n : PyStr) : Option Spec :=
  match suffixes.find? fun s => (t.file (d ++ [n, INIT ++ s])).isSome with
  | some s => some (.package (d ++ [n]) (d ++ [n, INIT ++ s]))
  | none => findModule t suffixes d n

/-- The spec of a dotted name, searched from one directory. -/
def load (d : Path) : List PyStr → Option Spec
  | [] => none
  | [n] => findIn t suffixes d n
  | n :: m :: rest =>
      match findIn t suffixes d n with
      | some (.package dir _) | some (.portion dir) => load dir (m :: rest)
      | _ => none

/-! ## What is found -/

variable {t suffixes}

/-- Each of the three ways a directory answers a name. -/
theorem findIn_cases {d : Path} {n : PyStr} {spec : Spec} (h : findIn t suffixes d n = some spec) :
    (∃ s ∈ suffixes, spec = .package (d ++ [n]) (d ++ [n, INIT ++ s]) ∧
      (t.file (d ++ [n, INIT ++ s])).isSome) ∨
    ((∀ s ∈ suffixes, t.file (d ++ [n, INIT ++ s]) = none) ∧
      ((∃ s ∈ suffixes, spec = .module (d ++ [n ++ s]) ∧ (t.file (d ++ [n ++ s])).isSome) ∨
      ((∀ s ∈ suffixes, t.file (d ++ [n ++ s]) = none) ∧ spec = .portion (d ++ [n]) ∧
        t.isDir (d ++ [n])))) := by
  unfold findIn at h
  cases hi : suffixes.find? fun s => (t.file (d ++ [n, INIT ++ s])).isSome with
  | some s =>
      rw [hi] at h
      have hs := List.find?_some hi
      exact .inl ⟨s, List.mem_of_find?_eq_some hi, (Option.some.inj h).symm, hs⟩
  | none =>
      rw [hi] at h
      have hinit : ∀ s ∈ suffixes, t.file (d ++ [n, INIT ++ s]) = none := by
        simpa using List.find?_eq_none.mp hi
      refine .inr ⟨hinit, ?_⟩
      simp only [findModule] at h
      cases hm : suffixes.find? fun s => (t.file (d ++ [n ++ s])).isSome with
      | some s =>
          rw [hm] at h
          have hs := List.find?_some hm
          exact .inl ⟨s, List.mem_of_find?_eq_some hm, (Option.some.inj h).symm, hs⟩
      | none =>
          rw [hm] at h
          have hmod : ∀ s ∈ suffixes, t.file (d ++ [n ++ s]) = none := by
            simpa using List.find?_eq_none.mp hm
          by_cases hdir : t.isDir (d ++ [n])
          · rw [if_pos hdir] at h
            exact .inr ⟨hmod, (Option.some.inj h).symm, hdir⟩
          · simp [hdir] at h

/-- A spec with a location sends the search on below the name. -/
theorem location_eq {d : Path} {n : PyStr} {spec : Spec} (h : findIn t suffixes d n = some spec)
    {dir : Path} (hdir : spec.location = some dir) : dir = d ++ [n] := by
  rcases findIn_cases h with ⟨s, -, rfl, -⟩ | ⟨-, ⟨s, -, rfl, -⟩ | ⟨-, rfl, -⟩⟩
  · simpa [Spec.location] using hdir.symm
  · simp [Spec.location] at hdir
  · simpa [Spec.location] using hdir.symm

theorem load_cons {d : Path} {n m : PyStr} {rest : List PyStr} {spec : Spec} :
    load t suffixes d (n :: m :: rest) = some spec ↔
      ∃ first dir, findIn t suffixes d n = some first ∧ first.location = some dir ∧
        load t suffixes dir (m :: rest) = some spec := by
  rw [load]
  cases h : findIn t suffixes d n with
  | none => simp
  | some first => cases first <;> simp [Spec.location]

theorem findIn_file {d : Path} {n : PyStr} {spec : Spec} {f : Path}
    (h : findIn t suffixes d n = some spec) (hf : spec.file? = some f) :
    (t.file f).isSome ∧ ∃ rest, rest ≠ [] ∧ f = d ++ rest := by
  rcases findIn_cases h with ⟨s, -, rfl, hs⟩ | ⟨-, ⟨s, -, rfl, hs⟩ | ⟨-, rfl, -⟩⟩
  · obtain rfl : d ++ [n, INIT ++ s] = f := by simpa [Spec.file?] using hf
    exact ⟨hs, _, by simp, rfl⟩
  · obtain rfl : d ++ [n ++ s] = f := by simpa [Spec.file?] using hf
    exact ⟨hs, _, by simp, rfl⟩
  · simp [Spec.file?] at hf

/-- The file of a dotted name lies below the directory the search starts in. -/
theorem load_file {names : List PyStr} {d : Path} {spec : Spec} {f : Path}
    (h : load t suffixes d names = some spec) (hf : spec.file? = some f) :
    (t.file f).isSome ∧ ∃ rest, rest ≠ [] ∧ f = d ++ rest := by
  induction names generalizing d with
  | nil => simp [load] at h
  | cons n names ih =>
      cases names with
      | nil => exact findIn_file h hf
      | cons m rest =>
          obtain ⟨first, dir, hfirst, hdir, hrest⟩ := load_cons.mp h
          obtain ⟨hsome, more, hne, rfl⟩ := ih hrest
          refine ⟨hsome, n :: more, by simp, ?_⟩
          rw [location_eq hfirst hdir]
          simp

/-- The file of a dotted name lies in the directory of its `__package__`. -/
theorem load_parent {names : List PyStr} {d : Path} {spec : Spec} {f : Path}
    (h : load t suffixes d names = some spec) (hf : spec.file? = some f) :
    ∃ leaf, f = d ++ spec.parent names ++ [leaf] := by
  induction names generalizing d with
  | nil => simp [load] at h
  | cons n names ih =>
      cases names with
      | nil =>
          rcases findIn_cases h with ⟨s, -, rfl, -⟩ | ⟨-, ⟨s, -, rfl, -⟩ | ⟨-, rfl, -⟩⟩
          · exact ⟨INIT ++ s, by simpa [Spec.parent, Spec.file?] using hf.symm⟩
          · exact ⟨n ++ s, by simpa [Spec.parent, Spec.file?] using hf.symm⟩
          · simp [Spec.file?] at hf
      | cons m rest =>
          obtain ⟨first, dir, hfirst, hdir, hrest⟩ := load_cons.mp h
          obtain rfl := location_eq hfirst hdir
          obtain ⟨leaf, rfl⟩ := ih hrest
          refine ⟨leaf, ?_⟩
          cases spec <;> simp [Spec.parent]

/-- A module file is enough for a name to load some file. -/
theorem findIn_of_module {d : Path} {n s : PyStr} (hs : s ∈ suffixes)
    (h : (t.file (d ++ [n ++ s])).isSome) :
    ∃ spec f, findIn t suffixes d n = some spec ∧ spec.file? = some f := by
  unfold findIn
  cases suffixes.find? fun s => (t.file (d ++ [n, INIT ++ s])).isSome with
  | some i => exact ⟨_, _, rfl, rfl⟩
  | none =>
      simp only [findModule]
      cases hm : suffixes.find? fun s => (t.file (d ++ [n ++ s])).isSome with
      | some m => exact ⟨_, _, rfl, rfl⟩
      | none =>
          have hnone := List.find?_eq_none.mp hm s hs
          exact absurd h hnone

end Find

/-! ## Two directories -/

def DOT : Nat := 0x2e

/-- The suffixes of the loaders, the source suffix among them. -/
structure Loaders where
  suffixes : List PyStr
  dotted : ∀ s ∈ suffixes, ∃ rest, s = DOT :: rest
  source : py ".py" ∈ suffixes

private theorem takeWhile_name {n rest : PyStr} (hn : DOT ∉ n) :
    (n ++ DOT :: rest).takeWhile (· ≠ DOT) = n := by
  have hall : ∀ c ∈ n, decide (c ≠ DOT) = true :=
    fun c hc => decide_eq_true fun hdot => hn (hdot ▸ hc)
  rw [List.takeWhile_append_of_pos hall]
  simp

/-- A file found for a name tells the directory it was looked for in. -/
theorem findIn_dir_unique {σ : Type} {t : Tree σ} {loaders : Loaders} {d d' : Path} {n : PyStr}
    {spec spec' : Spec} {f : Path} (hdot : DOT ∉ n) (hinit : n ≠ INIT)
    (h : findIn t loaders.suffixes d n = some spec) (hf : spec.file? = some f)
    (h' : findIn t loaders.suffixes d' n = some spec') (hf' : spec'.file? = some f) : d = d' := by
  -- a module file `n.suffix` is no initialiser
  have hleaf : ∀ s ∈ loaders.suffixes, ∀ s' ∈ loaders.suffixes, n ++ s ≠ INIT ++ s' := by
    intro s hs s' hs' heq
    obtain ⟨r, rfl⟩ := loaders.dotted s hs
    obtain ⟨r', rfl⟩ := loaders.dotted s' hs'
    have hname := congrArg (List.takeWhile (· ≠ DOT)) heq
    rw [takeWhile_name hdot, takeWhile_name (by decide)] at hname
    exact hinit hname
  have hform : ∀ {e : Path} {s : Spec}, findIn t loaders.suffixes e n = some s →
      s.file? = some f →
        (∃ i ∈ loaders.suffixes, f = e ++ [n, INIT ++ i]) ∨ ∃ m ∈ loaders.suffixes, f = e ++ [n ++ m] := by
    intro e s hs hsf
    rcases findIn_cases hs with ⟨i, hi, rfl, -⟩ | ⟨-, ⟨m, hm, rfl, -⟩ | ⟨-, rfl, -⟩⟩
    · exact .inl ⟨i, hi, (Option.some.inj hsf).symm⟩
    · exact .inr ⟨m, hm, (Option.some.inj hsf).symm⟩
    · simp [Spec.file?] at hsf
  rcases hform h hf with ⟨i, hi, rfl⟩ | ⟨m, hm, rfl⟩
  · rcases hform h' hf' with ⟨i', hi', heq⟩ | ⟨m', hm', heq⟩
    · exact (List.append_inj' heq rfl).1
    · have hlast := congrArg List.getLast? heq
      simp only [List.getLast?_append, List.getLast?_cons_cons, List.getLast?_singleton,
        Option.some_or, Option.some.injEq] at hlast
      exact absurd hlast.symm (hleaf m' hm' i hi)
  · rcases hform h' hf' with ⟨i', hi', heq⟩ | ⟨m', hm', heq⟩
    · have hlast := congrArg List.getLast? heq
      simp only [List.getLast?_append, List.getLast?_cons_cons, List.getLast?_singleton,
        Option.some_or, Option.some.injEq] at hlast
      exact absurd hlast (hleaf m hm i' hi')
    · exact (List.append_inj' heq rfl).1

/-! ## A search path -/

/-- The first entry that answers with a file, and the file: portions of a
namespace package let the search go on. -/
def loadOn {δ : Type} (find : δ → PyStr → Option Spec) (search : List δ) (n : PyStr) :
    Option (δ × Path) :=
  search.findSome? fun entry =>
    ((find entry n).bind Spec.file?).map fun file => (entry, file)

/-! ## A part of a tree -/

section Restrict

variable {σ τ : Type} {t : Tree σ} {u : Tree τ} {suffixes : List PyStr} {root : Path}

/-- `u` mounted at `root` holds no file that `t` lacks, and has the directories
of the files it holds. -/
structure Restricts (u : Tree τ) (t : Tree σ) (root : Path) : Prop where
  file : ∀ r, (u.file r).isSome → (t.file (root ++ r)).isSome
  dir : ∀ r more, more ≠ [] → (u.file (r ++ more)).isSome → u.isDir r

/-- The first choice of a list stays the first choice of a part that keeps it. -/
private theorem find?_restrict {α : Type} {l : List α} {p q : α → Bool} (hqp : ∀ x, q x → p x)
    {x : α} (h : l.find? p = some x) (hx : q x) : l.find? q = some x := by
  obtain ⟨-, before, after, rfl, hbefore⟩ := List.find?_eq_some_iff_append.mp h
  refine List.find?_eq_some_iff_append.mpr ⟨hx, before, after, rfl, fun y hy => ?_⟩
  have hp := hbefore y hy
  cases hq : q y with
  | true => simp [hqp y hq] at hp
  | false => rfl

private theorem find?_restrict_none {α : Type} {l : List α} {p q : α → Bool}
    (hqp : ∀ x, q x → p x) (h : l.find? p = none) : l.find? q = none := by
  refine List.find?_eq_none.mpr fun y hy hq => ?_
  exact List.find?_eq_none.mp h y hy (hqp y hq)

/-- One directory answers alike when the file it chose, or the portion, is kept. -/
theorem findIn_restrict (hu : Restricts u t root) {d : Path} {n : PyStr} {spec : Spec}
    (h : findIn t suffixes (root ++ d) n = some spec)
    (hfile : ∀ r, spec.file? = some (root ++ r) → (u.file r).isSome)
    (hdir : spec.file? = none → u.isDir (d ++ [n])) :
    ∃ spec', findIn u suffixes d n = some spec' ∧ spec = spec'.under root := by
  have hsub : ∀ (tail : PyStr → Path) s, (u.file (d ++ tail s)).isSome →
      (t.file (root ++ d ++ tail s)).isSome := fun tail s hs => by
    simpa [List.append_assoc] using hu.file _ hs
  unfold findIn at h
  cases hi : suffixes.find? fun s => (t.file (root ++ d ++ [n, INIT ++ s])).isSome with
  | some s =>
      rw [hi] at h
      obtain rfl := Option.some.inj h
      have hkept : (u.file (d ++ [n, INIT ++ s])).isSome :=
        hfile _ (by simp [Spec.file?])
      refine ⟨.package (d ++ [n]) (d ++ [n, INIT ++ s]), ?_, by simp [Spec.under]⟩
      rw [findIn, find?_restrict (hsub fun s => [n, INIT ++ s]) hi hkept]
  | none =>
      rw [hi] at h
      rw [findIn, find?_restrict_none (hsub fun s => [n, INIT ++ s]) hi]
      simp only [findModule] at h ⊢
      cases hm : suffixes.find? fun s => (t.file (root ++ d ++ [n ++ s])).isSome with
      | some s =>
          rw [hm] at h
          obtain rfl := Option.some.inj h
          have hkept : (u.file (d ++ [n ++ s])).isSome := hfile _ (by simp [Spec.file?])
          refine ⟨.module (d ++ [n ++ s]), ?_, by simp [Spec.under]⟩
          rw [find?_restrict (hsub fun s => [n ++ s]) hm hkept]
      | none =>
          rw [hm] at h
          rw [find?_restrict_none (hsub fun s => [n ++ s]) hm]
          obtain ⟨-, rfl⟩ : t.isDir (root ++ d ++ [n]) = true ∧
              Spec.portion (root ++ d ++ [n]) = spec := by simpa using h
          have hkept := hdir rfl
          exact ⟨.portion (d ++ [n]), by simp [hkept], by simp [Spec.under]⟩

/-- A dotted name that names a file is found alike in a part that keeps the file
chosen for each of its prefixes. -/
theorem load_restrict (hu : Restricts u t root) {names : List PyStr} {d : Path} {spec : Spec}
    {f : Path} (hload : load t suffixes (root ++ d) names = some spec) (hf : spec.file? = some f)
    (hkept : ∀ before n after, names = before ++ n :: after → ∀ chosen r,
      findIn t suffixes (root ++ d ++ before) n = some chosen →
      chosen.file? = some (root ++ r) → (u.file r).isSome) :
    ∃ spec', load u suffixes d names = some spec' ∧ spec = spec'.under root := by
  induction names generalizing d with
  | nil => simp [load] at hload
  | cons n names ih =>
      cases names with
      | nil =>
          refine findIn_restrict hu hload (fun r hr => ?_) (by simp [hf])
          exact hkept [] n [] rfl spec r (by simpa [load] using hload) hr
      | cons m rest =>
          obtain ⟨first, dir, hfirst, hdir, hrest⟩ := load_cons.mp hload
          obtain rfl := location_eq hfirst hdir
          rw [List.append_assoc] at hrest
          obtain ⟨spec', hspec', rfl⟩ := ih hrest fun before k after hnames chosen r hchosen =>
            hkept (n :: before) k after (by simp [hnames]) chosen r (by simpa using hchosen)
          obtain ⟨f', hf', -⟩ := Spec.file?_under hf
          obtain ⟨hsome, more, hne, rfl⟩ := load_file hspec' hf'
          obtain ⟨first', hfirst', rfl⟩ := findIn_restrict hu hfirst
            (fun r hr => hkept [] n (m :: rest) rfl first r (by simpa using hfirst) hr)
            (fun _ => hu.dir _ more hne hsome)
          refine ⟨spec', load_cons.mpr ⟨first', d ++ [n], hfirst', ?_, hspec'⟩, rfl⟩
          cases first' with
          | module file => simp [Spec.under, Spec.location] at hdir
          | package dir init => simpa [Spec.under, Spec.location] using hdir
          | portion dir => simpa [Spec.under, Spec.location] using hdir

end Restrict

end PwshPy.PathFinder
