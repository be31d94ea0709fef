import PwshPy.Text.PyStr
import PwshPy.Storage.Variables

/-! # The environment hand-over and the shim that ends it

A root run starts uv on an environment of the running account's own, and hands
what the caller had over in variables of its own. The generated shim takes them
out again before the packed script runs.
-/

namespace PwshPy.Handover

open Storage (Variables)
open Storage.Variables

abbrev Env := Variables PyStr PyStr

/-! ## Names -/

def PATH : PyStr := py "PATH"
def ARGV_ENV_VAR : PyStr := py "PWSHPY_PACK_ARGV"
def ARGV_ENCODING_TAG : PyStr := py "v1"
def CWD_ENV_VAR : PyStr := py "PWSHPY_PACK_CWD"
def PATH_ENV_VAR : PyStr := py "PWSHPY_PACK_PATH"
def UV_PATH_ENV_VAR : PyStr := py "PWSHPY_PACK_UV_PATH"
def CALLER_ENV_VAR : PyStr := py "PWSHPY_PACK_CALLER"

def CALLER_ENV_NAMES : List PyStr :=
  [py "HOME", py "XDG_CONFIG_HOME", py "XDG_CACHE_HOME", py "XDG_DATA_HOME", py "XDG_STATE_HOME",
    py "NETRC", py "UV_CREDENTIALS_DIR", py "TMPDIR", py "TMP", py "TEMP"]

/-- `<hand-over>_` -/
def recordPrefix : PyStr := CALLER_ENV_VAR ++ [0x5f]

/-- `<hand-over>_<NAME>`, the record of a name. -/
def record (name : PyStr) : PyStr := recordPrefix ++ name

def isRecord (name : PyStr) : Bool := recordPrefix.isPrefixOf name

/-- The marker of the hand-over, and every record. -/
def isCallerVariable (name : PyStr) : Bool := name == CALLER_ENV_VAR || isRecord name

/-- Every variable of the hand-over. -/
def isHandOver (name : PyStr) : Bool :=
  isCallerVariable name || name == CWD_ENV_VAR || name == PATH_ENV_VAR || name == UV_PATH_ENV_VAR ||
    name == ARGV_ENV_VAR

/-! ## The prologue of the shim -/

/-- `_return_to_the_callers_directory`, for the directories the account can enter; `none` is a
run that ends there. -/
def return_to_the_callers_directory (enters : PyStr → Bool) (env : Env) : Option Env :=
  match env CWD_ENV_VAR with
  | none => some (env.unset CWD_ENV_VAR)
  | some directory => if enters directory then some (env.unset CWD_ENV_VAR) else none

/-- `os.pathsep` -/
def pathsep : Nat := 0x3a

/-- `_entries_uv_added` -/
def entries_uv_added (current : PyStr) (given : Option PyStr) : PyStr :=
  match given with
  | none => []
  | some given =>
    if given.isSuffixOf current then
      let added := current.take (current.length - given.length)
      if added.getLast? = some pathsep then added else []
    else []

/-- `_restore_the_callers_path` -/
def restore_the_callers_path (env : Env) : Env :=
  let rest := (env.unset PATH_ENV_VAR).unset UV_PATH_ENV_VAR
  match env PATH_ENV_VAR with
  | none => rest
  | some path => rest.set PATH (entries_uv_added ((rest PATH).getD []) (env UV_PATH_ENV_VAR) ++ path)

/-- `_restore_the_callers_home` -/
def restore_the_callers_home (env : Env) : Env :=
  let rest := (env.unset CALLER_ENV_VAR).dropWhere isRecord
  if (env CALLER_ENV_VAR).isSome then restoreEach (fun name => env (record name)) CALLER_ENV_NAMES rest
  else rest

/-- `_argv_from_environment`, with the arguments of the shim itself; `none` is a run that ends there. -/
def argv_from_environment (b64decode : PyStr → Option PyStr) (arguments : List PyStr) (env : Env) :
    Option (List PyStr × Env) :=
  let rest := env.unset ARGV_ENV_VAR
  match env ARGV_ENV_VAR with
  | none => some (arguments, rest)
  | some [] => some ([], rest)
  | some blob =>
    match blob.splitOn 0x7c with
    | [] => none
    | tag :: pieces =>
      if tag = ARGV_ENCODING_TAG then (pieces.mapM b64decode).map fun argv => (argv, rest) else none

/-- What the packed script starts with: its arguments and its environment. -/
def shim (enters : PyStr → Bool) (b64decode : PyStr → Option PyStr) (arguments : List PyStr)
    (env : Env) : Option (List PyStr × Env) :=
  (return_to_the_callers_directory enters env).bind fun env =>
    argv_from_environment b64decode arguments (restore_the_callers_home (restore_the_callers_path env))

/-! ## Names apart -/

theorem isRecord_record (name : PyStr) : isRecord (record name) = true :=
  List.isPrefixOf_iff_prefix.mpr (List.prefix_append _ _)

theorem record_injective : Function.Injective record := fun _ _ h => List.append_cancel_left h

theorem names_nodup : CALLER_ENV_NAMES.Nodup := by decide

theorem names_apart : ∀ name ∈ CALLER_ENV_NAMES, isHandOver name = false ∧ name ≠ PATH := by decide

theorem path_not_handOver : isHandOver PATH = false := by decide

/-- Each of the ten names is apart from every record. -/
theorem name_ne_record {name name' : PyStr} (h : name ∈ CALLER_ENV_NAMES) : name ≠ record name' := by
  intro heq
  have hapart := (names_apart name h).1
  rw [heq, isHandOver, isCallerVariable, isRecord_record] at hapart
  simp at hapart

/-! ## What the prologue leaves -/

/-- The environment behind the whole prologue. -/
def prologue (env : Env) : Env :=
  (restore_the_callers_home (restore_the_callers_path (env.unset CWD_ENV_VAR))).unset ARGV_ENV_VAR

theorem shim_env {enters : PyStr → Bool} {b64decode : PyStr → Option PyStr}
    {arguments argv : List PyStr} {env script : Env}
    (h : shim enters b64decode arguments env = some (argv, script)) : script = prologue env := by
  obtain ⟨returned, hreturned, hargv⟩ := Option.bind_eq_some_iff.mp h
  have hcwd : returned = env.unset CWD_ENV_VAR := by
    unfold return_to_the_callers_directory at hreturned
    split at hreturned
    · exact (Option.some.inj hreturned).symm
    · split at hreturned
      · exact (Option.some.inj hreturned).symm
      · cases hreturned
  subst hcwd
  unfold argv_from_environment at hargv
  split at hargv
  · exact (Prod.mk.inj (Option.some.inj hargv)).2.symm
  · exact (Prod.mk.inj (Option.some.inj hargv)).2.symm
  · split at hargv
    · cases hargv
    · split at hargv
      · obtain ⟨_, _, hrest⟩ := Option.map_eq_some_iff.mp hargv
        exact (Prod.mk.inj hrest).2.symm
      · cases hargv

section Restoring

variable {env : Env} {n : PyStr}

theorem restore_path_handOver (h : n = PATH_ENV_VAR ∨ n = UV_PATH_ENV_VAR) :
    restore_the_callers_path env n = none := by
  have hpath : n ≠ PATH := by
    rcases h with rfl | rfl <;> decide
  have hrest : (env.unset PATH_ENV_VAR).unset UV_PATH_ENV_VAR n = none := by
    rcases h with rfl | rfl
    · rw [unset_of_ne (by decide), unset_self]
    · exact unset_self
  cases hvalue : env PATH_ENV_VAR with
  | none =>
      simp only [restore_the_callers_path, hvalue]
      exact hrest
  | some path =>
      simp only [restore_the_callers_path, hvalue]
      rwa [set_of_ne hpath]

theorem restore_path_of_ne (hpath : n ≠ PATH) (hpathEnv : n ≠ PATH_ENV_VAR) (huv : n ≠ UV_PATH_ENV_VAR) :
    restore_the_callers_path env n = env n := by
  have hrest : (env.unset PATH_ENV_VAR).unset UV_PATH_ENV_VAR n = env n := by
    rw [unset_of_ne huv, unset_of_ne hpathEnv]
  cases hvalue : env PATH_ENV_VAR with
  | none =>
      simp only [restore_the_callers_path, hvalue]
      exact hrest
  | some path =>
      simp only [restore_the_callers_path, hvalue]
      rwa [set_of_ne hpath]

theorem restore_path_path {path : PyStr} (h : env PATH_ENV_VAR = some path) :
    restore_the_callers_path env PATH =
      some (entries_uv_added ((env PATH).getD []) (env UV_PATH_ENV_VAR) ++ path) := by
  have hrest : (env.unset PATH_ENV_VAR).unset UV_PATH_ENV_VAR PATH = env PATH := by
    rw [unset_of_ne (by decide), unset_of_ne (by decide)]
  simp only [restore_the_callers_path, h]
  rw [set_self, hrest]

theorem restore_home_caller (h : isCallerVariable n = true) : restore_the_callers_home env n = none := by
  have hname : n ∉ CALLER_ENV_NAMES := by
    intro hn
    have hapart := (names_apart n hn).1
    simp [isHandOver, h] at hapart
  have hrest : (env.unset CALLER_ENV_VAR).dropWhere isRecord n = none := by
    cases hrecord : isRecord n with
    | true => exact dropWhere_of_true hrecord
    | false =>
        rw [dropWhere_of_false hrecord]
        have hmarker : n = CALLER_ENV_VAR := by
          simpa [isCallerVariable, hrecord] using h
        rw [hmarker, unset_self]
  unfold restore_the_callers_home
  split
  · rw [restoreEach_of_not_mem hname, hrest]
  · exact hrest

theorem restore_home_of_not_mem (h : isCallerVariable n = false) (hname : n ∉ CALLER_ENV_NAMES) :
    restore_the_callers_home env n = env n := by
  simp only [isCallerVariable, Bool.or_eq_false_iff, beq_eq_false_iff_ne] at h
  have hrest : (env.unset CALLER_ENV_VAR).dropWhere isRecord n = env n := by
    rw [dropWhere_of_false h.2, unset_of_ne h.1]
  unfold restore_the_callers_home
  split
  · rw [restoreEach_of_not_mem hname, hrest]
  · exact hrest

theorem restore_home_name (hmarker : (env CALLER_ENV_VAR).isSome = true) (hname : n ∈ CALLER_ENV_NAMES) :
    restore_the_callers_home env n = env (record n) := by
  simp only [restore_the_callers_home, hmarker, if_true]
  exact restoreEach_of_mem hname

end Restoring

section Prologue

variable {env : Env} {n : PyStr}

/-- No variable of the hand-over is left. -/
theorem prologue_handOver (h : isHandOver n = true) : prologue env n = none := by
  unfold prologue
  by_cases hargv : n = ARGV_ENV_VAR
  · rw [hargv, unset_self]
  rw [unset_of_ne hargv]
  cases hcaller : isCallerVariable n with
  | true => exact restore_home_caller hcaller
  | false =>
      have hname : n ∉ CALLER_ENV_NAMES := by
        intro hn
        rw [(names_apart n hn).1] at h
        cases h
      rw [restore_home_of_not_mem hcaller hname]
      by_cases hcwd : n = CWD_ENV_VAR
      · subst hcwd
        rw [restore_path_of_ne (by decide) (by decide) (by decide), unset_self]
      · apply restore_path_handOver
        simpa [isHandOver, hcaller, hcwd, hargv] using h

/-- A marked hand-over gives each of the ten names its record back, or takes the name away. -/
theorem prologue_name (hmarker : (env CALLER_ENV_VAR).isSome = true) (hname : n ∈ CALLER_ENV_NAMES) :
    prologue env n = env (record n) := by
  have hkeep : ∀ m, m ≠ PATH → m ≠ PATH_ENV_VAR → m ≠ UV_PATH_ENV_VAR → m ≠ CWD_ENV_VAR →
      restore_the_callers_path (env.unset CWD_ENV_VAR) m = env m := by
    intro m hpath hpathEnv huv hcwd
    rw [restore_path_of_ne hpath hpathEnv huv, unset_of_ne hcwd]
  have hargv : n ≠ ARGV_ENV_VAR := by
    rintro rfl
    revert hname
    decide
  have hrecord : ∀ m, isRecord m = false → record n ≠ m := by
    rintro m hm rfl
    rw [isRecord_record] at hm
    cases hm
  unfold prologue
  rw [unset_of_ne hargv, restore_home_name _ hname]
  · exact hkeep _ (hrecord _ (by decide)) (hrecord _ (by decide)) (hrecord _ (by decide))
      (hrecord _ (by decide))
  · rw [hkeep _ (by decide) (by decide) (by decide) (by decide)]
    exact hmarker

/-- Without a marker nothing is given back. -/
theorem prologue_other (hname : n ∉ CALLER_ENV_NAMES) (hpath : n ≠ PATH) (h : isHandOver n = false) :
    prologue env n = env n := by
  simp only [isHandOver, Bool.or_eq_false_iff, beq_eq_false_iff_ne] at h
  obtain ⟨⟨⟨⟨hcaller, hcwd⟩, hpathEnv⟩, huv⟩, hargv⟩ := h
  unfold prologue
  rw [unset_of_ne hargv, restore_home_of_not_mem hcaller hname, restore_path_of_ne hpath hpathEnv huv,
    unset_of_ne hcwd]

theorem prologue_path {path : PyStr} (h : env PATH_ENV_VAR = some path) :
    prologue env PATH = some (entries_uv_added ((env PATH).getD []) (env UV_PATH_ENV_VAR) ++ path) := by
  have hpathEnv : (env.unset CWD_ENV_VAR) PATH_ENV_VAR = some path := by
    rw [unset_of_ne (by decide)]
    exact h
  unfold prologue
  rw [unset_of_ne (by decide), restore_home_of_not_mem (by decide) (by decide), restore_path_path hpathEnv,
    unset_of_ne (by decide), unset_of_ne (by decide)]

end Prologue

/-! ## What uv put in front -/

theorem entries_uv_added_of_front {current given added : PyStr} (h : current = added ++ given)
    (hsep : added.getLast? = some pathsep) : entries_uv_added current (some given) = added := by
  have hsuffix : given.isSuffixOf current = true := by
    rw [List.isSuffixOf_iff_suffix, h]
    exact List.suffix_append _ _
  have htake : current.take (current.length - given.length) = added := by
    rw [h, List.length_append, Nat.add_sub_cancel, List.take_left']
    rfl
  simp [entries_uv_added, hsuffix, htake, hsep]

theorem entries_uv_added_of_no_front {current given : PyStr}
    (h : ∀ added, current = added ++ given → added.getLast? ≠ some pathsep) :
    entries_uv_added current (some given) = [] := by
  unfold entries_uv_added
  by_cases hsuffix : given.isSuffixOf current = true
  · obtain ⟨added, hadded⟩ := List.isSuffixOf_iff_suffix.mp hsuffix
    have htake : current.take (current.length - given.length) = added := by
      rw [← hadded, List.length_append, Nat.add_sub_cancel, List.take_left']
      rfl
    simp [hsuffix, htake, h added hadded.symm]
  · simp [hsuffix]

end PwshPy.Handover
