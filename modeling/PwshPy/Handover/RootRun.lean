import PwshPy.Handover.Account

/-! # The root run of the shell runner

The root branch of `pack_runner.sh`, for a run that refuses nothing, and the
environment its script finds behind uv and the prologue of the shim.
-/

namespace PwshPy.Handover

open Storage (Variables)
open Storage.Variables

/-! ## The root branch -/

/-- The names `sed` picks: `[A-Za-z0-9_]*` behind the prefix. -/
def sedReads (name : PyStr) : Bool :=
  name.all fun c => (0x41 ≤ c && c ≤ 0x5a) || (0x61 ≤ c && c ≤ 0x7a) || (0x30 ≤ c && c ≤ 0x39) || c == 0x5f

/-- `PWSHPY_CALLER_PATH`: a run that installs uv puts its directory in front. -/
def callerPath (host : Host) (installs : Bool) (env : Env) : PyStr :=
  let path := (env PATH).getD host.default_path
  if installs then parent host.account_cache_home ++ py "/.local/bin:" ++ path else path

/-- `PWSHPY_CALLER_NAMES` without the blank in front. -/
def callerNames : PyStr := (py " ").intercalate CALLER_ENV_NAMES

/-- A record of each of the ten names that is set, and none of the others. -/
def recordCaller (env : Env) : Env :=
  (copyEach id record some CALLER_ENV_NAMES env).set CALLER_ENV_VAR callerNames

/-- The variables of the hand-over that carry the `PATH`, and the one uv starts with. -/
def pathVariables (path uvPath : PyStr) : List (PyStr × PyStr) :=
  [(PATH_ENV_VAR, path), (UV_PATH_ENV_VAR, uvPath), (PATH, uvPath)]

/-- What the root branch starts uv with. -/
def root_run (host : Host) (installs : Bool) (env : Env) : Env :=
  let path := callerPath host installs env
  let dropped := (drop_interpreter_variables sedReads env).set GIT_CONFIG_GLOBAL (py "/dev/null")
  let returned := (dropped.set CWD_ENV_VAR host.cwd).unset ARGV_ENV_VAR
  let recorded := recordCaller (returned.setEach (uvDirectories host))
  (account_environment host recorded).setEach (pathVariables path (host.trusted_path path))

/-! ## What the branch leaves in its records -/

/-- Before it records anything the branch leaves the ten names alone. -/
theorem name_before_records {host : Host} {reads : PyStr → Bool} {env : Env} {n : PyStr}
    (h : n ∈ CALLER_ENV_NAMES) :
    ((((drop_interpreter_variables reads env).set GIT_CONFIG_GLOBAL (py "/dev/null")).set CWD_ENV_VAR
      host.cwd).unset ARGV_ENV_VAR).setEach (uvDirectories host) n = env n := by
  have huv := names_not_uv h
  have hdirectories : n ∉ (uvDirectories host).map Prod.fst := by
    intro hn
    apply huv
    simp only [uvDirectories, List.map_cons, List.map_nil] at hn
    simp only [uvNames, List.mem_append]
    exact Or.inr (List.mem_cons_of_mem _ hn)
  have hgit : n ≠ GIT_CONFIG_GLOBAL := by
    rintro rfl
    exact huv (by decide)
  have happart : ∀ m, isHandOver m = true → n ≠ m := by
    rintro m hm rfl
    rw [(names_apart n h).1] at hm
    cases hm
  rw [setEach_of_not_mem hdirectories, unset_of_ne (happart _ (by decide)),
    set_of_ne (happart _ (by decide)), set_of_ne hgit,
    drop_interpreter_variables_of_not_mem huv (names_not_git n h)]

theorem recordCaller_record {env : Env} {n : PyStr} (h : n ∈ CALLER_ENV_NAMES) :
    recordCaller env (record n) = env n := by
  have hmarker : record n ≠ CALLER_ENV_VAR := by
    intro heq
    have hrecord := isRecord_record n
    rw [heq] at hrecord
    revert hrecord
    decide
  unfold recordCaller
  rw [set_of_ne hmarker, copyEach_target record_injective (fun _ _ => name_ne_record h) h names_nodup]
  simp

theorem root_run_record {host : Host} {installs : Bool} {env : Env} {n : PyStr}
    (h : n ∈ CALLER_ENV_NAMES) : root_run host installs env (record n) = env n := by
  have hpath : ∀ path uvPath, record n ∉ (pathVariables path uvPath).map Prod.fst := by
    intro path uvPath hn
    have hrecord := isRecord_record n
    simp only [pathVariables, List.map_cons, List.map_nil] at hn
    revert hrecord
    exact (by decide : ∀ m ∈ [PATH_ENV_VAR, UV_PATH_ENV_VAR, PATH], ¬isRecord m = true) _ hn
  have hname : record n ∉ CALLER_ENV_NAMES := fun hn => name_ne_record hn rfl
  unfold root_run
  rw [setEach_of_not_mem (hpath _ _), account_environment_of_not_mem hname, recordCaller_record h,
    name_before_records h]

theorem root_run_marker {host : Host} {installs : Bool} {env : Env} :
    root_run host installs env CALLER_ENV_VAR = some callerNames := by
  have hpath : ∀ path uvPath, CALLER_ENV_VAR ∉ (pathVariables path uvPath).map Prod.fst := by
    intro path uvPath
    simp only [pathVariables, List.map_cons, List.map_nil]
    decide
  unfold root_run
  rw [setEach_of_not_mem (hpath _ _), account_environment_of_not_mem (by decide), recordCaller, set_self]

theorem root_run_path {host : Host} {installs : Bool} {env : Env} :
    root_run host installs env PATH_ENV_VAR = some (callerPath host installs env) := by
  simp only [root_run, pathVariables, setEach]
  rw [set_of_ne (by decide), set_of_ne (by decide), set_self]

theorem root_run_uv_path {host : Host} {installs : Bool} {env : Env} :
    root_run host installs env UV_PATH_ENV_VAR =
      some (host.trusted_path (callerPath host installs env)) := by
  simp only [root_run, pathVariables, setEach]
  rw [set_of_ne (by decide), set_self]

theorem root_run_cwd {host : Host} {installs : Bool} {env : Env} :
    root_run host installs env CWD_ENV_VAR = some host.cwd := by
  simp only [root_run, pathVariables, uvDirectories, setEach, recordCaller]
  rw [set_of_ne (by decide), set_of_ne (by decide), set_of_ne (by decide),
    account_environment_of_not_mem (by decide), set_of_ne (by decide),
    copyEach_of_not_target (by decide), set_of_ne (by decide), set_of_ne (by decide),
    unset_of_ne (by decide), set_self]

theorem root_run_argv {host : Host} {installs : Bool} {env : Env} :
    root_run host installs env ARGV_ENV_VAR = none := by
  simp only [root_run, pathVariables, uvDirectories, setEach, recordCaller]
  rw [set_of_ne (by decide), set_of_ne (by decide), set_of_ne (by decide),
    account_environment_of_not_mem (by decide), set_of_ne (by decide),
    copyEach_of_not_target (by decide), set_of_ne (by decide), set_of_ne (by decide), unset_self]

/-! ## What the script finds -/

/-- What a caller's environment and the one uv started its program with make of the environment of
the script, for the `PATH` that goes with the hand-over and the one uv was given. -/
structure HandedBack (path uvPath : PyStr) (caller started script : Env) : Prop where
  /-- the caller's value, or none where the caller had none -/
  names : ∀ n ∈ CALLER_ENV_NAMES, script n = caller n
  /-- nothing of the hand-over is left -/
  consumed : ∀ n, isHandOver n = true → script n = none
  /-- the hand-over sets nothing else -/
  others : ∀ n, n ∉ CALLER_ENV_NAMES → n ≠ PATH → isHandOver n = false → script n = started n
  /-- what uv put in front stays in front -/
  path_added : ∀ added, started PATH = some (added ++ uvPath) → added.getLast? = some pathsep →
    script PATH = some (added ++ path)
  /-- a `PATH` that does not end in the one uv was given, behind a separator, goes -/
  path_alone : (∀ added, (started PATH).getD [] = added ++ uvPath → added.getLast? ≠ some pathsep) →
    script PATH = some path

/-- The prologue hands back what a root run recorded, whatever else is in the environment. -/
theorem prologue_hands_back {path uvPath : PyStr} {caller started : Env}
    (hrecords : ∀ n ∈ CALLER_ENV_NAMES, started (record n) = caller n)
    (hmarker : (started CALLER_ENV_VAR).isSome = true) (hpath : started PATH_ENV_VAR = some path)
    (huv : started UV_PATH_ENV_VAR = some uvPath) :
    HandedBack path uvPath caller started (prologue started) where
  names := by
    intro n hn
    rw [prologue_name hmarker hn, hrecords n hn]
  consumed := fun n hn => prologue_handOver hn
  others := fun n hname hn happart => prologue_other hname hn happart
  path_added := by
    intro added hadded hsep
    rw [prologue_path hpath, hadded, huv, Option.getD_some, entries_uv_added_of_front rfl hsep]
  path_alone := by
    intro hnone
    rw [prologue_path hpath, huv, entries_uv_added_of_no_front hnone, List.nil_append]

/-- An account that can enter the caller's directory gets to the script, with the arguments of the
runner and none of a preset vector. -/
theorem root_run_reaches_script {host : Host} {installs : Bool} {uv : Env → Env}
    {enters : PyStr → Bool} {b64decode : PyStr → Option PyStr} {arguments : List PyStr} {caller : Env}
    (hpasses : ∀ env n, isHandOver n = true → uv env n = env n) (henters : enters host.cwd = true) :
    shim enters b64decode arguments (uv (root_run host installs caller)) =
      some (arguments, prologue (uv (root_run host installs caller))) := by
  have hcwd : uv (root_run host installs caller) CWD_ENV_VAR = some host.cwd := by
    rw [hpasses _ _ (by decide), root_run_cwd]
  have hargv : restore_the_callers_home (restore_the_callers_path
      ((uv (root_run host installs caller)).unset CWD_ENV_VAR)) ARGV_ENV_VAR = none := by
    rw [restore_home_of_not_mem (by decide) (by decide),
      restore_path_of_ne (by decide) (by decide) (by decide), unset_of_ne (by decide),
      hpasses _ _ (by decide), root_run_argv]
  simp only [shim, return_to_the_callers_directory, hcwd, henters, if_true, Option.bind_some]
  simp only [argv_from_environment, hargv]
  rfl

/-- A root run hands every caller's environment back, its `PATH` behind the directory of a uv the
run itself installed. -/
theorem root_run_hands_back {host : Host} {installs : Bool} {uv : Env → Env} {enters : PyStr → Bool}
    {b64decode : PyStr → Option PyStr} {arguments argv : List PyStr} {caller script : Env}
    (hpasses : ∀ env n, isHandOver n = true → uv env n = env n)
    (h : shim enters b64decode arguments (uv (root_run host installs caller)) = some (argv, script)) :
    HandedBack (callerPath host installs caller) (host.trusted_path (callerPath host installs caller))
      caller (uv (root_run host installs caller)) script := by
  rw [shim_env h]
  apply prologue_hands_back
  · intro n hn
    have hrecord : isHandOver (record n) = true := by
      simp [isHandOver, isCallerVariable, isRecord_record]
    rw [hpasses _ _ hrecord, root_run_record hn]
  · rw [hpasses _ _ (by decide), root_run_marker]
    rfl
  · rw [hpasses _ _ (by decide), root_run_path]
  · rw [hpasses _ _ (by decide), root_run_uv_path]

section Example

/-- A root whose home is `/root`, and that trusts every directory. -/
def plainHost : Host := ⟨py "/home/ann", py "/root", [], id⟩

/-- A caller with a `PATH` and nothing else. -/
def plainCaller : Env := Variables.set (fun _ => none) PATH (py "/usr/bin")

/-- uv runs the script with its own directory in front. -/
def plainUv (env : Env) : Env := env.set PATH (py "/root/.cache/uv/bin:" ++ (env PATH).getD [])

theorem plainUv_passes (env : Env) (n : PyStr) (h : isHandOver n = true) : plainUv env n = env n := by
  have hpath : n ≠ PATH := by
    rintro rfl
    rw [path_not_handOver] at h
    cases h
  exact set_of_ne hpath

theorem root_run_hands_back_plain :
    HandedBack (callerPath plainHost true plainCaller) (callerPath plainHost true plainCaller)
      plainCaller (plainUv (root_run plainHost true plainCaller))
      (prologue (plainUv (root_run plainHost true plainCaller))) :=
  @root_run_hands_back plainHost true plainUv (fun _ => true) some [] [] plainCaller _ plainUv_passes
    (root_run_reaches_script plainUv_passes rfl)

/-- A run that installs uv does not hand back the caller's `PATH` alone. -/
theorem installing_run_adds_to_path :
    ∃ script, shim (fun _ => true) some [] (id (root_run plainHost true plainCaller)) = some ([], script) ∧
      ¬HandedBack (py "/usr/bin") (callerPath plainHost true plainCaller) plainCaller
        (id (root_run plainHost true plainCaller)) script := by
  refine ⟨_, root_run_reaches_script (fun _ _ _ => rfl) rfl, ?_⟩
  intro h
  have hstarted : root_run plainHost true plainCaller PATH = some (callerPath plainHost true plainCaller) := by
    simp only [root_run, pathVariables, setEach]
    exact set_self
  have hnone : ∀ added, (root_run plainHost true plainCaller PATH).getD [] =
      added ++ callerPath plainHost true plainCaller → added.getLast? ≠ some pathsep := by
    intro added hadded
    rw [hstarted, Option.getD_some] at hadded
    have hempty : added = [] := by
      simpa using hadded
    rw [hempty]
    decide
  have hscript := h.path_alone hnone
  rw [id, prologue_path root_run_path, root_run_uv_path] at hscript
  have hfront : entries_uv_added ((root_run plainHost true plainCaller PATH).getD [])
      (some (callerPath plainHost true plainCaller)) = [] := entries_uv_added_of_no_front hnone
  rw [show plainHost.trusted_path (callerPath plainHost true plainCaller) =
    callerPath plainHost true plainCaller from rfl, hfront, List.nil_append] at hscript
  revert hscript
  decide

end Example

end PwshPy.Handover
