import PwshPy.Handover.RootRun

/-! # The root run of the PowerShell runner

On POSIX `pack_runner.ps1` runs as root either directly, or relaunched by itself
through a stub of the shell that `sudo` starts. The stub records what `sudo`
passed and marks its records as kept; the runner believes the mark.
-/

namespace PwshPy.Handover

open Storage (Variables)
open Storage.Variables

/-! ## The relaunch stub -/

/-- `<hand-over>_PRESET` -/
def PRESET : PyStr := record (py "PRESET")

def PSModulePath : PyStr := py "PSModulePath"

/-- What the stub gives the relaunched pwsh: the home of the account, and the directories below it. -/
def stubDirectories (home : PyStr) : List (PyStr × PyStr) :=
  let base := if home = [slash] then [] else home
  [(py "HOME", home), (py "XDG_CACHE_HOME", base ++ py "/.cache"),
    (py "XDG_CONFIG_HOME", base ++ py "/.config"), (py "XDG_DATA_HOME", base ++ py "/.local/share")]

/-- The variables of the stub itself. -/
def stubVariables : List PyStr := [py "_pwshpy_home", py "_pwshpy_base", py "_pwshpy_name"]

/-- `$PwshPySudoStub`, in the environment `sudo` passes. -/
def sudo_stub (home : PyStr) (env : Env) : Env :=
  let recorded := copyEach id record some CALLER_ENV_NAMES env
  (((recorded.set PRESET (py "1")).unset PSModulePath).setEach (stubDirectories home)).unsetEach stubVariables

/-! ## The runner -/

/-- A PowerShell, as far as it touches the environment: it reads the values as UTF-8, and before
version 7.5 a variable that is set to nothing is removed. -/
structure Pwsh where
  decoded : PyStr → PyStr
  keepsEmpty : Bool
  /-- the environment it finds at its start -/
  start : Env → Env
  start_caller : ∀ env n, n ∈ CALLER_ENV_NAMES ∨ isCallerVariable n = true →
    start env n = (env n).map decoded

/-- What `Set-Item` makes of a value. -/
def Pwsh.item (pwsh : Pwsh) (value : PyStr) : Option PyStr :=
  if value = [] && !pwsh.keepsEmpty then none else some value

/-- The records of the ten names, kept where the mark says that the relaunch made them. -/
def recordUnlessPreset (pwsh : Pwsh) (env : Env) : Env :=
  let unmarked := env.unset PRESET
  let recorded :=
    if (env PRESET).isSome then unmarked else copyEach id record pwsh.item CALLER_ENV_NAMES unmarked
  recorded.set CALLER_ENV_VAR callerNames

/-- `$PwshPyCallerPath`: a run that installs uv puts its directory in front. -/
def powershellPath (host : Host) (installs : Bool) (env : Env) : Option PyStr :=
  if installs then some (parent host.account_cache_home ++ py "/.local/bin:" ++ (env PATH).getD [])
  else env PATH

/-- What the root run of the runner starts uv with, for its encoded arguments. -/
def powershell_run (pwsh : Pwsh) (host : Host) (installs : Bool) (encoded : PyStr) (env : Env) : Env :=
  let path := powershellPath host installs env
  let trusted := pwsh.item (host.trusted_path (path.getD []))
  let dropped := (drop_interpreter_variables (fun _ => true) env).set GIT_CONFIG_GLOBAL (py "/dev/null")
  let recorded := recordUnlessPreset pwsh (dropped.setEach (uvDirectories host))
  let prepared := (account_environment host recorded).assign ARGV_ENV_VAR (pwsh.item encoded)
  (((prepared.assign PATH_ENV_VAR (path.bind pwsh.item)).assign UV_PATH_ENV_VAR trusted).assign PATH
    trusted).assign CWD_ENV_VAR (pwsh.item host.cwd)

/-- The two ways to a root run: started as root, or through the stub, for the home of the account. -/
inductive Route
  | direct
  | relaunched (home : PyStr)

/-- The environment the runner finds, from the one `sudo` passes. -/
def Route.environment (pwsh : Pwsh) : Route → Env → Env
  | .direct, env => pwsh.start env
  | .relaunched home, env => pwsh.start (sudo_stub home env)

/-! ## What is left alone -/

theorem isCallerVariable_record (name : PyStr) : isCallerVariable (record name) = true := by
  simp [isCallerVariable, isRecord_record]

theorem isCallerVariable_preset : isCallerVariable PRESET = true := isCallerVariable_record _

/-- Every name that can be the hand-over's or one of the ten keeps clear of uv's and git's. -/
theorem before_records {host : Host} {reads : PyStr → Bool} {env : Env} {n : PyStr}
    (huv : n ∉ uvNames) (hgit : isGitVariable n = false) :
    ((drop_interpreter_variables reads env).set GIT_CONFIG_GLOBAL (py "/dev/null")).setEach
      (uvDirectories host) n = env n := by
  have hdirectories : n ∉ (uvDirectories host).map Prod.fst := by
    intro hn
    apply huv
    simp only [uvDirectories, List.map_cons, List.map_nil] at hn
    simp only [uvNames, List.mem_append]
    exact Or.inr (List.mem_cons_of_mem _ hn)
  have hglobal : n ≠ GIT_CONFIG_GLOBAL := by
    rintro rfl
    exact huv (by decide)
  rw [setEach_of_not_mem hdirectories, set_of_ne hglobal, drop_interpreter_variables_of_not_mem huv hgit]

/-- Behind its records the runner touches no variable of the caller's hand-over. -/
theorem powershell_run_caller {pwsh : Pwsh} {host : Host} {installs : Bool} {encoded : PyStr} {env : Env}
    {n : PyStr} (h : isCallerVariable n = true) :
    powershell_run pwsh host installs encoded env n =
      recordUnlessPreset pwsh (((drop_interpreter_variables (fun _ => true) env).set GIT_CONFIG_GLOBAL
        (py "/dev/null")).setEach (uvDirectories host)) n := by
  have hne : ∀ m, isCallerVariable m = false → n ≠ m := by
    rintro m hm rfl
    rw [h] at hm
    cases hm
  have hname : n ∉ CALLER_ENV_NAMES := by
    intro hn
    have hapart := (names_apart n hn).1
    simp [isHandOver, h] at hapart
  unfold powershell_run
  rw [assign_of_ne (hne _ (by decide)), assign_of_ne (hne _ (by decide)), assign_of_ne (hne _ (by decide)),
    assign_of_ne (hne _ (by decide)), assign_of_ne (hne _ (by decide)),
    account_environment_of_not_mem hname]

theorem powershell_run_marker {pwsh : Pwsh} {host : Host} {installs : Bool} {encoded : PyStr} {env : Env} :
    powershell_run pwsh host installs encoded env CALLER_ENV_VAR = some callerNames := by
  rw [powershell_run_caller (by decide), recordUnlessPreset, set_self]

theorem record_ne_preset {n : PyStr} (h : n ∈ CALLER_ENV_NAMES) : record n ≠ PRESET := by
  intro heq
  have hn : n = py "PRESET" := record_injective heq
  subst hn
  revert h
  decide

theorem record_ne_marker (n : PyStr) : record n ≠ CALLER_ENV_VAR := by
  intro heq
  have hrecord := isRecord_record n
  rw [heq] at hrecord
  revert hrecord
  decide

/-- A marked run keeps its records, any other makes them. -/
theorem powershell_run_record {pwsh : Pwsh} {host : Host} {installs : Bool} {encoded : PyStr} {env : Env}
    {n : PyStr} (h : n ∈ CALLER_ENV_NAMES) :
    powershell_run pwsh host installs encoded env (record n) =
      if (env PRESET).isSome then env (record n) else (env n).bind pwsh.item := by
  have hpreset : ((drop_interpreter_variables (fun _ => true) env).set GIT_CONFIG_GLOBAL
      (py "/dev/null")).setEach (uvDirectories host) PRESET = env PRESET :=
    before_records (record_not_uv _) (record_not_git _)
  rw [powershell_run_caller (isCallerVariable_record n), recordUnlessPreset,
    set_of_ne (record_ne_marker n), hpreset]
  cases (env PRESET).isSome with
  | true =>
      simp only [if_true]
      rw [unset_of_ne (record_ne_preset h), before_records (record_not_uv n) (record_not_git n)]
  | false =>
      have hne : n ≠ PRESET := name_ne_record h
      simp only [Bool.false_eq_true, if_false]
      rw [copyEach_target record_injective (fun _ _ => name_ne_record h) h names_nodup, id,
        unset_of_ne hne, before_records (names_not_uv h) (names_not_git n h)]

/-! ## What the runner starts with -/

theorem sudo_stub_caller {home : PyStr} {env : Env} {n : PyStr} (h : isCallerVariable n = true) :
    sudo_stub home env n = (copyEach id record some CALLER_ENV_NAMES env).set PRESET (py "1") n := by
  have hne : ∀ m, isCallerVariable m = false → n ≠ m := by
    rintro m hm rfl
    rw [h] at hm
    cases hm
  have hstub : n ∉ stubVariables := fun hn =>
    hne n ((by decide : ∀ m ∈ stubVariables, isCallerVariable m = false) n hn) rfl
  have hdirectories : n ∉ (stubDirectories home).map Prod.fst := by
    intro hn
    simp only [stubDirectories, List.map_cons, List.map_nil] at hn
    exact hne n ((by decide : ∀ m ∈ [py "HOME", py "XDG_CACHE_HOME", py "XDG_CONFIG_HOME",
      py "XDG_DATA_HOME"], isCallerVariable m = false) n hn) rfl
  unfold sudo_stub
  rw [unsetEach_of_not_mem hstub, setEach_of_not_mem hdirectories, unset_of_ne (hne _ (by decide))]

theorem sudo_stub_preset {home : PyStr} {env : Env} : sudo_stub home env PRESET = some (py "1") := by
  rw [sudo_stub_caller isCallerVariable_preset, set_self]

/-- The stub records every name, whatever was preset. -/
theorem sudo_stub_record {home : PyStr} {env : Env} {n : PyStr} (h : n ∈ CALLER_ENV_NAMES) :
    sudo_stub home env (record n) = env n := by
  rw [sudo_stub_caller (isCallerVariable_record n), set_of_ne (record_ne_preset h),
    copyEach_target record_injective (fun _ _ => name_ne_record h) h names_nodup]
  simp

section Routes

variable {pwsh : Pwsh} {host : Host} {installs : Bool} {encoded : PyStr} {env : Env} {n : PyStr}

theorem relaunched_record {home : PyStr} (h : n ∈ CALLER_ENV_NAMES) :
    powershell_run pwsh host installs encoded ((Route.relaunched home).environment pwsh env) (record n) =
      (env n).map pwsh.decoded := by
  have hmarked : ((Route.relaunched home).environment pwsh env PRESET).isSome = true := by
    rw [Route.environment, pwsh.start_caller _ _ (Or.inr isCallerVariable_preset), sudo_stub_preset]
    rfl
  rw [powershell_run_record h, hmarked, if_pos rfl, Route.environment,
    pwsh.start_caller _ _ (Or.inr (isCallerVariable_record n)), sudo_stub_record h]

theorem direct_record (h : n ∈ CALLER_ENV_NAMES) :
    powershell_run pwsh host installs encoded (Route.direct.environment pwsh env) (record n) =
      if (env PRESET).isSome then (env (record n)).map pwsh.decoded
      else ((env n).map pwsh.decoded).bind pwsh.item := by
  rw [powershell_run_record h, Route.environment,
    pwsh.start_caller _ _ (Or.inr isCallerVariable_preset),
    pwsh.start_caller _ _ (Or.inr (isCallerVariable_record n)), pwsh.start_caller _ _ (Or.inl h),
    Option.isSome_map]

end Routes

/-! ## What the script finds -/

/-- A value PowerShell reads as it is. -/
def Pwsh.Reads (pwsh : Pwsh) (value : PyStr) : Prop := pwsh.decoded value = value

/-- The environments a route carries to the script: the relaunch those PowerShell reads as they are;
a run started as root those it also sets as they are, or, where the caller preset the mark of the
relaunch, those whose records are what `sudo` passed. -/
def Route.Carries (pwsh : Pwsh) : Route → Env → Prop
  | .relaunched _, env => ∀ n ∈ CALLER_ENV_NAMES, ∀ value, env n = some value → pwsh.Reads value
  | .direct, env =>
    if (env PRESET).isSome then ∀ n ∈ CALLER_ENV_NAMES, (env (record n)).map pwsh.decoded = env n
    else ∀ n ∈ CALLER_ENV_NAMES, ∀ value, env n = some value →
      pwsh.Reads value ∧ (value = [] → pwsh.keepsEmpty = true)

theorem map_decoded_eq_iff {pwsh : Pwsh} {value : Option PyStr} :
    value.map pwsh.decoded = value ↔ ∀ v, value = some v → pwsh.Reads v := by
  cases value with
  | none => simp
  | some v => simp [Pwsh.Reads]

theorem item_eq_some_iff {pwsh : Pwsh} {value v : PyStr} :
    pwsh.item value = some v ↔ value = v ∧ (v = [] → pwsh.keepsEmpty = true) := by
  unfold Pwsh.item
  by_cases hempty : value = []
  · cases hkeeps : pwsh.keepsEmpty with
    | true => simp [hempty]
    | false =>
        simp only [hempty, decide_true, Bool.not_false, Bool.and_self, if_true]
        constructor
        · intro h
          cases h
        · intro h
          cases h.2 h.1.symm
  · simp only [hempty, decide_false, Bool.false_and, Bool.false_eq_true, if_false, Option.some.injEq]
    constructor
    · intro h
      exact ⟨h, fun hv => absurd (h.trans hv) hempty⟩
    · exact And.left

theorem bind_item_eq_iff {pwsh : Pwsh} {value : Option PyStr} :
    (value.map pwsh.decoded).bind pwsh.item = value ↔
      ∀ v, value = some v → pwsh.Reads v ∧ (v = [] → pwsh.keepsEmpty = true) := by
  cases value with
  | none => simp
  | some v =>
      simp only [Option.map_some, Option.bind_some, item_eq_some_iff, Option.some.injEq]
      constructor
      · rintro h _ rfl
        exact h
      · intro h
        exact h v rfl

/-- The records are the values `sudo` passed just where the route carries them. -/
theorem records_eq_iff {pwsh : Pwsh} {host : Host} {installs : Bool} {encoded : PyStr} {route : Route}
    {env : Env} :
    (∀ n ∈ CALLER_ENV_NAMES,
      powershell_run pwsh host installs encoded (route.environment pwsh env) (record n) = env n) ↔
      route.Carries pwsh env := by
  cases route with
  | relaunched home =>
      apply forall₂_congr
      intro n hn
      rw [relaunched_record hn, map_decoded_eq_iff]
  | direct =>
      simp only [Route.Carries]
      by_cases hpreset : (env PRESET).isSome = true
      · rw [if_pos hpreset]
        apply forall₂_congr
        intro n hn
        rw [direct_record hn, if_pos hpreset]
      · rw [if_neg hpreset]
        apply forall₂_congr
        intro n hn
        rw [direct_record hn, if_neg hpreset, bind_item_eq_iff]

/-- An account that can enter the caller's directory gets to the script, with the arguments the
runner encoded. -/
theorem powershell_run_reaches_script {pwsh : Pwsh} {host : Host} {installs : Bool} {tag : Nat}
    {encoded : PyStr} {uv : Env → Env} {enters : PyStr → Bool} {b64decode : PyStr → Option PyStr}
    {arguments argv pieces : List PyStr} {env : Env}
    (hpasses : ∀ env n, isHandOver n = true → uv env n = env n)
    (hcwd : pwsh.item host.cwd = some host.cwd) (henters : enters host.cwd = true)
    (hpieces : (tag :: encoded).splitOn 0x7c = ARGV_ENCODING_TAG :: pieces)
    (hdecode : pieces.mapM b64decode = some argv) :
    shim enters b64decode arguments (uv (powershell_run pwsh host installs (tag :: encoded) env)) =
      some (argv, prologue (uv (powershell_run pwsh host installs (tag :: encoded) env))) := by
  have hdirectory : uv (powershell_run pwsh host installs (tag :: encoded) env) CWD_ENV_VAR =
      some host.cwd := by
    rw [hpasses _ _ (by decide), powershell_run, assign_self, hcwd]
  have hargv : restore_the_callers_home (restore_the_callers_path
      ((uv (powershell_run pwsh host installs (tag :: encoded) env)).unset CWD_ENV_VAR)) ARGV_ENV_VAR =
        some (tag :: encoded) := by
    rw [restore_home_of_not_mem (by decide) (by decide),
      restore_path_of_ne (by decide) (by decide) (by decide), unset_of_ne (by decide),
      hpasses _ _ (by decide), powershell_run, assign_of_ne (by decide), assign_of_ne (by decide),
      assign_of_ne (by decide), assign_of_ne (by decide), assign_self, Pwsh.item]
    simp
  simp only [shim, return_to_the_callers_directory, hdirectory, henters, if_true, Option.bind_some]
  simp only [argv_from_environment, hargv, hpieces, if_true, hdecode, Option.map_some]
  rfl

/-- A root run hands the script what `sudo` passed, and no variable of the hand-over, just where its
route carries it. -/
theorem powershell_run_hands_back {pwsh : Pwsh} {host : Host} {installs : Bool} {encoded : PyStr}
    {route : Route} {uv : Env → Env} {enters : PyStr → Bool} {b64decode : PyStr → Option PyStr}
    {arguments argv : List PyStr} {env script : Env}
    (hpasses : ∀ env n, isHandOver n = true → uv env n = env n)
    (h : shim enters b64decode arguments
      (uv (powershell_run pwsh host installs encoded (route.environment pwsh env))) = some (argv, script)) :
    ((∀ n ∈ CALLER_ENV_NAMES, script n = env n) ∧ ∀ n, isCallerVariable n = true → script n = none) ↔
      route.Carries pwsh env := by
  have hcaller : ∀ n, isCallerVariable n = true → isHandOver n = true := by
    intro n hn
    simp [isHandOver, hn]
  have hmarker : (uv (powershell_run pwsh host installs encoded (route.environment pwsh env))
      CALLER_ENV_VAR).isSome = true := by
    rw [hpasses _ _ (by decide), powershell_run_marker]
    rfl
  have hname : ∀ n ∈ CALLER_ENV_NAMES, script n =
      powershell_run pwsh host installs encoded (route.environment pwsh env) (record n) := by
    intro n hn
    rw [shim_env h, prologue_name hmarker hn, hpasses _ _ (hcaller _ (isCallerVariable_record n))]
  have hconsumed : ∀ n, isCallerVariable n = true → script n = none := by
    intro n hn
    rw [shim_env h, prologue_handOver (hcaller n hn)]
  rw [← records_eq_iff, and_iff_left hconsumed]
  apply forall₂_congr
  intro n hn
  rw [hname n hn]

section Example

/-- A PowerShell that keeps empty values, given values it reads as they are. -/
def plainPwsh : Pwsh where
  decoded := id
  keepsEmpty := true
  start env := env.set PSModulePath (py "/opt/microsoft/powershell/7/Modules")
  start_caller := by
    intro env n h
    have hpath : n ≠ PSModulePath := by
      rintro rfl
      revert h
      decide
    rw [set_of_ne hpath, Option.map_id, id]

/-- A root that sets `HOME` and presets a record for it, with the mark of the relaunch. -/
def presetCaller : Env :=
  (((plainCaller.set (py "HOME") (py "/root")).set (record (py "HOME")) (py "/tmp/ann")).set PRESET (py "1"))

theorem powershell_run_hands_back_plain :
    ((∀ n ∈ CALLER_ENV_NAMES, prologue (plainUv (powershell_run plainPwsh plainHost false (py "v1")
        ((Route.relaunched (py "/root")).environment plainPwsh presetCaller))) n = presetCaller n) ∧
      ∀ n, isCallerVariable n = true → prologue (plainUv (powershell_run plainPwsh plainHost false
        (py "v1") ((Route.relaunched (py "/root")).environment plainPwsh presetCaller))) n = none) ↔
      (Route.relaunched (py "/root")).Carries plainPwsh presetCaller :=
  @powershell_run_hands_back plainPwsh plainHost false (py "v1") (Route.relaunched (py "/root")) plainUv
    (fun _ => true) some [] [] presetCaller _ plainUv_passes
    (powershell_run_reaches_script plainUv_passes rfl rfl rfl rfl)

/-- A run started as root believes a preset record that a preset mark vouches for. -/
theorem preset_mark_changes_home :
    ∃ script, shim (fun _ => true) some [] (plainUv (powershell_run plainPwsh plainHost false (py "v1")
        (Route.direct.environment plainPwsh presetCaller))) = some ([], script) ∧
      py "HOME" ∈ CALLER_ENV_NAMES ∧ presetCaller (py "HOME") = some (py "/root") ∧
      script (py "HOME") = some (py "/tmp/ann") := by
  have hhome : py "HOME" ∈ CALLER_ENV_NAMES := by decide
  have hmarker : (plainUv (powershell_run plainPwsh plainHost false (py "v1")
      (Route.direct.environment plainPwsh presetCaller)) CALLER_ENV_VAR).isSome = true := by
    rw [plainUv_passes _ _ (by decide), powershell_run_marker]
    rfl
  have hscript : prologue (plainUv (powershell_run plainPwsh plainHost false (py "v1")
      (Route.direct.environment plainPwsh presetCaller))) (py "HOME") = some (py "/tmp/ann") := by
    rw [prologue_name hmarker hhome, plainUv_passes _ _ (by decide), direct_record hhome]
    decide
  have hreaches : shim (fun _ => true) some [] (plainUv (powershell_run plainPwsh plainHost false
      (py "v1") (Route.direct.environment plainPwsh presetCaller))) = some ([], prologue (plainUv
        (powershell_run plainPwsh plainHost false (py "v1")
          (Route.direct.environment plainPwsh presetCaller)))) :=
    powershell_run_reaches_script plainUv_passes rfl rfl rfl rfl
  exact ⟨_, hreaches, hhome, by decide, hscript⟩

end Example

end PwshPy.Handover
