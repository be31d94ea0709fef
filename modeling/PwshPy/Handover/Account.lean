import PwshPy.Handover.Shim

/-! # What a root run takes from the caller and from its own account

Both runners drop the same variables of the caller, and give uv the home and the
directories of the account that runs.
-/

namespace PwshPy.Handover

open Storage (Variables)
open Storage.Variables

/-! ## What is dropped -/

def interpreterVariables : List PyStr :=
  [py "UV_PYTHON", py "VIRTUAL_ENV", py "CONDA_PREFIX", py "UV_MANAGED_PYTHON",
    py "UV_NO_MANAGED_PYTHON", py "UV_PYTHON_INSTALL_DIR", py "UV_CONFIG_FILE",
    py "UV_PYTHON_INSTALL_MIRROR", py "UV_PYTHON_DOWNLOADS_JSON_URL", py "UV_ASTRAL_MIRROR_URL",
    py "UV_PYPY_INSTALL_MIRROR", py "UV_GRAALPY_INSTALL_MIRROR", py "UV_PYODIDE_INSTALL_MIRROR"]

def libraryVariables : List PyStr := [py "PYTHONHOME", py "PYTHONPATH", py "PYTHONUSERBASE"]

def uvSourceVariables : List PyStr :=
  [py "UV_INDEX_URL", py "UV_DEFAULT_INDEX", py "UV_INDEX", py "UV_EXTRA_INDEX_URL",
    py "UV_FIND_LINKS", py "UV_INSECURE_HOST", py "UV_INSECURE_NO_ZIP_VALIDATION", py "UV_CACHE_DIR",
    py "UV_PYTHON_CACHE_DIR", py "UV_ENV_FILE"]

def networkVariables : List PyStr :=
  [py "HTTPS_PROXY", py "https_proxy", py "HTTP_PROXY", py "http_proxy", py "ALL_PROXY",
    py "all_proxy", py "SSL_CERT_FILE", py "SSL_CERT_DIR", py "SSL_CLIENT_CERT", py "UV_NATIVE_TLS",
    py "UV_SYSTEM_CERTS", py "UV_KEYRING_PROVIDER", py "UV_GIT_LFS"]

def credentialVariables : List PyStr := [py "SSH_ASKPASS", py "PASSWORD_STORE_DIR"]

def PYTHONNOUSERSITE : PyStr := py "PYTHONNOUSERSITE"

/-- The variables git or its credential helper may read, by their prefix. -/
def isGitVariable (name : PyStr) : Bool :=
  (py "GIT_").isPrefixOf name || (py "GCM_").isPrefixOf name

/-- `pwshpy_drop_interpreter_variables` and `Clear-PwshPyInterpreterVariable`, for the names with
the prefix of git that the runner can read. -/
def drop_interpreter_variables (reads : PyStr → Bool) (env : Env) : Env :=
  ((((((env.unsetEach interpreterVariables).unsetEach libraryVariables).set PYTHONNOUSERSITE
    (py "1")).unsetEach uvSourceVariables).unsetEach networkVariables).dropWhere
      fun name => isGitVariable name && reads name).unsetEach credentialVariables

/-! ## What is given -/

/-- The account and the machine a root run finds. -/
structure Host where
  /-- the caller's working directory -/
  cwd : PyStr
  /-- the home of the account, from the passwd database: no trailing slash, `""` for `/` -/
  account_home : PyStr
  /-- the `PATH` of a shell that was given none -/
  default_path : PyStr
  /-- `pwshpy_trusted_path`: the directories of a `PATH` no other account can modify -/
  trusted_path : PyStr → PyStr

namespace Host

def account_cache_home (host : Host) : PyStr := host.account_home ++ py "/.cache"

def account_data_home (host : Host) : PyStr := host.account_home ++ py "/.local/share"

end Host

def slash : Nat := 0x2f

/-- `${path%/*}` -/
def parent (path : PyStr) : PyStr :=
  if path.contains slash then (path.rdropWhile (· != slash)).dropLast else path

/-- `${path%/}` -/
def withoutTrailingSlash (path : PyStr) : PyStr :=
  if path.getLast? = some slash then path.dropLast else path

/-- The names a root run takes away for uv, without a value of its own. -/
def unsetNames : List PyStr := [py "XDG_STATE_HOME", py "NETRC", py "UV_CREDENTIALS_DIR"]

/-- The new `HOME`. -/
def accountHome (host : Host) : PyStr :=
  let home := parent host.account_cache_home
  if home = [] then [slash] else home

/-- The directories of the account, and its private temporary directory. -/
def accountDirectories (host : Host) : List (PyStr × PyStr) :=
  let temporary := host.account_cache_home ++ py "/pwshpy-tmp"
  [(py "HOME", accountHome host),
    (py "XDG_CONFIG_HOME", withoutTrailingSlash (accountHome host) ++ py "/.config"),
    (py "XDG_CACHE_HOME", host.account_cache_home), (py "XDG_DATA_HOME", host.account_data_home),
    (py "TMPDIR", temporary), (py "TMP", temporary), (py "TEMP", temporary)]

/-- uv and git get the home of the account. -/
def account_environment (host : Host) (env : Env) : Env :=
  (env.unsetEach unsetNames).setEach (accountDirectories host)

def GIT_CONFIG_GLOBAL : PyStr := py "GIT_CONFIG_GLOBAL"
def UV_PYTHON_INSTALL_DIR : PyStr := py "UV_PYTHON_INSTALL_DIR"
def UV_CACHE_DIR : PyStr := py "UV_CACHE_DIR"

/-- The directories uv keeps its Pythons and its cache in. -/
def uvDirectories (host : Host) : List (PyStr × PyStr) :=
  [(UV_PYTHON_INSTALL_DIR, host.account_data_home ++ py "/uv/python"),
    (UV_CACHE_DIR, host.account_cache_home ++ py "/uv")]

/-! ## What both leave alone -/

/-- The names that are dropped, or set for uv and git alone. -/
def uvNames : List PyStr :=
  interpreterVariables ++ libraryVariables ++ PYTHONNOUSERSITE :: uvSourceVariables ++
    networkVariables ++ credentialVariables ++ [GIT_CONFIG_GLOBAL, UV_PYTHON_INSTALL_DIR, UV_CACHE_DIR]

theorem uvNames_apart : ∀ name ∈ uvNames, isHandOver name = false ∧ name ∉ CALLER_ENV_NAMES := by
  decide

/-- Dropping leaves every other name alone. -/
theorem drop_interpreter_variables_of_not_mem {reads : PyStr → Bool} {env : Env} {n : PyStr}
    (hname : n ∉ uvNames) (hgit : isGitVariable n = false) :
    drop_interpreter_variables reads env n = env n := by
  simp only [uvNames, List.mem_append, List.mem_cons, not_or] at hname
  obtain ⟨⟨⟨⟨⟨hinterpreter, hlibrary⟩, husersite, hsource⟩, hnetwork⟩, hcredential⟩, -⟩ := hname
  unfold drop_interpreter_variables
  rw [unsetEach_of_not_mem hcredential, dropWhere_of_false, unsetEach_of_not_mem hnetwork,
    unsetEach_of_not_mem hsource, set_of_ne husersite, unsetEach_of_not_mem hlibrary,
    unsetEach_of_not_mem hinterpreter]
  simp [hgit]

theorem names_not_git : ∀ name ∈ CALLER_ENV_NAMES, isGitVariable name = false := by decide

theorem record_not_git (name : PyStr) : isGitVariable (record name) = false := by rfl

theorem record_not_uv (name : PyStr) : record name ∉ uvNames := by
  intro h
  have hapart := (uvNames_apart _ h).1
  simp [isHandOver, isCallerVariable, isRecord_record] at hapart

theorem names_not_uv {name : PyStr} (h : name ∈ CALLER_ENV_NAMES) : name ∉ uvNames :=
  fun huv => (uvNames_apart name huv).2 h

/-- The account's directories are among the ten names. -/
theorem account_environment_of_not_mem {host : Host} {env : Env} {n : PyStr}
    (h : n ∉ CALLER_ENV_NAMES) : account_environment host env n = env n := by
  have hset : n ∉ (accountDirectories host).map Prod.fst := by
    intro hn
    apply h
    revert hn
    simp only [accountDirectories, List.map_cons, List.map_nil]
    exact fun hn => (by decide : ∀ m ∈ [py "HOME", py "XDG_CONFIG_HOME", py "XDG_CACHE_HOME",
      py "XDG_DATA_HOME", py "TMPDIR", py "TMP", py "TEMP"], m ∈ CALLER_ENV_NAMES) n hn
  have hunset : n ∉ unsetNames := by
    intro hn
    exact h ((by decide : ∀ m ∈ unsetNames, m ∈ CALLER_ENV_NAMES) n hn)
  unfold account_environment
  rw [setEach_of_not_mem hset, unsetEach_of_not_mem hunset]

end PwshPy.Handover
