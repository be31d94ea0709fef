import PwshPy.Shell.Fields
import PwshPy.Shell.Words

/-! # The variables a root run drops

A root run of the `.sh` unsets what would let its caller choose the interpreter,
the packages or a helper. Most names are listed; git's are taken from the lines
that `env` prints, in which a value of several lines may look like a variable.
-/

namespace PwshPy.Packing.RootRun

open Shell (captured fields isFieldSpace isNameChar isNameStart IsName)
open Storage (Variables)

/-! ## The shell's variables -/

structure Var where
  value : PyStr
  exported : Bool
  deriving DecidableEq

abbrev State := Variables PyStr Var

/-- `n=value`, exported if it was. -/
def setVar (s : State) (n value : PyStr) : State :=
  s.set n ⟨value, ((s n).map Var.exported).getD false⟩

/-- `export n` of a variable that is set. -/
def exportVar (s : State) (n : PyStr) : State :=
  s.assign n ((s n).map fun var => { var with exported := true })

/-! ## Names -/

def INTERPRETER_NAMES : List PyStr :=
  [py "UV_PYTHON", py "VIRTUAL_ENV", py "CONDA_PREFIX", py "UV_MANAGED_PYTHON",
    py "UV_NO_MANAGED_PYTHON", py "UV_PYTHON_INSTALL_DIR", py "UV_CONFIG_FILE",
    py "UV_PYTHON_INSTALL_MIRROR", py "UV_PYTHON_DOWNLOADS_JSON_URL", py "UV_ASTRAL_MIRROR_URL",
    py "UV_PYPY_INSTALL_MIRROR", py "UV_GRAALPY_INSTALL_MIRROR", py "UV_PYODIDE_INSTALL_MIRROR"]

def LIBRARY_NAMES : List PyStr := [py "PYTHONHOME", py "PYTHONPATH", py "PYTHONUSERBASE"]

def SOURCE_NAMES : List PyStr :=
  [py "UV_INDEX_URL", py "UV_DEFAULT_INDEX", py "UV_INDEX", py "UV_EXTRA_INDEX_URL",
    py "UV_FIND_LINKS", py "UV_INSECURE_HOST", py "UV_INSECURE_NO_ZIP_VALIDATION",
    py "UV_CACHE_DIR", py "UV_PYTHON_CACHE_DIR", py "UV_ENV_FILE"]

def CONNECTION_NAMES : List PyStr :=
  [py "HTTPS_PROXY", py "https_proxy", py "HTTP_PROXY", py "http_proxy", py "ALL_PROXY",
    py "all_proxy", py "SSL_CERT_FILE", py "SSL_CERT_DIR", py "SSL_CLIENT_CERT",
    py "UV_NATIVE_TLS", py "UV_SYSTEM_CERTS", py "UV_KEYRING_PROVIDER", py "UV_GIT_LFS"]

def HELPER_NAMES : List PyStr := [py "SSH_ASKPASS", py "PASSWORD_STORE_DIR"]

def PYTHONNOUSERSITE : PyStr := py "PYTHONNOUSERSITE"

/-- The variables the function works with. -/
def SCRATCH_NAMES : List PyStr :=
  [py "_iv", py "_iv_why", py "_iv_text", py "_iv_env", py "_iv_names"]

/-- Every variable the function sets. -/
def OWN_NAMES : List PyStr := PYTHONNOUSERSITE :: SCRATCH_NAMES

def GIT : PyStr := py "GIT_"
def GCM : PyStr := py "GCM_"

/-- A name that git or its credential manager reads. -/
def isGitName (n : PyStr) : Bool := GIT.isPrefixOf n || GCM.isPrefixOf n

/-! ## The loops -/

def isName (n : PyStr) : Bool :=
  match n with
  | [] => false
  | c :: rest => isNameStart c && rest.all isNameChar

def TEST_FRONT : PyStr := py "[ -n \"$\x7b"
def TEST_BACK : PyStr := py "+set\x7d\" ]"

/-- The text an `eval` is given. -/
def testText (n : PyStr) : PyStr := TEST_FRONT ++ (n ++ TEST_BACK)

/-- What such a text asks, if what stands in it is a name: any other text could
do anything. -/
def evalTest (s : State) (text : PyStr) : Option Bool :=
  let n := (text.drop TEST_FRONT.length).take
    (text.length - (TEST_FRONT.length + TEST_BACK.length))
  if text = testText n ∧ isName n = true then some (s n).isSome else none

inductive Failure where
  /-- `pwshpy_die` -/
  | died (text : PyStr) (code : Nat)
  /-- an `eval` of a text that asks for no variable -/
  | unread (text : PyStr)

structure Run where
  state : State
  evals : List PyStr
  stderr : List PyStr

/-- One of the loops; all but the first keep their reason in `_iv_text`. -/
def dropEach (in_text : Bool) (why : PyStr) : List PyStr → Run → Except Failure Run
  | [], r => .ok r
  | n :: names, r =>
      let state := setVar r.state (py "_iv") n
      let evals := r.evals ++ [testText n]
      match evalTest state (testText n) with
      | none => .error (.unread (testText n))
      | some false => dropEach in_text why names { r with state := state, evals := evals }
      | some true =>
          let state := if in_text then setVar state (py "_iv_text") why else state
          dropEach in_text why names
            ⟨state.unset n, evals, r.stderr ++ [py "pwshpy: ignoring " ++ n ++ py ": " ++ why]⟩

/-! ## git's names -/

/-- What `env` prints. -/
def env_text (listing : List (PyStr × PyStr)) : PyStr :=
  listing.flatMap fun v => v.1 ++ 0x3d :: (v.2 ++ [LF])

/-- `s/^\(<front>[A-Za-z0-9_]*\)=.*/\1/`: the name ends where its characters do. -/
def sed_name (front line : PyStr) : Option PyStr :=
  if front.isPrefixOf line then
    let rest := line.drop front.length
    if (rest.dropWhile isNameChar).head? = some 0x3d then
      some (front ++ rest.takeWhile isNameChar)
    else none
  else none

/-- What `sed -n` prints of a line: the second expression reads what the first left. -/
def sed_line (line : PyStr) : List PyStr :=
  match sed_name GIT line with
  | some name => name :: (sed_name GCM name).toList
  | none => (sed_name GCM line).toList

/-- `_iv_names`, from `_iv_env` -/
def sed_names (iv_env : PyStr) : PyStr :=
  captured (unlines ((iv_env.splitOn LF).flatMap sed_line))

/-! ## The function -/

def IV_WHY : PyStr :=
  py "as root only a uv-managed Python from the running account's own data directory runs"

def LIBRARY_WHY : PyStr :=
  py "as root the Python runs with its own library paths and no user site-packages"

def SOURCE_WHY : PyStr :=
  py "as root uv uses its defaults for package sources, archive checks, caches and env files"

def CONNECTION_WHY : PyStr :=
  py "as root uv connects with its own defaults: no proxy, its built-in certificate roots, no keyring, no git-lfs"

def GIT_WHY : PyStr :=
  py "as root uv runs git with none of the caller's git or credential-helper settings"

/-- The part above the listing. -/
def drop_listed (start : State) : Except Failure Run := do
  let r ← dropEach false IV_WHY INTERPRETER_NAMES ⟨setVar start (py "_iv_why") IV_WHY, [], []⟩
  let r ← dropEach true LIBRARY_WHY LIBRARY_NAMES r
  let state := exportVar (setVar r.state PYTHONNOUSERSITE (py "1")) PYTHONNOUSERSITE
  let r ← dropEach true SOURCE_WHY SOURCE_NAMES { r with state := state }
  dropEach true CONNECTION_WHY CONNECTION_NAMES r

/-- `pwshpy_drop_interpreter_variables`, for what `env` prints of the variables
exported; none where it fails. -/
def drop_interpreter_variables (env : State → Option (List (PyStr × PyStr))) (start : State) :
    Except Failure Run := do
  let r ← drop_listed start
  match env r.state with
  | none =>
      .error (.died (py "cannot list the environment to drop the caller's git variables") 70)
  | some listing =>
      let iv_env := captured (env_text listing)
      let names := sed_names iv_env
      let state := setVar (setVar r.state (py "_iv_env") iv_env) (py "_iv_names") names
      dropEach true GIT_WHY (fields isFieldSpace names ++ HELPER_NAMES) { r with state := state }

/-! ## What a stretch of it leaves -/

/-- These names are unset, and but for the function's own every other is as it was. -/
structure Drops (names : List PyStr) (s s' : State) : Prop where
  apart : ∀ n ∈ names, n ∉ OWN_NAMES
  cleared : ∀ n ∈ names, s' n = none
  kept : ∀ n, n ∉ names → n ∉ OWN_NAMES → s' n = s n

namespace Drops

variable {names later : List PyStr} {s s' s'' : State}

theorem trans (h : Drops names s s') (h' : Drops later s' s'') : Drops (names ++ later) s s'' where
  apart := by
    intro n hn
    cases List.mem_append.mp hn with
    | inl hmem => exact h.apart n hmem
    | inr hmem => exact h'.apart n hmem
  cleared := by
    intro n hn
    by_cases hlater : n ∈ later
    · exact h'.cleared n hlater
    · have hmem : n ∈ names := (List.mem_append.mp hn).resolve_right hlater
      rw [h'.kept n hlater (h.apart n hmem), h.cleared n hmem]
  kept := by
    intro n hn hown
    rw [List.mem_append, not_or] at hn
    rw [h'.kept n hn.2 hown, h.kept n hn.1 hown]

theorem refl : Drops [] s s where
  apart := by simp
  cleared := by simp
  kept := fun _ _ _ => rfl

theorem assign {n : PyStr} (hn : n ∈ OWN_NAMES) (value : Option Var) :
    Drops [] s (s.assign n value) where
  apart := by simp
  cleared := by simp
  kept := by
    intro m _ hm
    have hne : m ≠ n := fun heq => hm (heq ▸ hn)
    exact Variables.assign_of_ne hne

theorem setVar {n : PyStr} (hn : n ∈ OWN_NAMES) (value : PyStr) :
    Drops [] s (setVar s n value) := .assign hn _

theorem exportVar {n : PyStr} (hn : n ∈ OWN_NAMES) : Drops [] s (exportVar s n) := .assign hn _

theorem unset {n : PyStr} (hn : n ∉ OWN_NAMES) : Drops [n] s (s.unset n) where
  apart := by
    intro m hm
    rw [List.mem_singleton.mp hm]
    exact hn
  cleared := by
    intro m hm
    rw [List.mem_singleton.mp hm]
    exact Variables.unset_self
  kept := by
    intro m hm _
    exact Variables.unset_of_ne (List.mem_singleton.not.mp hm)

/-- A name that is not set need not be unset. -/
theorem missing {n : PyStr} (hn : n ∉ OWN_NAMES) (h : Drops [] s s') (hnone : s' n = none) :
    Drops [n] s s' where
  apart := by
    intro m hm
    rw [List.mem_singleton.mp hm]
    exact hn
  cleared := by
    intro m hm
    rw [List.mem_singleton.mp hm]
    exact hnone
  kept := fun m _ hm => h.kept m List.not_mem_nil hm

end Drops

theorem isName_chars {n : PyStr} (h : isName n = true) :
    n ≠ [] ∧ n.all isNameChar = true := by
  cases n with
  | nil => cases h
  | cons c rest =>
      rw [isName, Bool.and_eq_true] at h
      refine ⟨List.cons_ne_nil _ _, ?_⟩
      rw [List.all_cons, h.2, isNameChar, h.1]
      rfl

theorem evalTest_testText (s : State) {n : PyStr} (hn : isName n = true) :
    evalTest s (testText n) = some (s n).isSome := by
  have hname : ((testText n).drop TEST_FRONT.length).take
      ((testText n).length - (TEST_FRONT.length + TEST_BACK.length)) = n := by
    have hlength : (testText n).length - (TEST_FRONT.length + TEST_BACK.length) = n.length := by
      simp only [testText, List.length_append]
      omega
    rw [hlength, testText, List.drop_left, List.take_left]
  simp only [evalTest, hname, hn, and_self, if_true]

/-- Every text evaluated asks for a variable. -/
def AsksForVariables (r : Run) : Prop := ∀ text ∈ r.evals, ∃ n, IsName n ∧ text = testText n

theorem isName_spec {n : PyStr} (h : isName n = true) : IsName n := by
  obtain ⟨-, hchars⟩ := isName_chars h
  cases n with
  | nil => cases h
  | cons c rest =>
      rw [isName, Bool.and_eq_true] at h
      exact ⟨⟨c, rest, rfl, h.1⟩, List.all_eq_true.mp hchars⟩

theorem dropEach_spec {in_text : Bool} {why : PyStr} {names : List PyStr}
    (hnames : ∀ n ∈ names, isName n = true ∧ n ∉ OWN_NAMES) {r : Run} (hasks : AsksForVariables r) :
    ∃ r', dropEach in_text why names r = .ok r' ∧ Drops names r.state r'.state ∧
      AsksForVariables r' := by
  induction names generalizing r with
  | nil => exact ⟨r, rfl, .refl, hasks⟩
  | cons n names ih =>
      obtain ⟨⟨hname, hown⟩, hlater⟩ := List.forall_mem_cons.mp hnames
      have hiv : Drops [] r.state (setVar r.state (py "_iv") n) := .setVar (by decide) n
      have hnext : ∀ text ∈ r.evals ++ [testText n], ∃ m, IsName m ∧ text = testText m := by
        intro text htext
        cases List.mem_append.mp htext with
        | inl hold => exact hasks text hold
        | inr hnew => exact ⟨n, isName_spec hname, List.mem_singleton.mp hnew⟩
      rw [dropEach]
      simp only [evalTest_testText _ hname]
      cases hset : setVar r.state (py "_iv") n n with
      | none =>
          obtain ⟨r', hrun, hdrops, hrest⟩ := @ih hlater
            { r with state := setVar r.state (py "_iv") n, evals := r.evals ++ [testText n] } hnext
          exact ⟨r', hrun, (Drops.missing hown hiv hset).trans hdrops, hrest⟩
      | some var =>
          have htext : Drops [] (setVar r.state (py "_iv") n)
              (if in_text then setVar (setVar r.state (py "_iv") n) (py "_iv_text") why
                else setVar r.state (py "_iv") n) := by
            cases in_text with
            | true => exact .setVar (by decide) why
            | false => exact .refl
          obtain ⟨r', hrun, hdrops, hrest⟩ := @ih hlater
            ⟨(if in_text then setVar (setVar r.state (py "_iv") n) (py "_iv_text") why
                else setVar r.state (py "_iv") n).unset n, r.evals ++ [testText n],
              r.stderr ++ [py "pwshpy: ignoring " ++ n ++ py ": " ++ why]⟩ hnext
          exact ⟨r', hrun, ((hiv.trans htext).trans (.unset hown)).trans hdrops, hrest⟩

/-- The names of the fixed lists, but for the helpers of git. -/
def LISTED_NAMES : List PyStr :=
  INTERPRETER_NAMES ++ (LIBRARY_NAMES ++ (SOURCE_NAMES ++ CONNECTION_NAMES))

theorem drop_listed_spec (start : State) : ∃ r, drop_listed start = .ok r ∧
    Drops LISTED_NAMES start r.state ∧ AsksForVariables r := by
  have hbefore : AsksForVariables ⟨setVar start (py "_iv_why") IV_WHY, [], []⟩ :=
    fun _ h => absurd h List.not_mem_nil
  obtain ⟨r₁, hrun₁, hdrops₁, hasks₁⟩ :=
    @dropEach_spec false IV_WHY INTERPRETER_NAMES (by decide) _ hbefore
  obtain ⟨r₂, hrun₂, hdrops₂, hasks₂⟩ :=
    @dropEach_spec true LIBRARY_WHY LIBRARY_NAMES (by decide) _ hasks₁
  let state := exportVar (setVar r₂.state PYTHONNOUSERSITE (py "1")) PYTHONNOUSERSITE
  have hsite : Drops [] r₂.state state :=
    (Drops.setVar (by decide) (py "1")).trans (.exportVar (by decide))
  obtain ⟨r₃, hrun₃, hdrops₃, hasks₃⟩ :=
    @dropEach_spec true SOURCE_WHY SOURCE_NAMES (by decide) { r₂ with state := state } hasks₂
  obtain ⟨r₄, hrun₄, hdrops₄, hasks₄⟩ :=
    @dropEach_spec true CONNECTION_WHY CONNECTION_NAMES (by decide) _ hasks₃
  have hwhy : Drops [] start (setVar start (py "_iv_why") IV_WHY) := .setVar (by decide) IV_WHY
  refine ⟨r₄, ?_, hwhy.trans (hdrops₁.trans (hdrops₂.trans
    (hsite.trans (hdrops₃.trans hdrops₄)))), hasks₄⟩
  rw [drop_listed, hrun₁]
  show (do
    let r ← dropEach true LIBRARY_WHY LIBRARY_NAMES r₁
    let state := exportVar (setVar r.state PYTHONNOUSERSITE (py "1")) PYTHONNOUSERSITE
    let r ← dropEach true SOURCE_WHY SOURCE_NAMES { r with state := state }
    dropEach true CONNECTION_WHY CONNECTION_NAMES r) = _
  rw [hrun₂]
  show (do
    let r ← dropEach true SOURCE_WHY SOURCE_NAMES { r₂ with state := state }
    dropEach true CONNECTION_WHY CONNECTION_NAMES r) = _
  rw [hrun₃]
  exact hrun₄

/-! ## git's names are found -/

/-- A line of a text that a variable begins. -/
theorem exists_line {a : PyStr} (ha : LF ∉ a) (w : PyStr) :
    ∃ line ∈ (a ++ w).splitOn LF, a <+: line := by
  by_cases hw : LF ∈ w
  · obtain ⟨first, later, rfl, hfirst⟩ := List.eq_append_cons_of_mem hw
    have hline : LF ∉ a ++ first := by
      rw [List.mem_append, not_or]
      exact ⟨ha, hfirst⟩
    rw [← List.append_assoc, List.splitOn_append_cons_self_of_not_mem hline]
    exact ⟨a ++ first, List.mem_cons_self .., List.prefix_append _ _⟩
  · have hline : LF ∉ a ++ w := by
      rw [List.mem_append, not_or]
      exact ⟨ha, hw⟩
    have hsplit : (a ++ w).splitOn LF = [a ++ w] :=
      List.splitOnP_eq_singleton fun c hc => beq_eq_false_iff_ne.mpr fun heq => hline (heq ▸ hc)
    rw [hsplit]
    exact ⟨a ++ w, List.mem_singleton_self _, List.prefix_append _ _⟩

/-- What stands in front of a variable in the listing ends in a line end. -/
theorem mem_splitOn_env_text (before : List (PyStr × PyStr)) {line x : PyStr}
    (h : line ∈ x.splitOn LF) : line ∈ (env_text before ++ x).splitOn LF := by
  induction before with
  | nil => exact h
  | cons v before ih =>
      have hwhole : env_text (v :: before) ++ x =
          (v.1 ++ 0x3d :: v.2) ++ LF :: (env_text before ++ x) := by
        simp [env_text]
      have hsplit : (env_text (v :: before) ++ x).splitOn LF =
          (v.1 ++ 0x3d :: v.2).splitOn LF ++ (env_text before ++ x).splitOn LF := by
        rw [hwhole]
        exact List.splitOnP_append_cons _ _ (by decide)
      rw [hsplit]
      exact List.mem_append_right _ ih

theorem isNameChar_ne {n : PyStr} (hn : n.all isNameChar = true) {c : Nat}
    (hc : isNameChar c = false) : c ∉ n := by
  intro hmem
  rw [List.all_eq_true.mp hn c hmem] at hc
  cases hc

/-- A variable has a line of its own, whatever the values are. -/
theorem exists_env_line {listing : List (PyStr × PyStr)} {n v : PyStr}
    (hn : n.all isNameChar = true) (h : (n, v) ∈ listing) :
    ∃ line ∈ (captured (env_text listing)).splitOn LF, n ++ [0x3d] <+: line := by
  obtain ⟨before, later, rfl⟩ := List.append_of_mem h
  have hwhole : env_text (before ++ (n, v) :: later) =
      (env_text before ++ n) ++ 0x3d :: (v ++ LF :: env_text later) := by
    simp [env_text]
  have hline : LF ∉ n ++ [0x3d] := by
    rw [List.mem_append, not_or]
    exact ⟨isNameChar_ne hn (by decide), by decide⟩
  obtain ⟨line, hmem, hbegins⟩ := exists_line hline (captured (v ++ LF :: env_text later))
  refine ⟨line, ?_, hbegins⟩
  have hequal : (0x3d : Nat) ≠ LF := by decide
  rw [hwhole, Shell.captured_append hequal, List.append_assoc]
  apply mem_splitOn_env_text
  rw [List.append_assoc] at hmem
  exact hmem

theorem sed_name_some {front line name : PyStr} (h : sed_name front line = some name) :
    ∃ rest : PyStr, name = front ++ rest ∧ rest.all isNameChar = true := by
  unfold sed_name at h
  split at h
  · simp only at h
    split at h
    · exact ⟨_, (Option.some.inj h).symm, List.all_takeWhile⟩
    · cases h
  · cases h

theorem sed_name_line {front rest : PyStr} (hrest : rest.all isNameChar = true) (tail : PyStr) :
    sed_name front (front ++ (rest ++ 0x3d :: tail)) = some (front ++ rest) := by
  have hall := List.all_eq_true.mp hrest
  have hbegins : front.isPrefixOf (front ++ (rest ++ 0x3d :: tail)) = true :=
    List.isPrefixOf_iff_prefix.mpr (List.prefix_append _ _)
  have hdrop : (rest ++ 0x3d :: tail).dropWhile isNameChar = 0x3d :: tail := by
    rw [List.dropWhile_append_of_pos hall, List.dropWhile_cons_of_neg (by decide)]
  have htake : (rest ++ 0x3d :: tail).takeWhile isNameChar = rest := by
    rw [List.takeWhile_append_of_pos hall, List.takeWhile_cons_of_neg (by decide), List.append_nil]
  simp only [sed_name, hbegins, if_true, List.drop_left, hdrop, htake, List.head?_cons]

/-- What git or its credential manager reads is a shell's name. -/
theorem gitName_isName {front rest : PyStr} (hfront : front = GIT ∨ front = GCM)
    (hrest : rest.all isNameChar = true) :
    isName (front ++ rest) = true ∧ isGitName (front ++ rest) = true ∧
      front ++ rest ∉ OWN_NAMES := by
  have hapart : ∀ n ∈ OWN_NAMES, n.head? ≠ some 0x47 := by decide
  have hown : ∀ {n : PyStr}, n.head? = some 0x47 → n ∉ OWN_NAMES :=
    fun hhead hmem => hapart _ hmem hhead
  cases hfront with
  | inl hgit =>
      subst hgit
      refine ⟨?_, ?_, hown rfl⟩
      · show (isNameStart 0x47 && (py "IT_" ++ rest).all isNameChar) = true
        rw [List.all_append, hrest]
        decide
      · rw [isGitName, List.isPrefixOf_iff_prefix.mpr (List.prefix_append GIT rest)]
        rfl
  | inr hgcm =>
      subst hgcm
      refine ⟨?_, ?_, hown rfl⟩
      · show (isNameStart 0x47 && (py "CM_" ++ rest).all isNameChar) = true
        rw [List.all_append, hrest]
        decide
      · rw [isGitName, List.isPrefixOf_iff_prefix.mpr (List.prefix_append GCM rest), Bool.or_true]

theorem mem_sed_line {line name : PyStr} (h : name ∈ sed_line line) :
    isName name = true ∧ isGitName name = true ∧ name ∉ OWN_NAMES := by
  have hfound : ∀ {front line : PyStr}, front = GIT ∨ front = GCM →
      sed_name front line = some name →
      isName name = true ∧ isGitName name = true ∧ name ∉ OWN_NAMES := by
    intro front line hfront hsed
    obtain ⟨rest, rfl, hrest⟩ := sed_name_some hsed
    exact gitName_isName hfront hrest
  unfold sed_line at h
  split at h
  · rename_i first hgit
    rcases List.mem_cons.mp h with heq | hlater
    · subst heq
      exact hfound (Or.inl rfl) hgit
    · exact hfound (Or.inr rfl) (Option.mem_toList.mp hlater)
  · exact hfound (Or.inr rfl) (Option.mem_toList.mp h)

/-- The line of a variable of git gives its name. -/
theorem sed_line_of_git {n line : PyStr} (hchars : n.all isNameChar = true)
    (hgit : isGitName n = true) (hline : n ++ [0x3d] <+: line) : n ∈ sed_line line := by
  obtain ⟨tail, rfl⟩ := hline
  have hrest : ∀ {front rest : PyStr}, front ++ rest = n → rest.all isNameChar = true := by
    intro front rest hn
    rw [← hn, List.all_append, Bool.and_eq_true] at hchars
    exact hchars.2
  have hwhole : ∀ {front rest : PyStr}, front ++ rest = n →
      n ++ [0x3d] ++ tail = front ++ (rest ++ 0x3d :: tail) := by
    intro front rest hn
    rw [← hn]
    simp
  rw [isGitName, Bool.or_eq_true] at hgit
  cases hgit with
  | inl hgit =>
      obtain ⟨rest, hn⟩ := List.isPrefixOf_iff_prefix.mp hgit
      have hfound := @sed_name_line GIT rest (hrest hn) tail
      rw [sed_line, hwhole hn, hfound, hn]
      exact List.mem_cons_self ..
  | inr hgcm =>
      obtain ⟨rest, hn⟩ := List.isPrefixOf_iff_prefix.mp hgcm
      have hother : sed_name GIT (GCM ++ (rest ++ 0x3d :: tail)) = none := rfl
      have hfound := @sed_name_line GCM rest (hrest hn) tail
      rw [sed_line, hwhole hn, hother, hfound, hn]
      exact List.mem_singleton_self _

/-- The words of the names are the names. -/
theorem fields_sed_names (iv_env : PyStr) :
    fields isFieldSpace (sed_names iv_env) = (iv_env.splitOn LF).flatMap sed_line := by
  rw [sed_names, Shell.fields_captured (by decide)]
  apply Shell.fields_unlines (by decide)
  intro name hname
  obtain ⟨line, -, hmem⟩ := List.mem_flatMap.mp hname
  obtain ⟨hne, hchars⟩ := isName_chars (mem_sed_line hmem).1
  refine ⟨hne, ?_⟩
  intro c hc
  have hchar := List.all_eq_true.mp hchars c hc
  by_contra hspace
  rw [Bool.not_eq_false] at hspace
  simp only [isFieldSpace, Bool.or_eq_true, beq_iff_eq] at hspace
  rcases hspace with (h | h) | h
  · rw [h] at hchar
    exact absurd hchar (by decide)
  · rw [h] at hchar
    exact absurd hchar (by decide)
  · rw [h] at hchar
    exact absurd hchar (by decide)

/-! ## The whole of it -/

/-- Every name the function drops. -/
def isDropped (n : PyStr) : Prop := isGitName n = true ∨ n ∈ LISTED_NAMES ∨ n ∈ HELPER_NAMES

/-- The variables of a shell: its own, and those of its environment it has not set. -/
def shell (environment : Variables PyStr PyStr) (own : State) : State :=
  fun n => (own n).or ((environment n).map (⟨·, true⟩))

/-- Every variable that is exported has a line of its own. -/
def Lists (s : State) (listing : List (PyStr × PyStr)) : Prop :=
  ∀ n var, s n = some var → var.exported = true → (n, var.value) ∈ listing

/-- The names found in the listing, with the two helpers of git. -/
def foundNames (listing : List (PyStr × PyStr)) : List PyStr :=
  fields isFieldSpace (sed_names (captured (env_text listing))) ++ HELPER_NAMES

theorem foundNames_spec (listing : List (PyStr × PyStr)) {n : PyStr}
    (h : n ∈ foundNames listing) : isName n = true ∧ n ∉ OWN_NAMES := by
  cases List.mem_append.mp h with
  | inl hfound =>
      rw [fields_sed_names] at hfound
      obtain ⟨line, -, hmem⟩ := List.mem_flatMap.mp hfound
      obtain ⟨hname, -, hown⟩ := mem_sed_line hmem
      exact ⟨hname, hown⟩
  | inr hhelper =>
      have hall : ∀ n ∈ HELPER_NAMES, isName n = true ∧ n ∉ OWN_NAMES := by decide
      exact hall n hhelper

theorem mem_foundNames {listing : List (PyStr × PyStr)} {n v : PyStr} (hname : IsName n)
    (hgit : isGitName n = true) (h : (n, v) ∈ listing) : n ∈ foundNames listing := by
  have hchars : n.all isNameChar = true := List.all_eq_true.mpr hname.chars
  obtain ⟨line, hmem, hline⟩ := exists_env_line hchars h
  rw [foundNames, fields_sed_names]
  exact List.mem_append_left _
    (List.mem_flatMap.mpr ⟨line, hmem, sed_line_of_git hchars hgit hline⟩)

theorem foundNames_dropped {listing : List (PyStr × PyStr)} {n : PyStr}
    (h : n ∈ foundNames listing) : isDropped n := by
  cases List.mem_append.mp h with
  | inl hfound =>
      rw [fields_sed_names] at hfound
      obtain ⟨line, -, hmem⟩ := List.mem_flatMap.mp hfound
      exact Or.inl (mem_sed_line hmem).2.1
  | inr hhelper => exact Or.inr (Or.inr hhelper)

theorem isGitName_apart {n : PyStr} (h : isGitName n = true) : n ∉ OWN_NAMES := by
  have hapart : ∀ m ∈ OWN_NAMES, isGitName m = false := by decide
  intro hmem
  rw [hapart n hmem] at h
  cases h

/-- The state the last loop begins in. -/
def withListing (s : State) (listing : List (PyStr × PyStr)) : State :=
  setVar (setVar s (py "_iv_env") (captured (env_text listing))) (py "_iv_names")
    (sed_names (captured (env_text listing)))

theorem drop_interpreter_variables_eq {env : State → Option (List (PyStr × PyStr))}
    {start : State} {r : Run} (h : drop_listed start = .ok r) :
    drop_interpreter_variables env start =
      match env r.state with
      | none =>
          .error (.died (py "cannot list the environment to drop the caller's git variables") 70)
      | some listing =>
          dropEach true GIT_WHY (foundNames listing)
            { r with state := withListing r.state listing } := by
  rw [drop_interpreter_variables, h]
  rfl

/-- A listing without a variable of git's is one of a shell that has none. -/
theorem git_unset_of_not_found {environment : Variables PyStr PyStr}
    (hnames : ∀ n, environment n ≠ none → IsName n) {own s : State}
    (hown : ∀ n, isGitName n = true → own n = none)
    (hdrops : Drops LISTED_NAMES (shell environment own) s) {listing : List (PyStr × PyStr)}
    (henv : Lists s listing)
    {n : PyStr} (hgit : isGitName n = true) (hfound : n ∉ foundNames listing) : s n = none := by
  by_cases hlisted : n ∈ LISTED_NAMES
  · exact hdrops.cleared n hlisted
  · have hkept := hdrops.kept n hlisted (isGitName_apart hgit)
    rw [shell, hown n hgit, Option.none_or] at hkept
    cases hvalue : environment n with
    | none =>
        rw [hvalue] at hkept
        exact hkept
    | some value =>
        rw [hvalue] at hkept
        have hname := hnames n (by rw [hvalue]; exact Option.some_ne_none _)
        exact absurd (mem_foundNames hname hgit (henv n _ hkept rfl)) hfound

/-- Where the function returns, no variable it drops is left and every other but
its own is as it was; and it asks the shell about names only. -/
theorem no_git_variable_is_left {env : State → Option (List (PyStr × PyStr))}
    (henv : ∀ s listing, env s = some listing → Lists s listing)
    {environment : Variables PyStr PyStr} (hnames : ∀ n, environment n ≠ none → IsName n)
    {own : State} (hown : ∀ n, isGitName n = true → own n = none) :
    (∀ f, drop_interpreter_variables env (shell environment own) = .error f →
      ∃ text, f = .died text 70) ∧
    ∀ run, drop_interpreter_variables env (shell environment own) = .ok run →
      (∀ n, isDropped n → run.state n = none) ∧
      (∀ n, ¬isDropped n → n ∉ OWN_NAMES → run.state n = shell environment own n) ∧
      AsksForVariables run := by
  obtain ⟨r, hlisted, hdrops, hasks⟩ := drop_listed_spec (shell environment own)
  rw [drop_interpreter_variables_eq hlisted]
  cases hlisting : env r.state with
  | none =>
      constructor
      · intro f hf
        cases hf
        exact ⟨_, rfl⟩
      · intro run hrun
        cases hrun
  | some listing =>
      obtain ⟨last, hlast, hfound, hnamed⟩ :=
        @dropEach_spec true GIT_WHY (foundNames listing) (fun n => foundNames_spec listing)
          { r with state := withListing r.state listing } hasks
      have hbetween : Drops [] r.state (withListing r.state listing) :=
        (Drops.setVar (by decide) _).trans (.setVar (by decide) _)
      have hwhole := hdrops.trans (hbetween.trans hfound)
      simp only [hlast]
      constructor
      · intro f hf
        cases hf
      · intro run hrun
        cases hrun
        refine ⟨?_, ?_, hnamed⟩
        · intro n hn
          by_cases hmem : n ∈ LISTED_NAMES ++ ([] ++ foundNames listing)
          · exact hwhole.cleared n hmem
          · rw [List.mem_append, not_or, List.nil_append] at hmem
            rcases hn with hgit | hlist | hhelper
            · have hnone := git_unset_of_not_found hnames hown hdrops (henv _ _ hlisting) hgit
                hmem.2
              have hlater := hbetween.trans hfound
              rw [hlater.kept n hmem.2 (isGitName_apart hgit), hnone]
            · exact absurd hlist hmem.1
            · exact absurd (List.mem_append_right _ hhelper) hmem.2
        · intro n hn hapart
          refine hwhole.kept n ?_ hapart
          intro hmem
          cases List.mem_append.mp hmem with
          | inl hlist => exact hn (Or.inr (Or.inl hlist))
          | inr hlater => exact hn (foundNames_dropped hlater)

/-- A value of two lines, whose second looks like a variable, and the name of the
function's own loop variable. -/
def forgedEnvironment : Variables PyStr PyStr := fun n =>
  if n = py "GIT_TRACE" then some (py "1")
  else if n = py "LESS" then some (py "-R" ++ LF :: py "GIT_DIR=/x")
  else if n = py "_iv" then some (py "mine")
  else none

def forged : State := shell forgedEnvironment fun _ => none

def forgedListing : List (PyStr × PyStr) :=
  [(py "LESS", py "-R" ++ LF :: py "GIT_DIR=/x"), (py "GIT_TRACE", py "1"),
    (py "_iv", py "UV_GIT_LFS"), (PYTHONNOUSERSITE, py "1")]

/-- What the function's own variables are when the listing is made. -/
theorem forged_own_names : (drop_listed forged).toOption.map (fun r => OWN_NAMES.map r.state) =
    some [some ⟨py "1", true⟩, some ⟨py "UV_GIT_LFS", true⟩, some ⟨IV_WHY, false⟩, none, none,
      none] := by
  decide

theorem forged_lists {r : Run} (h : drop_listed forged = .ok r) : Lists r.state forgedListing := by
  obtain ⟨r', hlisted, hdrops, -⟩ := drop_listed_spec forged
  rw [h] at hlisted
  cases hlisted
  have hown := forged_own_names
  rw [h] at hown
  have hvalues : OWN_NAMES.map r.state = _ := Option.some.inj hown
  simp only [OWN_NAMES, SCRATCH_NAMES, List.map_cons, List.map_nil, List.cons.injEq] at hvalues
  obtain ⟨hsite, hiv, hwhy, htext, hlisting, hnames, -⟩ := hvalues
  intro n var hset hexported
  by_cases hmem : n ∈ OWN_NAMES
  · simp only [OWN_NAMES, SCRATCH_NAMES, List.mem_cons, List.not_mem_nil, or_false] at hmem
    rcases hmem with rfl | rfl | rfl | rfl | rfl | rfl
    · rw [hsite] at hset
      cases hset
      decide
    · rw [hiv] at hset
      cases hset
      decide
    · rw [hwhy] at hset
      cases hset
      cases hexported
    · rw [htext] at hset
      cases hset
    · rw [hlisting] at hset
      cases hset
    · rw [hnames] at hset
      cases hset
  · by_cases hdropped : n ∈ LISTED_NAMES
    · rw [hdrops.cleared n hdropped] at hset
      cases hset
    · rw [hdrops.kept n hdropped hmem] at hset
      have hvalue : (forgedEnvironment n).map (fun v => (⟨v, true⟩ : Var)) = some var := hset
      unfold forgedEnvironment at hvalue
      split at hvalue
      · rename_i hn
        subst hn
        cases hvalue
        decide
      · split at hvalue
        · rename_i hn
          subst hn
          cases hvalue
          decide
        · split at hvalue
          · rename_i hn
            exact absurd (hn ▸ (by decide : py "_iv" ∈ OWN_NAMES)) hmem
          · cases hvalue

open Classical in
/-- An `env` that prints this listing of the shells it is a listing of. -/
noncomputable def envOf (listing : List (PyStr × PyStr)) (s : State) :
    Option (List (PyStr × PyStr)) := if Lists s listing then some listing else none

theorem forged_run : ∃ run, drop_interpreter_variables (envOf forgedListing) forged = .ok run ∧
    run.state (py "GIT_TRACE") = none ∧
    run.state (py "_iv") = some ⟨py "PASSWORD_STORE_DIR", true⟩ := by
  obtain ⟨r, hlisted, -, -⟩ := drop_listed_spec forged
  have henv : envOf forgedListing r.state = some forgedListing := if_pos (forged_lists hlisted)
  have hsame : drop_interpreter_variables (envOf forgedListing) forged =
      drop_interpreter_variables (fun _ => some forgedListing) forged := by
    rw [drop_interpreter_variables_eq hlisted, drop_interpreter_variables_eq hlisted, henv]
  have hstate : (drop_interpreter_variables (fun _ => some forgedListing) forged).toOption.map
      (fun run => (run.state (py "GIT_TRACE"), run.state (py "_iv"))) =
      some (none, some ⟨py "PASSWORD_STORE_DIR", true⟩) := by decide
  rw [hsame]
  cases hrun : drop_interpreter_variables (fun _ => some forgedListing) forged with
  | error f =>
      rw [hrun] at hstate
      cases hstate
  | ok run =>
      rw [hrun] at hstate
      obtain ⟨htrace, hiv⟩ := Prod.mk.inj (Option.some.inj hstate)
      exact ⟨run, rfl, htrace, hiv⟩

theorem no_git_variable_is_left_forged :
    ∃ run, drop_interpreter_variables (envOf forgedListing) forged = .ok run ∧
      run.state (py "GIT_TRACE") = none ∧
      run.state (py "LESS") = some ⟨py "-R" ++ LF :: py "GIT_DIR=/x", true⟩ := by
  obtain ⟨run, hrun, -, -⟩ := forged_run
  have henv : ∀ s listing, envOf forgedListing s = some listing → Lists s listing := by
    intro s listing h
    unfold envOf at h
    split at h
    · cases h
      assumption
    · cases h
  have hnames : ∀ n, forgedEnvironment n ≠ none → IsName n := by
    intro n hn
    have hname : n ∈ [py "GIT_TRACE", py "LESS", py "_iv"] := by
      by_contra hmem
      simp only [List.mem_cons, List.not_mem_nil, or_false, not_or] at hmem
      exact hn (by simp [forgedEnvironment, hmem])
    have hall : ∀ m ∈ [py "GIT_TRACE", py "LESS", py "_iv"], isName m = true := by decide
    exact isName_spec (hall n hname)
  obtain ⟨hdropped, hkept, -⟩ :=
    (no_git_variable_is_left henv hnames (fun _ _ => rfl)).2 run hrun
  refine ⟨run, hrun, hdropped _ (Or.inl (by decide)), ?_⟩
  have hless := hkept (py "LESS") (by unfold isDropped; decide) (by decide)
  rw [hless]
  decide

/-- The name of the loop variable may be the caller's: its value is not given back. -/
theorem loop_variable_is_not_given_back :
    ∃ run, drop_interpreter_variables (envOf forgedListing) forged = .ok run ∧
      forged (py "_iv") = some ⟨py "mine", true⟩ ∧ run.state (py "_iv") ≠ forged (py "_iv") := by
  obtain ⟨run, hrun, -, hiv⟩ := forged_run
  have hmine : forged (py "_iv") = some ⟨py "mine", true⟩ := by decide
  refine ⟨run, hrun, hmine, ?_⟩
  rw [hiv, hmine]
  decide

end PwshPy.Packing.RootRun
