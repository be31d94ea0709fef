import Mathlib.Algebra.Order.Ring.Unbundled.Rat
import Mathlib.Order.Monotone.Defs
import PwshPy.Effects.Triple
import PwshPy.Text.Repr

/-! # Creating a POSIX account

`new_user` runs up to three shadow-utils commands under one deadline. When one
behind `useradd` fails, an account that was asked for disabled is locked within a
grace of its own, and the error says how far the call came. How a command ends
and what the clock reads are open: a call is a run against any answers.
-/

namespace PwshPy.Accounts

open Effects

/-! ## The outside -/

structure Command where
  argv : List PyStr
  input_text : Option PyStr := none
  deriving DecidableEq

/-- How `run_process` comes back from a command. -/
inductive Outcome where
  | exited (exit_code : Int) (stdout stderr : PyStr)
  /-- Its time was up, and it was killed. -/
  | timed_out
  /-- It could not be started, for want of rights or otherwise. -/
  | not_started (message : PyStr) (denied : Bool)
  deriving DecidableEq

def Outcome.succeeded : Outcome → Bool
  | exited exit_code _ _ => exit_code == 0
  | _ => false

/-- An entry of the user database. -/
structure Passwd where
  pw_name : PyStr
  pw_uid : Nat
  pw_gecos : PyStr

structure Outside where
  /-- the readings of `time.monotonic()` -/
  clock : Nat → ℚ
  clock_mono : Monotone clock
  /-- how the commands end, in the order they are run -/
  outcomes : Nat → Outcome
  getpwnam : PyStr → Option Passwd
  /-- `str` of a float -/
  str_float : ℚ → PyStr
  /-- `str.isprintable` of a character -/
  printable : Nat → Bool

inductive FailureKind where
  | native_call
  | access_denied
  | operation_timeout (timeout : ℚ)
  deriving DecidableEq

/-- A `NativeCallError`: which one, and its text. -/
structure Failure where
  kind : FailureKind
  message : PyStr
  deriving DecidableEq

/-- `_Deadline`, with the number of the clock reading it was made from: two of
them may end together. -/
structure Deadline where
  limit : ℚ
  ends_at : ℚ
  reading : Nat

/-- A command that was run: the deadline it was run under, and the reading taken before it. -/
structure Run where
  command : Command
  deadline : Deadline
  now : ℚ
  outcome : Outcome

/-- The seconds it was given. -/
def Run.timeout (run : Run) : ℚ := run.deadline.ends_at - run.now

/-- `_NewUserProgress` -/
structure NewUserProgress where
  name : PyStr
  password_requested : Bool
  lock_requested : Bool
  password_set : Bool := false
  lock_failure : Option PyStr := none

/-- The readings taken, the commands run and what the call notes of itself. -/
structure World where
  readings : Nat
  log : List Run
  progress : NewUserProgress

structure LocalUser where
  name : PyStr
  sid : PyStr
  enabled : Bool
  full_name : PyStr
  description : PyStr

abbrev Call (α : Type) := Act Failure World α

/-! ## The texts -/

def LOCK_GRACE_SECONDS : ℚ := 5

/-- `str` of an exit code -/
def strInt : Int → PyStr
  | .ofNat n => decimal n
  | .negSucc n => py "-" ++ decimal (n + 1)

section

variable (outside : Outside)

def repr (s : PyStr) : PyStr := pyRepr outside.printable s

/-- What is said of the lock: `none` for one that did not fail. -/
def lockPart : Option PyStr → PyStr
  | none => py "the account was locked within a " ++ outside.str_float LOCK_GRACE_SECONDS ++
      py "s grace after the failure"
  | some failure => py "the account was NOT locked (" ++ failure ++ py ")"

/-- `describe`: what a call has done. -/
def describe (progress : NewUserProgress) : PyStr :=
  (py ", ").intercalate
    ([py "user " ++ repr outside progress.name ++ py " was created"] ++
      (if progress.password_requested then
        [if progress.password_set then py "its password was set"
          else py "its password may not be set (chpasswd failed)"]
      else []) ++
      if progress.lock_requested then [lockPart outside progress.lock_failure] else [])

/-- What a command wrote about its failure. -/
def detail (exit_code : Int) (stdout stderr : PyStr) : PyStr :=
  if strip stderr ≠ [] then strip stderr
  else if strip stdout ≠ [] then strip stdout
  else py "exit " ++ strInt exit_code

def notStarted (command : Command) (deadline : Deadline) : Failure where
  kind := .operation_timeout deadline.limit
  message := command.argv.headD [] ++ py " was not started: the verb's " ++
    outside.str_float deadline.limit ++ py "s timeout had passed"

/-- What `_run` raises about a command that was run, if anything. -/
def failureOf (command : Command) (deadline : Deadline) : Outcome → Option Failure
  | .timed_out => some
      { kind := .operation_timeout deadline.limit
        message := command.argv.headD [] ++ py " was killed: the verb's " ++
          outside.str_float deadline.limit ++ py "s timeout passed while it ran" }
  | .not_started message denied =>
      some { kind := if denied then .access_denied else .native_call, message }
  | .exited exit_code stdout stderr =>
      if exit_code ≠ 0 then
        some { kind := .native_call
               message := command.argv.headD [] ++ py " failed: " ++ detail exit_code stdout stderr }
      else none

/-! ## The verb -/

/-- `time.monotonic()` -/
def monotonic : Call ℚ := do
  let w ← get
  set { w with readings := w.readings + 1 }
  return outside.clock w.readings

/-- `_Deadline(limit)` -/
def Deadline.after (limit : ℚ) : Call Deadline := do
  let w ← get
  let now ← monotonic outside
  return { limit, ends_at := now + limit, reading := w.readings }

def run_process (command : Command) (deadline : Deadline) (now : ℚ) : Call Outcome := do
  let w ← get
  let ran : Run := { command, deadline, now, outcome := outside.outcomes w.log.length }
  set { w with log := w.log ++ [ran] }
  return ran.outcome

/-- `_run` -/
def run (command : Command) (deadline : Deadline) : Call Unit := do
  let now ← monotonic outside
  if deadline.ends_at - now ≤ 0 then
    throw (notStarted outside command deadline)
  else
    let outcome ← run_process outside command deadline now
    match failureOf outside command deadline outcome with
    | some failure => throw failure
    | none => return ()

/-- `_NAME_RE.fullmatch` -/
def isName (value : PyStr) : Bool :=
  let letter c := (0x61 ≤ c && c ≤ 0x7a) || c == 0x5f
  match value with
  | [] => false
  | c :: rest =>
      let body := if rest.getLast? = some 0x24 then rest.dropLast else rest
      letter c && decide (body.length ≤ 31) && body.all fun c => letter c || isDigit c || c == 0x2d

def valid_name (value : PyStr) : Call Unit :=
  if isName value then return ()
  else throw
    { kind := .native_call
      message := py "invalid account name " ++ repr outside value ++
        py ": expected a POSIX name (lowercase letter or '_' start, then " ++
        py "letters/digits/'_'/'-'; no ':', newline, or leading '-')." }

def reject_delimiters (value field forbidden : PyStr) : Call Unit :=
  if forbidden.any value.contains then throw
    { kind := .native_call
      message := py "the " ++ field ++ py " must not contain any of " ++ repr outside forbidden ++
        py " (it would corrupt the account entry)." }
  else return ()

/-- `_read_user` -/
def read_user (name : PyStr) (enabled : Bool) : Call LocalUser :=
  match outside.getpwnam name with
  | none => throw
      { kind := .native_call, message := py "user " ++ repr outside name ++ py " not found" }
  | some entry => return {
      name := entry.pw_name
      sid := decimal entry.pw_uid
      enabled
      full_name := entry.pw_gecos.takeWhile (· != 0x2c)
      description := [] }

def lockCommand (name : PyStr) : Command := { argv := [py "usermod", py "--lock", name] }

/-- `_lock_within_grace` -/
def lock_within_grace (name : PyStr) : Call (Option PyStr) :=
  tryCatch
    (do
      let deadline ← Deadline.after outside LOCK_GRACE_SECONDS
      run outside (lockCommand name) deadline
      return none)
    fun failure => return some failure.message

/-- `_after_partial_create`: the error to raise for `failure`. -/
def after_partial_create (failure : Failure) : Call Failure := do
  let w ← get
  if w.progress.lock_requested then
    let lock_failure ← lock_within_grace outside w.progress.name
    modify fun w => { w with progress := { w.progress with lock_failure } }
  let w ← get
  return { failure with message := failure.message ++ py "; " ++ describe outside w.progress }

/-- The arguments of `new_user`. -/
structure NewUser where
  name : PyStr
  password : PyStr := []
  full_name : PyStr := []
  description : PyStr := []
  disabled : Bool := false
  timeout : ℚ := 30

namespace NewUser

variable (call : NewUser)

def comment : PyStr := if call.full_name ≠ [] then call.full_name else call.description

def useradd : Command where
  argv := [py "useradd"] ++ (if call.comment ≠ [] then [py "--comment", call.comment] else []) ++
    [call.name]

def chpasswd : Command where
  argv := [py "chpasswd"]
  input_text := some (call.name ++ py ":" ++ call.password ++ [LF])

def lock : Command := lockCommand call.name

/-- The `try` block. -/
def finish (deadline : Deadline) : Call Unit := do
  if call.password ≠ [] then
    run outside call.chpasswd deadline
    modify fun w => { w with progress := { w.progress with password_set := true } }
  if call.disabled then
    run outside call.lock deadline

/-- `new_user` -/
def new_user : Call LocalUser := do
  valid_name outside call.name
  reject_delimiters outside call.comment (py "GECOS comment") (py "\n\r:")
  reject_delimiters outside call.password (py "password") (py "\n\r")
  let deadline ← Deadline.after outside call.timeout
  run outside call.useradd deadline
  modify fun w => { w with
    progress :=
      { name := call.name
        password_requested := decide (call.password ≠ [])
        lock_requested := call.disabled } }
  tryCatch (call.finish outside deadline) fun failure => do
    throw (← after_partial_create outside failure)
  read_user outside call.name !call.disabled

end NewUser

end

end PwshPy.Accounts
