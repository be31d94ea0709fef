import PwshPy.Text.PyStr

/-! # The inputs of a registration

The value objects of `domain/scheduling.py`. Each validates its fields when it is
built, so what the validators promise is a field here.
-/

namespace PwshPy.Systemd

/-! ## Who a task runs as -/

/-- `int(text)` of a text of ASCII digits. -/
def intOfDigits (text : PyStr) : Nat := text.foldl (fun n c => 10 * n + (c - 0x30)) 0

/-- `S-1-[0-9]+(?:-[0-9]+)+` -/
def isSid (text : PyStr) : Bool :=
  match text.splitOn 0x2d with
  | s :: one :: first :: second :: rest =>
    s == py "S" && one == py "1" &&
      (first :: second :: rest).all fun part => !part.isEmpty && part.all isDigit
  | _ => false

/-- `0|[1-9][0-9]{0,9}`, within `uid_t`. -/
def isUid (text : PyStr) : Bool :=
  match text with
  | [] => false
  | c :: rest =>
    (text == py "0" || (isDigit c && c != 0x30 && rest.all isDigit && decide (rest.length ≤ 9))) &&
      decide (intOfDigits text ≤ 4294967295)

theorem isDigit_of_isUid {text : PyStr} (h : isUid text = true) : text.all isDigit = true := by
  cases text with
  | nil => rfl
  | cons c rest =>
      simp only [isUid, Bool.and_eq_true, Bool.or_eq_true, beq_iff_eq] at h
      rcases h.1 with h | h
      · rw [h]; decide
      · simpa using ⟨h.1.1.1, by simpa using h.1.2⟩

inductive TaskLogonType where
  | interactiveToken
  | serviceAccount
  | s4u
  deriving DecidableEq

inductive TaskRunLevel where
  | limited
  | highest
  deriving DecidableEq

structure TaskPrincipal where
  user_id : Option PyStr := none
  logon_type : Option TaskLogonType := none
  run_level : TaskRunLevel := .limited
  identity : ∀ text ∈ user_id, isSid text || isUid text := by simp
  deriving DecidableEq

/-- `WellKnownSid.LOCAL_SYSTEM.value` -/
def localSystemSid : PyStr := py "S-1-5-18"

/-! ## When it runs -/

/-- An aware `datetime` with a UTC reading, by the fields of that reading. -/
structure Instant where
  year : Nat
  month : Nat
  day : Nat
  hour : Nat
  minute : Nat
  second : Nat
  valid : 1 ≤ year ∧ year ≤ 9999 ∧ 1 ≤ month ∧ month ≤ 12 ∧ 1 ≤ day ∧ day ≤ 31 ∧ hour < 24 ∧
    minute < 60 ∧ second < 60
  deriving DecidableEq

inductive TaskTrigger where
  | once (at_ : Instant)
  | daily (at_ : Instant) (every_days : { n : Nat // 1 ≤ n ∧ n ≤ 365 })
  /-- `delay`: a `timedelta` that is not negative, in microseconds -/
  | boot (delay : Nat)
  | logon (user_id : Option { text : PyStr // isSid text || isUid text })
  deriving DecidableEq

def TaskTrigger.isDaily : TaskTrigger → Bool
  | .daily .. => true
  | _ => false

def TaskTrigger.isBoot : TaskTrigger → Bool
  | .boot _ => true
  | _ => false

/-! ## How it runs -/

inductive TaskMultipleInstances where
  | parallel
  | queue
  | ignoreNew
  | stopExisting
  deriving DecidableEq

def TaskMultipleInstances.value : TaskMultipleInstances → PyStr
  | .parallel => py "Parallel"
  | .queue => py "Queue"
  | .ignoreNew => py "IgnoreNew"
  | .stopExisting => py "StopExisting"

/-- `execution_time_limit` is a whole number of seconds. -/
structure TaskSettings where
  allow_start_if_on_batteries : Option Bool := none
  stop_if_going_on_batteries : Option Bool := none
  execution_time_limit : Option { seconds : Nat // seconds ≤ 2147483647 } := none
  multiple_instances : Option TaskMultipleInstances := none
  allow_hard_terminate : Option Bool := none
  allow_demand_start : Option Bool := none
  deriving DecidableEq

end PwshPy.Systemd
