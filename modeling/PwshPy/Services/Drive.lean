import Mathlib.Order.Lattice
import Mathlib.Order.Monotone.Basic
import PwshPy.Text.Errors

/-! # Driving a Windows service

A start or a stop looks at the service, waits until a foreign pending state is
over, sends its control and waits for the target. The service changes state on
its own between any two looks, so what a query answers, what the clock reads and
whether the control is accepted are open: a call is a run against any sequence
of answers.
-/

namespace PwshPy.Services

/-! ## The decision -/

/-- A win32 `SERVICE_*` state id. -/
abbrev ServiceState := Int

def SERVICE_STOPPED : ServiceState := 1
def SERVICE_START_PENDING : ServiceState := 2
def SERVICE_STOP_PENDING : ServiceState := 3
def SERVICE_RUNNING : ServiceState := 4
def SERVICE_CONTINUE_PENDING : ServiceState := 5
def SERVICE_PAUSE_PENDING : ServiceState := 6

/-- `_PENDING_STATES` -/
def PENDING_STATES : List ServiceState :=
  [SERVICE_START_PENDING, SERVICE_STOP_PENDING, SERVICE_CONTINUE_PENDING, SERVICE_PAUSE_PENDING]

inductive ControlStep where
  | done
  | await_target
  | settle_first
  | issue
  deriving DecidableEq

def next_control_step (state target target_pending : ServiceState) : ControlStep :=
  if state = target then .done
  else if state = target_pending then .await_target
  else if state ∈ PENDING_STATES then .settle_first
  else .issue

/-- The two transitions a call can drive, `_Control` without its callback. -/
inductive Control where
  | start
  | stop
  deriving DecidableEq

namespace Control

def target : Control → ServiceState
  | start => SERVICE_RUNNING
  | stop => SERVICE_STOPPED

def target_pending : Control → ServiceState
  | start => SERVICE_START_PENDING
  | stop => SERVICE_STOP_PENDING

def step_in (control : Control) (state : ServiceState) : ControlStep :=
  next_control_step state control.target control.target_pending

variable {control : Control} {state : ServiceState}

theorem step_in_done : control.step_in state = .done ↔ state = control.target := by
  have hpending : control.target_pending ≠ control.target := by cases control <;> decide
  unfold step_in next_control_step
  split
  · simp [*]
  · split
    · simp [*]
    · split <;> simp [*]

/-- The control is sent from a settled state other than the target, and only there. -/
theorem step_in_issue :
    control.step_in state = .issue ↔ state ∉ PENDING_STATES ∧ state ≠ control.target := by
  have hpending : control.target_pending ∈ PENDING_STATES := by cases control <;> decide
  unfold step_in next_control_step
  split
  · simp [*]
  · split
    · rename_i _ h
      simp [h, hpending]
    · split <;> simp [*]

/-- A settled state leaves nothing to wait for before the decision. -/
theorem step_in_settled (h : state ∉ PENDING_STATES) :
    control.step_in state = .done ∨ control.step_in state = .issue := by
  by_cases htarget : state = control.target
  · exact Or.inl (step_in_done.mpr htarget)
  · exact Or.inr (step_in_issue.mpr ⟨h, htarget⟩)

end Control

/-! ## The outside -/

/-- What the outside answers: the `n`-th query of the service's state, the
`n`-th reading of the clock, and a control. -/
structure Outside (τ : Type) where
  states : Nat → Except PyError ServiceState
  clock : Nat → τ
  control : Except PyError Unit

inductive Event (τ : Type) where
  | queried (state : ServiceState)
  | query_failed
  | read (time : τ)
  | slept
  | sent

/-- How far a call is: the queries and readings it made, and its events, the latest first. -/
structure Progress (τ : Type) where
  queries : Nat
  readings : Nat
  log : List (Event τ)

/-- Why an `OperationTimeoutError` was raised. -/
inductive Expired where
  /-- `service did not reach state {target} within {timeout}s` -/
  | not_reached (target : ServiceState)
  /-- `service still in pending state {state} after {timeout}s; no control sent` -/
  | still_pending (state : ServiceState)
  deriving DecidableEq

inductive Raised (τ : Type) where
  | native (e : PyError)
  | operation_timeout (why : Expired) (timeout : τ)

/-- How a call stands after the polling rounds it was given. -/
inductive Ending (τ α : Type) where
  | returned (value : α)
  | raised (e : Raised τ)
  | running

variable {τ : Type}

/-- The state observed last. -/
def observed : List (Event τ) → Option ServiceState
  | [] => none
  | .queried state :: _ => some state
  | _ :: earlier => observed earlier

def isSent : Event τ → Bool
  | .sent => true
  | _ => false

/-! ## The calls -/

/-- `_current_state` -/
def current_state (outside : Outside τ) (p : Progress τ) :
    Except PyError ServiceState × Progress τ :=
  match outside.states p.queries with
  | .ok state =>
      (.ok state, { p with queries := p.queries + 1, log := .queried state :: p.log })
  | .error e => (.error e, { p with queries := p.queries + 1, log := .query_failed :: p.log })

def monotonic (outside : Outside τ) (p : Progress τ) : τ × Progress τ :=
  let time := outside.clock p.readings
  (time, { p with readings := p.readings + 1, log := .read time :: p.log })

def sleep (p : Progress τ) : Progress τ := { p with log := .slept :: p.log }

/-- `control.issue()` -/
def issue (outside : Outside τ) (p : Progress τ) : Except PyError Unit × Progress τ :=
  (outside.control, { p with log := .sent :: p.log })

structure Deadline (τ : Type) where
  ends : τ
  timeout : τ

def Deadline.after [Add τ] (outside : Outside τ) (timeout : τ) (p : Progress τ) :
    Deadline τ × Progress τ :=
  let (now, p) := monotonic outside p
  ({ ends := now + timeout, timeout }, p)

variable [LinearOrder τ]

def Deadline.passed (outside : Outside τ) (deadline : Deadline τ) (p : Progress τ) :
    Bool × Progress τ :=
  let (now, p) := monotonic outside p
  (decide (deadline.ends ≤ now), p)

/-- `_wait_for_state`, for the given number of polling rounds. -/
def wait_for_state (outside : Outside τ) (deadline : Deadline τ) (target : ServiceState) :
    Nat → Progress τ → Ending τ Unit × Progress τ
  | 0, p => (.running, p)
  | rounds + 1, p =>
      match current_state outside p with
      | (.error e, p) => (.raised (.native e), p)
      | (.ok state, p) =>
          if state = target then (.returned (), p)
          else
            match deadline.passed outside p with
            | (true, p) => (.raised (.operation_timeout (.not_reached target) deadline.timeout), p)
            | (false, p) => wait_for_state outside deadline target rounds (sleep p)

/-- `_wait_until_settled`, for the given number of polling rounds. -/
def wait_until_settled (outside : Outside τ) (deadline : Deadline τ) :
    Nat → Progress τ → Ending τ ServiceState × Progress τ
  | 0, p => (.running, p)
  | rounds + 1, p =>
      match current_state outside p with
      | (.error e, p) => (.raised (.native e), p)
      | (.ok state, p) =>
          if state ∈ PENDING_STATES then
            match deadline.passed outside p with
            | (true, p) => (.raised (.operation_timeout (.still_pending state) deadline.timeout), p)
            | (false, p) => wait_until_settled outside deadline rounds (sleep p)
          else (.returned state, p)

/-- The end of `_drive`, once the step is decided. -/
def carry_out (outside : Outside τ) (deadline : Deadline τ) (control : Control) (wait : Bool)
    (rounds : Nat) (step : ControlStep) (p : Progress τ) : Ending τ Unit × Progress τ :=
  match (if step = .issue then issue outside p else (.ok (), p)) with
  | (.error e, p) => (.raised (.native e), p)
  | (.ok (), p) =>
      if wait ∧ step ≠ .done then wait_for_state outside deadline control.target rounds p
      else (.returned (), p)

/-- `_drive`, each of its two loops for the given number of rounds. -/
def drive (outside : Outside τ) (deadline : Deadline τ) (control : Control) (wait : Bool)
    (rounds : Nat) (p : Progress τ) : Ending τ Unit × Progress τ :=
  match current_state outside p with
  | (.error e, p) => (.raised (.native e), p)
  | (.ok state, p) =>
      if control.step_in state = .settle_first then
        match wait_until_settled outside deadline rounds p with
        | (.returned state, p) =>
            carry_out outside deadline control wait rounds (control.step_in state) p
        | (.raised e, p) => (.raised e, p)
        | (.running, p) => (.running, p)
      else carry_out outside deadline control wait rounds (control.step_in state) p

/-- What `start` and `stop` do with the opened service. -/
def control_service [Add τ] (outside : Outside τ) (control : Control) (timeout : τ) (wait : Bool)
    (rounds : Nat) : Ending τ Unit × Progress τ :=
  let (deadline, p) := Deadline.after outside timeout { queries := 0, readings := 0, log := [] }
  drive outside deadline control wait rounds p

/-! ## What polling leaves behind -/

/-- The clock reading the call made last is at or behind the deadline. -/
def Late (outside : Outside τ) (deadline : Deadline τ) (p : Progress τ) : Prop :=
  ∃ n, p.readings = n + 1 ∧ deadline.ends ≤ outside.clock n

/-- The call went on, and sent nothing. -/
def Polls (p p' : Progress τ) : Prop :=
  ∃ new, p'.log = new ++ p.log ∧ new.countP isSent = 0

omit [LinearOrder τ] in
theorem Polls.refl (p : Progress τ) : Polls p p := ⟨[], rfl, rfl⟩

omit [LinearOrder τ] in
theorem Polls.trans {p q r : Progress τ} (h : Polls p q) (h' : Polls q r) : Polls p r := by
  obtain ⟨new, hq, hnew⟩ := h
  obtain ⟨new', hr, hnew'⟩ := h'
  exact ⟨new' ++ new, by rw [hr, hq, List.append_assoc], by rw [List.countP_append, hnew, hnew']⟩

omit [LinearOrder τ] in
theorem Polls.one {p p' : Progress τ} {e : Event τ} (h : p'.log = e :: p.log)
    (he : isSent e = false) : Polls p p' :=
  ⟨[e], h, by simp [he]⟩

omit [LinearOrder τ] in
theorem current_state_ok {outside : Outside τ} {p p' : Progress τ} {state : ServiceState}
    (h : current_state outside p = (.ok state, p')) :
    Polls p p' ∧ observed p'.log = some state := by
  unfold current_state at h
  cases hs : outside.states p.queries with
  | error e => simp [hs] at h
  | ok found =>
      simp only [hs, Prod.mk.injEq, Except.ok.injEq] at h
      obtain ⟨rfl, rfl⟩ := h
      exact ⟨.one rfl rfl, rfl⟩

omit [LinearOrder τ] in
theorem current_state_error {outside : Outside τ} {p p' : Progress τ} {e : PyError}
    (h : current_state outside p = (.error e, p')) : Polls p p' := by
  unfold current_state at h
  cases hs : outside.states p.queries with
  | ok found => simp [hs] at h
  | error found =>
      simp only [hs, Prod.mk.injEq] at h
      obtain ⟨-, rfl⟩ := h
      exact .one rfl rfl

theorem passed_spec {outside : Outside τ} {deadline : Deadline τ} {p p' : Progress τ} {b : Bool}
    (h : deadline.passed outside p = (b, p')) :
    Polls p p' ∧ (b = true → Late outside deadline p') := by
  simp only [Deadline.passed, monotonic, Prod.mk.injEq] at h
  obtain ⟨rfl, rfl⟩ := h
  refine ⟨.one rfl rfl, ?_⟩
  intro hlate
  exact ⟨p.readings, rfl, of_decide_eq_true hlate⟩

/-- What both polling loops keep: they send nothing, and they expire only late. -/
structure PollsUntil (outside : Outside τ) (deadline : Deadline τ) {α : Type}
    (p : Progress τ) (out : Ending τ α × Progress τ) : Prop where
  polls : Polls p out.2
  expires_late : ∀ why timeout, out.1 = .raised (.operation_timeout why timeout) →
    Late outside deadline out.2

theorem wait_for_state_spec (outside : Outside τ) (deadline : Deadline τ) (target : ServiceState)
    (rounds : Nat) (p : Progress τ) :
    let out := wait_for_state outside deadline target rounds p
    PollsUntil outside deadline p out ∧
      (out.1 = .returned () → observed out.2.log = some target) ∧
      ∀ why timeout, out.1 = .raised (.operation_timeout why timeout) → why = .not_reached target := by
  induction rounds generalizing p with
  | zero => exact ⟨⟨.refl p, by simp [wait_for_state]⟩, by simp [wait_for_state]⟩
  | succ rounds ih =>
      cases hq : current_state outside p with
      | mk answer q =>
          cases answer with
          | error e =>
              simp only [wait_for_state, hq]
              exact ⟨⟨current_state_error hq, by simp⟩, by simp⟩
          | ok state =>
              obtain ⟨hpolls, hobserved⟩ := current_state_ok hq
              by_cases hstate : state = target
              · simp only [wait_for_state, hq, if_pos hstate]
                exact ⟨⟨hpolls, by simp⟩, by simp [hobserved, hstate]⟩
              · cases hp : deadline.passed outside q with
                | mk passed r =>
                    obtain ⟨hread, hlate⟩ := passed_spec hp
                    cases passed with
                    | true =>
                        simp only [wait_for_state, hq, if_neg hstate, hp]
                        refine ⟨⟨hpolls.trans hread, ?_⟩, by simp, ?_⟩
                        · intro _ _ _
                          exact hlate rfl
                        · simp
                    | false =>
                        simp only [wait_for_state, hq, if_neg hstate, hp]
                        obtain ⟨hrest, htarget, hwhy⟩ := ih (sleep r)
                        have hslept : Polls r (sleep r) := .one rfl rfl
                        exact ⟨⟨((hpolls.trans hread).trans hslept).trans hrest.polls,
                          hrest.expires_late⟩, htarget, hwhy⟩

theorem wait_until_settled_spec (outside : Outside τ) (deadline : Deadline τ) (rounds : Nat)
    (p : Progress τ) :
    let out := wait_until_settled outside deadline rounds p
    PollsUntil outside deadline p out ∧
      ∀ state, out.1 = .returned state →
        observed out.2.log = some state ∧ state ∉ PENDING_STATES := by
  induction rounds generalizing p with
  | zero => exact ⟨⟨.refl p, by simp [wait_until_settled]⟩, by simp [wait_until_settled]⟩
  | succ rounds ih =>
      cases hq : current_state outside p with
      | mk answer q =>
          cases answer with
          | error e =>
              simp only [wait_until_settled, hq]
              exact ⟨⟨current_state_error hq, by simp⟩, by simp⟩
          | ok state =>
              obtain ⟨hpolls, hobserved⟩ := current_state_ok hq
              by_cases hstate : state ∈ PENDING_STATES
              · cases hp : deadline.passed outside q with
                | mk passed r =>
                    obtain ⟨hread, hlate⟩ := passed_spec hp
                    cases passed with
                    | true =>
                        simp only [wait_until_settled, hq, if_pos hstate, hp]
                        refine ⟨⟨hpolls.trans hread, ?_⟩, by simp⟩
                        intro _ _ _
                        exact hlate rfl
                    | false =>
                        simp only [wait_until_settled, hq, if_pos hstate, hp]
                        obtain ⟨hrest, hsettled⟩ := ih (sleep r)
                        have hslept : Polls r (sleep r) := .one rfl rfl
                        exact ⟨⟨((hpolls.trans hread).trans hslept).trans hrest.polls,
                          hrest.expires_late⟩, hsettled⟩
              · simp only [wait_until_settled, hq, if_neg hstate]
                refine ⟨⟨hpolls, by simp⟩, ?_⟩
                intro found hfound
                obtain rfl : state = found := by simpa using hfound
                exact ⟨hobserved, hstate⟩

end PwshPy.Services
