import PwshPy.Systemd.Bus
import PwshPy.Systemd.TaskNames

/-! # Records of tasks and services

How the reads of one unit become the record of a task or a service: the pure
mappers first, then the reads in the order the code makes them.
-/

namespace PwshPy.Systemd

open Effects (Asking)
open Dbus

/-! ## States of a task -/

inductive TaskState where
  | ready | running | queued | disabled | unknown
  deriving DecidableEq

def timerToTaskState : ActiveState → TaskState
  | .active => .ready
  | .activating => .queued
  | .inactive | .deactivating | .failed => .disabled
  | _ => .unknown

/-- Whether a timer's unit file state counts as enabled. -/
def timerEnabled : UnitFileState → Bool
  | .enabled | .enabledRuntime | .static => true
  | _ => false

def timerTaskState (active_state : ActiveState) (enabled : Bool) : TaskState :=
  if active_state = .inactive ∧ enabled then .ready else timerToTaskState active_state

def serviceTaskState : ActiveState → TaskState
  | .active | .activating => .running
  | _ => .ready

/-! ## Run information -/

/-- `_USEC_INFINITY` -/
def usecInfinity : Nat := 18446744073709551615

/-- The last microsecond of the year 9999, from the epoch. -/
def lastInstant : Nat := 253402300799999999

/-- A timestamp as the microseconds of an aware `datetime`; 0 and infinity are none. -/
def usecToDatetime (value : Nat) : Except PyError (Option Nat) :=
  if value = 0 ∨ value = usecInfinity then .ok none
  else if value ≤ lastInstant then .ok (some value)
  else .error { cls := .overflowError, message := [.text (py "date value out of range")] }

/-- The exit status, 128 and the signal of a killed service, `none` if it never started. -/
def serviceLastResult (exec_code exec_status : Int) (started_usec : Nat) : Option Int :=
  if started_usec = 0 ∨ exec_code = 0 then none
  else some (if exec_code = 1 then exec_status else 128 + exec_status)

def latestUsec (values : List Nat) : Nat :=
  (values.filter fun v => v ≠ 0 ∧ v ≠ usecInfinity).foldl max 0

/-- A `User=` setting as a decimal uid; `resolve` is the account database. -/
def serviceUserId (resolve : PyStr → Option Nat) : Option PyStr → PyStr
  | none => []
  | some configured =>
    if configured.isEmpty then py "0"
    else if isUid configured then configured
    else
      match resolve configured with
      | none => []
      | some uid => decimal uid

def isSystemdTrue (text : PyStr) : Bool :=
  [py "1", py "yes", py "y", py "true", py "t", py "on"].contains (asciiLower text)

/-- Whether a service may start on battery, from its conditions. -/
def batteryStartAllowed : Option (List Condition) → Option Bool
  | none => none
  | some conditions =>
    some (!conditions.any fun c =>
      c.kind = py "ConditionACPower" && !c.trigger && !c.negate && isSystemdTrue c.parameter)

/-- The run limit of a oneshot service, in microseconds. -/
def startTimeLimit (service_type : Option PyStr) (timeout_start_usec : Option Nat) : Option Nat :=
  if service_type ≠ some (py "oneshot") then none
  else timeout_start_usec.map fun usec => if usec = usecInfinity then 0 else usec

/-! ## Records -/

/-- The settings of a task as they are read back. -/
structure EffectiveSettings where
  allow_start_if_on_batteries : Option Bool
  stop_if_going_on_batteries : Option Bool
  /-- a `timedelta`, in microseconds -/
  execution_time_limit : Option Nat
  multiple_instances : Option TaskMultipleInstances
  allow_hard_terminate : Option Bool
  allow_demand_start : Option Bool
  deriving DecidableEq

structure ScheduledTaskInfo where
  task_name : PyStr
  task_path : PyStr
  state : TaskState
  enabled : Bool
  author : PyStr
  description : PyStr
  user_id : PyStr
  run_level : Option TaskRunLevel
  /-- microseconds from the epoch, as are the other times -/
  last_run_time : Option Nat
  last_task_result : Option Int
  next_run_time : Option Nat
  settings : EffectiveSettings
  deriving DecidableEq

/-- A computation that may raise, as a step of a program of reads. -/
def lifted {α : Type} : Except PyError α → Reading α
  | .ok a => return a
  | .error e => .raise e

theorem lifted_stopsAtRefusal {α : Type} (x : Except PyError α) : (lifted x).StopsAtRefusal := by
  cases x <;> trivial

/-- The start timeout, read only where it bounds the run. -/
def oneshotTimeout (service_path : Option PyStr) (service_type : Option PyStr) :
    Reading (Option Nat) :=
  if service_type = some (py "oneshot") then pathProperty service_path .timeoutStartUSec
  else return none

def serviceSettings (service_path : Option PyStr) : Reading EffectiveSettings := do
  let service_type ← pathProperty service_path .type
  let send_sigkill ← pathProperty service_path .sendSIGKILL
  let refuse_manual_start ← pathProperty service_path .refuseManualStart
  let conditions ← pathProperty service_path .conditions
  let timeout ← oneshotTimeout service_path service_type
  return {
    allow_start_if_on_batteries := batteryStartAllowed conditions
    stop_if_going_on_batteries := some false
    execution_time_limit := startTimeLimit service_type timeout
    multiple_instances := none
    allow_hard_terminate := send_sigkill
    allow_demand_start := refuse_manual_start.map (!·) }

/-- A service's last result and its last start (0: none). -/
def serviceRun (service_path : Option PyStr) : Reading (Option Int × Nat) := do
  let started ← pathProperty service_path .execMainStartTimestamp
  let exec_code ← pathProperty service_path .execMainCode
  let exec_status ← pathProperty service_path .execMainStatus
  return (serviceLastResult (exec_code.getD 0) (exec_status.getD 0) (started.getD 0), started.getD 0)

section

variable (resolve : PyStr → Option Nat)

def serviceUser (service_path : Option PyStr) : Reading PyStr := do
  let configured ← pathProperty service_path .user
  return serviceUserId resolve configured

structure RunInfo where
  last_run_time : Option Nat
  last_task_result : Option Int
  next_run_time : Option Nat
  user_id : PyStr
  settings : EffectiveSettings

/-- What a timer task reads from its timer and from the service the timer activates. -/
def timerRunInfo (timer_path : Option PyStr) (base : PyStr) : Reading RunInfo := do
  let service ← pathProperty timer_path .unit
  let service_path ← loadUnitPath (service.getD (base ++ serviceSuffix))
  let (result, started) ← serviceRun service_path
  let last_trigger ← pathProperty timer_path .lastTriggerUSec
  let last_run_time ← lifted (usecToDatetime (latestUsec [last_trigger.getD 0, started]))
  let next_elapse ← pathProperty timer_path .nextElapseUSecRealtime
  let next_run_time ← lifted (usecToDatetime (next_elapse.getD 0))
  let user_id ← serviceUser resolve service_path
  let settings ← serviceSettings service_path
  return { last_run_time, last_task_result := result, next_run_time, user_id, settings }

/-- The two fields `ListUnits` already answers for a loaded timer. -/
structure TimerHeader where
  active_state : ActiveState
  description : PyStr

/-- The record of the timer `name` at its object path. -/
def timerTask (name : PyStr) (path : Option PyStr) (file_state : UnitFileState)
    (header : TimerHeader) : Reading ScheduledTaskInfo := do
  let base := recordName name
  let run ← timerRunInfo resolve path base
  let enabled := timerEnabled file_state
  return {
    task_name := base
    task_path := py "/"
    state := timerTaskState header.active_state enabled
    enabled
    author := []
    description := header.description
    user_id := run.user_id
    run_level := none
    last_run_time := run.last_run_time
    last_task_result := run.last_task_result
    next_run_time := run.next_run_time
    settings := run.settings }

/-- The record of a timer without a `ListUnits` entry: state and description are read too. -/
def timerTaskAt (name : PyStr) (path : Option PyStr) (file_state : UnitFileState) :
    Reading ScheduledTaskInfo := do
  let description ← pathProperty path .description
  let active_state ← pathActiveState path
  timerTask resolve name path file_state ⟨active_state, description.getD []⟩

/-- The record of the on-demand task `base`, from its service. -/
def serviceTask (base : PyStr) (path : Option PyStr) : Reading ScheduledTaskInfo := do
  let (result, started) ← serviceRun path
  let active_state ← pathActiveState path
  let description ← pathProperty path .description
  let user_id ← serviceUser resolve path
  let last_run_time ← lifted (usecToDatetime started)
  let settings ← serviceSettings path
  return {
    task_name := base
    task_path := py "/"
    state := serviceTaskState active_state
    enabled := true
    author := []
    description := description.getD []
    user_id
    run_level := none
    last_run_time
    last_task_result := result
    next_run_time := none
    settings }

end

/-! ## Services -/

inductive ServiceState where
  | stopped | startPending | stopPending | running | continuePending
  deriving DecidableEq

inductive ServiceStartType where
  | automatic | manual | disabled
  deriving DecidableEq

def toServiceState : ActiveState → ServiceState
  | .active => .running
  | .activating => .startPending
  | .deactivating => .stopPending
  | .reloading => .continuePending
  | _ => .stopped

def toStartType : UnitFileState → Option ServiceStartType
  | .enabled | .enabledRuntime => some .automatic
  | .disabled | .masked | .maskedRuntime => some .disabled
  | .static | .indirect | .generated | .transient | .linked | .linkedRuntime => some .manual
  | _ => none

structure ServiceInfo where
  name : PyStr
  display_name : PyStr
  status : ServiceState
  start_type : Option ServiceStartType
  can_stop : Bool
  can_pause_continue : Bool
  deriving DecidableEq

def startTypeOf (name : PyStr) : Reading (Option ServiceStartType) := do
  let state ← unitFileState name
  return state.bind toStartType

def serviceRecord (name : PyStr) (path : Option PyStr) (active_state : ActiveState)
    (start_type : Option ServiceStartType) : Reading ServiceInfo := do
  let description ← pathProperty path .description
  return {
    name
    display_name := description.getD []
    status := toServiceState active_state
    start_type
    can_stop := true
    can_pause_continue := false }

def serviceAt (name path : PyStr) (start_type : Option ServiceStartType) : Reading ServiceInfo := do
  let active_state ← pathActiveState (some path)
  serviceRecord name (some path) active_state start_type

/-! ## No record rests on a refused read -/

theorem oneshotTimeout_stopsAtRefusal (path service_type : Option PyStr) :
    (oneshotTimeout path service_type).StopsAtRefusal := by
  rw [oneshotTimeout]
  split
  · exact pathProperty_stopsAtRefusal path .timeoutStartUSec
  · exact Asking.StopsAtRefusal.pure _

theorem serviceSettings_stopsAtRefusal (path : Option PyStr) :
    (serviceSettings path).StopsAtRefusal := by
  apply (pathProperty_stopsAtRefusal path .type).bind
  intro service_type
  apply (pathProperty_stopsAtRefusal path .sendSIGKILL).bind
  intro send_sigkill
  apply (pathProperty_stopsAtRefusal path .refuseManualStart).bind
  intro refuse_manual_start
  apply (pathProperty_stopsAtRefusal path .conditions).bind
  intro conditions
  apply (oneshotTimeout_stopsAtRefusal path service_type).bind
  intro timeout
  exact Asking.StopsAtRefusal.pure _

theorem serviceRun_stopsAtRefusal (path : Option PyStr) : (serviceRun path).StopsAtRefusal := by
  apply (pathProperty_stopsAtRefusal path .execMainStartTimestamp).bind
  intro started
  apply (pathProperty_stopsAtRefusal path .execMainCode).bind
  intro exec_code
  apply (pathProperty_stopsAtRefusal path .execMainStatus).bind
  intro exec_status
  exact Asking.StopsAtRefusal.pure _

section

variable (resolve : PyStr → Option Nat)

theorem serviceUser_stopsAtRefusal (path : Option PyStr) :
    (serviceUser resolve path).StopsAtRefusal :=
  (pathProperty_stopsAtRefusal path .user).bind fun _ => Asking.StopsAtRefusal.pure _

theorem timerRunInfo_stopsAtRefusal (path : Option PyStr) (base : PyStr) :
    (timerRunInfo resolve path base).StopsAtRefusal := by
  apply (pathProperty_stopsAtRefusal path .unit).bind
  intro service
  apply (loadUnitPath_stopsAtRefusal _).bind
  intro service_path
  apply (serviceRun_stopsAtRefusal service_path).bind
  intro run
  apply (pathProperty_stopsAtRefusal path .lastTriggerUSec).bind
  intro last_trigger
  apply (lifted_stopsAtRefusal _).bind
  intro last_run_time
  apply (pathProperty_stopsAtRefusal path .nextElapseUSecRealtime).bind
  intro next_elapse
  apply (lifted_stopsAtRefusal _).bind
  intro next_run_time
  apply (serviceUser_stopsAtRefusal resolve service_path).bind
  intro user_id
  apply (serviceSettings_stopsAtRefusal service_path).bind
  intro settings
  exact Asking.StopsAtRefusal.pure _

theorem timerTask_stopsAtRefusal (name : PyStr) (path : Option PyStr) (file_state : UnitFileState)
    (header : TimerHeader) : (timerTask resolve name path file_state header).StopsAtRefusal :=
  (timerRunInfo_stopsAtRefusal resolve path _).bind fun _ => Asking.StopsAtRefusal.pure _

theorem timerTaskAt_stopsAtRefusal (name : PyStr) (path : Option PyStr)
    (file_state : UnitFileState) : (timerTaskAt resolve name path file_state).StopsAtRefusal := by
  apply (pathProperty_stopsAtRefusal path .description).bind
  intro description
  apply (pathActiveState_stopsAtRefusal path).bind
  intro active_state
  exact timerTask_stopsAtRefusal resolve name path file_state _

theorem serviceTask_stopsAtRefusal (base : PyStr) (path : Option PyStr) :
    (serviceTask resolve base path).StopsAtRefusal := by
  apply (serviceRun_stopsAtRefusal path).bind
  intro run
  apply (pathActiveState_stopsAtRefusal path).bind
  intro active_state
  apply (pathProperty_stopsAtRefusal path .description).bind
  intro description
  apply (serviceUser_stopsAtRefusal resolve path).bind
  intro user_id
  apply (lifted_stopsAtRefusal _).bind
  intro last_run_time
  apply (serviceSettings_stopsAtRefusal path).bind
  intro settings
  exact Asking.StopsAtRefusal.pure _

end

theorem startTypeOf_stopsAtRefusal (name : PyStr) : (startTypeOf name).StopsAtRefusal :=
  (unitFileState_stopsAtRefusal name).bind fun _ => Asking.StopsAtRefusal.pure _

theorem serviceAt_stopsAtRefusal (name path : PyStr) (start_type : Option ServiceStartType) :
    (serviceAt name path start_type).StopsAtRefusal := by
  apply (pathActiveState_stopsAtRefusal (some path)).bind
  intro active_state
  exact (pathProperty_stopsAtRefusal (some path) .description).bind fun _ =>
    Asking.StopsAtRefusal.pure _

end PwshPy.Systemd
