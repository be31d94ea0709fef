import Mathlib.Order.Lattice
import PwshPy.Effects.Dialogue
import PwshPy.Systemd.Listing

/-! # Starting, stopping and restarting a unit

A verb queues a job and polls until the unit has settled. The unit changes state
and unloads on its own between any two calls, each of which systemd may refuse,
and what the clock reads is open: a verb is a program, and any dialogue of it may
happen.
-/

namespace PwshPy.Systemd

open Effects (Asking)
open Dbus

/-! ## Questions -/

/-- `_Job` -/
inductive Job where
  | start
  | stop
  | restart
  deriving DecidableEq

def Job.value : Job → PyStr
  | start => py "StartUnit"
  | stop => py "StopUnit"
  | restart => py "RestartUnit"

/-- A value of `Unit.Job`. -/
inductive JobValue where
  /-- no tuple, or an empty one -/
  | other
  /-- a tuple, by the number its first item is, if it is one -/
  | tuple (first : Option Int)
  deriving DecidableEq

inductive Question where
  | openBus
  | job (job : Job) (name : PyStr)
  | getUnit (name : PyStr)
  | getJob (path : PyStr)
  | getResult (path : PyStr)
  | read (read : Read)
  | monotonic
  | sleep
  | close

/-- The replies, with times in `τ`. -/
@[reducible] def Question.Reply (τ : Type) : Question → Type
  /- the text of the `OSError` -/
  | .openBus => Except PyStr Unit
  | .job _ _ => Except DbusError Unit
  | .getUnit _ => Except DbusError PyStr
  | .getJob _ => Except DbusError JobValue
  /- `none` for a value that is no text -/
  | .getResult _ => Except DbusError (Option PyStr)
  | .read r => r.Reply
  | .monotonic => τ
  | .sleep | .close => Unit

/-- Why a verb did not return. -/
inductive Stopped (τ : Type) where
  | raised (e : PyError)
  /-- `unit {name!r} did not settle within {timeout}s` -/
  | operationTimeout (name : PyStr) (timeout : τ)
  /-- It polls on behind the rounds it was given. -/
  | running

variable {τ : Type}

abbrev Program (τ α : Type) := Asking Question (Question.Reply τ) (Stopped τ) α

def answerTo (question : Question) : Program τ (question.Reply τ) := Asking.question question

/-! ## Reads that decide -/

/-- A call whose error reply is raised. -/
def asked {α : Type} (what : PyStr) : Except DbusError α → Program τ α
  | .ok value => return value
  | .error error => .raise (.raised (replyError what error))

/-- `unit_path` -/
def unitPath (name : PyStr) : Program τ (Option PyStr) := do
  match ← answerTo (.getUnit name) with
  | .ok path => return some path
  | .error error =>
    if error.name = noSuchUnit then return none
    else .raise (.raised (replyError (py "systemd GetUnit") error))

/-- What a failed read of a property is called. -/
def getText (property path : PyStr) : PyStr :=
  py "systemd Get " ++ property ++ py " of " ++ path

/-- `live_active_state` -/
def liveActiveState : Option PyStr → Program τ ActiveState
  | none => return .inactive
  | some path => do
    let reply ← answerTo (.read (.get path .activeState))
    let value ← asked (getText (py "ActiveState") path) reply
    return .parse value

def activeState (name : PyStr) : Program τ ActiveState := do
  liveActiveState (← unitPath name)

/-- Whether a value of `Job` is that of a pending job. -/
def JobValue.pending : JobValue → Program τ Bool
  | .other => return false
  | .tuple (some first) => return first ≠ 0
  | .tuple none => .raise (.raised (valueError [.exc 0]))

def hasPendingJob (name : PyStr) : Program τ Bool := do
  match ← unitPath name with
  | none => return false
  | some path =>
    let reply ← answerTo (.getJob path)
    let job ← asked (getText (py "Job") path) reply
    job.pending

/-! ## The wait -/

/-- `_STOPPED_STATES` -/
def ActiveState.isStopped : ActiveState → Bool
  | .inactive | .failed => true
  | _ => false

/-- `_is_settled`; a stop has `_STOPPED_STATES` for its settled states, the others none. -/
def isSettled (name : PyStr) (stopping : Bool) : Program τ Bool := do
  if !(← hasPendingJob name) then return true
  else if stopping then return (← activeState name).isStopped
  else return false

section

variable [LinearOrder τ]

/-- The loop of `_wait_until_settled`, for so many rounds. -/
def pollUntilSettled (name : PyStr) (stopping : Bool) (timeout deadline : τ) :
    Nat → Program τ Unit
  | 0 => .raise .running
  | rounds + 1 => do
    if ← isSettled name stopping then return ()
    else
      let now ← answerTo .monotonic
      if deadline ≤ now then .raise (.operationTimeout name timeout)
      else
        answerTo .sleep
        pollUntilSettled name stopping timeout deadline rounds

/-- `_wait_until_settled` -/
def waitUntilSettled [Add τ] (name : PyStr) (stopping : Bool) (timeout : τ) (rounds : Nat) :
    Program τ Unit := do
  let now ← answerTo .monotonic
  pollUntilSettled name stopping timeout (now + timeout) rounds

end

/-! ## What follows the wait -/

/-- `unit_property` for `Service.Result`; `none` for the default and for a value that is no text. -/
def unitResult (name : PyStr) : Program τ (Option PyStr) := do
  match ← unitPath name with
  | none => return none
  | some path =>
    match ← answerTo (.getResult path) with
    | .ok value => return value
    | .error error =>
      if error.isDenied then .raise (.raised (replyError (getText (py "Result") path) error))
      else return none

/-- The error about a unit that settled at `failed`. -/
def failedUnit (name : PyStr) (result : Option PyStr) : PyError :=
  let reason := match result with
    | some result => if result.isEmpty then [] else py " (Result=" ++ result ++ py ")"
    | none => []
  nativeCallError [.text (py "unit "), .repr name,
    .text (py " failed" ++ reason ++
      py ": systemd ended its job with the unit in the failed state.")]

/-- `except NativeCallError: result = None` -/
def resultUnread : Stopped τ → Program τ (Option PyStr)
  | .raised e => if isNativeCallError e then return none else .raise (.raised e)
  | other => .raise other

/-- `_refuse_a_failed_unit` -/
def refuseAFailedUnit (name : PyStr) : Program τ Unit := do
  if (← activeState name) ≠ .failed then return ()
  else
    let result ← (unitResult name).handling resultUnread
    .raise (.raised (failedUnit name result))

/-- A program of reads as part of a verb. -/
def reading {α : Type} (x : Reading α) : Program τ α :=
  x.lift Question.read (fun _ reply => reply) Stopped.raised

/-- `_get_one` -/
def getOne (name : PyStr) : Program τ ServiceInfo := do
  let path ← reading (loadUnitPath name)
  let active_state ← match path with
    | none => activeState name
    | some path => liveActiveState (some path)
  let start_type ← reading (startTypeOf name)
  reading (serviceRecord name path active_state start_type)

/-! ## The verbs -/

/-- `try: … finally: bus.conn.close()` behind `open_bus()`. -/
def withBus {α : Type} (body : Program τ α) : Program τ α := do
  match ← answerTo .openBus with
  | .error text =>
    .raise (.raised (nativeCallError [.text (py "cannot connect to the system D-Bus: " ++ text)]))
  | .ok () =>
    match ← body.caught with
    | .error .running => .raise .running
    | ending =>
      answerTo .close
      .done ending

section

variable [LinearOrder τ] [Add τ]

/-- The `try` block of `_transition`, polling for so many rounds. -/
def carryOut (name : PyStr) (job : Job) (timeout : τ) (wait : Bool) (rounds : Nat) :
    Program τ ServiceInfo := do
  let reply ← answerTo (.job job name)
  asked (py "systemd " ++ job.value) reply
  if wait then
    waitUntilSettled name (job = .stop) timeout rounds
    if job ≠ .stop then refuseAFailedUnit name
  getOne name

/-- `_transition` -/
def transition (name : PyStr) (job : Job) (timeout : τ) (wait : Bool) (rounds : Nat) :
    Program τ ServiceInfo :=
  withBus (carryOut name job timeout wait rounds)

/-- The verbs of `SystemdServiceController` that change a unit's state. -/
inductive ServiceVerb where
  | start
  | stop (wait : Bool)
  | restart

def ServiceVerb.job : ServiceVerb → Job
  | start => .start
  | stop _ => .stop
  | restart => .restart

def ServiceVerb.waits : ServiceVerb → Bool
  | stop wait => wait
  | _ => true

def ServiceVerb.run (verb : ServiceVerb) (name : PyStr) (timeout : τ) (rounds : Nat) :
    Program τ ServiceInfo :=
  transition name verb.job timeout verb.waits rounds

end

end PwshPy.Systemd
