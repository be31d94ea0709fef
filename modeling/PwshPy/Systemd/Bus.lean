import PwshPy.Effects.Asking
import PwshPy.Systemd.Controller

/-! # Reading units over the system bus

`systemd_dbus.py`: the states of units, the two listing calls and the reads of
one unit. A read is a question whose reply is a value of the type systemd
declares for it, or a D-Bus error with its name.
-/

namespace PwshPy.Systemd

open Effects (Asking)

/-! ## States -/

inductive LoadState where
  | stub | loaded | notFound | badSetting | error | merged | masked | unknown
  deriving DecidableEq

/-- A value the list does not name reads as `unknown`. -/
def LoadState.parse (value : PyStr) : LoadState :=
  if value = py "stub" then .stub
  else if value = py "loaded" then .loaded
  else if value = py "not-found" then .notFound
  else if value = py "bad-setting" then .badSetting
  else if value = py "error" then .error
  else if value = py "merged" then .merged
  else if value = py "masked" then .masked
  else .unknown

inductive ActiveState where
  | active | reloading | inactive | failed | activating | deactivating | maintenance | refreshing
  | unknown
  deriving DecidableEq

def ActiveState.parse (value : PyStr) : ActiveState :=
  if value = py "active" then .active
  else if value = py "reloading" then .reloading
  else if value = py "inactive" then .inactive
  else if value = py "failed" then .failed
  else if value = py "activating" then .activating
  else if value = py "deactivating" then .deactivating
  else if value = py "maintenance" then .maintenance
  else if value = py "refreshing" then .refreshing
  else .unknown

def UnitFileState.parse (value : PyStr) : UnitFileState :=
  if value = py "enabled" then .enabled
  else if value = py "enabled-runtime" then .enabledRuntime
  else if value = py "linked" then .linked
  else if value = py "linked-runtime" then .linkedRuntime
  else if value = py "alias" then .alias
  else if value = py "masked" then .masked
  else if value = py "masked-runtime" then .maskedRuntime
  else if value = py "static" then .static
  else if value = py "indirect" then .indirect
  else if value = py "disabled" then .disabled
  else if value = py "generated" then .generated
  else if value = py "transient" then .transient
  else if value = py "bad" then .bad
  else if value = [] then .empty
  else .unknown

/-- `UNLISTED_LOAD_STATES` -/
def LoadState.isUnlisted : LoadState → Bool
  | .notFound | .masked => true
  | _ => false

/-- `RUNNING_ACTIVE_STATES` -/
def ActiveState.isRunning : ActiveState → Bool
  | .active | .activating | .deactivating | .reloading => true
  | _ => false

/-- `UNLISTED_FILE_STATES` -/
def UnitFileState.isUnlisted : UnitFileState → Bool
  | .masked | .maskedRuntime | .alias => true
  | _ => false

/-- Whether a unit is no unit to list: not found or masked, and not running. -/
def isUnlistedUnit (load_state : LoadState) (active_state : ActiveState) : Bool :=
  load_state.isUnlisted && !active_state.isRunning

namespace Dbus

/-! ## Questions -/

/-- One entry of `Conditions`: `(sbbsi)`. -/
structure Condition where
  kind : PyStr
  trigger : Bool
  negate : Bool
  parameter : PyStr
  state : Int

/-- The properties that are read. -/
inductive Property where
  | id | loadState | activeState | description | fragmentPath | conditions | refuseManualStart
  | unit | lastTriggerUSec | nextElapseUSecRealtime
  | execMainStartTimestamp | execMainCode | execMainStatus | user | type | timeoutStartUSec
  | sendSIGKILL
  deriving DecidableEq

def Property.name : Property → PyStr
  | .id => py "Id"
  | .loadState => py "LoadState"
  | .activeState => py "ActiveState"
  | .description => py "Description"
  | .fragmentPath => py "FragmentPath"
  | .conditions => py "Conditions"
  | .refuseManualStart => py "RefuseManualStart"
  | .unit => py "Unit"
  | .lastTriggerUSec => py "LastTriggerUSec"
  | .nextElapseUSecRealtime => py "NextElapseUSecRealtime"
  | .execMainStartTimestamp => py "ExecMainStartTimestamp"
  | .execMainCode => py "ExecMainCode"
  | .execMainStatus => py "ExecMainStatus"
  | .user => py "User"
  | .type => py "Type"
  | .timeoutStartUSec => py "TimeoutStartUSec"
  | .sendSIGKILL => py "SendSIGKILL"

/-- The type systemd declares: `s`, `a(sbbsi)`, `b`, `t` or `i`. -/
@[reducible] def Property.Value : Property → Type
  | .id | .loadState | .activeState | .description | .fragmentPath | .unit | .user | .type => PyStr
  | .conditions => List Condition
  | .refuseManualStart | .sendSIGKILL => Bool
  | .lastTriggerUSec | .nextElapseUSecRealtime | .execMainStartTimestamp | .timeoutStartUSec => Nat
  | .execMainCode | .execMainStatus => Int

/-- A read of one unit. -/
inductive Read where
  | loadUnit (name : PyStr)
  | getUnitFileState (name : PyStr)
  | get (path : PyStr) (property : Property)
  deriving DecidableEq

/-- `LoadUnit` replies with an object path, `GetUnitFileState` with a state. -/
@[reducible] def Read.Value : Read → Type
  | .loadUnit _ | .getUnitFileState _ => PyStr
  | .get _ property => property.Value

/-- An error reply: its name (empty for none) and its text. -/
structure DbusError where
  name : PyStr
  text : PyStr

abbrev Read.Reply (read : Read) : Type := Except DbusError read.Value

/-- `_DENIED_ERROR_NAMES` -/
def deniedErrorNames : List PyStr :=
  [py "org.freedesktop.DBus.Error.AccessDenied",
    py "org.freedesktop.DBus.Error.InteractiveAuthorizationRequired"]

def DbusError.isDenied (error : DbusError) : Bool := deniedErrorNames.contains error.name

/-- A read systemd refused. -/
def Read.Refused (read : Read) (reply : read.Reply) : Prop :=
  ∃ error : DbusError, reply = .error error ∧ error.isDenied = true

/-- The exception of a refusal. -/
def IsDenial (e : PyError) : Prop := e.cls = .nativeAccessDeniedError

/-- `reply_error` -/
def replyError (what : PyStr) (error : DbusError) : PyError :=
  { cls := if error.isDenied then .nativeAccessDeniedError else .nativeCallError
    message := [.text (what ++ py " failed: " ++
      (if error.name.isEmpty then [] else error.name ++ py ": ") ++ error.text)]
    dbus_error_name := if error.name.isEmpty then none else some error.name }

theorem replyError_denied {what : PyStr} {error : DbusError} (h : error.isDenied = true) :
    IsDenial (replyError what error) := by
  simp [IsDenial, replyError, h]

/-! ## Programs of reads -/

abbrev Reading (α : Type) := Asking Read Read.Reply PyError α

/-- Every read a program is refused ends it with a denial. -/
abbrev Reading.StopsAtRefusal {α : Type} (x : Reading α) : Prop :=
  Asking.StopsAtRefusal Read.Refused IsDenial x

/-- One read: `answered` takes a value, `otherwise` an error that is no refusal. -/
def readOr {α : Type} (read : Read) (what : PyStr) (answered : read.Value → Reading α)
    (otherwise : DbusError → Reading α) : Reading α :=
  .ask read fun
    | .ok value => answered value
    | .error error => if error.isDenied then .raise (replyError what error) else otherwise error

theorem readOr_stopsAtRefusal {α : Type} {read : Read} {what : PyStr}
    {answered : read.Value → Reading α} {otherwise : DbusError → Reading α}
    (hanswered : ∀ value, (answered value).StopsAtRefusal)
    (hotherwise : ∀ error, (otherwise error).StopsAtRefusal) :
    (readOr read what answered otherwise).StopsAtRefusal := by
  constructor
  · intro reply
    cases reply with
    | ok value => exact hanswered value
    | error error =>
        by_cases h : error.isDenied = true
        · simp only [h, if_true]
          exact Asking.StopsAtRefusal.raise _
        · simp only [h]
          exact hotherwise error
  · rintro reply ⟨error, rfl, h⟩
    refine ⟨replyError what error, replyError_denied h, ?_⟩
    simp only [h, if_true]
    rfl

/-- Read one property from a unit object; `none` stands for the default of the caller. -/
def pathProperty (path : Option PyStr) (property : Property) : Reading (Option property.Value) :=
  match path with
  | none => return none
  | some path =>
    readOr (.get path property) (py "systemd Get " ++ property.name ++ py " of " ++ path)
      (fun value => return some value) (fun _ => return none)

theorem pathProperty_stopsAtRefusal (path : Option PyStr) (property : Property) :
    (pathProperty path property).StopsAtRefusal := by
  cases path with
  | none => exact Asking.StopsAtRefusal.pure _
  | some path =>
      exact readOr_stopsAtRefusal (fun _ => Asking.StopsAtRefusal.pure _)
        fun _ => Asking.StopsAtRefusal.pure _

/-- The ActiveState of a unit object; inactive for no path or a failed read. -/
def pathActiveState (path : Option PyStr) : Reading ActiveState := do
  let state ← pathProperty path .activeState
  return .parse (state.getD (py "inactive"))

theorem pathActiveState_stopsAtRefusal (path : Option PyStr) :
    (pathActiveState path).StopsAtRefusal :=
  (pathProperty_stopsAtRefusal path .activeState).bind fun _ => Asking.StopsAtRefusal.pure _

structure LoadedUnit where
  path : PyStr
  load_state : LoadState

/-- The object path and LoadState of a unit, loaded from its file if needed; `none` if it has none. -/
def loadUnitState (name : PyStr) : Reading (Option LoadedUnit) := do
  let path ← readOr (.loadUnit name) (py "systemd LoadUnit") (fun path => return path)
    (fun error => .raise (replyError (py "systemd LoadUnit") error))
  let load_state ← pathProperty (some path) .loadState
  match load_state with
  | none => .raise (nativeCallError [.text (py "cannot read the LoadState of '" ++ name ++ py "'")])
  | some value =>
    if LoadState.parse value = .notFound then return none
    else return some ⟨path, .parse value⟩

theorem loadUnitState_stopsAtRefusal (name : PyStr) : (loadUnitState name).StopsAtRefusal := by
  apply Asking.StopsAtRefusal.bind
  · exact readOr_stopsAtRefusal (fun _ => Asking.StopsAtRefusal.pure _)
      fun _ => Asking.StopsAtRefusal.raise _
  · intro path
    apply Asking.StopsAtRefusal.bind (pathProperty_stopsAtRefusal _ _)
    intro load_state
    cases load_state with
    | none => exact Asking.StopsAtRefusal.raise _
    | some value =>
        dsimp only
        split <;> exact Asking.StopsAtRefusal.pure _

def loadUnit (name : PyStr) : Reading (Option PyStr) := do
  let loaded ← loadUnitState name
  return loaded.map (·.path)

theorem loadUnit_stopsAtRefusal (name : PyStr) : (loadUnit name).StopsAtRefusal :=
  (loadUnitState_stopsAtRefusal name).bind fun _ => Asking.StopsAtRefusal.pure _

/-- `load_unit`, but a failure other than a refusal is also `none`. -/
def loadUnitPath (name : PyStr) : Reading (Option PyStr) :=
  (loadUnit name).handling fun e =>
    if e.cls = .nativeAccessDeniedError then .raise e else return none

theorem loadUnitPath_stopsAtRefusal (name : PyStr) : (loadUnitPath name).StopsAtRefusal := by
  apply (loadUnit_stopsAtRefusal name).handling
  · intro e
    split
    · exact Asking.StopsAtRefusal.raise _
    · exact Asking.StopsAtRefusal.pure _
  · intro e he
    exact ⟨e, he, if_pos he⟩

/-- `GetUnitFileState` of one unit; `none` when it has no unit file. -/
def unitFileState (name : PyStr) : Reading (Option UnitFileState) :=
  readOr (.getUnitFileState name) (py "systemd GetUnitFileState")
    (fun state => return some (.parse state)) (fun _ => return none)

theorem unitFileState_stopsAtRefusal (name : PyStr) : (unitFileState name).StopsAtRefusal :=
  readOr_stopsAtRefusal (fun _ => Asking.StopsAtRefusal.pure _) fun _ => Asking.StopsAtRefusal.pure _

/-! ## Listings -/

/-- One entry of `ListUnits`, its states parsed. -/
structure ListedUnit where
  name : PyStr
  description : PyStr
  load_state : LoadState
  active_state : ActiveState
  path : PyStr

structure UnitFileEntry where
  name : PyStr
  state : UnitFileState
  deriving DecidableEq

/-- What systemd answers: the entries of `ListUnits`, one for each loaded unit
under its own name, the paths and states of the unit file listing, and the reply
to each read. -/
structure Bus where
  units : List ListedUnit
  units_nodup : (units.map (·.name)).Nodup
  files : List (PyStr × PyStr)
  replies : ∀ read : Read, read.Reply

/-- `str(path).rsplit("/", 1)[-1]` -/
def fileName (path : PyStr) : PyStr := (path.splitOn 0x2f).getLastD []

/-- Every unit file with this suffix, templates excluded. -/
def Bus.unitFiles (bus : Bus) (suffix : PyStr) : List UnitFileEntry :=
  (bus.files.map fun file => ⟨fileName file.1, .parse file.2⟩).filter fun file =>
    suffix.isSuffixOf file.name && !(0x40 :: suffix).isSuffixOf file.name

end Dbus

end PwshPy.Systemd
