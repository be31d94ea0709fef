import PwshPy.Effects.Triple
import PwshPy.Systemd.Ownership

/-! # The controller that registers tasks

`SystemdScheduledTaskController` as a program over the files of the machine and
systemd's unit table. Every bus call and file operation takes its outcome from
the outside: it may fail at any point, a failed write leaves anything in the file,
and a bus call may leave any unit table behind. What a call does to a unit is
logged together with the files as they stood at that moment.
-/

namespace PwshPy.Systemd

open Effects (Act)

/-! ## Files -/

/-- `text` is what reading the file gives, `none` for a file that is no UTF-8 text or cannot be read. -/
inductive Node where
  | file (text : Option PyStr)
  | link (target : PyStr)
  deriving DecidableEq

abbrev Files := PyStr → Option Node

namespace Files

/-- Where a chain of links that starts at `path` ends; `none` for more links than the kernel follows. -/
def follow (files : Files) : Nat → PyStr → Option PyStr
  | 0, _ => none
  | n + 1, path =>
    match files path with
    | some (.link target) => follow files n target
    | _ => some path

/-- The path itself and at most 40 links behind it. -/
def resolve (files : Files) (path : PyStr) : Option PyStr := files.follow 41 path

/-- The file a path leads to. -/
def fileAt (files : Files) (path : PyStr) : Option (Option PyStr) :=
  (files.resolve path).bind fun p =>
    match files p with
    | some (.file text) => some text
    | _ => none

def isLink (files : Files) (path : PyStr) : Bool :=
  match files path with
  | some (.link _) => true
  | _ => false

/-- `files` with what `path` leads to replaced, or created where it is missing. -/
def write (files : Files) (path : PyStr) (text : Option PyStr) : Files :=
  match files.resolve path with
  | some p => fun q => if q = p then some (.file text) else files q
  | none => files

/-- `files` without the entry `path`: a link goes, not what it leads to. -/
def erase (files : Files) (path : PyStr) : Files := fun q => if q = path then none else files q

end Files

/-- `_UNIT_DIR / unit` -/
def unitFile (unit : PyStr) : PyStr := py "/etc/systemd/system/" ++ unit

/-! ## The outside -/

inductive UnitFileState where
  | enabled | enabledRuntime | linked | linkedRuntime | alias | masked | maskedRuntime | static
  | indirect | disabled | generated | transient | bad | empty | unknown
  deriving DecidableEq

inductive TimerBase where
  | onActive | onBoot | onStartup | onUnitActive | onUnitInactive | unknown
  deriving DecidableEq

/-- The outcome of one operation; an operation reads the fields it has a use for. -/
structure Answer where
  failure : Option PyError := none
  /-- systemd's unit table after a bus call that changes something -/
  known : PyStr → Bool := fun _ => false
  /-- what a failed write left in the file: `none` if it did not get that far -/
  torn : Option (Option PyStr) := none
  unitFileState : Option UnitFileState := none
  monotonicBases : Option (List TimerBase) := none

/-- What is done to a unit. -/
inductive Event where
  | stop (unit : PyStr)
  | disable (unit : PyStr)
  | enable (unit : PyStr)
  | start (unit : PyStr)
  | reload
  | write (unit : PyStr)
  | delete (unit : PyStr)
  deriving DecidableEq

/-- The unit an event is about. -/
def Event.unit : Event → Option PyStr
  | .stop unit | .disable unit | .enable unit | .start unit | .write unit | .delete unit => some unit
  | .reload => none

/-- The unit an event stops, disables, overwrites or deletes. -/
def Event.changed : Event → Option PyStr
  | .stop unit | .disable unit | .write unit | .delete unit => some unit
  | .enable _ | .start _ | .reload => none

/-- `known` says which names systemd has a unit for: `load_unit` gives `None` for the others. -/
structure World where
  files : Files
  known : PyStr → Bool
  log : List (Event × Files)
  clock : Nat
  answers : Nat → Answer

/-- Which part of a call an exception comes from. -/
inductive Origin where
  | validation
  | bus
  /-- a unit pwshpy did not write -/
  | ownership
  /-- a unit file, or what systemd knows of it, could not be read for the ownership check -/
  | reading
  | schedule
  | effect
  | readBack
  deriving DecidableEq

structure Raised where
  origin : Origin
  error : PyError
  deriving DecidableEq

abbrev Control (α : Type) := Act Raised World α

def ask : Control Answer := do
  let w ← get
  set { w with clock := w.clock + 1 }
  return w.answers w.clock

/-- An operation that changes nothing. -/
def attempt (origin : Origin) : Control Answer := do
  let answer ← ask
  match answer.failure with
  | some e => throw ⟨origin, e⟩
  | none => return answer

def validated {α : Type} : Except PyError α → Control α
  | .ok a => return a
  | .error e => throw ⟨.validation, e⟩

/-- The typed error for a caught failure. -/
def nativeError (message : List Piece) (cause : PyError) : PyError :=
  { cls := if cause.cls = .nativeAccessDeniedError then .nativeAccessDeniedError else .nativeCallError,
    message := message ++ cause.message }

/-! ## Bus and file operations -/

def openBus : Control Unit := do
  let _ ← attempt .bus

def record (event : Event) : Control Unit :=
  modify fun w => { w with log := w.log ++ [(event, w.files)] }

def changeFiles (change : Files → Files) : Control Unit :=
  modify fun w => { w with files := change w.files }

/-- A manager method that acts on a unit. -/
def call (event : Event) : Control Unit := do
  let answer ← ask
  record event
  modify fun w => { w with known := answer.known }
  match answer.failure with
  | some e => throw ⟨.effect, e⟩
  | none => return

/-- `load_unit(bus, unit) is not None` -/
def loadUnit (origin : Origin) (unit : PyStr) : Control Bool := do
  let _ ← attempt origin
  return (← get).known unit

def liveUnitFileState (origin : Origin) : Control (Option UnitFileState) := do
  return (← attempt origin).unitFileState

def pathExists (origin : Origin) (path : PyStr) : Control Bool := do
  let _ ← attempt origin
  return ((← get).files.fileAt path).isSome

def isSymlink (origin : Origin) (path : PyStr) : Control Bool := do
  let _ ← attempt origin
  return (← get).files.isLink path

/-- The error of reading what is no UTF-8 text. -/
def unreadable : PyError := { cls := .osError, message := [.exc 0] }

def readText (path : PyStr) : Control PyStr := do
  let answer ← ask
  let refuse (cause : PyError) : Control PyStr :=
    throw ⟨.reading, nativeError
      [.text (py "cannot read " ++ path ++ py " to tell whether pwshpy wrote it: ")] cause⟩
  match answer.failure, (← get).files.fileAt path with
  | some cause, _ => refuse cause
  | none, some (some text) => return text
  | none, _ => refuse unreadable

/-- A lone surrogate has no UTF-8 encoding. -/
def isSurrogate (c : Nat) : Bool := 0xd800 ≤ c && c ≤ 0xdfff

/-- `_write`: the file is cut to nothing before its text is encoded. -/
def writeUnit (unit text : PyStr) : Control Unit := do
  let answer ← ask
  let path := unitFile unit
  record (.write unit)
  match answer.failure, answer.torn with
  | some cause, torn =>
    changeFiles fun files => match torn with
      | some left => files.write path left
      | none => files
    throw ⟨.effect, nativeError [.text (py "cannot write unit " ++ path ++ py ": ")] cause⟩
  | none, _ =>
    if text.any isSurrogate then
      changeFiles (·.write path (some []))
      throw ⟨.effect, { cls := .unicodeEncodeError, message := [.exc 1] }⟩
    else changeFiles (·.write path (some text))

/-- `_remove` -/
def removeUnit (unit : PyStr) : Control Unit := do
  let answer ← ask
  let path := unitFile unit
  record (.delete unit)
  match answer.failure with
  | some cause =>
    throw ⟨.effect, nativeError [.text (py "cannot delete unit " ++ path ++ py ": ")] cause⟩
  | none => changeFiles (·.erase path)

/-! ## Ownership -/

/-- `path.exists() or path.is_symlink()` -/
def existsOrIsSymlink (origin : Origin) (path : PyStr) : Control Bool := do
  let file ← pathExists origin path
  if file then return true else isSymlink origin path

/-- Whether the file of `unit` is one pwshpy wrote; `false` when there is none. -/
def ownedUnitFile (unit : PyStr) : Control Bool := do
  let path := unitFile unit
  let there ← existsOrIsSymlink .reading path
  if there then
    let text ← readText path
    if isPwshpyUnit text then return true
    else
      throw ⟨.ownership, nativeCallError
        [.text (path ++ py " was not written by pwshpy (no X-PwshPy= in its [Unit] section); " ++
          py "it is left as it is.")]⟩
  else return false

/-- Refuse to write `unit` unless pwshpy wrote the file already or systemd knows no such unit. -/
def requireFreeOrOwned (unit : PyStr) : Control Unit := do
  let owned ← ownedUnitFile unit
  if owned then return
  else
    let known ← loadUnit .reading unit
    if known then
      throw ⟨.ownership, nativeCallError
        [.text (py "systemd already has a unit "), .repr unit,
          .text (py ", not written by pwshpy; it is left as it is.")]⟩

def noSuchUnit : PyStr := py "org.freedesktop.systemd1.NoSuchUnit"

/-- Stop `unit`; the answer that no such unit is loaded means there is nothing to stop. -/
def stopIfLoaded (unit : PyStr) : Control Unit :=
  tryCatch (call (.stop unit)) fun e =>
    if e.error.dbus_error_name ≠ some noSuchUnit then throw e else pure ()

/-- Stop a timer pwshpy wrote; with `remove` also disable it and delete its unit file. -/
def retireTimer (timer : PyStr) (remove : Bool) : Control Unit := do
  stopIfLoaded timer
  if remove then
    call (.disable timer)
    removeUnit timer
  else return

/-! ## Register policy -/

/-- The `User=` value for a principal, or `none` for root. -/
def linuxUser (principal : TaskPrincipal) : Except PyError (Option PyStr) :=
  if principal.logon_type ≠ none then
    .error <| platformUnsupportedError
      [.text (py "logon_type is Windows-only; systemd has no logon types.")]
  else
    match principal.user_id with
    | none => .ok none
    | some user =>
      if user = localSystemSid then .ok none
      else if ¬ isUid user then
        .error <| platformUnsupportedError
          [.text (py ("on Linux a principal is a decimal uid (or SYSTEM for root), " ++
            "not a Windows SID."))]
      else if principal.run_level = .highest ∧ user ≠ py "0" then
        .error <| platformUnsupportedError
          [.text (py ("run level HIGHEST needs root on Linux; " ++
            "there is no split token to raise."))]
      else .ok (some user)

/-- Whether arming a timer may also start it now. -/
def startsWhenArmed (bases : List TimerBase) : Bool :=
  !(bases.contains .onBoot || bases.contains .onStartup)

/-- Whether `register` starts the timer now or leaves it for the next boot. -/
def armsOnRegister (triggers : List TaskTrigger) : Except PyError Bool :=
  if triggers.any (·.isBoot) ∧ ¬ triggers.all (·.isBoot) then
    .error <| platformUnsupportedError
      [.text (py ("on Linux a boot trigger cannot share a task with calendar triggers: one systemd " ++
        "timer cannot both wait for the next boot and run on schedule from now. Register them " ++
        "separately."))]
  else .ok (startsWhenArmed ((triggers.filter (·.isBoot)).map fun _ => .onBoot))

structure Registration where
  program : PyStr
  arguments : PyStr := []
  description : PyStr := []
  principal : Option TaskPrincipal := none
  triggers : List TaskTrigger := []
  settings : Option TaskSettings := none
  deriving DecidableEq

/-- What `register` has in hand before it opens the bus. -/
structure Rendered where
  base : PyStr
  service_text : PyStr
  timer_text : Option PyStr
  arm_now : Bool
  deriving DecidableEq

def timerTextOf (base : PyStr) (task : Registration) : Except PyError (Option PyStr) :=
  if task.triggers.isEmpty then .ok none
  else some <$> timerUnit base task.description task.triggers

/-- The first half of `register`: validate and render everything. -/
def renderTask (task_path : PyStr) (task : Registration) : Except PyError Rendered := do
  let base ← unitBase task_path
  checkSettings task.settings task.triggers
  let user ← linuxUser (task.principal.getD {})
  let service_text ← serviceUnit task.program task.arguments task.description user task.settings
  let timer_text ← timerTextOf base task
  let arm_now ← armsOnRegister task.triggers
  return { base, service_text, timer_text, arm_now }

/-! ## Reading a task back -/

def hasTimer (origin : Origin) (base : PyStr) : Control Bool := do
  let state ← liveUnitFileState origin
  if state.isSome then return true else pathExists origin (unitFile (base ++ timerSuffix))

/-- `_info`: reads only, and what it reads is reported to the caller. -/
def info (base : PyStr) : Control Unit := do
  let timer ← hasTimer .readBack base
  let _ ← attempt .readBack
  let _ ← loadUnit .readBack (base ++ if timer then timerSuffix else serviceSuffix)
  let _ ← attempt .readBack

/-! ## The verbs -/

/-- The timer of a previous registration, if there is one. -/
def retirePrevious (timer : PyStr) (remove : Bool) : Control Unit := do
  let there ← pathExists .reading (unitFile timer)
  if there then retireTimer timer remove else return

def writeTimer (timer : PyStr) : Option PyStr → Control Unit
  | some text => writeUnit timer text
  | none => return

/-- Enable the new timer and start it, unless it waits for the next boot. -/
def armTimer (timer : PyStr) (timer_text : Option PyStr) (arm_now : Bool) : Control Unit :=
  match timer_text with
  | none => return
  | some _ => do
    call (.enable timer)
    call .reload
    if arm_now then call (.start timer) else return

def register (task_path : PyStr) (task : Registration) : Control Unit := do
  let rendered ← validated (renderTask task_path task)
  let service := rendered.base ++ serviceSuffix
  let timer := rendered.base ++ timerSuffix
  openBus
  requireFreeOrOwned service
  requireFreeOrOwned timer
  retirePrevious timer rendered.timer_text.isNone
  writeUnit service rendered.service_text
  writeTimer timer rendered.timer_text
  call .reload
  armTimer timer rendered.timer_text rendered.arm_now
  info rendered.base

/-- The timer of a task to remove, if pwshpy wrote it. -/
def dropTimer (timer : PyStr) (owned : Bool) : Control Unit :=
  if owned then retireTimer timer true else return

/-- The service of a task to remove, if pwshpy wrote it. -/
def dropService (service : PyStr) (owned : Bool) : Control Unit :=
  if owned then do
    stopIfLoaded service
    removeUnit service
  else return

/-- Refuse a task of which pwshpy wrote neither unit. -/
def requireAnyOwned (base : PyStr) (owned : Bool) : Control Unit :=
  if owned then return
  else
    throw ⟨.ownership, nativeCallError
      [.text (py "no such task "), .repr base,
        .text (py ": pwshpy wrote no " ++ base ++ serviceSuffix ++ py " or " ++ base ++ timerSuffix ++
          py " under /etc/systemd/system.")]⟩

def unregister (task_path : PyStr) : Control Unit := do
  let base ← validated (unitBase task_path)
  let service := base ++ serviceSuffix
  let timer := base ++ timerSuffix
  let ownedTimer ← ownedUnitFile timer
  let ownedService ← ownedUnitFile service
  requireAnyOwned base (ownedTimer || ownedService)
  openBus
  dropTimer timer ownedTimer
  dropService service ownedService
  call .reload

inductive ScheduleVerb where
  | enable
  | disable
  deriving DecidableEq

def ScheduleVerb.value : ScheduleVerb → PyStr
  | .enable => py "enable"
  | .disable => py "disable"

/-- Refuse a task without a timer. -/
def requireAnyTimer (base : PyStr) (verb : ScheduleVerb) : Control Unit := do
  let timer ← hasTimer .schedule base
  if timer then return
  else
    throw ⟨.schedule, nativeCallError
      [.text (py "task "), .repr base, .text (py " is on-demand (no .timer); nothing to " ++ verb.value ++
        py " - run it directly, or unregister it.")]⟩

/-- What works instead on a static timer. -/
def ScheduleVerb.remedy : ScheduleVerb → PyStr
  | .enable => py ("it runs whenever the unit that wants it starts; give it an [Install] section to " ++
      "enable it on its own")
  | .disable => py "change the unit that wants it, or mask the timer to keep it from running"

/-- Refuse a task whose schedule systemd cannot toggle. -/
def requireTimer (base : PyStr) (verb : ScheduleVerb) : Control Unit := do
  requireAnyTimer base verb
  let state ← liveUnitFileState .schedule
  if state = some .static then
    throw ⟨.schedule, nativeCallError
      [.text (py "task "), .repr base, .text (py (" is a static timer (no [Install] section; another " ++
        "unit pulls it in), so systemd has nothing to ") ++ verb.value ++ py " - " ++ verb.remedy ++
        py ".")]⟩
  else return

/-- `_monotonic_bases`: `none` when they cannot be read. -/
def readMonotonicBases : Control (Option (List TimerBase)) := do
  return (← attempt .schedule).monotonicBases

def startArmed (timer : PyStr) (bases : Option (List TimerBase)) : Control Unit :=
  if bases.any startsWhenArmed then call (.start timer) else return

def enable (task_path : PyStr) : Control Unit := do
  let base ← validated (existingUnitBase task_path)
  let timer := base ++ timerSuffix
  openBus
  requireTimer base .enable
  let bases ← readMonotonicBases
  call (.enable timer)
  call .reload
  startArmed timer bases
  info base

def disable (task_path : PyStr) : Control Unit := do
  let base ← validated (existingUnitBase task_path)
  let timer := base ++ timerSuffix
  openBus
  requireTimer base .disable
  call (.stop timer)
  call (.disable timer)
  call .reload
  info base

/-! ## Runs -/

inductive Verb where
  | register (task_path : PyStr) (task : Registration)
  | unregister (task_path : PyStr)
  | enable (task_path : PyStr)
  | disable (task_path : PyStr)

def Verb.run : Verb → Control Unit
  | .register task_path task => Systemd.register task_path task
  | .unregister task_path => Systemd.unregister task_path
  | .enable task_path => Systemd.enable task_path
  | .disable task_path => Systemd.disable task_path

/-- One call of a run: the worlds before and after it and its ending. -/
structure Call where
  verb : Verb
  before : World
  ending : Except Raised Unit
  after : World

/-- What a call did, each effect with the files it met. -/
def Call.effects (c : Call) : List (Event × Files) := c.after.log.drop c.before.log.length

/-- The task path of a call that writes and deletes unit files. -/
def Verb.writes : Verb → Option PyStr
  | .register task_path _ | .unregister task_path => some task_path
  | .enable _ | .disable _ => none

/-- The calls of a run; a call that raises does not end it. -/
def run : List Verb → World → List Call
  | [], _ => []
  | verb :: verbs, w =>
    let (ending, after) := Effects.exec verb.run w
    ⟨verb, w, ending, after⟩ :: run verbs after

end PwshPy.Systemd
