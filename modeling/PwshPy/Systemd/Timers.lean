import PwshPy.Text.Errors
import PwshPy.Systemd.Scheduling
import PwshPy.Systemd.UnitFile

/-! # The unit files pwshpy writes

The rendering half of `systemd_timers.py`: what `service_unit` and `timer_unit`
refuse, the text they build, and, for an accepted input, the document that text is.
-/

namespace PwshPy.Systemd

open UnitFile (Line Name render)

/-- The [Unit] key that marks a unit file as one pwshpy wrote. -/
def ownershipKey : PyStr := py "X-PwshPy"

/-- `__init__conf__.version` -/
def version : PyStr := py "1.11.0"

/-! ## Values -/

/-- `[\x00-\x1f\x7f]` -/
def isControlCharacter (c : Nat) : Bool := c ≤ 0x1f || c == 0x7f

/-- `text` unchanged, refused when it holds a line break, NUL or other control character. -/
def singleLine (text field : PyStr) : Except PyError PyStr :=
  if LF ∈ text ∨ 0x0d ∈ text ∨ 0 ∈ text then
    .error <| configurationError
      [.text (field ++ py " must not contain a line break or NUL: it would inject unit-file directives.")]
  else if text.any isControlCharacter then
    .error <| configurationError
      [.text (field ++ py " must not contain a control character: systemd does not allow one.")]
  else .ok text

/-- `text.replace(c, with)` for a single character. -/
def replaceChar (c : Nat) (new text : PyStr) : PyStr :=
  text.flatMap fun d => if d = c then new else [d]

/-- A single-line `text` with `%` doubled, so systemd reads it literally. -/
def unitValue (text field : PyStr) : Except PyError PyStr :=
  replaceChar 0x25 (py "%%") <$> singleLine text field

/-- The characters systemd reads as a prefix of the executable of `ExecStart=`. -/
def execPrefixes : List Nat := py "@-:+!|"

/-- `program` as the first word of `ExecStart=`: refused with a leading prefix, else double-quoted. -/
def execProgram (program : PyStr) : Except PyError PyStr := do
  let program ← unitValue program (py "program")
  match program with
  | [] =>
    .error <| configurationError
      [.text (py "program must not be empty: it is the executable ExecStart= runs.")]
  | first :: _ =>
    if program = py ";" then
      .error <| configurationError
        [.text (py "program must not be ';': systemd reads it as a command-line separator.")]
    else if first ∈ execPrefixes then
      .error <| configurationError
        [.text (py "program must not start with "), .repr [first],
          .text (py (": systemd reads it as an ExecStart= prefix " ++
            "('+' would run it with full privileges, ignoring User=, '|' through a shell); give the " ++
            "executable's path."))]
    else
      .ok (0x22 :: replaceChar 0x22 (py "\\\"") (replaceChar 0x5c (py "\\\\") program) ++ [0x22])

/-! ## Settings -/

/-- Refuse a settings value systemd has no key for, given the triggers of the task. -/
def checkSettings (settings : Option TaskSettings) (triggers : List TaskTrigger) :
    Except PyError Unit :=
  match settings with
  | none => .ok ()
  | some settings =>
    if settings.stop_if_going_on_batteries = some true then
      .error <| platformUnsupportedError
        [.text (py ("stop_if_going_on_batteries=True has no systemd analog on Linux: " ++
          "ConditionACPower= is checked only when a run starts, and systemd never stops a running " ++
          "unit when the power source changes."))]
    else
      match settings.multiple_instances with
      | none => .ok ()
      | some policy =>
        if policy ≠ .ignoreNew then
          .error <| platformUnsupportedError
            [.text (py "multiple_instances=" ++ policy.value ++
              py (" has no systemd analog on Linux: a start requested " ++
                "while the task runs joins the running start job (one run, as IgnoreNew); systemd " ++
                "cannot run instances in parallel, queue them or stop the running one for a new start."))]
        else if triggers.any (·.isDaily) then
          .error <| platformUnsupportedError
            [.text (py ("multiple_instances=IgnoreNew has no systemd analog for a daily trigger on " ++
              "Linux: when a run outlasts its day, the timer fires one catch-up run as soon as it " ++
              "ends instead of skipping the missed day. Leave multiple_instances unset for a daily task."))]
        else .ok ()

/-- The [Unit] and the [Service] lines `settings` add. -/
def settingsKeys (settings : Option TaskSettings) : PyStr × PyStr :=
  match settings with
  | none => ([], [])
  | some settings =>
    let unit := if settings.allow_start_if_on_batteries = some false then
      py "ConditionACPower=true\n" else []
    let unit := if settings.allow_demand_start = some false then
      unit ++ py "RefuseManualStart=yes\n" else unit
    let service := match settings.execution_time_limit with
      | some limit =>
        py "TimeoutStartSec=" ++ (if limit.val = 0 then py "infinity" else decimal limit.val) ++ [LF]
      | none => []
    let service := if settings.allow_hard_terminate = some false then
      service ++ py "SendSIGKILL=no\n" else service
    (unit, service)

/-! ## The service -/

/-- The [Unit] section every unit pwshpy writes. -/
def unitHead (description extra : PyStr) : Except PyError PyStr := do
  let described ← unitValue description (py "description")
  let described := if described.isEmpty then py "pwshpy task" else described
  return py "[Unit]\nDescription=" ++ described ++ LF :: ownershipKey ++ py "=" ++ version ++
    LF :: extra ++ [LF]

/-- The text of a oneshot `.service`, run as `user` if given. -/
def serviceUnit (program arguments description : PyStr) (user : Option PyStr)
    (settings : Option TaskSettings) : Except PyError PyStr := do
  checkSettings settings []
  let program ← execProgram program
  let arguments ← unitValue arguments (py "arguments")
  let execLine := if arguments.isEmpty then program else program ++ py " " ++ arguments
  let userLine := match user with
    | some user => py "User=" ++ user ++ [LF]
    | none => []
  let head ← unitHead description (settingsKeys settings).1
  return head ++ py "[Service]\nType=oneshot\n" ++ userLine ++ py "ExecStart=" ++ execLine ++
    LF :: (settingsKeys settings).2

/-! ## The timer -/

/-- `int(delay.total_seconds())`: the quotient is a double, rounded half to even. -/
def totalSeconds (microseconds : Nat) : Nat :=
  let scale := Nat.pow 2 (52 - Nat.log2 (microseconds / 1000000))
  let n := microseconds * scale / 1000000
  let twiceRest := 2 * (microseconds * scale % 1000000)
  (if 1000000 < twiceRest ∨ (1000000 = twiceRest ∧ n % 2 = 1) then n + 1 else n) / scale

/-- `{at:%H:%M:%S}` -/
def timeText (at_ : Instant) : PyStr :=
  padded 2 at_.hour ++ py ":" ++ padded 2 at_.minute ++ py ":" ++ padded 2 at_.second

/-- `{at:%Y-%m-%d}`, the year without leading zeros as glibc writes it. -/
def dateText (at_ : Instant) : PyStr :=
  decimal at_.year ++ py "-" ++ padded 2 at_.month ++ py "-" ++ padded 2 at_.day

/-- One [Timer] line; UTC with an explicit suffix so the zone of the host cannot shift it. -/
def timerLine : TaskTrigger → Except PyError PyStr
  | .once at_ => .ok (py "OnCalendar=" ++ dateText at_ ++ py " " ++ timeText at_ ++ py " UTC")
  | .daily at_ every_days =>
    if every_days.val ≠ 1 then
      .error <| platformUnsupportedError
        [.text (py "systemd has no every-N-days calendar; only every_days=1 is supported on Linux.")]
    else .ok (py "OnCalendar=*-*-* " ++ timeText at_ ++ py " UTC")
  | .boot delay => .ok (py "OnBootSec=" ++ decimal (totalSeconds delay) ++ py "s")
  | .logon _ => .error <| platformUnsupportedError
      [.text (py ("a logon trigger has no systemd analog on Linux: a user unit fires when the user's " ++
        "service manager starts (the user's first session), not at each logon."))]

/-- The `.timer` text that starts `<base>.service` on each trigger. -/
def timerUnit (base description : PyStr) (triggers : List TaskTrigger) : Except PyError PyStr := do
  let lines ← triggers.mapM timerLine
  let unit ← singleLine base (py "task_path")
  let head ← unitHead description []
  return head ++ py "[Timer]\n" ++ unlines lines ++ py "AccuracySec=1s\nUnit=" ++ unit ++
    py ".service\n\n[Install]\nWantedBy=timers.target\n"

end PwshPy.Systemd
