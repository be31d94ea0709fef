import PwshPy.Hosted.Trees

/-! # Calls of the hosted engine

`run`, `invoke` and `get_command` by the outcomes of the calls they make. Only the invocation itself
is typed; what is read of its results is not.
-/

namespace PwshPy.Hosted

open Storage Raises

structure PSInvocationResult where
  output : List Marshaled
  errors : List PyStr
  warnings : List PyStr
  verbose : List PyStr
  debug : List PyStr
  information : List PyStr
  had_errors : Bool

/-- The engine as one call meets it. A result is a PSObject, or null. -/
structure Host (graph : Graph) where
  is_available : Bool
  ensure_ready : Except Raised Unit
  /-- `_powershell_cls.Create()` -/
  create : Read Unit
  /-- handing the shell its runspace or pool -/
  attach : Read Unit
  configure : Except Raised Unit
  /-- `shell.Invoke()` -/
  invoke : Read (List (Option (PSObject graph.size)))
  /-- whether the worker ends within the timeout -/
  in_time : Bool
  stop : Read Unit
  had_errors : Read Bool
  /-- the streams, each record by its `str` -/
  errors : List (Read PyStr)
  warnings : List (Read PyStr)
  verbose : List (Read PyStr)
  debug : List (Read PyStr)
  information : List (Read PyStr)
  dispose : Read Unit

/-- How a call ends, and what becomes of its shell. -/
structure Outcome (α : Type) where
  ended : Except Raised α
  created : Nat
  disposed : Nat

section Calls

variable {graph : Graph} (comprehension frames : Nat) (host : Host graph)

/-- `_render_stream` -/
def render_stream : List (Read PyStr) → Except Raised (List PyStr)
  | [] => .ok []
  | record :: rest => do
      let record ← read record
      let rest ← render_stream rest
      .ok (record :: rest)

/-- `_marshal` on a result: null has no `BaseObject` and is its own. -/
def marshal_result : Option (PSObject graph.size) → Except Raised Marshaled
  | none => if 0 < frames then .ok (.primitive .none) else .error .recursion_error
  | some o => marshal graph comprehension frames o

def marshal_results : List (Option (PSObject graph.size)) → Except Raised (List Marshaled)
  | [] => .ok []
  | result :: rest => do
      let result ← marshal_result comprehension frames result
      let rest ← marshal_results rest
      .ok (result :: rest)

/-- `_build_result` -/
def build_result (results : List (Option (PSObject graph.size))) :
    Except Raised PSInvocationResult := do
  let output ← marshal_results comprehension frames results
  let had_errors ← read host.had_errors
  let errors ← render_stream host.errors
  let warnings ← render_stream host.warnings
  let verbose ← render_stream host.verbose
  let debug ← render_stream host.debug
  let information ← render_stream host.information
  .ok { output, errors, warnings, verbose, debug, information, had_errors }

/-- `_invoke`; a timeout is given as it is written. -/
def invoke_shell : Option PyStr → Except Raised (List (Option (PSObject graph.size)))
  | none => read host.invoke
  | some timeout =>
      if host.in_time then read host.invoke
      else do
        read host.stop
        .error (.powershell
          (py ".NET script exceeded its " ++ timeout ++ py "s timeout and was stopped."))

/-- The arms around `_invoke`. -/
def typed {α : Type} : Except Raised α → Except Raised α
  | .error (.net e) => .error (.powershell (py ".NET invocation failed: " ++ e.message))
  | ended => ended

/-- What stands in the outer `try`. -/
def invocation (timeout : Option PyStr) : Except Raised PSInvocationResult := do
  let results ← typed (invoke_shell host timeout)
  build_result comprehension frames host results

/-- `finally: shell.Dispose()` -/
def finally_dispose {α : Type} (ended : Except Raised α) : Except Raised α :=
  match host.dispose with
  | .ok () => ended
  | .error e => .error (.net e)

/-- `_dispatch` -/
def dispatch (timeout : Option PyStr) : Outcome PSInvocationResult :=
  if host.is_available = false then { ended := .error .feature_unavailable, created := 0, disposed := 0 }
  else
    match host.ensure_ready with
    | .error e => { ended := .error e, created := 0, disposed := 0 }
    | .ok () =>
        match host.create with
        | .error e => { ended := .error (.net e), created := 0, disposed := 0 }
        | .ok () =>
            match host.attach with
            | .error e => { ended := .error (.net e), created := 1, disposed := 0 }
            | .ok () =>
                match host.configure with
                | .error e => { ended := .error e, created := 1, disposed := 0 }
                | .ok () =>
                    { ended := finally_dispose host (invocation comprehension frames host timeout)
                      created := 1
                      disposed := 1 }

end Calls

/-! ## Command metadata -/

structure CommandParameter where
  name : PyStr
  type : PyStr
  mandatory : Bool
  aliases : List PyStr

structure CommandInfo where
  name : PyStr
  command_type : PyStr
  module : PyStr
  parameters : List CommandParameter

/-- `bool(value)` -/
def Marshaled.truthy : Marshaled → Bool
  | .primitive .none => false
  | .primitive (.str text) => !text.isEmpty
  | .primitive (.int n) => n != 0
  | .primitive (.float bits) => bits != 0 && bits != 0x8000000000000000
  | .primitive (.bool b) => b
  | .record _ _ => true
  | .dict entries => !entries.isEmpty
  | .list items => !items.isEmpty

/-- `props.get(key)` -/
def get (props : List (PyStr × Marshaled)) (key : PyStr) : Marshaled :=
  (props.lookup key).getD (.primitive .none)

/-- The properties of a `PSObjectRecord`, else none. -/
def Marshaled.props : Marshaled → List (PyStr × Marshaled)
  | .record _ properties => properties
  | _ => []

/-- `iter(value)`; a record gives pairs of its fields' names and values. -/
def Marshaled.iter : Marshaled → Except Raised (List Marshaled)
  | .primitive (.str text) => .ok (text.map fun c => .primitive (.str [c]))
  | .primitive _ => .error .type_error
  | .record type_name properties =>
      .ok [.list [.primitive (.str (py "type_name")), .primitive (.str type_name)],
        .list [.primitive (.str (py "properties")), .dict properties]]
  | .dict entries => .ok (entries.map fun entry => .primitive (.str entry.1))
  | .list items => .ok items

section Metadata

-- `str(value)` of a Python value
variable (str : Marshaled → PyStr)

/-- `str(props.get(key) or "")` -/
def text_of (props : List (PyStr × Marshaled)) (key : PyStr) : PyStr :=
  str (if (get props key).truthy then get props key else .primitive (.str []))

def command_parameter (raw : Marshaled) : CommandParameter where
  name := text_of str raw.props (py "Name")
  type := text_of str raw.props (py "Type")
  mandatory := (get raw.props (py "Mandatory")).truthy
  aliases := ((text_of str raw.props (py "Aliases")).splitOn 44).filter (!·.isEmpty)

/-- `props.get("Parameters") or []` -/
def raw_parameters (record : Marshaled) : Marshaled :=
  if (get record.props (py "Parameters")).truthy then get record.props (py "Parameters")
  else .list []

/-- `_to_command_info` -/
def to_command_info (record : Marshaled) : Except Raised CommandInfo := do
  let raws ← (raw_parameters record).iter
  .ok {
    name := text_of str record.props (py "Name")
    command_type := text_of str record.props (py "CommandType")
    module := text_of str record.props (py "Module")
    parameters := raws.map (command_parameter str) }

end Metadata

/-! ## The three calls -/

inductive Command where
  | run (timeout : Option PyStr)
  | invoke (timeout : Option PyStr)
  /-- with the command's name as its `repr` -/
  | get_command (name : PyStr)

def Command.timeout : Command → Option PyStr
  | .run timeout => timeout
  | .invoke timeout => timeout
  | .get_command _ => none

inductive Answer where
  | output (items : List Marshaled)
  | result (result : PSInvocationResult)
  | command_info (info : CommandInfo)

/-- `if result.had_errors and result.errors: raise PowerShellError(result.errors[0])` -/
def raise_errors (result : PSInvocationResult) : Except Raised Unit :=
  match result.had_errors, result.errors with
  | true, error :: _ => .error (.powershell error)
  | _, _ => .ok ()

/-- What a command makes of the result of its invocation. -/
def answer (str : Marshaled → PyStr) (result : PSInvocationResult) : Command → Except Raised Answer
  | .run _ => do
      raise_errors result
      .ok (.output result.output)
  | .invoke _ => .ok (.result result)
  | .get_command name => do
      raise_errors result
      match result.output with
      | [] => .error (.powershell (py "Get-Command returned no metadata for " ++ name ++ py "."))
      | record :: _ => do
          let info ← to_command_info str record
          .ok (.command_info info)

section Calls

variable {graph : Graph} (comprehension frames : Nat) (str : Marshaled → PyStr) (host : Host graph)

/-- `run`, `invoke` and `get_command` -/
def call (command : Command) : Outcome Answer :=
  let dispatched := dispatch comprehension frames host command.timeout
  { dispatched with ended := do
      let result ← dispatched.ended
      answer str result command }

end Calls

/-! ## What the calls promise -/

section Promise

variable {graph : Graph} (comprehension : Nat)

/-- A result unfolds: null to None. -/
def ResultUnfolds (frames : Nat) : Option (PSObject graph.size) → Marshaled → Prop
  | none, t => 0 < frames ∧ t = .primitive .none
  | some o, t => Unfolds graph comprehension frames (.ps_object o) t

variable (frames : Nat) (str : Marshaled → PyStr) (host : Host graph) (command : Command)

/-- The invocation is made. -/
structure Host.Reached : Prop where
  available : host.is_available = true
  ready : host.ensure_ready = .ok ()
  created : host.create = .ok ()
  attached : host.attach = .ok ()
  configured : host.configure = .ok ()

/-- A call returns or raises a `PwshPyError`, the tree of every result without a cycle whose calls
all answer is returned as it is, and each shell is disposed of once. -/
structure Promise : Prop where
  typed : ∀ e, (call comprehension frames str host command).ended = .error e → e.is_pwshpy = true
  kept : host.Reached → ∀ results, invoke_shell host command.timeout = .ok results →
    ∀ trees, List.Forall₂ (fun result t => ∃ enough, ResultUnfolds comprehension enough result t)
      results trees → ∃ result,
        (dispatch comprehension frames host command.timeout).ended = .ok result ∧
          result.output = trees
  disposed : (call comprehension frames str host command).disposed =
    (call comprehension frames str host command).created

/-- The streams and the flag can be read. -/
structure Host.StreamsAnswer : Prop where
  had_errors : ∃ b, host.had_errors = .ok b
  errors : ∀ record ∈ host.errors, ∃ text, record = .ok text
  warnings : ∀ record ∈ host.warnings, ∃ text, record = .ok text
  verbose : ∀ record ∈ host.verbose, ∃ text, record = .ok text
  debug : ∀ record ∈ host.debug, ∃ text, record = .ok text
  information : ∀ record ∈ host.information, ∃ text, record = .ok text

/-- The engine reports no error with a text. -/
def Host.Quiet : Prop := ¬ (host.had_errors = .ok true ∧ host.errors ≠ [])

/-- The frames are enough for the results, and nothing met on the way raises or collides. -/
structure Sound : Prop where
  ready : host.is_available = true → ∀ e, host.ensure_ready = .error e → e.is_pwshpy = true
  shell : host.is_available = true → host.ensure_ready = .ok () → host.create = .ok () ∧
    host.attach = .ok () ∧ host.configure = .ok () ∧ host.dispose = .ok ()
  results : host.Reached → ∀ results, invoke_shell host command.timeout = .ok results →
    host.StreamsAnswer ∧ ∃ trees,
      List.Forall₂ (ResultUnfolds comprehension frames) results trees ∧ ∀ t ∈ trees, t.Distinct
  parameters : ∀ name, command = .get_command name → host.Reached → host.Quiet →
    ∀ results, invoke_shell host none = .ok results → ∀ first rest,
      List.Forall₂ (ResultUnfolds comprehension frames) results (first :: rest) →
        ∃ raws, (raw_parameters first).iter = .ok raws

end Promise

end PwshPy.Hosted
