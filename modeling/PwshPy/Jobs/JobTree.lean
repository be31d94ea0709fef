import PwshPy.Effects.Amid
import PwshPy.Jobs.Host
import PwshPy.Text.Repr

/-! # `exec(wait_tree=True)` on Windows

The program is created suspended, put into a job, and only then resumed;
`run_process_tree` returns when the job has no active process, and closes the job
however it ends. Any native call may fail but for the closing of a handle, and then
it has changed nothing.
-/

namespace PwshPy.Jobs

open Effects (Asking)
open Effects.Asking

/-! ## The calls -/

/-- What `CreateProcess` raises. -/
inductive PopenFault where
  | file_not_found (text : PyStr)
  | os_error (text : PyStr)
  | other (text : PyStr)

/-- What `subprocess.Popen` is given. -/
structure Start where
  args : List PyStr
  cwd : Option PyStr
  env : Option (List (PyStr × PyStr))
  with_stdin : Bool
  creationflags : Nat

inductive Call where
  /-- `importlib.import_module` -/
  | load (name : PyStr)
  | create_job
  /-- the limit flags of `QueryInformationJobObject` -/
  | query_limits
  | set_limits (flags : Nat)
  | close_job
  | popen (start : Start)
  | open_process (pid : Nat)
  | assign (pid : Nat)
  | close_handle
  /-- `psutil.Process(pid).threads()` -/
  | threads (pid : Nat)
  | open_thread (thread : Nat)
  | resume_thread (thread : Nat)
  | active_processes
  /-- `time.monotonic() >= deadline` -/
  | past_deadline
  | sleep
  | terminate_job (code : Int)
  /-- `popen.kill()` -/
  | kill (pid : Nat)
  /-- `popen.wait()` -/
  | wait (pid : Nat)
  /-- the threads that feed stdin and read the pipes -/
  | start_io (input : Option PyStr)
  /-- what the readers have read when the drain ends -/
  | output

namespace Call

abbrev Reply : Call → Type
  | load _ => Bool
  | create_job => Except PyStr Unit
  | query_limits => Except PyStr Nat
  | set_limits _ => Except PyStr Unit
  | close_job => Unit
  | popen _ => Except PopenFault Nat
  | open_process _ => Except PyStr Unit
  | assign _ => Except PyStr Unit
  | close_handle => Unit
  | threads _ => Except PyStr (List Nat)
  | open_thread _ => Except PyStr Unit
  | resume_thread _ => Except PyStr Unit
  | active_processes => Except PyStr Nat
  | past_deadline => Bool
  | sleep => Unit
  | terminate_job _ => Except PyStr Unit
  | kill _ => Except PyStr Unit
  | wait _ => Except PyStr Int
  | start_io _ => Unit
  | output => PyStr × PyStr

end Call

/-- What a call replies and does to the host. -/
def serves (s : Host) : (q : Call) → q.Reply → Host → Prop
  | .load _, _, s' => s' = s
  | .create_job, .ok _, s' => s' = { s with handle := .opened, flags := 0 }
  | .query_limits, .ok flags, s' => flags = s.flags ∧ s' = s
  | .set_limits flags, .ok _, s' => s' = { s with flags }
  | .close_job, _, s' => s' = s.closeJob
  | .popen start, .ok pid, s' => pid = s.next ∧
      s' = s.launch ⟨none, start.creationflags.testBit 2, false, true⟩
  | .open_process _, .ok _, s' => s' = s
  | .assign pid, .ok _, s' => s' = s.update pid { s.process pid with member := true }
  | .close_handle, _, s' => s' = s
  | .threads pid, .ok threads, s' => (∀ thread ∈ threads, s.owner thread = pid) ∧ s' = s
  | .open_thread _, .ok _, s' => s' = s
  | .resume_thread thread, .ok _, s' =>
      s' = s.update (s.owner thread) { s.process (s.owner thread) with suspended := false }
  | .active_processes, .ok n, s' =>
      (n = 0 → ∀ p < s.next, (s.process p).member = true → (s.process p).ended ≠ none) ∧ s' = s
  | .past_deadline, _, s' => s' = s
  | .sleep, _, s' => s' = s
  | .terminate_job code, .ok _, s' => s' = s.endMembers code
  | .kill pid, .ok _, s' => s' = s.finish pid 1
  | .kill _, .error _, s' => s' = { s with unkilled := true }
  | .wait pid, .ok code, s' => (s.process pid).ended = some code ∧ s' = s
  | .start_io _, _, s' => s' = s
  | .output, _, s' => s' = s
  | .create_job, .error _, s' | .query_limits, .error _, s' | .set_limits _, .error _, s'
  | .popen _, .error _, s' | .open_process _, .error _, s' | .assign _, .error _, s'
  | .threads _, .error _, s' | .open_thread _, .error _, s' | .resume_thread _, .error _, s'
  | .active_processes, .error _, s' | .terminate_job _, .error _, s' | .wait _, .error _, s' => s' = s

/-! ## The source -/

/-- What the run may raise. -/
inductive Failure where
  | native_call (message : PyStr)
  | platform_unsupported (message : PyStr)
  /-- `OperationTimeoutError` -/
  | timed_out (message : PyStr)
  /-- what `subprocess` raised, before it is mapped -/
  | popen (fault : PopenFault)
  /-- the caller is interrupted while it polls -/
  | interrupted

abbrev Win (α : Type) := Asking Call Call.Reply Failure α

/-- `except NativeCallError: cleanup; raise` -/
def on_native_call {α : Type} (cleanup : Win Unit) (x : Win α) : Win α :=
  x.handling fun
    | .native_call message => cleanup >>= fun _ => raise (.native_call message)
    | failure => raise failure

/-- `_load` -/
def load (name : PyStr) : Win Unit :=
  question (Call.load name) >>= fun found =>
    if found = true then pure ()
    else raise (.platform_unsupported
      (py "wait_tree on Windows requires " ++ name ++ py " (pywin32/psutil)."))

/-- `_native` -/
def native {α : Type} (what : PyStr) (call : Win (Except PyStr α)) : Win α :=
  call >>= fun
    | .ok a => pure a
    | .error text => raise (.native_call (py "wait_tree: " ++ what ++ py " failed: " ++ text))

/-- A call of `subprocess`, whose `OSError` is not mapped where it is made. -/
def unmapped {α : Type} (call : Win (Except PyStr α)) : Win α :=
  call >>= fun
    | .ok a => pure a
    | .error text => raise (.popen (.os_error text))

/-- `_create_job` -/
def create_job : Win Unit :=
  native (py "CreateJobObject") (question Call.create_job) >>= fun _ =>
    on_native_call (question Call.close_job) <|
      native (py "QueryInformationJobObject") (question Call.query_limits) >>= fun flags =>
        native (py "SetInformationJobObject")
          (question (Call.set_limits (flags ||| (Host.KILL_ON_JOB_CLOSE ||| Host.BREAKAWAY_OK))))

/-- `WindowsJobTree.__init__` -/
def new_tree : Win Unit :=
  load (py "win32job") >>= fun _ => load (py "win32api") >>= fun _ => create_job

def CREATE_SUSPENDED : Nat := 0x00000004

/-- `_assign` -/
def assign (pid : Nat) : Win Unit :=
  native (py "OpenProcess") (question (Call.open_process pid)) >>= fun _ =>
    ensuring (question Call.close_handle) <|
      native (py "AssignProcessToJobObject") (question (Call.assign pid))

/-- The loop of `_resume`. -/
def resume_threads : List Nat → Win Unit
  | [] => pure ()
  | thread :: threads =>
      native (py "OpenThread") (question (Call.open_thread thread)) >>= fun _ =>
        (ensuring (question Call.close_handle) <|
          native (py "ResumeThread") (question (Call.resume_thread thread))) >>= fun _ =>
            resume_threads threads

/-- `_resume` -/
def resume (pid : Nat) : Win Unit :=
  load (py "psutil") >>= fun _ => load (py "win32process") >>= fun _ =>
    native (py "thread enumeration") (question (Call.threads pid)) >>= fun threads =>
      if threads = [] then
        raise (.native_call (py "wait_tree: no thread of the suspended process " ++ decimal pid ++
          py " was found to resume"))
      else resume_threads threads

/-- What `run_process_tree` is asked to run; a timeout is the text of its number. -/
structure Request where
  args : List PyStr
  cwd : Option PyStr
  timeout : Option PyStr
  env : Option (List (PyStr × PyStr))
  input_text : Option PyStr

/-- `popen.kill(); popen.wait()` -/
def kill_program (pid : Nat) : Win Unit :=
  unmapped (question (Call.kill pid)) >>= fun _ =>
    unmapped (question (Call.wait pid)) >>= fun _ => pure ()

/-- `WindowsJobTree.launch` -/
def launch (request : Request) : Win Nat :=
  question (Call.popen
    { args := request.args
      cwd := request.cwd
      env := request.env
      with_stdin := request.input_text.isSome
      creationflags := CREATE_SUSPENDED }) >>= fun
    | .error fault => raise (.popen fault)
    | .ok pid =>
        on_native_call (kill_program pid) (assign pid >>= fun _ => resume pid) >>= fun _ => pure pid

/-- `_active_processes` -/
def active_processes : Win Nat :=
  native (py "QueryInformationJobObject") (question Call.active_processes)

/-- `wait`, which the caller may leave alone for so many polls. -/
def wait (limited : Bool) : Nat → Win Bool
  | 0 => raise .interrupted
  | polls + 1 =>
      active_processes >>= fun active =>
        if active = 0 then pure true
        else if limited = true then
          question Call.past_deadline >>= fun past =>
            if past = true then pure false
            else question Call.sleep >>= fun _ => wait limited polls
        else question Call.sleep >>= fun _ => wait limited polls

/-- `kill` of a tree that was launched -/
def kill (pid : Nat) : Win Unit :=
  native (py "TerminateJobObject") (question (Call.terminate_job 1)) >>= fun _ =>
    unmapped (question (Call.wait pid)) >>= fun _ => pure ()

section Run

variable (table : Nat → Bool)

/-- `repr` of a list of texts -/
def list_repr (items : List PyStr) : PyStr :=
  py "[" ++ (py ", ").intercalate (items.map (pyRepr table)) ++ py "]"

/-- `_launch` -/
def launch_named (request : Request) : Win Nat :=
  let program := pyRepr table (request.args.headD [])
  (launch request).handling fun
    | .popen (.file_not_found text) =>
        raise (.native_call (py "Executable not found: " ++ program ++ py " (" ++ text ++ py ")"))
    | .popen (.os_error text) =>
        raise (.native_call (py "Failed to run " ++ program ++ py ": " ++ text))
    | failure => raise failure

structure ProcessResult where
  argv : List PyStr
  exit_code : Int
  stdout : PyStr
  stderr : PyStr

/-- What stands between the making of the tree and its `close`. -/
def run_in_tree (request : Request) (polls : Nat) : Win ProcessResult :=
  launch_named table request >>= fun pid =>
    question (Call.start_io request.input_text) >>= fun _ =>
      wait request.timeout.isSome polls >>= fun gone =>
        if gone = true then
          unmapped (question (Call.wait pid)) >>= fun exit_code =>
            question Call.output >>= fun output =>
              pure ⟨request.args, exit_code, output.1, output.2⟩
        else
          kill pid >>= fun _ =>
            raise (.timed_out (py "Command " ++ list_repr table request.args ++ py " exceeded its " ++
              request.timeout.getD [] ++ py "s timeout; its process tree was killed."))

def run_process_tree (request : Request) (polls : Nat) : Win ProcessResult :=
  new_tree >>= fun _ => ensuring (question Call.close_job) (run_in_tree table request polls)

end Run

end PwshPy.Jobs
