import PwshPy.Effects.Generators
import PwshPy.Text.PyStr

/-! # The Windows task tree

Task Scheduler folders as COM hands them out: each call or property is read by itself and may
raise. The walk yields the tasks of a folder, then goes into its subfolders; what cannot be read is
logged and skipped, or raised under `strict`.
-/

namespace PwshPy.TaskTree

open Effects Effects.Generator

/-! ## What COM hands out -/

structure RegistrationInfo (ε : Type) where
  author : Except ε (Option PyStr)
  description : Except ε (Option PyStr)

structure RegisteredTask (ε χ : Type) where
  /-- `Definition.RegistrationInfo` -/
  registration : Except ε (RegistrationInfo ε)
  name : Except ε PyStr
  state : Except ε Int
  enabled : Except ε Bool
  /-- what `read_task_extras` makes of the rest, each field by itself -/
  extras : χ

/-- `GetTasks`, the `Count` of what it gives, and `Item`. -/
structure TaskCollection (ε χ : Type) where
  get_tasks : Except ε Unit
  count : Except ε Unit
  items : List (Except ε (RegisteredTask ε χ))

structure Folder (ε χ : Type) where
  path : Except ε PyStr
  tasks : TaskCollection ε χ
  get_folders : Except ε Unit
  folder_count : Except ε Unit
  /-- the number of its subfolders, and whether `Item` gives each of them -/
  size : Nat
  opens : Fin size → Except ε Unit
  item : Fin size → Folder ε χ

structure Scheduler (ε χ : Type) where
  get_folder : PyStr → Except ε (Folder ε χ)

/-! ## Exceptions -/

/-- `exit` stands for what is no `Exception`, such as `GeneratorExit`. -/
inductive Exc (ε : Type) where
  | error (e : ε)
  | native_call_error (what : PyStr) (cause : Exc ε)
  | exit
  deriving DecidableEq

def Exc.is_exception {ε : Type} : Exc ε → Bool
  | exit => false
  | _ => true

variable {α ε χ ρ σ : Type}

/-- A generator of this module: its warnings name what was skipped, and why. -/
abbrev Gen (α ε ρ : Type) : Type := Generator α (PyStr × Exc ε) (Exc ε) ρ

def read (result : Except ε ρ) : Gen α ε ρ := .done (result.mapError .error)

/-- `try: … except Exception as exc: handle(exc) else: rest` -/
def try_except (reads : Gen α ε ρ) (handle : Exc ε → Gen α ε σ) (rest : ρ → Gen α ε σ) :
    Gen α ε σ := do
  match ← reads.caught with
  | .ok r => rest r
  | .error exc => if exc.is_exception then handle exc else Asking.raise exc

def skip_or_raise (what : PyStr) (exc : Exc ε) (strict : Bool) : Gen α ε Unit :=
  if strict then Asking.raise (.native_call_error what exc) else warn (what, exc)

/-! ## A task -/

inductive TaskState where
  | unknown
  | disabled
  | queued
  | ready
  | running
  deriving DecidableEq

def TASK_STATE_BY_INT : List (Int × TaskState) :=
  [(0, .unknown), (1, .disabled), (2, .queued), (3, .ready), (4, .running)]

def to_task_state (state : Int) : TaskState := (TASK_STATE_BY_INT.lookup state).getD .unknown

structure ScheduledTaskInfo (χ : Type) where
  task_name : PyStr
  task_path : PyStr
  state : TaskState
  enabled : Bool
  author : PyStr
  description : PyStr
  extras : χ
  deriving DecidableEq

/-- `_folder_path` -/
def folder_path (folder : Folder ε χ) : Except ε PyStr := do
  let path ← folder.path
  pure (if (py "\\").isSuffixOf path then path else path ++ py "\\")

/-- `_to_task_info` -/
def to_task_info (task : RegisteredTask ε χ) (path : PyStr) :
    Except ε (ScheduledTaskInfo χ) := do
  let registration ← task.registration
  let task_name ← task.name
  let state ← task.state
  let enabled ← task.enabled
  let author ← registration.author
  let description ← registration.description
  pure
    { task_name, task_path := path, state := to_task_state state, enabled,
      author := author.getD [], description := description.getD [], extras := task.extras }

/-- `_task_label` -/
def task_label (task : Option (RegisteredTask ε χ)) (index : Nat) (path : PyStr) : PyStr :=
  let position := py "#" ++ decimal index ++ py " in folder '" ++ path ++ py "'"
  match task with
  | none => position
  | some task =>
      match task.name with
      | .ok name => py "'" ++ path ++ name ++ py "'"
      | .error _ => position

/-! ## The walk -/

section Walk

variable (strict : Bool)

/-- `_read_task`, of what `tasks.Item(index)` gives -/
def read_task (item : Except ε (RegisteredTask ε χ)) (index : Nat) (path : PyStr) :
    Gen α ε (Option (ScheduledTaskInfo χ)) :=
  try_except (do to_task_info (← read item) path |> read)
    (fun exc => do
      skip_or_raise (py "cannot read task " ++ task_label item.toOption index path) exc strict
      pure none)
    fun info => pure (some info)

def task_loop (path : PyStr) (index : Nat) :
    List (Except ε (RegisteredTask ε χ)) → Gen (ScheduledTaskInfo χ) ε Unit
  | [] => pure ()
  | item :: rest => do
      match ← read_task strict item index path with
      | some info => yield info
      | none => pure ()
      task_loop path (index + 1) rest

/-- `_folder_tasks` -/
def folder_tasks (tasks : TaskCollection ε χ) (path : PyStr) : Gen (ScheduledTaskInfo χ) ε Unit :=
  try_except (do read tasks.get_tasks; read tasks.count)
    (fun exc =>
      skip_or_raise (py "cannot list the tasks in folder '" ++ path ++ py "'") exc strict)
    fun _ => task_loop strict path 1 tasks.items

def subfolder_loop (folder : Folder ε χ) (path : PyStr) :
    List (Fin folder.size) → Gen (Fin folder.size × PyStr) ε Unit
  | [] => pure ()
  | index :: rest => do
      try_except (do read (folder.opens index); read (folder_path (folder.item index)))
        (fun exc => skip_or_raise
          (py "cannot open subfolder #" ++ decimal (index + 1) ++ py " of folder '" ++ path ++ py "'")
          exc strict)
        fun child_path => yield (index, child_path)
      subfolder_loop folder path rest

/-- `_subfolders`, each child by its number -/
def subfolders (folder : Folder ε χ) (path : PyStr) : Gen (Fin folder.size × PyStr) ε Unit :=
  try_except (do read folder.get_folders; read folder.folder_count)
    (fun exc =>
      skip_or_raise (py "cannot list the subfolders of folder '" ++ path ++ py "'") exc strict)
    fun _ => subfolder_loop strict folder path (List.finRange folder.size)

/-- `_walk` -/
def walk : Folder ε χ → PyStr → Gen (ScheduledTaskInfo χ) ε Unit
  | ⟨own, tasks, get_folders, folder_count, size, opens, item⟩, path => do
      folder_tasks strict tasks path
      forIn (fun child => walk (item child.1) child.2)
        (subfolders strict ⟨own, tasks, get_folders, folder_count, size, opens, item⟩ path)

end Walk

/-- `_com_folder` -/
def com_folder (path : PyStr) : PyStr :=
  match path.rdropWhile (· = 0x5c) with
  | [] => py "\\"
  | stripped => stripped

/-- `iter_scheduled_tasks` without a `task_name`; `connected` is how `_connect_scheduler` ends. -/
def iter_scheduled_tasks (connected : Except (Exc ε) (Scheduler ε χ)) (path : PyStr)
    (strict : Bool) : Gen (ScheduledTaskInfo χ) ε Unit := do
  let service ← (.done connected : Gen _ ε _)
  try_except
    (do
      let root ← read (service.get_folder (com_folder path))
      let root_path ← read (folder_path root)
      pure (root, root_path))
    (fun exc =>
      Asking.raise (.native_call_error (py "cannot open task folder '" ++ path ++ py "'") exc))
    fun opened => walk strict opened.1 opened.2

end PwshPy.TaskTree
