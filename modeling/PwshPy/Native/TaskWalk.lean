import Mathlib.Data.List.Nodup
import PwshPy.Native.TaskTree

/-! # The two walks of a task tree

Both walks go through one list, the places of the tree in the order in which they are come to,
each with its task or its failure. The lenient walk goes through all of it, the strict one as far
as the first failure.
-/

namespace PwshPy.TaskTree

open Effects Effects.Generator

variable {α ε χ ρ σ : Type}

/-! ## The order of a walk -/

/-- What was not read, as a message names it, and why. -/
abbrev Fault (ε : Type) : Type := PyStr × Exc ε

def skip (strict : Bool) (fault : Fault ε) : Except (Exc ε) (Fault ε) :=
  if strict then .error (.native_call_error fault.1 fault.2) else .ok fault

def task_step (path : PyStr) (index : Nat) (item : Except ε (RegisteredTask ε χ)) :
    Except (Fault ε) (ScheduledTaskInfo χ) :=
  (item >>= fun task => to_task_info task path).mapError fun e =>
    (py "cannot read task " ++ task_label item.toOption index path, .error e)

def task_steps (path : PyStr) (index : Nat) :
    List (Except ε (RegisteredTask ε χ)) → List (Except (Fault ε) (ScheduledTaskInfo χ))
  | [] => []
  | item :: rest => task_step path index item :: task_steps path (index + 1) rest

def own_order (tasks : TaskCollection ε χ) (path : PyStr) :
    List (Except (Fault ε) (ScheduledTaskInfo χ)) :=
  match (do tasks.get_tasks; tasks.count : Except ε Unit) with
  | .ok () => task_steps path 1 tasks.items
  | .error e => [.error (py "cannot list the tasks in folder '" ++ path ++ py "'", .error e)]

def child_step (folder : Folder ε χ) (path : PyStr) (index : Fin folder.size) :
    Except (Fault ε) (Fin folder.size × PyStr) :=
  match (do folder.opens index; folder_path (folder.item index) : Except ε PyStr) with
  | .ok child_path => .ok (index, child_path)
  | .error e => .error
      (py "cannot open subfolder #" ++ decimal (index + 1) ++ py " of folder '" ++ path ++ py "'",
        .error e)

def child_order (folder : Folder ε χ) (path : PyStr) :
    List (Except (Fault ε) (Fin folder.size × PyStr)) :=
  match (do folder.get_folders; folder.folder_count : Except ε Unit) with
  | .ok () => (List.finRange folder.size).map (child_step folder path)
  | .error e =>
      [.error (py "cannot list the subfolders of folder '" ++ path ++ py "'", .error e)]

/-- The own tasks of a folder, then what is in its subfolders, one after the other. -/
def walk_order : Folder ε χ → PyStr → List (Except (Fault ε) (ScheduledTaskInfo χ))
  | ⟨own, tasks, get_folders, folder_count, size, opens, item⟩, path =>
      own_order tasks path ++
        (child_order ⟨own, tasks, get_folders, folder_count, size, opens, item⟩ path).flatMap
          (expanded fun child => walk_order (item child.1) child.2)

/-! ## The generators go through the order -/

theorem read_bind (first : Except ε ρ) (second : ρ → Except ε σ) :
    (read first >>= fun r => read (second r) : Gen α ε σ) = read (first >>= second) := by
  cases first with
  | ok r => rfl
  | error e => rfl

theorem try_except_read (result : Except ε ρ) (handle : Exc ε → Gen α ε σ) (rest : ρ → Gen α ε σ) :
    try_except (read result) handle rest =
      match result with
      | .ok r => rest r
      | .error e => handle (.error e) := by
  cases result with
  | ok r => rfl
  | error e => rfl

theorem skip_or_raise_eq (what : PyStr) (exc : Exc ε) (strict : Bool) :
    (skip_or_raise what exc strict : Gen α ε Unit) = skipping (skip strict (what, exc)) := by
  cases strict with
  | false => rfl
  | true => rfl

theorem read_task_eq (strict : Bool) (path : PyStr) (index : Nat)
    (item : Except ε (RegisteredTask ε χ)) :
    (read_task strict item index path : Gen α ε _) =
      match task_step path index item with
      | .ok info => pure (some info)
      | .error fault => skipping (skip strict fault) >>= fun _ => pure none := by
  rw [read_task, read_bind, try_except_read, task_step]
  cases (item >>= fun task => to_task_info task path) with
  | ok info => rfl
  | error e => simp only [skip_or_raise_eq, Except.mapError]

theorem task_loop_eq (strict : Bool) (path : PyStr) (index : Nat)
    (items : List (Except ε (RegisteredTask ε χ))) :
    task_loop strict path index items = play (skip strict) (task_steps path index items) := by
  induction items generalizing index with
  | nil => rfl
  | cons item rest ih =>
      rw [task_loop, read_task_eq, task_steps]
      cases task_step path index item with
      | ok info =>
          rw [play_ok, ← ih]
          rfl
      | error fault =>
          rw [play_error, ← ih, Asking.bind_assoc]
          rfl

theorem folder_tasks_eq (strict : Bool) (tasks : TaskCollection ε χ) (path : PyStr) :
    folder_tasks strict tasks path = play (skip strict) (own_order tasks path) := by
  rw [folder_tasks, read_bind, try_except_read, own_order]
  cases (do tasks.get_tasks; tasks.count : Except ε Unit) with
  | ok _ => exact task_loop_eq strict path 1 tasks.items
  | error e =>
      rw [play_failure]
      exact skip_or_raise_eq _ _ _

theorem subfolder_loop_eq (strict : Bool) (folder : Folder ε χ) (path : PyStr)
    (indices : List (Fin folder.size)) :
    subfolder_loop strict folder path indices =
      play (skip strict) (indices.map (child_step folder path)) := by
  induction indices with
  | nil => rfl
  | cons index rest ih =>
      rw [subfolder_loop, read_bind, try_except_read, ih, List.map_cons, child_step]
      cases (do folder.opens index; folder_path (folder.item index) : Except ε PyStr) with
      | ok child_path => rfl
      | error e => simp only [skip_or_raise_eq, play_error]

theorem subfolders_eq (strict : Bool) (folder : Folder ε χ) (path : PyStr) :
    subfolders strict folder path = play (skip strict) (child_order folder path) := by
  rw [subfolders, read_bind, try_except_read, child_order]
  cases (do folder.get_folders; folder.folder_count : Except ε Unit) with
  | ok _ => exact subfolder_loop_eq strict folder path _
  | error e =>
      rw [play_failure]
      exact skip_or_raise_eq _ _ _

/-- Both walks go through the same list, and differ in what they do at a failure. -/
theorem walk_eq (strict : Bool) (folder : Folder ε χ) (path : PyStr) :
    walk strict folder path = play (skip strict) (walk_order folder path) := by
  induction folder generalizing path with
  | mk own tasks get_folders folder_count size opens item ih =>
      rw [walk, walk_order, play_append, folder_tasks_eq, subfolders_eq, forIn_play]
      simp only [ih]
      rw [each_play]

theorem iter_scheduled_tasks_eq {connected : Except (Exc ε) (Scheduler ε χ)}
    {service : Scheduler ε χ} {root : Folder ε χ} {path root_path : PyStr} (strict : Bool)
    (hconnected : connected = .ok service)
    (hroot : service.get_folder (com_folder path) = .ok root)
    (hpath : folder_path root = .ok root_path) :
    iter_scheduled_tasks connected path strict =
      play (skip strict) (walk_order root root_path) := by
  rw [← walk_eq, hconnected]
  show try_except (read (service.get_folder (com_folder path)) >>= _) _ _ = _
  rw [hroot]
  show try_except (read (folder_path root) >>= _) _ _ = _
  rw [hpath]
  rfl

/-! ## The places of the tasks -/

/-- Where a task stands: the numbers of the subfolders on the way down, then its own. -/
inductive Place where
  | task (index : Nat)
  | inside (index : Nat) (place : Place)
  deriving DecidableEq

/-- The places of all tasks, a folder's own before those of its subfolders. -/
def places : Folder ε χ → List Place
  | ⟨_, tasks, _, _, size, _, item⟩ =>
      (List.range tasks.items.length).map .task ++
        (List.finRange size).flatMap fun index => (places (item index)).map (.inside index)

def Folder.Holds : Folder ε χ → Place → Prop
  | ⟨_, tasks, _, _, _, _, _⟩, .task index => index < tasks.items.length
  | ⟨_, _, _, _, size, _, item⟩, .inside index place => ∃ h : index < size, (item ⟨index, h⟩).Holds place

/-- The task at a place, if the reads on the way down and its own all succeed. -/
def read_at : Folder ε χ → PyStr → Place → Option (ScheduledTaskInfo χ)
  | ⟨_, tasks, _, _, _, _, _⟩, path, .task index => do
      tasks.get_tasks.toOption
      tasks.count.toOption
      let item ← tasks.items[index]?
      let task ← item.toOption
      (to_task_info task path).toOption
  | ⟨_, _, get_folders, folder_count, size, opens, item⟩, _, .inside index place =>
      if h : index < size then do
        get_folders.toOption
        folder_count.toOption
        (opens ⟨index, h⟩).toOption
        let child_path ← (folder_path (item ⟨index, h⟩)).toOption
        read_at (item ⟨index, h⟩) child_path place
      else none

/-- Every read of a folder, of its tasks and of what is below it succeeds. -/
def Folder.Readable : Folder ε χ → PyStr → Prop
  | ⟨_, tasks, get_folders, folder_count, size, opens, item⟩, path =>
      tasks.get_tasks = .ok () ∧ tasks.count = .ok () ∧
      (∀ task ∈ tasks.items, ∃ info, (task >>= fun task => to_task_info task path) = .ok info) ∧
      get_folders = .ok () ∧ folder_count = .ok () ∧
      ∀ index : Fin size, opens index = .ok () ∧
        ∃ child_path, folder_path (item index) = .ok child_path ∧ (item index).Readable child_path

theorem mem_places {folder : Folder ε χ} {place : Place} :
    place ∈ places folder ↔ folder.Holds place := by
  induction folder generalizing place with
  | mk own tasks get_folders folder_count size opens item ih =>
      cases place with
      | task index => simp [places, Folder.Holds]
      | inside index place =>
          simp only [places, Folder.Holds, List.mem_append, List.mem_map, reduceCtorEq, and_false,
            exists_false, false_or, List.mem_flatMap, List.mem_finRange, true_and, Place.inside.injEq, ih]
          constructor
          · intro h
            obtain ⟨number, place', hplace, rfl, rfl⟩ := h
            exact ⟨number.isLt, hplace⟩
          · intro h
            obtain ⟨hindex, hplace⟩ := h
            exact ⟨⟨index, hindex⟩, place, hplace, rfl, rfl⟩

theorem places_nodup (folder : Folder ε χ) : (places folder).Nodup := by
  induction folder with
  | mk own tasks get_folders folder_count size opens item ih =>
      rw [places, List.nodup_append]
      refine ⟨List.Nodup.map (fun _ _ h => Place.task.inj h) List.nodup_range, ?_, ?_⟩
      · rw [List.nodup_flatMap]
        refine ⟨fun index _ => List.Nodup.map (fun _ _ h => (Place.inside.inj h).2) (ih index), ?_⟩
        refine (List.nodup_finRange size).imp fun {first second} hne => ?_
        intro place hfirst hsecond
        obtain ⟨_, -, rfl⟩ := List.mem_map.mp hfirst
        obtain ⟨_, -, hsame⟩ := List.mem_map.mp hsecond
        exact hne (Fin.ext (Place.inside.inj hsame).1.symm)
      · intro a ha b hb hab
        obtain ⟨index, -, rfl⟩ := List.mem_map.mp ha
        obtain ⟨number, -, hinside⟩ := List.mem_flatMap.mp hb
        obtain ⟨_, -, rfl⟩ := List.mem_map.mp hinside
        cases hab

/-! ## What the walk comes to -/

theorem toOption_mapError {ε' : Type} (result : Except ε ρ) (f : ε → ε') :
    (result.mapError f).toOption = result.toOption := by
  cases result with
  | ok r => rfl
  | error e => rfl

theorem toOption_bind (first : Except ε ρ) (second : ρ → Except ε σ) :
    (first >>= second).toOption = first.toOption.bind fun r => (second r).toOption := by
  cases first with
  | ok r => rfl
  | error e => rfl

theorem toOption_task_step (path : PyStr) (index : Nat) (item : Except ε (RegisteredTask ε χ)) :
    (task_step path index item).toOption =
      item.toOption.bind fun task => (to_task_info task path).toOption := by
  rw [task_step, toOption_mapError, toOption_bind]

theorem task_steps_read (path : PyStr) (index : Nat)
    (items : List (Except ε (RegisteredTask ε χ))) :
    (task_steps path index items).filterMap Except.toOption =
      items.filterMap fun item => item.toOption.bind fun task => (to_task_info task path).toOption := by
  induction items generalizing index with
  | nil => rfl
  | cons item rest ih =>
      rw [task_steps, List.filterMap_cons, List.filterMap_cons, toOption_task_step, ih]

/-- A list is what stands at its indices. -/
theorem filterMap_range_getElem? {β : Type} (items : List ρ) (f : ρ → Option β) :
    (List.range items.length).filterMap (fun index => items[index]?.bind f) = items.filterMap f := by
  induction items with
  | nil => rfl
  | cons item rest ih =>
      rw [List.length_cons, List.range_succ_eq_map, List.filterMap_cons, List.filterMap_map,
        List.filterMap_cons]
      simp only [List.getElem?_cons_zero, Option.bind_some, Function.comp_def,
        List.getElem?_cons_succ, ih]

theorem own_order_read (tasks : TaskCollection ε χ) (path : PyStr) :
    (own_order tasks path).filterMap Except.toOption =
      (List.range tasks.items.length).filterMap fun index =>
        tasks.get_tasks.toOption.bind fun _ => tasks.count.toOption.bind fun _ =>
          tasks.items[index]?.bind fun item =>
            item.toOption.bind fun task => (to_task_info task path).toOption := by
  rw [own_order]
  cases tasks.get_tasks with
  | error e => simp [Bind.bind, Except.bind, Except.toOption]
  | ok _ =>
      cases tasks.count with
      | error e => simp [Bind.bind, Except.bind, Except.toOption]
      | ok _ =>
          show (task_steps path 1 tasks.items).filterMap Except.toOption = _
          rw [task_steps_read, ← filterMap_range_getElem?]
          rfl

theorem read_at_inside (folder : Folder ε χ) (path : PyStr) (index : Fin folder.size)
    (place : Place) : read_at folder path (.inside index place) =
      folder.get_folders.toOption.bind fun _ => folder.folder_count.toOption.bind fun _ =>
        (folder.opens index).toOption.bind fun _ =>
          (folder_path (folder.item index)).toOption.bind fun child_path =>
            read_at (folder.item index) child_path place := by
  cases folder with
  | mk own tasks get_folders folder_count size opens item =>
      rw [read_at, dif_pos index.isLt]
      rfl

/-- What is come to in a subfolder. -/
theorem child_step_read (folder : Folder ε χ) (path : PyStr) (index : Fin folder.size)
    (ih : ∀ path, (walk_order (folder.item index) path).filterMap Except.toOption =
      (places (folder.item index)).filterMap (read_at (folder.item index) path)) :
    (expanded (fun child => walk_order (folder.item child.1) child.2)
        (child_step folder path index)).filterMap Except.toOption =
      (places (folder.item index)).filterMap fun place =>
        (folder.opens index).toOption.bind fun _ =>
          (folder_path (folder.item index)).toOption.bind fun child_path =>
            read_at (folder.item index) child_path place := by
  rw [child_step]
  cases folder.opens index with
  | error e => exact (List.filterMap_eq_nil_iff.mpr fun _ _ => rfl).symm
  | ok _ =>
      cases folder_path (folder.item index) with
      | error e => exact (List.filterMap_eq_nil_iff.mpr fun _ _ => rfl).symm
      | ok child_path => exact ih child_path

theorem walk_order_read (folder : Folder ε χ) (path : PyStr) :
    (walk_order folder path).filterMap Except.toOption =
      (places folder).filterMap (read_at folder path) := by
  induction folder generalizing path with
  | mk own tasks get_folders folder_count size opens item ih =>
      rw [walk_order, places, List.filterMap_append, List.filterMap_append, List.filterMap_map,
        own_order_read, List.filterMap_flatMap, List.filterMap_flatMap, child_order]
      congr 1
      simp only [List.filterMap_map, Function.comp_def, read_at_inside]
      cases get_folders with
      | error e => exact (List.flatMap_eq_nil_iff.mpr fun _ _ =>
          List.filterMap_eq_nil_iff.mpr fun _ _ => rfl).symm
      | ok _ =>
          cases folder_count with
          | error e => exact (List.flatMap_eq_nil_iff.mpr fun _ _ =>
              List.filterMap_eq_nil_iff.mpr fun _ _ => rfl).symm
          | ok _ =>
              show ((List.finRange size).map _).flatMap _ = _
              rw [List.flatMap_map]
              exact List.flatMap_congr fun index _ =>
                child_step_read ⟨own, tasks, .ok (), .ok (), size, opens, item⟩ path index (ih index)

/-! ## Trees that are read whole -/

theorem task_steps_flawless (path : PyStr) (index : Nat)
    (items : List (Except ε (RegisteredTask ε χ))) :
    Flawless (task_steps path index items) ↔
      ∀ item ∈ items, ∃ info, (item >>= fun task => to_task_info task path) = .ok info := by
  induction items generalizing index with
  | nil => simp [task_steps, Flawless]
  | cons item rest ih =>
      rw [task_steps, flawless_cons, List.forall_mem_cons, ih, task_step]
      cases (item >>= fun task => to_task_info task path) with
      | ok info => simp [Except.mapError]
      | error e => simp [Except.mapError]

theorem own_order_flawless (tasks : TaskCollection ε χ) (path : PyStr) :
    Flawless (own_order tasks path) ↔ tasks.get_tasks = .ok () ∧ tasks.count = .ok () ∧
      ∀ item ∈ tasks.items, ∃ info, (item >>= fun task => to_task_info task path) = .ok info := by
  rw [own_order]
  cases tasks.get_tasks with
  | error e => simp [Bind.bind, Except.bind, flawless_singleton]
  | ok _ =>
      cases tasks.count with
      | error e => simp [Bind.bind, Except.bind, flawless_singleton]
      | ok _ =>
          show Flawless (task_steps path 1 tasks.items) ↔ _
          simp [task_steps_flawless]

theorem child_step_flawless (folder : Folder ε χ) (path : PyStr) (index : Fin folder.size) :
    Flawless (expanded (fun child => walk_order (folder.item child.1) child.2)
        (child_step folder path index)) ↔
      folder.opens index = .ok () ∧ ∃ child_path, folder_path (folder.item index) = .ok child_path ∧
        Flawless (walk_order (folder.item index) child_path) := by
  rw [child_step]
  cases folder.opens index with
  | error e => simp [Bind.bind, Except.bind, expanded, flawless_singleton]
  | ok _ =>
      cases folder_path (folder.item index) with
      | error e => simp [Bind.bind, Except.bind, expanded, flawless_singleton]
      | ok child_path => simp [Bind.bind, Except.bind, expanded]

theorem walk_order_flawless (folder : Folder ε χ) (path : PyStr) :
    Flawless (walk_order folder path) ↔ folder.Readable path := by
  induction folder generalizing path with
  | mk own tasks get_folders folder_count size opens item ih =>
      rw [walk_order, flawless_append, own_order_flawless, Folder.Readable, child_order, and_assoc,
        and_assoc]
      cases get_folders with
      | error e => simp [Bind.bind, Except.bind, expanded, flawless_singleton]
      | ok _ =>
          cases folder_count with
          | error e => simp [Bind.bind, Except.bind, expanded, flawless_singleton]
          | ok _ =>
              show (_ ∧ _ ∧ _ ∧ Flawless (((List.finRange size).map _).flatMap _)) ↔ _
              rw [List.flatMap_map, flawless_flatMap]
              have hchild := fun index =>
                child_step_flawless ⟨own, tasks, .ok (), .ok (), size, opens, item⟩ path index
              simp only [ih] at hchild
              simp only [hchild, List.mem_finRange, true_imp_iff, true_and]

/-! ## The two walks -/

/-- How the lenient and the strict walk of a tree go together. -/
structure WalksAgree (root : Folder ε χ) (root_path : PyStr)
    (lenient strict : Gen (ScheduledTaskInfo χ) ε Unit) : Prop where
  lenient_returns : lenient.drain.1 = .ok ()
  lenient_order : lenient.drain.2 = (walk_order root root_path).map (event id)
  lenient_yields : lenient.drain.2.filterMap Event.value? =
    (places root).filterMap (read_at root root_path)
  all_places : ∀ place, place ∈ places root ↔ root.Holds place
  each_once : (places root).Nodup
  strict_whole : root.Readable root_path → strict.drain = lenient.drain
  strict_stops : ¬root.Readable root_path → ∃ (before : List (ScheduledTaskInfo χ))
    (fault : Fault ε) (after : List (Event (ScheduledTaskInfo χ) (Fault ε))),
    lenient.drain.2 = before.map .yielded ++ .warned fault :: after ∧
      strict.drain = (.error (.native_call_error fault.1 fault.2), before.map .yielded)
  lenient_transparent : lenient.Transparent
  strict_transparent : strict.Transparent

theorem values_of_events (items : List (Except (Fault ε) (ScheduledTaskInfo χ))) :
    (items.map (event id)).filterMap Event.value? = items.filterMap Except.toOption := by
  rw [List.filterMap_map]
  refine List.filterMap_congr fun item _ => ?_
  cases item with
  | ok info => rfl
  | error fault => rfl

/-- Once the start folder is open, the lenient walk yields what can be read and returns, and the
strict one does the same as far as the first failure, which it raises. -/
theorem task_walks_agree {connected : Except (Exc ε) (Scheduler ε χ)} {service : Scheduler ε χ}
    {root : Folder ε χ} {path root_path : PyStr} (hconnected : connected = .ok service)
    (hroot : service.get_folder (com_folder path) = .ok root)
    (hpath : folder_path root = .ok root_path) :
    WalksAgree root root_path (iter_scheduled_tasks connected path false)
      (iter_scheduled_tasks connected path true) := by
  have hlenient := iter_scheduled_tasks_eq false hconnected hroot hpath
  have hstrict := iter_scheduled_tasks_eq true hconnected hroot hpath
  have hdrain : (iter_scheduled_tasks connected path false).drain =
      (.ok (), (walk_order root root_path).map (event id)) := by
    rw [hlenient]
    exact drain_play_of_warn id _
  exact
    { lenient_returns := by rw [hdrain]
      lenient_order := by rw [hdrain]
      lenient_yields := by rw [hdrain, values_of_events, walk_order_read]
      all_places := fun _ => mem_places
      each_once := places_nodup root
      strict_whole := by
        intro hreadable
        rw [← walk_order_flawless] at hreadable
        cases first_failure (walk_order root root_path) with
        | inl h =>
            obtain ⟨values, hvalues⟩ := h
            rw [hdrain, hstrict, hvalues, drain_play_ok, List.map_map]
            rfl
        | inr h =>
            obtain ⟨values, fault, later, hfault⟩ := h
            rw [hfault] at hreadable
            exact absurd hreadable (not_flawless_of_failure values fault later)
      strict_stops := by
        intro hunreadable
        rw [← walk_order_flawless] at hunreadable
        cases first_failure (walk_order root root_path) with
        | inl h =>
            obtain ⟨values, hvalues⟩ := h
            rw [hvalues] at hunreadable
            exact absurd (flawless_values values) hunreadable
        | inr h =>
            obtain ⟨values, fault, later, hfault⟩ := h
            refine ⟨values, fault, later.map (event id), ?_, ?_⟩
            · rw [hdrain, hfault, List.map_append, List.map_map, List.map_cons]
              rfl
            · rw [hstrict, hfault]
              exact drain_play_of_raise _ values fault later
      lenient_transparent := by
        rw [hlenient]
        exact transparent_play _ _
      strict_transparent := by
        rw [hstrict]
        exact transparent_play _ _ }

/-- A task, and a subfolder whose task list is refused. -/
def refusedSubfolder : Folder Nat Unit where
  path := .ok (py "\\")
  tasks :=
    { get_tasks := .ok ()
      count := .ok ()
      items := [.ok
        { registration := .ok { author := .ok none, description := .ok none },
          name := .ok (py "Backup"), state := .ok 3, enabled := .ok true, extras := () }] }
  get_folders := .ok ()
  folder_count := .ok ()
  size := 1
  opens _ := .ok ()
  item _ :=
    { path := .ok (py "\\Private")
      tasks := { get_tasks := .error 5, count := .ok (), items := [] }
      get_folders := .ok ()
      folder_count := .ok ()
      size := 0
      opens := Fin.elim0
      item := Fin.elim0 }

theorem task_walks_agree_refused :
    WalksAgree refusedSubfolder (py "\\")
      (iter_scheduled_tasks (.ok ⟨fun _ => .ok refusedSubfolder⟩) (py "\\") false)
      (iter_scheduled_tasks (.ok ⟨fun _ => .ok refusedSubfolder⟩) (py "\\") true) :=
  task_walks_agree rfl rfl rfl

end PwshPy.TaskTree
