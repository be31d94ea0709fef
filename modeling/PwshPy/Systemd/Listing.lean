import PwshPy.Systemd.Records

/-! # Listings and lookups

`iter_timers` and `iter_services` as streams: what is read for each unit, in
which order the units come, and what a read that fails does to the unit and to
the rest of the stream.
-/

namespace PwshPy.Systemd

open Effects (Asking)
open Dbus

/-! ## Skip or raise -/

/-- Raise under `strict`, otherwise go on without the item. -/
def skipOrRaise (what : PyStr) (exc : PyError) (strict : Bool) : Reading Unit :=
  if strict then .raise (nativeError [.text (what ++ py ": ")] exc) else return ()

/-- `except NativeCallError`: the refusals too. -/
def isNativeCallError (e : PyError) : Bool :=
  e.cls == .nativeCallError || e.cls == .nativeAccessDeniedError

/-- `try: … except NativeCallError as exc: skip_or_raise(what, exc)`; `none` for what was skipped. -/
def orSkip {α : Type} (what : PyStr) (strict : Bool) (x : Reading (Option α)) :
    Reading (Option α) := do
  match ← x.caught with
  | .ok value => return value
  | .error e =>
    if isNativeCallError e then
      skipOrRaise what e strict
      return none
    else .raise e

/-- Yield what `read` returns; nothing when systemd refuses one of its reads. -/
def unlessRefused {α : Type} (what : PyStr) (strict : Bool) (read : Reading α) :
    Reading (Option α) := do
  match ← read.caught with
  | .ok value => return some value
  | .error e =>
    if e.cls = .nativeAccessDeniedError then
      skipOrRaise what e strict
      return none
    else .raise e

/-! ## One pass over each listing -/

/-- The turns of a listing: the unit each is about, and its reads. -/
abbrev Turns (α : Type) := List (PyStr × Reading (Option α))

section

variable {α : Type}

/-- The loaded units with this suffix, and the names seen. -/
def loadedTurns (suffix : PyStr) (turn : ListedUnit → Reading (Option α)) :
    List ListedUnit → List PyStr → Turns α × List PyStr
  | [], seen => ([], seen)
  | unit :: units, seen =>
    if !suffix.isSuffixOf unit.name then loadedTurns suffix turn units seen
    -- not marked seen: the name is left to the pass over the files
    else if isUnlistedUnit unit.load_state unit.active_state then loadedTurns suffix turn units seen
    else
      let (turns, seen) := loadedTurns suffix turn units (unit.name :: seen)
      ((unit.name, turn unit) :: turns, seen)

/-- The unit files whose name was not seen. -/
def fileTurns (turn : UnitFileEntry → Reading (Option α)) :
    List UnitFileEntry → List PyStr → Turns α
  | [], _ => []
  | file :: files, seen =>
    if seen.contains file.name || file.state.isUnlisted then fileTurns turn files seen
    else (file.name, turn file) :: fileTurns turn files (file.name :: seen)

/-- A listing: the loaded units first, then the unit files not among them. -/
def listingTurns (suffix : PyStr) (loaded : ListedUnit → Reading (Option α))
    (file : UnitFileEntry → Reading (Option α)) (bus : Bus) : Turns α :=
  let (turns, seen) := loadedTurns suffix loaded bus.units []
  turns ++ fileTurns file (bus.unitFiles suffix) seen

/-- The units a listing takes up, in order. -/
def Turns.names (turns : Turns α) : List PyStr := turns.map (·.1)

def streamOf (bus : Bus) (turns : Turns α) : Asking.Stream Read PyError α :=
  Asking.stream bus.replies (turns.map (·.2))

end

/-! ## Each unit once -/

section

variable {α : Type} {suffix : PyStr} {loaded : ListedUnit → Reading (Option α)}
  {file : UnitFileEntry → Reading (Option α)}

theorem loadedTurns_names (units : List ListedUnit) (seen : List PyStr) :
    (loadedTurns suffix loaded units seen).1.names.Sublist (units.map (·.name)) := by
  induction units generalizing seen with
  | nil => exact List.Sublist.slnil
  | cons unit units ih =>
      rw [loadedTurns]
      split
      · exact (ih seen).cons _
      · split
        · exact (ih seen).cons _
        · exact (ih (unit.name :: seen)).cons_cons _

/-- The names seen are the names taken up. -/
theorem mem_loadedTurns_seen (units : List ListedUnit) (seen : List PyStr) (name : PyStr) :
    name ∈ (loadedTurns suffix loaded units seen).2 ↔
      name ∈ seen ∨ name ∈ (loadedTurns suffix loaded units seen).1.names := by
  induction units generalizing seen with
  | nil => simp [loadedTurns, Turns.names]
  | cons unit units ih =>
      rw [loadedTurns]
      split
      · exact ih seen
      · split
        · exact ih seen
        · simp only [ih, Turns.names, List.map_cons, List.mem_cons]
          tauto

theorem not_seen_of_mem_fileTurns {files : List UnitFileEntry} {seen : List PyStr} {name : PyStr}
    (h : name ∈ (fileTurns file files seen).names) : name ∉ seen := by
  induction files generalizing seen with
  | nil => cases h
  | cons entry files ih =>
      rw [fileTurns] at h
      by_cases hskip : (seen.contains entry.name || entry.state.isUnlisted) = true
      · rw [if_pos hskip] at h
        exact ih h
      · rw [if_neg hskip] at h
        rcases List.mem_cons.mp h with rfl | h
        · intro hmem
          exact hskip (by simp [hmem])
        · exact fun hmem => ih h (List.mem_cons_of_mem _ hmem)

theorem fileTurns_nodup (files : List UnitFileEntry) (seen : List PyStr) :
    (fileTurns file files seen).names.Nodup := by
  induction files generalizing seen with
  | nil => exact List.nodup_nil
  | cons entry files ih =>
      rw [fileTurns]
      split
      · exact ih seen
      · apply List.nodup_cons.mpr
        exact ⟨fun hmem => not_seen_of_mem_fileTurns hmem List.mem_cons_self, ih _⟩

theorem listingTurns_eq (bus : Bus) : listingTurns suffix loaded file bus =
    (loadedTurns suffix loaded bus.units []).1 ++
      fileTurns file (bus.unitFiles suffix) (loadedTurns suffix loaded bus.units []).2 := rfl

/-- A listing takes up each unit at most once. -/
theorem listingTurns_nodup (bus : Bus) : (listingTurns suffix loaded file bus).names.Nodup := by
  rw [listingTurns_eq, Turns.names, List.map_append]
  apply List.nodup_append.mpr
  refine ⟨(loadedTurns_names bus.units []).nodup bus.units_nodup, fileTurns_nodup _ _, ?_⟩
  rintro name hloaded _ hfile rfl
  exact not_seen_of_mem_fileTurns hfile
    ((mem_loadedTurns_seen bus.units [] name).mpr (.inr hloaded))

end

/-! ## What is taken up -/

section

variable {α : Type} {suffix : PyStr} {loaded : ListedUnit → Reading (Option α)}
  {file : UnitFileEntry → Reading (Option α)} {turn : PyStr × Reading (Option α)}

theorem mem_loadedTurns {units : List ListedUnit} {seen : List PyStr} :
    turn ∈ (loadedTurns suffix loaded units seen).1 ↔
      ∃ unit ∈ units, suffix.isSuffixOf unit.name = true ∧
        isUnlistedUnit unit.load_state unit.active_state = false ∧ turn = (unit.name, loaded unit) := by
  induction units generalizing seen with
  | nil => simp [loadedTurns]
  | cons unit units ih =>
      rw [loadedTurns]
      cases hsuffix : suffix.isSuffixOf unit.name with
      | false =>
          rw [Bool.not_false, if_pos rfl, ih]
          simp only [List.exists_mem_cons_iff, hsuffix, Bool.false_eq_true, false_and, false_or]
      | true =>
          rw [Bool.not_true, if_neg Bool.false_ne_true]
          cases hskip : isUnlistedUnit unit.load_state unit.active_state with
          | true =>
              rw [if_pos rfl, ih]
              simp only [List.exists_mem_cons_iff, hskip, Bool.true_eq_false, false_and, and_false,
                false_or]
          | false =>
              rw [if_neg Bool.false_ne_true]
              rw [List.exists_mem_cons_iff, hsuffix, hskip, List.mem_cons, ih]
              simp only [true_and]

theorem of_mem_fileTurns {files : List UnitFileEntry} {seen : List PyStr}
    (h : turn ∈ fileTurns file files seen) :
    ∃ entry ∈ files, entry.name ∉ seen ∧ entry.state.isUnlisted = false ∧
      turn = (entry.name, file entry) := by
  induction files generalizing seen with
  | nil => cases h
  | cons entry files ih =>
      rw [fileTurns] at h
      by_cases hskip : (seen.contains entry.name || entry.state.isUnlisted) = true
      · rw [if_pos hskip] at h
        obtain ⟨other, hother, hrest⟩ := ih h
        exact ⟨other, List.mem_cons_of_mem _ hother, hrest⟩
      · rw [if_neg hskip] at h
        rcases List.mem_cons.mp h with rfl | h
        · simp only [Bool.or_eq_true, List.contains_iff_mem, not_or, Bool.not_eq_true] at hskip
          exact ⟨entry, List.mem_cons_self, hskip.1, hskip.2, rfl⟩
        · obtain ⟨other, hother, hseen, hrest⟩ := ih h
          exact ⟨other, List.mem_cons_of_mem _ hother,
            fun hmem => hseen (List.mem_cons_of_mem _ hmem), hrest⟩

theorem mem_fileTurns {files : List UnitFileEntry} {seen : List PyStr} {entry : UnitFileEntry}
    (hnodup : (files.map (·.name)).Nodup) (hentry : entry ∈ files) (hseen : entry.name ∉ seen)
    (hstate : entry.state.isUnlisted = false) :
    (entry.name, file entry) ∈ fileTurns file files seen := by
  induction files generalizing seen with
  | nil => cases hentry
  | cons first files ih =>
      obtain ⟨hfirst, hnodup⟩ := List.nodup_cons.mp hnodup
      rw [fileTurns]
      rcases List.mem_cons.mp hentry with rfl | hentry
      · simp [hseen, hstate]
      · have hne : entry.name ≠ first.name := by
          intro heq
          apply hfirst
          show first.name ∈ files.map (·.name)
          rw [← heq]
          exact List.mem_map_of_mem hentry
        split
        · exact ih hnodup hentry hseen
        · apply List.mem_cons_of_mem
          exact ih hnodup hentry (by simp [hne, hseen])

theorem mem_listingTurns {bus : Bus} (h : turn ∈ listingTurns suffix loaded file bus) :
    (∃ unit ∈ bus.units, suffix.isSuffixOf unit.name = true ∧ turn = (unit.name, loaded unit)) ∨
      ∃ entry ∈ bus.unitFiles suffix, turn = (entry.name, file entry) := by
  rw [listingTurns_eq] at h
  rcases List.mem_append.mp h with h | h
  · obtain ⟨unit, hunit, hsuffix, -, hturn⟩ := mem_loadedTurns.mp h
    exact .inl ⟨unit, hunit, hsuffix, hturn⟩
  · obtain ⟨entry, hentry, -, -, hturn⟩ := of_mem_fileTurns h
    exact .inr ⟨entry, hentry, hturn⟩

/-- A listing takes up names with its suffix only. -/
theorem suffix_of_mem_listingTurns {bus : Bus} (h : turn ∈ listingTurns suffix loaded file bus) :
    suffix.isSuffixOf turn.1 = true := by
  rcases mem_listingTurns h with ⟨unit, -, hsuffix, rfl⟩ | ⟨entry, hentry, rfl⟩
  · exact hsuffix
  · have := List.of_mem_filter hentry
    simp only [Bool.and_eq_true] at this
    exact this.1

end

/-! ## Timers -/

section

variable (resolve : PyStr → Option Nat) (strict : Bool)

/-- The record of a loaded timer from its `ListUnits` entry and its unit file state. -/
def listedTimer (unit : ListedUnit) : Reading ScheduledTaskInfo := do
  let state ← unitFileState unit.name
  timerTask resolve unit.name (some unit.path) (state.getD .empty)
    ⟨unit.active_state, unit.description⟩

def refusedTimer (name : PyStr) : PyStr := py "systemd refused a read of unit '" ++ name ++ py "'"

/-- `_timer_file_path` -/
def timerFilePath (name : PyStr) : Reading (Option PyStr) :=
  orSkip (py "cannot load timer unit '" ++ name ++ py "'") strict (Dbus.loadUnit name)

def loadedTimerTurn (unit : ListedUnit) : Reading (Option ScheduledTaskInfo) :=
  unlessRefused (refusedTimer unit.name) strict (listedTimer resolve unit)

def timerFileTurn (file : UnitFileEntry) : Reading (Option ScheduledTaskInfo) := do
  match ← timerFilePath strict file.name with
  | none => return none
  | some path =>
    unlessRefused (refusedTimer file.name) strict
      (timerTaskAt resolve file.name (some path) file.state)

def timerTurns (bus : Bus) : Turns ScheduledTaskInfo :=
  listingTurns timerSuffix (loadedTimerTurn resolve strict) (timerFileTurn resolve strict) bus

/-- `iter_timers()` -/
def iterTimers (bus : Bus) : Asking.Stream Read PyError ScheduledTaskInfo :=
  streamOf bus (timerTurns resolve strict bus)

/-! ## One task by its name -/

/-- Whether a loaded unit is no task: masked counts unless it runs. -/
def isAbsent (loaded : LoadedUnit) (file_state : UnitFileState) : Reading Bool := do
  let load_state := if file_state.isUnlisted then .masked else loaded.load_state
  let active_state ← pathActiveState (some loaded.path)
  return isUnlistedUnit load_state active_state

/-- The unit loaded; `none` when it has no unit file or is an alias of another unit. -/
def loadNamedUnit (unit : PyStr) : Reading (Option LoadedUnit) := do
  match ← loadUnitState unit with
  | none => return none
  | some loaded =>
    match ← pathProperty (some loaded.path) .id with
    | none => .raise (nativeCallError [.text (py "cannot read the Id of '" ++ unit ++ py "'")])
    | some id => return if id = unit then some loaded else none

/-- The unit loaded, with its unit file state; `none` when it is no task by the listing's rules. -/
def resolveNamed (unit : PyStr) : Reading (Option (LoadedUnit × UnitFileState)) := do
  let state := (← unitFileState unit).getD .empty
  if state = .alias then return none
  else
    match ← loadNamedUnit unit with
    | none => return none
    | some loaded =>
      let absent ← isAbsent loaded state
      return if absent then none else some (loaded, state)

/-- The text of a unit file, or the error of reading it. -/
abbrev FileTexts := PyStr → Except PyError PyStr

variable (texts : FileTexts)

/-- Whether the unit file at `fragment` carries the ownership key. -/
def ownedFragment (unit fragment : PyStr) : Reading Bool :=
  if fragment.isEmpty then return false
  else
    match texts fragment with
    | .ok text => return isPwshpyUnit text
    | .error e => do
      skipOrRaise (py "cannot read the unit file of '" ++ unit ++ py "' (" ++ fragment ++ py ")") e
        strict
      return false

/-- Whether the on-demand unit is a task: its unit file carries the ownership key. -/
def ownedService (unit path : PyStr) : Reading Bool := do
  let what := py "cannot read the unit file path of '" ++ unit ++ py "'"
  match ← (pathProperty (some path) .fragmentPath).caught with
  | .error e =>
    skipOrRaise what e strict
    return false
  | .ok none =>
    skipOrRaise what
      (nativeCallError [.text (py "systemd did not answer the FragmentPath read")]) strict
    return false
  | .ok (some fragment) => ownedFragment strict texts unit fragment

/-- The service half of a lookup: a service pwshpy registered, else nothing. -/
def lookupService (base : PyStr) (found : LoadedUnit × UnitFileState) :
    Reading (Option ScheduledTaskInfo) := do
  let unit := base ++ serviceSuffix
  let owned ← ownedService strict texts unit found.1.path
  if owned then
    unlessRefused (refusedTimer unit) strict (serviceTask resolve base (some found.1.path))
  else return none

def lookupTimerTask (base : PyStr) (found : LoadedUnit × UnitFileState) :
    Reading (Option ScheduledTaskInfo) :=
  unlessRefused (refusedTimer (base ++ timerSuffix)) strict
    (timerTaskAt resolve (base ++ timerSuffix) (some found.1.path) found.2)

/-- One unit of a lookup: `found` goes on from it, `absent` when it is no task. -/
def lookupNamed {α : Type} (unit : PyStr)
    (found : LoadedUnit × UnitFileState → Reading (Option α)) (absent : Reading (Option α)) :
    Reading (Option α) := do
  match ← (resolveNamed unit).caught with
  | .ok none => absent
  | .ok (some resolved) => found resolved
  | .error e =>
    if isNativeCallError e then
      skipOrRaise (py "cannot load unit '" ++ unit ++ py "'") e strict
      return none
    else .raise e

/-- `_lookup_unit`: the timer task, else the service pwshpy registered, else nothing. -/
def lookupUnit (base : PyStr) : Reading (Option ScheduledTaskInfo) :=
  lookupNamed strict (base ++ timerSuffix) (lookupTimerTask resolve strict base) <|
    lookupNamed strict (base ++ serviceSuffix) (lookupService resolve strict texts base) (return none)

/-- `iter_timers(task_name=…)`; a name that is refused raises before anything is read. -/
def iterTimersNamed (task_name : PyStr) (bus : Bus) :
    Asking.Stream Read PyError ScheduledTaskInfo :=
  match (do checkTaskName task_name; existingUnitBase task_name : Except PyError PyStr) with
  | .error e => ⟨[], some e, []⟩
  | .ok base => Asking.stream bus.replies [lookupUnit resolve strict texts base]

end

/-! ## Services -/

section

variable (strict : Bool)

def refusedService (name : PyStr) : PyStr :=
  py "systemd refused a read of service unit '" ++ name ++ py "'"

def serviceFilePath (name : PyStr) : Reading (Option PyStr) :=
  orSkip (py "cannot load service unit '" ++ name ++ py "'") strict (Dbus.loadUnit name)

/-- The record of a loaded service from its `ListUnits` entry and its start type. -/
def listedService (unit : ListedUnit) : Reading ServiceInfo := do
  let start_type ← startTypeOf unit.name
  return {
    name := unit.name
    display_name := unit.description
    status := toServiceState unit.active_state
    start_type
    can_stop := true
    can_pause_continue := false }

def loadedServiceTurn (unit : ListedUnit) : Reading (Option ServiceInfo) :=
  unlessRefused (refusedService unit.name) strict (listedService unit)

def serviceFileTurn (file : UnitFileEntry) : Reading (Option ServiceInfo) := do
  match ← serviceFilePath strict file.name with
  | none => return none
  | some path =>
    unlessRefused (refusedService file.name) strict
      (serviceAt file.name path (toStartType file.state))

def serviceTurns (bus : Bus) : Turns ServiceInfo :=
  listingTurns serviceSuffix (loadedServiceTurn strict) (serviceFileTurn strict) bus

/-- `iter_services()` -/
def iterServices (bus : Bus) : Asking.Stream Read PyError ServiceInfo :=
  streamOf bus (serviceTurns strict bus)

end

end PwshPy.Systemd
