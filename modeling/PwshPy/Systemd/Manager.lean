import PwshPy.Systemd.Listing

/-! # A manager at rest

The state systemd keeps: the units in memory, the unit files, and the unit each
name leads to. Every reply of its bus follows from that state, so between two
calls nothing changes and every read succeeds.
-/

namespace PwshPy.Systemd

open Effects (Asking)
open Dbus

/-- A unit as the bus shows it: one value for each property. -/
abbrev UnitObject := ∀ property : Property, property.Value

namespace UnitObject

def id (u : UnitObject) : PyStr := u .id
def loadState (u : UnitObject) : LoadState := .parse (u .loadState)
def activeState (u : UnitObject) : ActiveState := .parse (u .activeState)
def isRunning (u : UnitObject) : Bool := u.activeState.isRunning

end UnitObject

/-- A timestamp systemd reports: infinity, or an instant before the year 10000. -/
def IsTimestamp (usec : Nat) : Prop := usec = usecInfinity ∨ usec ≤ lastInstant

structure Manager where
  /-- the object paths of the units in memory -/
  units : List PyStr
  /-- the paths of the unit files and their states -/
  files : List (PyStr × PyStr)
  /-- the object `LoadUnit` answers for a name: of the unit it names, loaded from its file if needed -/
  loadUnit : PyStr → PyStr
  unitAt : PyStr → UnitObject
  /-- the state of the file of a unit, `none` without one -/
  fileState : PyStr → Option PyStr
  ids_nodup : (units.map fun path => (unitAt path).id).Nodup
  own_name : ∀ path ∈ units, loadUnit (unitAt path).id = path
  /-- a unit loaded only for the call does not run -/
  loaded_stopped : ∀ name, loadUnit name ∉ units → (unitAt (loadUnit name)).isRunning = false
  /-- a unit that is no instance and not in memory is loaded from a file the listing names -/
  loaded_from_file : ∀ name, 0x40 ∉ name → loadUnit name ∉ units →
    (unitAt (loadUnit name)).loadState ≠ .notFound → name ∈ files.map (fileName ·.1)
  files_nodup : (files.map (fileName ·.1)).Nodup
  file_states : ∀ file ∈ files, fileState (fileName file.1) = some file.2
  timestamps : ∀ path, IsTimestamp (unitAt path .lastTriggerUSec) ∧
    IsTimestamp (unitAt path .nextElapseUSecRealtime) ∧
    IsTimestamp (unitAt path .execMainStartTimestamp)

namespace Manager

variable (m : Manager)

def fileNotFound : DbusError := ⟨py "org.freedesktop.DBus.Error.FileNotFound", []⟩

/-- The entry of `ListUnits` for a unit in memory. -/
def entry (path : PyStr) : ListedUnit where
  name := (m.unitAt path).id
  description := m.unitAt path .description
  load_state := (m.unitAt path).loadState
  active_state := (m.unitAt path).activeState
  path := path

def replies : ∀ read : Read, read.Reply
  | .loadUnit name => .ok (m.loadUnit name)
  | .getUnitFileState name =>
    match m.fileState name with
    | some state => .ok state
    | none => .error fileNotFound
  | .get path property => .ok (m.unitAt path property)

def bus : Bus where
  units := m.units.map m.entry
  units_nodup := by
    have h := m.ids_nodup
    rw [List.map_map]
    exact h
  files := m.files
  replies := m.replies

/-- `GetUnitFileState` as the code reads it. -/
def stateOf (name : PyStr) : UnitFileState := ((m.fileState name).map .parse).getD .empty

/-- The unit a name leads to. -/
def unitOf (name : PyStr) : UnitObject := m.unitAt (m.loadUnit name)

/-! ## Every read succeeds -/

/-- The program returns. -/
def Returns {α : Type} (x : Reading α) : Prop := ∃ a, x.result m.replies = .ok a

variable {m}

theorem Returns.pure {α : Type} (a : α) : m.Returns (Pure.pure a) := ⟨a, rfl⟩

theorem Returns.bind {α β : Type} {x : Reading α} {f : α → Reading β} (hx : m.Returns x)
    (hf : ∀ a, m.Returns (f a)) : m.Returns (x >>= f) := by
  obtain ⟨a, ha⟩ := hx
  obtain ⟨b, hb⟩ := hf a
  refine ⟨b, ?_⟩
  rw [Asking.result_bind, ha]
  exact hb

variable (m)

@[simp] theorem result_pathProperty (path : PyStr) (property : Property) :
    (pathProperty (some path) property).result m.replies = .ok (some (m.unitAt path property)) := rfl

@[simp] theorem result_pathActiveState (path : PyStr) :
    (pathActiveState (some path)).result m.replies = .ok (m.unitAt path).activeState := rfl

@[simp] theorem result_unitFileState (name : PyStr) :
    (unitFileState name).result m.replies = .ok ((m.fileState name).map .parse) := by
  rw [unitFileState, readOr, Asking.result_ask]
  cases h : m.fileState name with
  | some state => simp [replies, h, Pure.pure]
  | none =>
      have hnot : fileNotFound.isDenied = false := by decide
      simp [replies, h, hnot, Pure.pure]

@[simp] theorem result_loadUnitState (name : PyStr) :
    (loadUnitState name).result m.replies =
      .ok (if (m.unitOf name).loadState = .notFound then none
        else some ⟨m.loadUnit name, (m.unitOf name).loadState⟩) := by
  show Asking.result m.replies
    (if LoadState.parse (m.unitAt (m.loadUnit name) .loadState) = .notFound then return none
      else return some ⟨m.loadUnit name, .parse (m.unitAt (m.loadUnit name) .loadState)⟩ :
        Reading (Option LoadedUnit)) = _
  by_cases h : (m.unitOf name).loadState = .notFound
  · have h' : LoadState.parse (m.unitAt (m.loadUnit name) .loadState) = .notFound := h
    rw [if_pos h', if_pos h]
    rfl
  · have h' : ¬ LoadState.parse (m.unitAt (m.loadUnit name) .loadState) = .notFound := h
    rw [if_neg h', if_neg h]
    rfl

theorem result_loadUnit (name : PyStr) : (Dbus.loadUnit name).result m.replies =
    .ok (if (m.unitOf name).loadState = .notFound then none else some (m.loadUnit name)) := by
  rw [Dbus.loadUnit, Asking.result_bind, result_loadUnitState]
  by_cases h : (m.unitOf name).loadState = .notFound
  · simp only [h, if_true]
    rfl
  · simp only [h, if_false]
    rfl

theorem returns_pathProperty (path : Option PyStr) (property : Property) :
    m.Returns (pathProperty path property) := by
  cases path with
  | none => exact ⟨none, rfl⟩
  | some path => exact ⟨_, result_pathProperty m path property⟩

theorem returns_loadUnitPath (name : PyStr) : m.Returns (loadUnitPath name) := by
  have h := result_loadUnit m name
  exact ⟨_, by rw [loadUnitPath, Asking.result_handling, h]⟩

/-! ## Every unit has its record -/

theorem usecToDatetime_ok {usec : Nat} (h : IsTimestamp usec) :
    ∃ instant, usecToDatetime usec = .ok instant := by
  by_cases hnone : usec = 0 ∨ usec = usecInfinity
  · exact ⟨none, by rw [usecToDatetime, if_pos hnone]⟩
  · have hle : usec ≤ lastInstant := h.resolve_left fun heq => hnone (.inr heq)
    exact ⟨some usec, by rw [usecToDatetime, if_neg hnone, if_pos hle]⟩

theorem isTimestamp_latestUsec {values : List Nat} (h : ∀ v ∈ values, IsTimestamp v) :
    IsTimestamp (latestUsec values) := by
  have hfold : ∀ (vs : List Nat) (n : Nat), n ≤ lastInstant →
      (∀ v ∈ vs, v ≠ usecInfinity → IsTimestamp v) → (∀ v ∈ vs, v ≠ usecInfinity) →
      vs.foldl max n ≤ lastInstant := by
    intro vs
    induction vs with
    | nil => exact fun n hn _ _ => hn
    | cons v vs ih =>
        intro n hn hvs hfin
        apply ih
        · have hv := (hvs v List.mem_cons_self (hfin v List.mem_cons_self)).resolve_left
            (hfin v List.mem_cons_self)
          omega
        · exact fun w hw => hvs w (List.mem_cons_of_mem _ hw)
        · exact fun w hw => hfin w (List.mem_cons_of_mem _ hw)
  refine .inr (hfold _ 0 (by decide) ?_ ?_)
  · exact fun v hv _ => h v (List.mem_of_mem_filter hv)
  · intro v hv
    have := List.of_mem_filter hv
    simp only [decide_eq_true_eq] at this
    exact this.2

theorem result_serviceRun (path : Option PyStr) :
    ∃ result started, (serviceRun path).result m.replies = .ok (result, started) ∧
      IsTimestamp started := by
  cases path with
  | none => exact ⟨_, 0, rfl, .inr (by decide)⟩
  | some path => exact ⟨_, _, rfl, (m.timestamps path).2.2⟩

theorem returns_lifted {usec : Nat} (h : IsTimestamp usec) :
    m.Returns (lifted (usecToDatetime usec)) := by
  obtain ⟨instant, hinstant⟩ := usecToDatetime_ok h
  rw [hinstant]
  exact Returns.pure instant

theorem returns_serviceUser (resolve : PyStr → Option Nat) (path : Option PyStr) :
    m.Returns (serviceUser resolve path) :=
  (returns_pathProperty m path .user).bind fun _ => Returns.pure _

theorem returns_serviceSettings (path : Option PyStr) : m.Returns (serviceSettings path) := by
  apply (returns_pathProperty m path .type).bind
  intro service_type
  apply (returns_pathProperty m path .sendSIGKILL).bind
  intro send_sigkill
  apply (returns_pathProperty m path .refuseManualStart).bind
  intro refuse_manual_start
  apply (returns_pathProperty m path .conditions).bind
  intro conditions
  apply Returns.bind
  · rw [oneshotTimeout]
    split
    · exact returns_pathProperty m path .timeoutStartUSec
    · exact Returns.pure _
  · exact fun _ => Returns.pure _

theorem returns_timerRunInfo (resolve : PyStr → Option Nat) (path base : PyStr) :
    m.Returns (timerRunInfo resolve (some path) base) := by
  apply (returns_pathProperty m (some path) .unit).bind
  intro service
  apply (returns_loadUnitPath m _).bind
  intro service_path
  obtain ⟨result, started, hrun, hstarted⟩ := result_serviceRun m service_path
  have htrigger := (m.timestamps path).1
  have helapse := (m.timestamps path).2.1
  have hlatest : IsTimestamp (latestUsec [m.unitAt path .lastTriggerUSec, started]) := by
    apply isTimestamp_latestUsec
    intro v hv
    rcases List.mem_cons.mp hv with rfl | hv
    · exact htrigger
    · rw [List.mem_singleton.mp hv]
      exact hstarted
  have hrest : m.Returns (do
      let last_run_time ← lifted (usecToDatetime (latestUsec [m.unitAt path .lastTriggerUSec, started]))
      let next_elapse ← pathProperty (some path) .nextElapseUSecRealtime
      let next_run_time ← lifted (usecToDatetime (next_elapse.getD 0))
      let user_id ← serviceUser resolve service_path
      let settings ← serviceSettings service_path
      return ({ last_run_time, last_task_result := result, next_run_time, user_id, settings } :
        RunInfo)) := by
    apply (returns_lifted m hlatest).bind
    intro last_run_time
    have hnext : m.Returns (do
        let next_run_time ← lifted (usecToDatetime (m.unitAt path .nextElapseUSecRealtime))
        let user_id ← serviceUser resolve service_path
        let settings ← serviceSettings service_path
        return ({ last_run_time, last_task_result := result, next_run_time, user_id, settings } :
          RunInfo)) := by
      apply (returns_lifted m helapse).bind
      intro next_run_time
      apply (returns_serviceUser m resolve service_path).bind
      intro user_id
      apply (returns_serviceSettings m service_path).bind
      exact fun _ => Returns.pure _
    exact hnext
  obtain ⟨info, hinfo⟩ := hrest
  refine ⟨info, ?_⟩
  rw [Asking.result_bind, hrun]
  exact hinfo

theorem result_timerTask (resolve : PyStr → Option Nat) (name path : PyStr)
    (state : UnitFileState) (header : TimerHeader) :
    ∃ record, (timerTask resolve name (some path) state header).result m.replies = .ok record ∧
      record.task_name = recordName name := by
  obtain ⟨info, hinfo⟩ := returns_timerRunInfo m resolve path (recordName name)
  rw [timerTask, Asking.result_bind, hinfo]
  exact ⟨_, rfl, rfl⟩

/-- The record of a timer read from its object. -/
theorem result_timerTaskAt (resolve : PyStr → Option Nat) (name path : PyStr)
    (state : UnitFileState) :
    (timerTaskAt resolve name (some path) state).result m.replies =
      (timerTask resolve name (some path) state
        ⟨(m.unitAt path).activeState, m.unitAt path .description⟩).result m.replies := rfl

end Manager

end PwshPy.Systemd
