import PwshPy.Systemd.Manager
import Mathlib.Data.List.Nodup

/-! # Listing and lookup by name

A listing takes a timer from `ListUnits` or from the unit files, a lookup from
`LoadUnit`, the unit file state and the Id. On a manager at rest both decisions
are conditions on the same state, and here they are compared.
-/

namespace PwshPy.Systemd

open Effects (Asking)
open Dbus

namespace Manager

variable (m : Manager)

/-! ## The two decisions -/

/-- The listing takes the unit from memory, under its own name. -/
def TakenFromMemory (name : PyStr) : Prop :=
  m.loadUnit name ∈ m.units ∧ (m.unitOf name).id = name ∧
    isUnlistedUnit (m.unitOf name).loadState (m.unitOf name).activeState = false

/-- The listing takes the unit from its file. -/
def TakenFromFile (name : PyStr) : Prop :=
  name ∈ m.files.map (fileName ·.1) ∧ (m.stateOf name).isUnlisted = false ∧
    (m.unitOf name).loadState ≠ .notFound

/-- The lookup finds the unit. -/
def Found (name : PyStr) : Prop :=
  m.stateOf name ≠ .alias ∧ (m.unitOf name).loadState ≠ .notFound ∧ (m.unitOf name).id = name ∧
    isUnlistedUnit (if (m.stateOf name).isUnlisted then .masked else (m.unitOf name).loadState)
      (m.unitOf name).activeState = false

/-- What systemd holds in memory about a unit agrees with its file. -/
structure Settled (name : PyStr) : Prop where
  /-- a unit whose file is gone does not run -/
  gone_stopped : (m.unitOf name).id = name → (m.unitOf name).loadState = .notFound →
    (m.unitOf name).isRunning = false
  /-- a unit file that is a name of another unit is reported as one -/
  alias_reported : (m.unitOf name).loadState ≠ .notFound → (m.unitOf name).id ≠ name →
    name ∈ m.files.map (fileName ·.1) → (m.stateOf name).isUnlisted = true
  /-- the file of a unit that runs has not become a name of another unit -/
  running_not_aliased : m.loadUnit name ∈ m.units → (m.unitOf name).id = name →
    (m.unitOf name).loadState ≠ .notFound → m.stateOf name = .alias →
    (m.unitOf name).isRunning = false
  /-- a stopped unit in memory whose file is masked, or a name of another unit, is loaded as masked -/
  masked_loaded : m.loadUnit name ∈ m.units → (m.unitOf name).id = name →
    (m.unitOf name).loadState ≠ .notFound → (m.stateOf name).isUnlisted = true →
    (m.unitOf name).isRunning = false → (m.unitOf name).loadState = .masked
  /-- a stopped unit loaded as masked is masked in its file -/
  masked_in_file : (m.unitOf name).id = name → (m.unitOf name).loadState = .masked →
    (m.unitOf name).isRunning = false → name ∈ m.files.map (fileName ·.1) →
    (m.stateOf name).isUnlisted = true

theorem isUnlistedUnit_eq_false {load : LoadState} {state : ActiveState} :
    isUnlistedUnit load state = false ↔
      state.isRunning = true ∨ (load ≠ .notFound ∧ load ≠ .masked) := by
  cases load <;> cases state <;> decide

theorem found_iff (name : PyStr) : m.Found name ↔
    m.stateOf name ≠ .alias ∧ (m.unitOf name).loadState ≠ .notFound ∧ (m.unitOf name).id = name ∧
      ((m.unitOf name).isRunning = true ∨
        ((m.stateOf name).isUnlisted = false ∧ (m.unitOf name).loadState ≠ .masked)) := by
  rw [Found, isUnlistedUnit_eq_false]
  cases h : (m.stateOf name).isUnlisted with
  | true => simp [UnitObject.isRunning]
  | false =>
      simp only [Bool.false_eq_true, if_false, UnitObject.isRunning, true_and]
      tauto

/-- A unit that runs is in memory. -/
theorem mem_units_of_isRunning {name : PyStr} (h : (m.unitOf name).isRunning = true) :
    m.loadUnit name ∈ m.units := by
  by_contra hnot
  have := m.loaded_stopped name hnot
  rw [unitOf, this] at h
  cases h

theorem isUnlisted_alias {state : UnitFileState} (h : state = .alias) : state.isUnlisted = true := by
  rw [h]
  rfl

/-- The two decisions agree exactly on the units that are settled. -/
theorem settled_iff {name : PyStr} (hplain : 0x40 ∉ name) :
    (m.TakenFromMemory name ∨ m.TakenFromFile name ↔ m.Found name) ↔ m.Settled name := by
  have hfile : m.loadUnit name ∉ m.units → (m.unitOf name).loadState ≠ .notFound →
      name ∈ m.files.map (fileName ·.1) := m.loaded_from_file name hplain
  have hmem := @mem_units_of_isRunning m name
  have halias := @isUnlisted_alias (m.stateOf name)
  rw [found_iff, TakenFromMemory, TakenFromFile, isUnlistedUnit_eq_false]
  simp only [UnitObject.isRunning] at hmem
  -- what is left is a case analysis over the five attributes of the unit
  constructor
  · intro h
    refine ⟨?_, ?_, ?_, ?_, ?_⟩ <;> simp only [UnitObject.isRunning] at * <;> grind
  · rintro ⟨h₁, h₂, h₃, h₄, h₅⟩
    simp only [UnitObject.isRunning] at *
    grind

/-! ## The lookup -/

theorem result_isAbsent (loaded : LoadedUnit) (state : UnitFileState) :
    (isAbsent loaded state).result m.replies =
      .ok (isUnlistedUnit (if state.isUnlisted then .masked else loaded.load_state)
        (m.unitAt loaded.path).activeState) := rfl

theorem result_loadNamedUnit (name : PyStr) : (loadNamedUnit name).result m.replies =
    .ok (if (m.unitOf name).loadState = .notFound then none
      else if (m.unitOf name).id = name then some ⟨m.loadUnit name, (m.unitOf name).loadState⟩
      else none) := by
  rw [loadNamedUnit, Asking.result_bind, result_loadUnitState]
  by_cases hload : (m.unitOf name).loadState = .notFound
  · rw [if_pos hload, if_pos hload]
    rfl
  · rw [if_neg hload, if_neg hload]
    rfl

theorem result_resolveNamed_of_found {name : PyStr} (h : m.Found name) :
    (resolveNamed name).result m.replies =
      .ok (some (⟨m.loadUnit name, (m.unitOf name).loadState⟩, m.stateOf name)) := by
  obtain ⟨halias, hload, hid, hlisted⟩ := h
  have halias' : ((m.fileState name).map UnitFileState.parse).getD .empty ≠ .alias := halias
  have hload' := result_loadNamedUnit m name
  rw [if_neg hload, if_pos hid] at hload'
  rw [resolveNamed, Asking.result_bind, result_unitFileState]
  simp only [if_neg halias']
  rw [Asking.result_bind, hload']
  simp only
  rw [Asking.result_bind, result_isAbsent]
  have hlisted' : isUnlistedUnit
      (if (((m.fileState name).map UnitFileState.parse).getD .empty).isUnlisted then .masked
        else (m.unitOf name).loadState) (m.unitAt (m.loadUnit name)).activeState = false := hlisted
  simp only [hlisted']
  rfl

theorem result_resolveNamed_of_not_found {name : PyStr} (h : ¬ m.Found name) :
    (resolveNamed name).result m.replies = .ok none := by
  rw [resolveNamed, Asking.result_bind, result_unitFileState]
  by_cases halias : ((m.fileState name).map UnitFileState.parse).getD .empty = .alias
  · simp only [if_pos halias]
    rfl
  · simp only [if_neg halias]
    rw [Asking.result_bind, result_loadNamedUnit]
    by_cases hload : (m.unitOf name).loadState = .notFound
    · rw [if_pos hload]
      rfl
    · rw [if_neg hload]
      by_cases hid : (m.unitOf name).id = name
      · rw [if_pos hid]
        simp only
        rw [Asking.result_bind, result_isAbsent]
        have habsent : isUnlistedUnit
            (if (((m.fileState name).map UnitFileState.parse).getD .empty).isUnlisted then .masked
              else (m.unitOf name).loadState) (m.unitAt (m.loadUnit name)).activeState = true := by
          by_contra hlisted
          rw [Bool.not_eq_true] at hlisted
          exact h ⟨halias, hload, hid, hlisted⟩
        simp only [habsent]
        rfl
      · rw [if_neg hid]
        rfl

/-- `r` is the record read from the object of the unit, with its unit file state. -/
def IsRecord (resolve : PyStr → Option Nat) (name : PyStr) (r : ScheduledTaskInfo) : Prop :=
  (timerTaskAt resolve name (some (m.loadUnit name)) (m.stateOf name)).result m.replies = .ok r

theorem exists_isRecord (resolve : PyStr → Option Nat) (name : PyStr) :
    ∃ r, m.IsRecord resolve name r ∧ r.task_name = recordName name := by
  obtain ⟨r, hr, hname⟩ := result_timerTask m resolve name (m.loadUnit name) (m.stateOf name) _
  exact ⟨r, hr, hname⟩

end Manager

/-- A record read from the unit: its reads are those that resolve the unit, then
those of its record. -/
def ReadFrom (resolve : PyStr → Option Nat) (bus : Bus) (unit : PyStr)
    (item : ScheduledTaskInfo × List Read) : Prop :=
  ∃ path state, item.2 = (resolveNamed unit).trace bus.replies ++
    (timerTaskAt resolve unit (some path) state).trace bus.replies

section

variable (m : Manager) (resolve : PyStr → Option Nat) (strict : Bool) (texts : FileTexts)

theorem result_unlessRefused {α : Type} {what : PyStr} {read : Reading α} {a : α}
    (h : read.result m.replies = .ok a) :
    (unlessRefused what strict read).result m.replies = .ok (some a) ∧
      (unlessRefused what strict read).trace m.replies = read.trace m.replies := by
  rw [unlessRefused, Asking.result_bind, Asking.trace_bind, Asking.result_caught,
    Asking.trace_caught, h]
  exact ⟨rfl, List.append_nil _⟩

theorem run_lookupUnit_of_found {base : PyStr} (h : m.Found (base ++ timerSuffix))
    {r : ScheduledTaskInfo} (hr : m.IsRecord resolve (base ++ timerSuffix) r) :
    (lookupUnit resolve strict texts base).result m.replies = .ok (some r) ∧
      (lookupUnit resolve strict texts base).trace m.replies =
        (resolveNamed (base ++ timerSuffix)).trace m.replies ++
          (timerTaskAt resolve (base ++ timerSuffix) (some (m.loadUnit (base ++ timerSuffix)))
            (m.stateOf (base ++ timerSuffix))).trace m.replies := by
  obtain ⟨hresult, htrace⟩ :=
    @result_unlessRefused m strict _ (refusedTimer (base ++ timerSuffix)) _ _ hr
  have hresolved := m.result_resolveNamed_of_found h
  rw [lookupUnit, lookupNamed, Asking.result_bind, Asking.trace_bind, Asking.result_caught,
    Asking.trace_caught, hresolved]
  exact ⟨hresult, congrArg _ htrace⟩

theorem trace_lookupUnit_of_not_found {base : PyStr} (h : ¬ m.Found (base ++ timerSuffix)) :
    ∃ rest, (lookupUnit resolve strict texts base).trace m.replies =
      (resolveNamed (base ++ timerSuffix)).trace m.replies ++
        .getUnitFileState (base ++ serviceSuffix) :: rest := by
  have hresolved := m.result_resolveNamed_of_not_found h
  rw [lookupUnit, lookupNamed, Asking.trace_bind, Asking.result_caught, Asking.trace_caught,
    hresolved]
  exact ⟨_, rfl⟩

/-- The items of a lookup read from the timer. -/
theorem lookup_items (base : PyStr) (r : ScheduledTaskInfo) :
    (∃ item ∈ (Asking.stream m.replies [lookupUnit resolve strict texts base]).items,
      item.1 = r ∧ ReadFrom resolve m.bus (base ++ timerSuffix) item) ↔
      m.Found (base ++ timerSuffix) ∧ m.IsRecord resolve (base ++ timerSuffix) r := by
  by_cases h : m.Found (base ++ timerSuffix)
  · obtain ⟨record, hrecord, -⟩ := m.exists_isRecord resolve (base ++ timerSuffix)
    obtain ⟨hresult, htrace⟩ := run_lookupUnit_of_found m resolve strict texts h hrecord
    rw [Asking.stream_cons_some hresult]
    constructor
    · rintro ⟨item, hitem, rfl, -⟩
      obtain rfl := List.mem_singleton.mp hitem
      exact ⟨h, hrecord⟩
    · rintro ⟨-, hr⟩
      have hsame : record = r := by
        rw [Manager.IsRecord, hrecord] at hr
        injection hr
      exact ⟨_, List.mem_singleton_self _, hsame,
        m.loadUnit (base ++ timerSuffix), m.stateOf (base ++ timerSuffix), htrace⟩
  · constructor
    · rintro ⟨item, hitem, -, path, state, hread⟩
      obtain ⟨x, hx, -, htrace⟩ := Asking.mem_items hitem
      obtain rfl := List.mem_singleton.mp hx
      obtain ⟨rest, hrest⟩ := trace_lookupUnit_of_not_found m resolve strict texts h
      rw [hrest, hread] at htrace
      -- the lookup went on to the service, where a record would read its description
      have hhead := List.append_cancel_left htrace
      cases hhead
    · rintro ⟨hfound, -⟩
      exact absurd hfound h

/-! ## The listing -/

theorem result_listedTimer {path : PyStr} (h : path ∈ m.units) :
    (listedTimer resolve (m.entry path)).result m.replies =
      (timerTaskAt resolve (m.unitAt path).id (some (m.loadUnit (m.unitAt path).id))
        (m.stateOf (m.unitAt path).id)).result m.replies := by
  rw [m.own_name path h, Manager.result_timerTaskAt, listedTimer, Asking.result_bind,
    Manager.result_unitFileState]
  rfl

/-- What a listing yields for a unit in memory is the record of its own name. -/
theorem result_loadedTimerTurn {path : PyStr} (h : path ∈ m.units) :
    ∃ r, m.IsRecord resolve (m.unitAt path).id r ∧ r.task_name = recordName (m.unitAt path).id ∧
      (loadedTimerTurn resolve strict (m.entry path)).result m.replies = .ok (some r) := by
  obtain ⟨r, hr, hname⟩ := m.exists_isRecord resolve (m.unitAt path).id
  have hlisted := result_listedTimer m resolve h
  rw [hr] at hlisted
  exact ⟨r, hr, hname, (result_unlessRefused m strict hlisted).1⟩

theorem unitFile_state {suffix : PyStr} {entry : UnitFileEntry} (h : entry ∈ m.bus.unitFiles suffix) :
    entry.name ∈ m.files.map (fileName ·.1) ∧ entry.state = m.stateOf entry.name := by
  obtain ⟨file, hfile, rfl⟩ := List.mem_map.mp (List.mem_of_mem_filter h)
  refine ⟨List.mem_map_of_mem hfile, ?_⟩
  simp only [Manager.stateOf, m.file_states file hfile, Option.map_some, Option.getD_some]

/-- What a listing yields for a unit file: its record, unless the unit is not found. -/
theorem result_timerFileTurn {entry : UnitFileEntry} (h : entry ∈ m.bus.unitFiles timerSuffix) :
    ((m.unitOf entry.name).loadState = .notFound ∧
        (timerFileTurn resolve strict entry).result m.replies = .ok none) ∨
      ((m.unitOf entry.name).loadState ≠ .notFound ∧
        ∃ r, m.IsRecord resolve entry.name r ∧ r.task_name = recordName entry.name ∧
          (timerFileTurn resolve strict entry).result m.replies = .ok (some r)) := by
  have hpath : (timerFilePath strict entry.name).result m.replies =
      .ok (if (m.unitOf entry.name).loadState = .notFound then none
        else some (m.loadUnit entry.name)) := by
    rw [timerFilePath, orSkip, Asking.result_bind, Asking.result_caught, Manager.result_loadUnit]
    rfl
  rw [timerFileTurn, Asking.result_bind, hpath]
  by_cases hload : (m.unitOf entry.name).loadState = .notFound
  · rw [if_pos hload]
    exact .inl ⟨hload, rfl⟩
  · obtain ⟨r, hr, hname⟩ := m.exists_isRecord resolve entry.name
    have hread : (timerTaskAt resolve entry.name (some (m.loadUnit entry.name))
        entry.state).result m.replies = .ok r := by
      rw [(unitFile_state m h).2]
      exact hr
    rw [if_neg hload]
    exact .inr ⟨hload, r, hr, hname, (result_unlessRefused m strict hread).1⟩

theorem recordName_append (base : PyStr) : recordName (base ++ timerSuffix) = base := by
  simp [recordName]

theorem eq_of_recordName {name : PyStr} (h : timerSuffix.isSuffixOf name = true) :
    name = recordName name ++ timerSuffix := by
  obtain ⟨base, rfl⟩ := List.isSuffixOf_iff_suffix.mp h
  rw [recordName_append]

/-- Each turn of a listing yields its record or nothing. -/
theorem result_timerTurn {turn : PyStr × Reading (Option ScheduledTaskInfo)}
    (h : turn ∈ timerTurns resolve strict m.bus) :
    turn.2.result m.replies = .ok none ∨
      ∃ r, m.IsRecord resolve turn.1 r ∧ r.task_name = recordName turn.1 ∧
        turn.2.result m.replies = .ok (some r) := by
  rcases mem_listingTurns h with ⟨unit, hunit, -, rfl⟩ | ⟨entry, hentry, rfl⟩
  · obtain ⟨path, hpath, rfl⟩ := List.mem_map.mp hunit
    exact .inr (result_loadedTimerTurn m resolve strict hpath)
  · rcases result_timerFileTurn m resolve strict hentry with ⟨-, hnone⟩ | ⟨-, hsome⟩
    · exact .inl hnone
    · exact .inr hsome

theorem takenFromMemory_of_turn {α : Type} {suffix : PyStr} {turn : PyStr × Reading (Option α)}
    {loaded : ListedUnit → Reading (Option α)} {seen : List PyStr}
    (h : turn ∈ (loadedTurns suffix loaded m.bus.units seen).1) : m.TakenFromMemory turn.1 := by
  obtain ⟨unit, hunit, -, hlisted, rfl⟩ := mem_loadedTurns.mp h
  obtain ⟨path, hpath, rfl⟩ := List.mem_map.mp hunit
  have hown : m.loadUnit (m.entry path).name = path := m.own_name path hpath
  refine ⟨?_, ?_, ?_⟩
  · rw [hown]
    exact hpath
  · rw [Manager.unitOf, hown]
    rfl
  · rw [Manager.unitOf, hown]
    exact hlisted

theorem unitFiles_nodup (suffix : PyStr) : ((m.bus.unitFiles suffix).map (·.name)).Nodup := by
  have hsub : ((m.bus.unitFiles suffix).map (·.name)).Sublist
      ((m.bus.files.map fun file =>
        (⟨fileName file.1, .parse file.2⟩ : UnitFileEntry)).map (·.name)) :=
    List.filter_sublist.map _
  rw [List.map_map] at hsub
  exact hsub.nodup m.files_nodup

/-- A name that is no instance is no template file either. -/
theorem mem_unitFiles {base : PyStr} (hplain : 0x40 ∉ base)
    (h : base ++ timerSuffix ∈ m.files.map (fileName ·.1)) :
    ∃ entry ∈ m.bus.unitFiles timerSuffix, entry.name = base ++ timerSuffix := by
  obtain ⟨file, hfile, hname⟩ := List.mem_map.mp h
  refine ⟨⟨fileName file.1, .parse file.2⟩, ?_, hname⟩
  apply List.mem_filter.mpr
  refine ⟨List.mem_map_of_mem hfile, ?_⟩
  have hsuffix : timerSuffix.isSuffixOf (base ++ timerSuffix) = true :=
    List.isSuffixOf_iff_suffix.mpr (List.suffix_append _ _)
  have htemplate : (0x40 :: timerSuffix).isSuffixOf (base ++ timerSuffix) = false := by
    rw [Bool.eq_false_iff]
    intro hsuffix
    obtain ⟨front, hfront⟩ := List.isSuffixOf_iff_suffix.mp hsuffix
    have hsplit : (front ++ [0x40]) ++ timerSuffix = base ++ timerSuffix := by
      rw [List.append_assoc]
      exact hfront
    apply hplain
    rw [← List.append_cancel_right hsplit]
    simp
  show (timerSuffix.isSuffixOf (fileName file.1) &&
    !(0x40 :: timerSuffix).isSuffixOf (fileName file.1)) = true
  rw [hname, hsuffix, htemplate]
  rfl

/-- A turn of this name that yields a record, and the two decisions of the listing. -/
theorem turn_yields_iff {base : PyStr} (hplain : 0x40 ∉ base) (r : ScheduledTaskInfo) :
    (∃ turn ∈ timerTurns resolve strict m.bus, turn.1 = base ++ timerSuffix ∧
      turn.2.result m.replies = .ok (some r)) ↔
      (m.TakenFromMemory (base ++ timerSuffix) ∨ m.TakenFromFile (base ++ timerSuffix)) ∧
        m.IsRecord resolve (base ++ timerSuffix) r := by
  have hsuffix : timerSuffix.isSuffixOf (base ++ timerSuffix) = true :=
    List.isSuffixOf_iff_suffix.mpr (List.suffix_append _ _)
  constructor
  · rintro ⟨turn, hturn, hname, hresult⟩
    have hrecord : m.IsRecord resolve (base ++ timerSuffix) r := by
      rcases result_timerTurn m resolve strict hturn with hnone | ⟨r', hr', -, hsome⟩
      · rw [hnone] at hresult
        cases hresult
      · rw [hsome] at hresult
        cases hresult
        rw [← hname]
        exact hr'
    refine ⟨?_, hrecord⟩
    rw [timerTurns, listingTurns_eq] at hturn
    rcases List.mem_append.mp hturn with hturn | hturn
    · have htaken := takenFromMemory_of_turn m hturn
      rw [hname] at htaken
      exact .inl htaken
    · obtain ⟨entry, hentry, -, hstate, rfl⟩ := of_mem_fileTurns hturn
      obtain ⟨hmem, hstate'⟩ := unitFile_state m hentry
      have hentryName : entry.name = base ++ timerSuffix := hname
      rw [hentryName] at hmem hstate'
      refine .inr ⟨hmem, by rw [← hstate']; exact hstate, ?_⟩
      rcases result_timerFileTurn m resolve strict hentry with ⟨-, hnone⟩ | ⟨hload, -⟩
      · rw [hnone] at hresult
        cases hresult
      · rw [← hentryName]
        exact hload
  · rintro ⟨htaken, hrecord⟩
    have hmemory : m.TakenFromMemory (base ++ timerSuffix) →
        ∃ turn ∈ timerTurns resolve strict m.bus, turn.1 = base ++ timerSuffix ∧
          turn.2.result m.replies = .ok (some r) := by
      rintro ⟨hunits, hid, hlisted⟩
      obtain ⟨r', hr', -, hresult⟩ := result_loadedTimerTurn m resolve strict hunits
      have hid' : (m.unitAt (m.loadUnit (base ++ timerSuffix))).id = base ++ timerSuffix := hid
      rw [hid'] at hr'
      have hsame : r' = r := by
        rw [Manager.IsRecord, hr'] at hrecord
        injection hrecord
      refine ⟨(_, loadedTimerTurn resolve strict (m.entry (m.loadUnit (base ++ timerSuffix)))),
        ?_, hid', ?_⟩
      · rw [timerTurns, listingTurns_eq]
        apply List.mem_append_left
        apply mem_loadedTurns.mpr
        refine ⟨_, List.mem_map_of_mem hunits, ?_, hlisted, rfl⟩
        show timerSuffix.isSuffixOf (m.unitAt (m.loadUnit (base ++ timerSuffix))).id = true
        rw [hid']
        exact hsuffix
      · rw [← hsame]
        exact hresult
    rcases htaken with htaken | ⟨hmem, hstate, hload⟩
    · exact hmemory htaken
    · by_cases htaken : m.TakenFromMemory (base ++ timerSuffix)
      · exact hmemory htaken
      · obtain ⟨entry, hentry, hname⟩ := mem_unitFiles m hplain hmem
        have hseen : entry.name ∉
            (loadedTurns timerSuffix (loadedTimerTurn resolve strict) m.bus.units []).2 := by
          rw [mem_loadedTurns_seen, hname]
          rintro (hnil | hturn)
          · cases hnil
          · obtain ⟨turn, hturn, hturnName⟩ := List.mem_map.mp hturn
            have := takenFromMemory_of_turn m hturn
            rw [hturnName] at this
            exact htaken this
        have hlisted : entry.state.isUnlisted = false := by
          rw [(unitFile_state m hentry).2, hname]
          exact hstate
        refine ⟨(entry.name, timerFileTurn resolve strict entry), ?_, hname, ?_⟩
        · rw [timerTurns, listingTurns_eq]
          apply List.mem_append_right
          exact mem_fileTurns (unitFiles_nodup m timerSuffix) hentry hseen hlisted
        · rcases result_timerFileTurn m resolve strict hentry with ⟨hgone, -⟩ | ⟨-, r', hr', -, hsome⟩
          · rw [hname] at hgone
            exact absurd hgone hload
          · rw [hname, Manager.IsRecord, hrecord] at hr'
            injection hr' with hr'
            rw [hr']
            exact hsome

/-- The records of a listing under one name. -/
theorem listing_values {base : PyStr} (hplain : 0x40 ∉ base) (r : ScheduledTaskInfo) :
    (r ∈ (iterTimers resolve strict m.bus).values ∧ r.task_name = base) ↔
      (m.TakenFromMemory (base ++ timerSuffix) ∨ m.TakenFromFile (base ++ timerSuffix)) ∧
        m.IsRecord resolve (base ++ timerSuffix) r := by
  rw [← turn_yields_iff m resolve strict hplain r]
  have hreturns : ∀ x ∈ (timerTurns resolve strict m.bus).map (·.2),
      ∃ value, x.result m.replies = .ok value := by
    intro x hx
    obtain ⟨turn, hturn, rfl⟩ := List.mem_map.mp hx
    rcases result_timerTurn m resolve strict hturn with hnone | ⟨r, -, -, hsome⟩
    · exact ⟨none, hnone⟩
    · exact ⟨some r, hsome⟩
  have hvalues : r ∈ (iterTimers resolve strict m.bus).values ↔
      ∃ x ∈ (timerTurns resolve strict m.bus).map (·.2), x.result m.replies = .ok (some r) :=
    Asking.mem_values_iff hreturns
  rw [hvalues]
  constructor
  · rintro ⟨⟨x, hx, hresult⟩, hname⟩
    obtain ⟨turn, hturn, rfl⟩ := List.mem_map.mp hx
    refine ⟨turn, hturn, ?_, hresult⟩
    rcases result_timerTurn m resolve strict hturn with hnone | ⟨r', -, hr', hsome⟩
    · rw [hnone] at hresult
      cases hresult
    · rw [hsome] at hresult
      cases hresult
      rw [eq_of_recordName (suffix_of_mem_listingTurns hturn), ← hr', hname]
  · rintro ⟨turn, hturn, hname, hresult⟩
    refine ⟨⟨turn.2, List.mem_map_of_mem hturn, hresult⟩, ?_⟩
    rcases result_timerTurn m resolve strict hturn with hnone | ⟨r', -, hr', hsome⟩
    · rw [hnone] at hresult
      cases hresult
    · rw [hsome] at hresult
      cases hresult
      rw [hr', hname, recordName_append]

/-! ## Each timer once -/

/-- The records of a stream come in the order of its turns, at most one for each. -/
theorem values_sublist {α : Type} {bus : Bus} {turns : Turns α} {key : α → PyStr}
    {name : PyStr → PyStr}
    (h : ∀ turn ∈ turns, ∀ a, turn.2.result bus.replies = .ok (some a) → key a = name turn.1) :
    ((streamOf bus turns).values.map key).Sublist (turns.names.map name) := by
  induction turns with
  | nil => exact List.Sublist.slnil
  | cons turn turns ih =>
      have hrest := ih fun other hother => h other (List.mem_cons_of_mem _ hother)
      show ((Asking.stream bus.replies (turn.2 :: turns.map (·.2))).values.map key).Sublist
        (name turn.1 :: (Turns.names turns).map name)
      match hresult : turn.2.result bus.replies with
      | .error e =>
          rw [Asking.stream_cons_error hresult]
          exact List.nil_sublist _
      | .ok none =>
          rw [Asking.stream_cons_none hresult]
          exact hrest.cons _
      | .ok (some a) =>
          rw [Asking.stream_cons_some hresult, ← h turn List.mem_cons_self a hresult]
          exact hrest.cons_cons _

theorem iterTimers_nodup : ((iterTimers resolve strict m.bus).values.map (·.task_name)).Nodup := by
  have hsub : ((iterTimers resolve strict m.bus).values.map (·.task_name)).Sublist
      ((timerTurns resolve strict m.bus).names.map recordName) := by
    apply values_sublist
    intro turn hturn a hresult
    have hresult : turn.2.result m.replies = .ok (some a) := hresult
    rcases result_timerTurn m resolve strict hturn with hnone | ⟨r, -, hr, hsome⟩
    · rw [hnone] at hresult
      cases hresult
    · rw [hsome] at hresult
      cases hresult
      exact hr
  apply hsub.nodup
  apply (listingTurns_nodup m.bus).map_on
  intro name hname other hother heq
  obtain ⟨turn, hturn, rfl⟩ := List.mem_map.mp hname
  obtain ⟨turn', hturn', rfl⟩ := List.mem_map.mp hother
  rw [eq_of_recordName (suffix_of_mem_listingTurns hturn), heq,
    ← eq_of_recordName (suffix_of_mem_listingTurns hturn')]

/-! ## Agreement -/

/-- A listing yields each timer at most once, and it yields a record of the name
exactly when the lookup reads that record from the timer, if and only if systemd
holds in memory what the file of the timer says. -/
theorem listing_and_lookup_agree_iff (task_name base : PyStr)
    (hname : checkTaskName task_name = .ok ()) (hbase : existingUnitBase task_name = .ok base)
    (hplain : 0x40 ∉ base) :
    ((iterTimers resolve strict m.bus).values.map (·.task_name)).Nodup ∧
      ((∀ r, (∃ item ∈ (iterTimersNamed resolve strict texts task_name m.bus).items,
          item.1 = r ∧ ReadFrom resolve m.bus (base ++ timerSuffix) item) ↔
            r ∈ (iterTimers resolve strict m.bus).values ∧ r.task_name = base) ↔
        m.Settled (base ++ timerSuffix)) := by
  refine ⟨iterTimers_nodup m resolve strict, ?_⟩
  have hplain' : 0x40 ∉ base ++ timerSuffix := by
    rw [List.mem_append, not_or]
    exact ⟨hplain, by decide⟩
  have hlookup : iterTimersNamed resolve strict texts task_name m.bus =
      Asking.stream m.replies [lookupUnit resolve strict texts base] := by
    rw [iterTimersNamed, hname, hbase]
    rfl
  rw [← m.settled_iff hplain', hlookup]
  constructor
  · intro h
    obtain ⟨r, hr, -⟩ := m.exists_isRecord resolve (base ++ timerSuffix)
    have hagree := h r
    rw [lookup_items, listing_values m resolve strict hplain] at hagree
    constructor
    · exact fun htaken => (hagree.mpr ⟨htaken, hr⟩).1
    · exact fun hfound => (hagree.mp ⟨hfound, hr⟩).1
  · intro h r
    rw [lookup_items, listing_values m resolve strict hplain, h]

end

/-! ## Two managers -/

/-- The bus shows a unit with these states; every other property is empty or 0. -/
def unitObject (id loadState activeState : PyStr) : UnitObject
  | .id => id
  | .loadState => loadState
  | .activeState => activeState
  | .description | .fragmentPath | .unit | .user | .type => []
  | .conditions => []
  | .refuseManualStart | .sendSIGKILL => false
  | .lastTriggerUSec | .nextElapseUSecRealtime | .execMainStartTimestamp | .timeoutStartUSec => 0
  | .execMainCode | .execMainStatus => 0

theorem find_file {files : List (PyStr × PyStr)} (hnodup : (files.map (fileName ·.1)).Nodup)
    {file : PyStr × PyStr} (h : file ∈ files) :
    files.find? (fileName ·.1 == fileName file.1) = some file := by
  induction files with
  | nil => cases h
  | cons first files ih =>
      obtain ⟨hfirst, hnodup⟩ := List.nodup_cons.mp hnodup
      rcases List.mem_cons.mp h with rfl | h
      · rw [List.find?_cons_of_pos (by simp)]
      · have hne : fileName first.1 ≠ fileName file.1 := by
          intro heq
          apply hfirst
          show fileName first.1 ∈ files.map (fileName ·.1)
          rw [heq]
          exact List.mem_map_of_mem h
        rw [List.find?_cons_of_neg (by simpa using hne)]
        exact ih hnodup h

/-- One timer `job.timer` in memory, with these states and files; object paths are unit names. -/
def jobManager (loadState activeState : PyStr) (files : List (PyStr × PyStr))
    (hfiles : (files.map (fileName ·.1)).Nodup) : Manager where
  units := [py "job.timer"]
  files := files
  loadUnit name := name
  unitAt path :=
    if path = py "job.timer" then unitObject path loadState activeState
    else unitObject path (py "not-found") (py "inactive")
  fileState name := (files.find? (fileName ·.1 == name)).map (·.2)
  ids_nodup := List.nodup_singleton _
  own_name := by
    intro path hpath
    obtain rfl := List.mem_singleton.mp hpath
    rfl
  loaded_stopped := by
    intro name hname
    rw [if_neg fun heq : name = py "job.timer" => hname (List.mem_singleton.mpr heq)]
    rfl
  loaded_from_file := by
    intro name _ hname hload
    rw [if_neg fun heq : name = py "job.timer" => hname (List.mem_singleton.mpr heq)] at hload
    exact absurd rfl hload
  files_nodup := hfiles
  file_states := by
    intro file hfile
    rw [find_file hfiles hfile]
    rfl
  timestamps := by
    intro path
    split <;> exact ⟨.inr (Nat.zero_le _), .inr (Nat.zero_le _), .inr (Nat.zero_le _)⟩

/-- `job.timer`, enabled and waiting. -/
def waitingJob : Manager :=
  jobManager (py "loaded") (py "active") [(py "/etc/systemd/system/job.timer", py "enabled")]
    (by decide)

theorem listing_and_lookup_agree_at :
    ((iterTimers (fun _ => none) false waitingJob.bus).values.map (·.task_name)).Nodup ∧
      ((∀ r, (∃ item ∈ (iterTimersNamed (fun _ => none) false (fun _ => .ok []) (py " job.timer")
            waitingJob.bus).items,
          item.1 = r ∧ ReadFrom (fun _ => none) waitingJob.bus (py "job" ++ timerSuffix) item) ↔
            r ∈ (iterTimers (fun _ => none) false waitingJob.bus).values ∧ r.task_name = py "job") ↔
        waitingJob.Settled (py "job" ++ timerSuffix)) :=
  listing_and_lookup_agree_iff waitingJob (fun _ => none) false (fun _ => .ok []) (py " job.timer")
    (py "job") (by decide) (by decide) (by decide)

/-- `job.timer`, running, its file deleted. -/
def deletedJob : Manager := jobManager (py "not-found") (py "active") [] List.nodup_nil

/-- The running timer is listed, and the lookup by its name yields nothing. -/
theorem deleted_timer_is_listed_only :
    (iterTimers (fun _ => none) false deletedJob.bus).values.map (·.task_name) = [py "job"] ∧
      (iterTimersNamed (fun _ => none) false (fun _ => .ok []) (py "job") deletedJob.bus).values =
        [] := by
  decide

end PwshPy.Systemd
