import PwshPy.Systemd.Listing

/-! # Refused reads in listings and lookups

A read systemd refuses ends the turn of its unit: the unit is raised under
`strict` and left out otherwise, and no record is built from what the refusal
did not say. The other units of a listing come as if the unit were not listed.
-/

namespace PwshPy.Systemd

open Effects (Asking)
open Dbus

/-- A turn that raises or skips a refused read and asks nothing after it. -/
abbrev Dbus.Reading.SkipsRefused {α : Type} (strict : Bool) (x : Reading (Option α)) : Prop :=
  Asking.SkipsRefused Read.Refused IsDenial strict x

/-! ## Turns -/

section

variable {α β : Type} {strict : Bool}

theorem isNativeCallError_of_denial {e : PyError} (h : IsDenial e) : isNativeCallError e = true := by
  simp [isNativeCallError, show e.cls = .nativeAccessDeniedError from h]

/-- What `skip_or_raise` makes of a refusal. -/
theorem skipOrRaise_denied {what : PyStr} {e : PyError} (h : IsDenial e) :
    ∃ ending : Except PyError (Option β),
      (do skipOrRaise what e strict; return none : Reading (Option β)) = .done ending ∧
        if strict then ∃ e', IsDenial e' ∧ ending = .error e' else ending = .ok none := by
  cases strict with
  | true =>
      refine ⟨.error (nativeError [.text (what ++ py ": ")] e), rfl, _, ?_, rfl⟩
      simp [IsDenial, nativeError, show e.cls = .nativeAccessDeniedError from h]
  | false => exact ⟨.ok none, rfl, rfl⟩

theorem skipOrRaise_skipsRefused (what : PyStr) (e : PyError) :
    (do skipOrRaise what e strict; return none : Reading (Option β)).SkipsRefused strict := by
  cases strict with
  | true => exact Asking.SkipsRefused.raise _
  | false => exact Asking.SkipsRefused.pure _

theorem unlessRefused_skipsRefused (what : PyStr) {read : Reading α} (h : read.StopsAtRefusal) :
    (unlessRefused what strict read).SkipsRefused strict := by
  apply Asking.SkipsRefused.of_caught h
  · intro ending
    cases ending with
    | ok value => exact Asking.SkipsRefused.pure _
    | error e =>
        dsimp only
        split
        · exact skipOrRaise_skipsRefused what e
        · exact Asking.SkipsRefused.raise _
  · intro e he
    simp only [show e.cls = .nativeAccessDeniedError from he, if_true]
    exact skipOrRaise_denied he

/-- A read that may be skipped, and what is done with its value. -/
theorem orSkip_bind_skipsRefused (what : PyStr) {x : Reading (Option α)} (h : x.StopsAtRefusal)
    {f : Option α → Reading (Option β)} (hnone : f none = return none)
    (hf : ∀ a, (f (some a)).SkipsRefused strict) :
    (orSkip what strict x >>= f).SkipsRefused strict := by
  rw [orSkip, Asking.bind_assoc]
  have hskip : ∀ e, (do skipOrRaise what e strict; return none : Reading (Option α)) >>= f =
      (do skipOrRaise what e strict; return none) := by
    intro e
    cases strict with
    | true => rfl
    | false => exact hnone
  apply Asking.SkipsRefused.of_caught h
  · intro ending
    cases ending with
    | ok value =>
        cases value with
        | none =>
            show (f none).SkipsRefused strict
            rw [hnone]
            exact Asking.SkipsRefused.pure _
        | some a => exact hf a
    | error e =>
        dsimp only
        split
        · rw [hskip]
          exact skipOrRaise_skipsRefused what e
        · exact Asking.SkipsRefused.raise _
  · intro e he
    simp only [isNativeCallError_of_denial he, if_true]
    rw [hskip]
    exact skipOrRaise_denied he

end

section

variable (resolve : PyStr → Option Nat) (strict : Bool)

theorem loadedTimerTurn_skipsRefused (unit : ListedUnit) :
    (loadedTimerTurn resolve strict unit).SkipsRefused strict := by
  apply unlessRefused_skipsRefused
  apply (unitFileState_stopsAtRefusal unit.name).bind
  intro state
  exact timerTask_stopsAtRefusal resolve _ _ _ _

theorem timerFileTurn_skipsRefused (file : UnitFileEntry) :
    (timerFileTurn resolve strict file).SkipsRefused strict := by
  rw [timerFileTurn, timerFilePath]
  apply orSkip_bind_skipsRefused _ (loadUnit_stopsAtRefusal file.name)
  · rfl
  · intro path
    exact unlessRefused_skipsRefused _ (timerTaskAt_stopsAtRefusal resolve _ _ _)

theorem loadedServiceTurn_skipsRefused (unit : ListedUnit) :
    (loadedServiceTurn strict unit).SkipsRefused strict := by
  apply unlessRefused_skipsRefused
  exact (startTypeOf_stopsAtRefusal unit.name).bind fun _ => Asking.StopsAtRefusal.pure _

theorem serviceFileTurn_skipsRefused (file : UnitFileEntry) :
    (serviceFileTurn strict file).SkipsRefused strict := by
  rw [serviceFileTurn, serviceFilePath]
  apply orSkip_bind_skipsRefused _ (loadUnit_stopsAtRefusal file.name)
  · rfl
  · intro path
    exact unlessRefused_skipsRefused _ (serviceAt_stopsAtRefusal _ _ _)

/-! ## Lookups -/

theorem loadNamedUnit_stopsAtRefusal (unit : PyStr) : (loadNamedUnit unit).StopsAtRefusal := by
  apply (loadUnitState_stopsAtRefusal unit).bind
  intro loaded
  cases loaded with
  | none => exact Asking.StopsAtRefusal.pure _
  | some loaded =>
      apply (pathProperty_stopsAtRefusal _ .id).bind
      intro id
      cases id with
      | none => exact Asking.StopsAtRefusal.raise _
      | some id => exact Asking.StopsAtRefusal.pure _

theorem isAbsent_stopsAtRefusal (loaded : LoadedUnit) (state : UnitFileState) :
    (isAbsent loaded state).StopsAtRefusal :=
  (pathActiveState_stopsAtRefusal _).bind fun _ => Asking.StopsAtRefusal.pure _

theorem resolveNamed_stopsAtRefusal (unit : PyStr) : (resolveNamed unit).StopsAtRefusal := by
  apply (unitFileState_stopsAtRefusal unit).bind
  intro state
  dsimp only
  split
  · exact Asking.StopsAtRefusal.pure _
  · apply (loadNamedUnit_stopsAtRefusal unit).bind
    intro loaded
    cases loaded with
    | none => exact Asking.StopsAtRefusal.pure _
    | some loaded =>
        exact (isAbsent_stopsAtRefusal loaded _).bind fun _ => Asking.StopsAtRefusal.pure _

theorem lookupNamed_skipsRefused {α : Type} {unit : PyStr}
    {found : LoadedUnit × UnitFileState → Reading (Option α)} {absent : Reading (Option α)}
    (hfound : ∀ resolved, (found resolved).SkipsRefused strict)
    (habsent : absent.SkipsRefused strict) :
    (lookupNamed strict unit found absent).SkipsRefused strict := by
  apply Asking.SkipsRefused.of_caught (resolveNamed_stopsAtRefusal unit)
  · intro ending
    cases ending with
    | ok resolved =>
        cases resolved with
        | none => exact habsent
        | some resolved => exact hfound resolved
    | error e =>
        dsimp only
        split
        · exact skipOrRaise_skipsRefused _ e
        · exact Asking.SkipsRefused.raise _
  · intro e he
    simp only [isNativeCallError_of_denial he, if_true]
    exact skipOrRaise_denied he

variable (texts : FileTexts)

theorem lookupService_skipsRefused (base : PyStr) (found : LoadedUnit × UnitFileState) :
    (lookupService resolve strict texts base found).SkipsRefused strict := by
  have hrecord : ∀ owned : Bool,
      (if owned then unlessRefused (refusedTimer (base ++ serviceSuffix)) strict
        (serviceTask resolve base (some found.1.path))
      else return none : Reading (Option ScheduledTaskInfo)).SkipsRefused strict := by
    intro owned
    cases owned with
    | true => exact unlessRefused_skipsRefused _ (serviceTask_stopsAtRefusal resolve _ _)
    | false => exact Asking.SkipsRefused.pure _
  have hskip : ∀ (what : PyStr) (e : PyError),
      ((do skipOrRaise what e strict; return false : Reading Bool) >>= fun owned =>
        if owned then unlessRefused (refusedTimer (base ++ serviceSuffix)) strict
          (serviceTask resolve base (some found.1.path))
        else return none) = (do skipOrRaise what e strict; return none) := by
    intro what e
    cases strict <;> rfl
  rw [lookupService, ownedService, Asking.bind_assoc]
  apply Asking.SkipsRefused.of_caught (pathProperty_stopsAtRefusal _ .fragmentPath)
  · intro ending
    match ending with
    | .error e =>
        dsimp only
        rw [hskip]
        exact skipOrRaise_skipsRefused _ e
    | .ok none =>
        dsimp only
        rw [hskip]
        exact skipOrRaise_skipsRefused _ _
    | .ok (some fragment) =>
        dsimp only
        rw [ownedFragment]
        split
        · exact hrecord false
        · split
          · rename_i text _
            exact hrecord (isPwshpyUnit text)
          · rw [hskip]
            exact skipOrRaise_skipsRefused _ _
  · intro e he
    dsimp only
    rw [hskip]
    exact skipOrRaise_denied he

theorem lookupUnit_skipsRefused (base : PyStr) :
    (lookupUnit resolve strict texts base).SkipsRefused strict := by
  apply lookupNamed_skipsRefused
  · intro resolved
    exact unlessRefused_skipsRefused _ (timerTaskAt_stopsAtRefusal resolve _ _ _)
  · apply lookupNamed_skipsRefused
    · exact lookupService_skipsRefused resolve strict texts base
    · exact Asking.SkipsRefused.pure _

end

/-! ## Listings without a unit -/

/-- `bus'` lists what `bus` lists, except the unit `name`. -/
structure WithoutUnit (name : PyStr) (bus bus' : Bus) : Prop where
  units : bus'.units = bus.units.filter (·.name != name)
  files : bus'.files = bus.files.filter (fileName ·.1 != name)

section

variable {α : Type} {suffix : PyStr} {loaded : ListedUnit → Reading (Option α)}
  {file : UnitFileEntry → Reading (Option α)}

theorem loadedTurns_filter (name : PyStr) (units : List ListedUnit) (seen seen' : List PyStr) :
    (loadedTurns suffix loaded (units.filter (·.name != name)) seen').1 =
      (loadedTurns suffix loaded units seen).1.filter (·.1 != name) := by
  induction units generalizing seen seen' with
  | nil => rfl
  | cons unit units ih =>
      by_cases hname : unit.name = name
      · rw [List.filter_cons_of_neg (by simp [hname])]
        rw [loadedTurns]
        split
        · exact ih seen seen'
        · split
          · exact ih seen seen'
          · rw [List.filter_cons_of_neg (by simp [hname])]
            exact ih _ _
      · rw [List.filter_cons_of_pos (by simp [hname])]
        rw [loadedTurns, loadedTurns]
        split
        · exact ih seen seen'
        · split
          · exact ih seen seen'
          · rw [List.filter_cons_of_pos (by simp [hname])]
            exact congrArg _ (ih _ _)

theorem fileTurns_filter (name : PyStr) (files : List UnitFileEntry) (seen seen' : List PyStr)
    (hseen : ∀ other, other ≠ name → (other ∈ seen' ↔ other ∈ seen)) :
    fileTurns file (files.filter (·.name != name)) seen' =
      (fileTurns file files seen).filter (·.1 != name) := by
  induction files generalizing seen seen' with
  | nil => rfl
  | cons entry files ih =>
      by_cases hname : entry.name = name
      · rw [List.filter_cons_of_neg (by simp [hname]), fileTurns]
        split
        · exact ih seen seen' hseen
        · rw [List.filter_cons_of_neg (by simp [hname])]
          apply ih
          intro other hother
          rw [hseen other hother, List.mem_cons, hname]
          simp [hother]
      · have hcontains : seen'.contains entry.name = seen.contains entry.name := by
          rw [Bool.eq_iff_iff, List.contains_iff_mem, List.contains_iff_mem]
          exact hseen _ hname
        rw [List.filter_cons_of_pos (by simp [hname]), fileTurns, fileTurns, hcontains]
        split
        · exact ih seen seen' hseen
        · rw [List.filter_cons_of_pos (by simp [hname])]
          apply congrArg (List.cons _)
          apply ih
          intro other hother
          rw [List.mem_cons, List.mem_cons, hseen other hother]

theorem listingTurns_without {name : PyStr} {bus bus' : Bus} (h : WithoutUnit name bus bus') :
    listingTurns suffix loaded file bus' =
      (listingTurns suffix loaded file bus).filter (·.1 != name) := by
  have hloaded := @loadedTurns_filter α suffix loaded name bus.units [] []
  have hfiles : bus'.unitFiles suffix = (bus.unitFiles suffix).filter (·.name != name) := by
    simp only [Bus.unitFiles, h.files, List.filter_map, List.filter_filter]
    congr 2
    funext entry
    exact Bool.and_comm _ _
  rw [listingTurns_eq, listingTurns_eq, List.filter_append, h.units, hloaded, hfiles]
  congr 1
  apply fileTurns_filter
  intro other hother
  rw [mem_loadedTurns_seen, mem_loadedTurns_seen, hloaded]
  simp only [Turns.names, List.mem_map, List.mem_filter, bne_iff_ne]
  constructor
  · rintro (hmem | ⟨turn, ⟨hturn, -⟩, rfl⟩)
    · exact .inl hmem
    · exact .inr ⟨turn, hturn, rfl⟩
  · rintro (hmem | ⟨turn, hturn, rfl⟩)
    · exact .inl hmem
    · exact .inr ⟨turn, ⟨hturn, hother⟩, rfl⟩

end

/-! ## Refusals in whole streams -/

/-- The items rest on answered reads; under `strict` a refused read is the last
one, and its denial ends the stream. -/
def RefusalsKept {α : Type} (strict : Bool) (bus : Bus) (s : Asking.Stream Read PyError α) : Prop :=
  (∀ item ∈ s.items, ∀ read ∈ item.2, ¬ read.Refused (bus.replies read)) ∧
    (strict = true → ∀ before read after, s.trace = before ++ read :: after →
      read.Refused (bus.replies read) → after = [] ∧ ∃ e, IsDenial e ∧ s.ending = some e)

/-- A unit one of whose reads is refused yields nothing, and the listing is the
one of a bus that does not list it. -/
def LeavesOut {α : Type} (turns : Bus → Turns α) (bus : Bus) : Prop :=
  ∀ turn ∈ turns bus, ∀ read ∈ turn.2.trace bus.replies, read.Refused (bus.replies read) →
    turn.2.result bus.replies = .ok none ∧
      ∀ bus', WithoutUnit turn.1 bus bus' →
        (∀ read ∈ (streamOf bus' (turns bus')).trace, bus'.replies read = bus.replies read) →
        (streamOf bus (turns bus)).items = (streamOf bus' (turns bus')).items ∧
          (streamOf bus (turns bus)).ending = (streamOf bus' (turns bus')).ending

theorem refusalsKept_of_skipsRefused {α : Type} {strict : Bool} {bus : Bus}
    {turns : List (Reading (Option α))} (h : ∀ x ∈ turns, x.SkipsRefused strict) :
    RefusalsKept strict bus (Asking.stream bus.replies turns) := by
  constructor
  · intro item hitem read hread
    obtain ⟨x, hx, hresult, htrace⟩ := Asking.mem_items hitem
    apply (h x hx).not_refused hresult
    rw [htrace]
    exact hread
  · rintro rfl before read after htrace hrefused
    exact Asking.stream_last h htrace hrefused

/-- The one turn of a unit, and the turns of the listing without it. -/
theorem turns_split {α : Type} {turns : Turns α} (hnodup : turns.names.Nodup)
    {turn : PyStr × Reading (Option α)} (h : turn ∈ turns) :
    ∃ before after, turns = before ++ turn :: after ∧
      turns.filter (·.1 != turn.1) = before ++ after := by
  obtain ⟨before, after, rfl⟩ := List.append_of_mem h
  refine ⟨before, after, rfl, ?_⟩
  simp only [Turns.names, List.map_append, List.map_cons] at hnodup
  have hsplit := List.nodup_append.mp hnodup
  have hbefore : before.filter (·.1 != turn.1) = before := by
    rw [List.filter_eq_self]
    intro other hother
    have hne := hsplit.2.2 other.1 (List.mem_map_of_mem hother) turn.1 List.mem_cons_self
    simpa using hne
  have hafter : after.filter (·.1 != turn.1) = after := by
    rw [List.filter_eq_self]
    intro other hother
    have hnot := (List.nodup_cons.mp hsplit.2.1).1
    have hne : other.1 ≠ turn.1 := fun heq => hnot (heq ▸ List.mem_map_of_mem hother)
    simpa using hne
  rw [List.filter_append, List.filter_cons_of_neg (by simp), hbefore, hafter]

theorem leavesOut_of_skipsRefused {α : Type} {suffix : PyStr}
    {loaded : ListedUnit → Reading (Option α)} {file : UnitFileEntry → Reading (Option α)}
    (h : ∀ bus, ∀ turn ∈ listingTurns suffix loaded file bus, turn.2.SkipsRefused false) (bus : Bus) :
    LeavesOut (listingTurns suffix loaded file) bus := by
  intro turn hturn read hread hrefused
  obtain ⟨before, after, htrace⟩ := List.append_of_mem hread
  obtain ⟨-, hnone⟩ := h bus turn hturn bus.replies before after read htrace hrefused
  have hnone : turn.2.result bus.replies = .ok none := hnone
  refine ⟨hnone, ?_⟩
  intro bus' hwithout hsame
  obtain ⟨front, back, hturns, hfilter⟩ := turns_split (listingTurns_nodup bus) hturn
  have hturns' : listingTurns suffix loaded file bus' = front ++ back := by
    rw [listingTurns_without hwithout, hfilter]
  have hreplies : streamOf bus' (front ++ back) = streamOf bus (front ++ back) := by
    rw [hturns'] at hsame
    exact (Asking.stream_congr _ fun read hread => (hsame read hread).symm).symm
  rw [hturns', hreplies, hturns]
  simp only [streamOf, List.map_append, List.map_cons]
  exact Asking.stream_without hnone

section

variable (resolve : PyStr → Option Nat) (texts : FileTexts) (strict : Bool)

theorem timerTurns_skipsRefused (bus : Bus) :
    ∀ turn ∈ timerTurns resolve strict bus, turn.2.SkipsRefused strict := by
  intro turn hturn
  rcases mem_listingTurns hturn with ⟨unit, -, -, rfl⟩ | ⟨entry, -, rfl⟩
  · exact loadedTimerTurn_skipsRefused resolve strict unit
  · exact timerFileTurn_skipsRefused resolve strict entry

theorem serviceTurns_skipsRefused (bus : Bus) :
    ∀ turn ∈ serviceTurns strict bus, turn.2.SkipsRefused strict := by
  intro turn hturn
  rcases mem_listingTurns hturn with ⟨unit, -, -, rfl⟩ | ⟨entry, -, rfl⟩
  · exact loadedServiceTurn_skipsRefused strict unit
  · exact serviceFileTurn_skipsRefused strict entry

theorem iterTimersNamed_refusalsKept (task_name : PyStr) (bus : Bus) :
    RefusalsKept strict bus (iterTimersNamed resolve strict texts task_name bus) := by
  rw [iterTimersNamed]
  split
  · refine ⟨fun item hitem => absurd hitem List.not_mem_nil, ?_⟩
    intro _ before read after htrace
    simp at htrace
  · rename_i base _
    apply refusalsKept_of_skipsRefused
    intro x hx
    obtain rfl := List.mem_singleton.mp hx
    exact lookupUnit_skipsRefused resolve strict texts base

/-- A lookup by name that is refused a read yields nothing, no service either. -/
theorem iterTimersNamed_refused (task_name : PyStr) (bus : Bus) {read : Read}
    (hread : read ∈ (iterTimersNamed resolve false texts task_name bus).trace)
    (hrefused : read.Refused (bus.replies read)) :
    (iterTimersNamed resolve false texts task_name bus).items = [] := by
  rw [iterTimersNamed] at hread ⊢
  split
  · rfl
  · rename_i base hbase
    have hskips := lookupUnit_skipsRefused resolve false texts base
    have htrace : read ∈ (lookupUnit resolve false texts base).trace bus.replies := by
      simp only [hbase, Asking.stream] at hread
      split at hread <;> simpa using hread
    obtain ⟨before, after, hsplit⟩ := List.append_of_mem htrace
    have hnone : (lookupUnit resolve false texts base).result bus.replies = .ok none :=
      (hskips bus.replies before after read hsplit hrefused).2
    rw [Asking.stream_cons_none hnone]
    rfl

/-- No record of a listing or a lookup rests on a refused read. Under `strict`
the first refusal reached is raised; otherwise it takes out its own unit and
nothing else. -/
theorem refusals_are_never_defaults (task_name : PyStr) (bus : Bus) :
    RefusalsKept strict bus (iterTimers resolve strict bus) ∧
      RefusalsKept strict bus (iterTimersNamed resolve strict texts task_name bus) ∧
      RefusalsKept strict bus (iterServices strict bus) ∧
      LeavesOut (timerTurns resolve false) bus ∧
      LeavesOut (serviceTurns false) bus ∧
      ∀ read ∈ (iterTimersNamed resolve false texts task_name bus).trace,
        read.Refused (bus.replies read) →
        (iterTimersNamed resolve false texts task_name bus).items = [] := by
  refine ⟨?_, ?_, ?_, ?_, ?_, ?_⟩
  · apply refusalsKept_of_skipsRefused
    intro x hx
    obtain ⟨turn, hturn, rfl⟩ := List.mem_map.mp hx
    exact timerTurns_skipsRefused resolve strict bus turn hturn
  · exact iterTimersNamed_refusalsKept resolve texts strict task_name bus
  · apply refusalsKept_of_skipsRefused
    intro x hx
    obtain ⟨turn, hturn, rfl⟩ := List.mem_map.mp hx
    exact serviceTurns_skipsRefused strict bus turn hturn
  · exact leavesOut_of_skipsRefused (timerTurns_skipsRefused resolve false) bus
  · exact leavesOut_of_skipsRefused (serviceTurns_skipsRefused false) bus
  · intro read hread hrefused
    exact iterTimersNamed_refused resolve texts task_name bus hread hrefused

end

end PwshPy.Systemd
