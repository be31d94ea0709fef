import PwshPy.Systemd.TransitionPolls

/-! # Verbs report the truth

However systemd answers and whatever the clock reads, a verb sends one job, takes
no failed read for a settled unit, and says no more than it saw.
-/

namespace PwshPy.Systemd

open Effects (Asking)
open Effects.Asking (Runs Within)
open Dbus

variable {τ : Type} {name : PyStr}

/-! ## Failed reads -/

/-- A read that decides, refused or failed: `NoSuchUnit` says that a unit is not loaded. -/
def FailedRead : (question : Question) → question.Reply τ → Prop
  | .getUnit _, reply => ∃ error, reply = .error error ∧ error.name ≠ noSuchUnit
  | .getJob _, reply => ∃ error, reply = .error error
  | .read (.get _ .activeState), reply => ∃ error, reply = .error error
  | _, _ => False

def Stopped.IsNative : Stopped τ → Prop
  | raised e => isNativeCallError e = true
  | _ => False

/-- Every failed read ends a program at once, with a `NativeCallError`. -/
abbrev Stops {α : Type} (x : Program τ α) : Prop :=
  Asking.StopsAtRefusal FailedRead Stopped.IsNative x

theorem isNative_replyError (what : PyStr) (error : DbusError) :
    (Stopped.raised (replyError what error) : Stopped τ).IsNative := by
  simp only [Stopped.IsNative, isNativeCallError, replyError]
  split <;> rfl

theorem stops_unitPath (name : PyStr) : Stops (unitPath name : Program τ (Option PyStr)) := by
  apply Asking.stopsAtRefusal_question_bind.mpr
  constructor
  · intro reply
    cases reply with
    | ok path => exact Asking.StopsAtRefusal.pure _
    | error error =>
        dsimp only
        split
        · exact Asking.StopsAtRefusal.pure _
        · exact Asking.StopsAtRefusal.raise _
  · rintro reply ⟨error, rfl, hname⟩
    exact ⟨_, isNative_replyError _ error, if_neg hname⟩

theorem stops_asked {α : Type} (what : PyStr) (reply : Except DbusError α) :
    Stops (asked what reply : Program τ α) := by
  cases reply with
  | ok value => exact Asking.StopsAtRefusal.pure _
  | error error => exact Asking.StopsAtRefusal.raise _

theorem stops_liveActiveState (path : Option PyStr) :
    Stops (liveActiveState path : Program τ ActiveState) := by
  cases path with
  | none => exact Asking.StopsAtRefusal.pure _
  | some path =>
      apply Asking.stopsAtRefusal_question_bind.mpr
      constructor
      · intro reply
        exact (stops_asked _ reply).bind fun _ => Asking.StopsAtRefusal.pure _
      · rintro reply ⟨error, rfl⟩
        exact ⟨_, isNative_replyError _ error, rfl⟩

theorem stops_activeState (name : PyStr) : Stops (activeState name : Program τ ActiveState) :=
  (stops_unitPath name).bind stops_liveActiveState

theorem stops_pending (value : JobValue) : Stops (value.pending : Program τ Bool) := by
  cases value with
  | other => exact Asking.StopsAtRefusal.pure _
  | tuple first =>
      cases first with
      | none => exact Asking.StopsAtRefusal.raise _
      | some first => exact Asking.StopsAtRefusal.pure _

theorem stops_hasPendingJob (name : PyStr) : Stops (hasPendingJob name : Program τ Bool) := by
  apply (stops_unitPath name).bind
  intro path
  cases path with
  | none => exact Asking.StopsAtRefusal.pure _
  | some path =>
      apply Asking.stopsAtRefusal_question_bind.mpr
      constructor
      · intro reply
        exact (stops_asked _ reply).bind stops_pending
      · rintro reply ⟨error, rfl⟩
        exact ⟨_, isNative_replyError _ error, rfl⟩

theorem stops_isSettled (name : PyStr) (stopping : Bool) :
    Stops (isSettled name stopping : Program τ Bool) := by
  apply (stops_hasPendingJob name).bind
  intro pending
  split
  · exact Asking.StopsAtRefusal.pure _
  · split
    · exact (stops_activeState name).bind fun _ => Asking.StopsAtRefusal.pure _
    · exact Asking.StopsAtRefusal.pure _

/-- Only the reads that decide can fail so. -/
theorem stops_answerTo_bind {question : Question} {α : Type} {f : question.Reply τ → Program τ α}
    (hnever : ∀ reply : question.Reply τ, ¬ FailedRead question reply) (hf : ∀ reply, Stops (f reply)) :
    Stops (answerTo question >>= f) :=
  Asking.stopsAtRefusal_question_bind.mpr ⟨hf, fun reply h => absurd h (hnever reply)⟩

theorem stops_pollUntilSettled [LinearOrder τ] (name : PyStr) (stopping : Bool)
    (timeout deadline : τ) (rounds : Nat) :
    Stops (pollUntilSettled name stopping timeout deadline rounds) := by
  induction rounds with
  | zero => exact Asking.StopsAtRefusal.raise _
  | succ rounds ih =>
      apply (stops_isSettled name stopping).bind
      intro settled
      split
      · exact Asking.StopsAtRefusal.pure _
      · apply stops_answerTo_bind (fun _ => id)
        intro now
        split
        · exact Asking.StopsAtRefusal.raise _
        · exact stops_answerTo_bind (fun _ => id) fun _ => ih

theorem isNative_failedUnit (name : PyStr) (result : Option PyStr) :
    (Stopped.raised (failedUnit name result) : Stopped τ).IsNative := rfl

/-- A question that no reply makes a failed read. -/
def Question.NeverFails (question : Question) : Prop :=
  ∀ (τ : Type) (reply : question.Reply τ), ¬ FailedRead question reply

theorem stops_of_neverFails {α : Type} {x : Program τ α}
    (h : x.Within Question.NeverFails fun _ => True) : Stops x :=
  h.stopsAtRefusal fun _ reply hnever => hnever τ reply

/-- What is done with a reply to the lookup that names the result. -/
def resultOf : Except DbusError PyStr → Program τ (Option PyStr)
  | .ok path => do
    match ← answerTo (.getResult path) with
    | .ok value => return value
    | .error error =>
      if error.isDenied then .raise (.raised (replyError (getText (py "Result") path) error))
      else return none
  | .error error =>
    if error.name = noSuchUnit then return none
    else .raise (.raised (replyError (py "systemd GetUnit") error))

theorem unitResult_eq (name : PyStr) :
    (unitResult name : Program τ (Option PyStr)) = answerTo (.getUnit name) >>= resultOf := by
  unfold unitResult unitPath
  rw [Asking.bind_assoc]
  congr 1
  funext reply
  cases reply with
  | ok path => rfl
  | error error =>
      simp only [resultOf]
      split <;> rfl

theorem within_resultOf (reply : Except DbusError PyStr) :
    (resultOf reply : Program τ _).Within Question.NeverFails fun _ => True := by
  cases reply with
  | ok path =>
      have hnever : (Question.getResult path).NeverFails := fun _ _ => id
      apply (Within.question hnever).bind
      intro result
      cases result with
      | ok value => exact Within.pure _
      | error error =>
          dsimp only
          split
          · exact Within.raise trivial
          · exact Within.pure _
  | error error =>
      rw [resultOf]
      split
      · exact Within.pure _
      · exact Within.raise trivial

theorem within_resultUnread (stopped : Stopped τ) :
    (resultUnread stopped).Within Question.NeverFails fun _ => True := by
  cases stopped with
  | raised e =>
      rw [resultUnread]
      split
      · exact Within.pure _
      · exact Within.raise trivial
  | operationTimeout name timeout => exact Within.raise trivial
  | running => exact Within.raise trivial

/-- The one lookup that may fail stands between a failed unit and its error. -/
theorem stops_refuseAFailedUnit (name : PyStr) : Stops (refuseAFailedUnit name : Program τ Unit) := by
  apply (stops_activeState name).bind
  intro state
  split
  · exact Asking.StopsAtRefusal.pure _
  · rw [unitResult_eq]
    show Stops (answerTo (.getUnit name) >>= fun reply : Except DbusError PyStr =>
      (resultOf (τ := τ) reply).handling resultUnread >>= fun result =>
        (.raise (.raised (failedUnit name result)) : Program τ Unit))
    apply Asking.stopsAtRefusal_question_bind.mpr
    constructor
    · intro reply
      apply stops_of_neverFails
      apply ((within_resultOf reply).handling fun e _ => within_resultUnread e).bind
      exact fun _ => Within.raise trivial
    · rintro reply ⟨error, rfl, hname⟩
      refine ⟨_, isNative_failedUnit name none, ?_⟩
      have hnative : isNativeCallError (replyError (py "systemd GetUnit") error) = true :=
        isNative_replyError (τ := τ) _ error
      simp only [resultOf, if_neg hname]
      show (resultUnread _ >>= _ : Program τ Unit) = _
      rw [resultUnread, if_pos hnative]
      rfl

/-! ## Reading the unit back -/

/-- A program of reads that no reply makes failed ones. -/
abbrev Quiet {α : Type} (x : Reading α) : Prop :=
  x.Within (fun read => (Question.read read).NeverFails) fun _ => True

theorem quiet_readOr {α : Type} {read : Read} {what : PyStr} {answered : read.Value → Reading α}
    {otherwise : DbusError → Reading α} (hread : (Question.read read).NeverFails)
    (hanswered : ∀ value, Quiet (answered value)) (hotherwise : ∀ error, Quiet (otherwise error)) :
    Quiet (readOr read what answered otherwise) := by
  refine ⟨hread, fun reply => ?_⟩
  cases reply with
  | ok value => exact hanswered value
  | error error =>
      dsimp only
      split
      · exact Within.raise trivial
      · exact hotherwise error

theorem quiet_pathProperty {property : Property} (h : property ≠ .activeState)
    (path : Option PyStr) : Quiet (pathProperty path property) := by
  cases path with
  | none => exact Within.pure _
  | some path =>
      have hnever : (Question.read (.get path property)).NeverFails := by
        cases property
        case activeState => exact absurd rfl h
        all_goals exact fun _ _ => id
      exact quiet_readOr hnever (fun _ => Within.pure _) fun _ => Within.pure _

theorem quiet_loadUnitPath (name : PyStr) : Quiet (loadUnitPath name) := by
  have hstate : Quiet (loadUnitState name) := by
    apply Within.bind (quiet_readOr (fun _ _ => id) (fun _ => Within.pure _)
      fun _ => Within.raise trivial)
    intro path
    have hproperty : Property.loadState ≠ .activeState := by decide
    apply (quiet_pathProperty hproperty (some path)).bind
    intro load_state
    cases load_state with
    | none => exact Within.raise trivial
    | some value =>
        dsimp only
        split <;> exact Within.pure _
  apply Within.handling (hstate.bind fun _ => Within.pure _)
  intro e _
  split
  · exact Within.raise trivial
  · exact Within.pure _

theorem quiet_startTypeOf (name : PyStr) : Quiet (startTypeOf name) :=
  Within.bind (quiet_readOr (fun _ _ => id) (fun _ => Within.pure _) fun _ => Within.pure _)
    fun _ => Within.pure _

theorem quiet_serviceRecord (name : PyStr) (path : Option PyStr) (active_state : ActiveState)
    (start_type : Option ServiceStartType) :
    Quiet (serviceRecord name path active_state start_type) := by
  have hproperty : Property.description ≠ .activeState := by decide
  exact (quiet_pathProperty hproperty path).bind fun _ => Within.pure _

theorem stops_reading {α : Type} {x : Reading α} (h : Quiet x) : Stops (reading x : Program τ α) :=
  stops_of_neverFails (h.lift (fun _ => id) fun _ => id)

theorem stops_getOne (name : PyStr) : Stops (getOne name : Program τ ServiceInfo) := by
  have hrecord (path : Option PyStr) (state : ActiveState) : Stops (do
      let start_type ← reading (startTypeOf name)
      reading (serviceRecord name path state start_type) : Program τ ServiceInfo) :=
    (stops_reading (quiet_startTypeOf name)).bind fun _ => stops_reading (quiet_serviceRecord ..)
  apply (stops_reading (quiet_loadUnitPath name)).bind
  intro path
  cases path with
  | none => exact (stops_activeState name).bind (hrecord none)
  | some path => exact (stops_liveActiveState (some path)).bind (hrecord (some path))

/-! ## The bus -/

section

variable {α : Type} {body : Program τ α} {log : List (Exchange τ)} {ending : Except (Stopped τ) α}

/-- The bus could not be opened, which is all that was asked. -/
def Unopened (ending : Except (Stopped τ) α) (log : List (Exchange τ)) : Prop :=
  ∃ text e, log = [⟨.openBus, .error text⟩] ∧ ending = .error (.raised e) ∧
    isNativeCallError e = true

/-- Once opened, the bus is closed behind whatever ended. -/
theorem runs_withBus (h : Runs (withBus body) log ending) :
    Unopened ending log ∨ ∃ inner, Runs body inner ending ∧
      ((ending = .error .running ∧ log = ⟨.openBus, .ok ()⟩ :: inner) ∨
        (ending ≠ .error .running ∧ log = ⟨.openBus, .ok ()⟩ :: (inner ++ [⟨.close, ()⟩]))) := by
  obtain ⟨reply, rest, rfl, hrest⟩ := Asking.runs_question_bind.mp h
  cases reply with
  | error text =>
      obtain ⟨rfl, rfl⟩ := Asking.runs_raise.mp hrest
      exact .inl ⟨text, _, rfl, rfl, rfl⟩
  | ok _ =>
      right
      rcases Asking.runs_bind.mp hrest with ⟨inner, result, last, rfl, hinner, hlast⟩ | ⟨e, herror, -⟩
      · obtain ⟨result', heq, hbody⟩ := Asking.runs_caught.mp hinner
        obtain rfl := Except.ok.inj heq
        by_cases hrunning : result = .error .running
        · subst hrunning
          obtain ⟨rfl, rfl⟩ := Asking.runs_raise.mp hlast
          exact ⟨inner, hbody, .inl ⟨rfl, by rw [List.append_nil]⟩⟩
        · have hclose : Runs (answerTo .close >>= fun _ => Asking.done result) last ending := by
            cases result with
            | ok a => exact hlast
            | error e =>
                cases e with
                | raised e => exact hlast
                | operationTimeout name timeout => exact hlast
                | running => exact absurd rfl hrunning
          obtain ⟨⟨⟩, later, rfl, hdone⟩ := Asking.runs_question_bind.mp hclose
          obtain ⟨rfl, rfl⟩ := Asking.runs_done.mp hdone
          exact ⟨inner, hbody, .inr ⟨hrunning, rfl⟩⟩
      · obtain ⟨_, heq, -⟩ := Asking.runs_caught.mp herror
        cases heq

end

/-! ## The truth -/

def Question.isJob : Question → Bool
  | job _ _ => true
  | _ => false

section

variable [LinearOrder τ] [Add τ]

/-- What an opened verb reports is what it saw. -/
structure Truthful (verb : ServiceVerb) (name : PyStr) (timeout : τ)
    (ending : Except (Stopped τ) ServiceInfo) (log : List (Exchange τ)) : Prop where
  /-- One job is sent, before anything is asked about the unit. -/
  sends_one : ∃ reply rest, log = ⟨.openBus, .ok ()⟩ :: ⟨.job verb.job name, reply⟩ :: rest ∧
    ∀ exchange ∈ rest, exchange.1.isJob = false
  /-- A verb that waits returns behind a poll that saw the unit settled, and a start or a restart
  behind an ActiveState, read right after it, that is not failed. -/
  settled : verb.waits = true → ∀ info, ending = .ok info → ∃ now polls poll rest,
    log = ⟨.openBus, .ok ()⟩ :: ⟨.job verb.job name, .ok ()⟩ :: ⟨.monotonic, now⟩ ::
      (polls ++ (poll ++ rest)) ∧
    Polls name (verb.job = .stop) (now + timeout) polls ∧ Poll name (verb.job = .stop) poll true ∧
    (verb.job ≠ .stop → ∃ check state later, rest = check ++ later ∧
      SawState name check state ∧ state ≠ .failed)
  /-- No failed read is taken for an answer: it is the last, and is raised. -/
  fails : ∀ before (question : Question) (reply : question.Reply τ) after,
    log = before ++ ⟨question, reply⟩ :: after → FailedRead question reply →
      after = [⟨.close, ()⟩] ∧ ∃ e, ending = .error (.raised e) ∧ isNativeCallError e = true
  /-- A verb gives up at or after its deadline, right behind a poll that saw the unit unsettled. -/
  expires : ∀ unit limit, ending = .error (.operationTimeout unit limit) →
    unit = name ∧ limit = timeout ∧ ∃ now polls poll later,
      log = ⟨.openBus, .ok ()⟩ :: ⟨.job verb.job name, .ok ()⟩ :: ⟨.monotonic, now⟩ ::
        (polls ++ poll ++ [⟨.monotonic, later⟩, ⟨.close, ()⟩]) ∧
      Polls name (verb.job = .stop) (now + timeout) polls ∧
      Poll name (verb.job = .stop) poll false ∧ now + timeout ≤ later
  /-- The bus is closed at the end, and only there. -/
  closes : ending ≠ .error .running → ∃ before, log = before ++ [⟨.close, ()⟩] ∧
    ∀ exchange ∈ before, exchange.1 ≠ .close

variable {job : Job} {timeout : τ} {wait : Bool} {rounds : Nat} {log : List (Exchange τ)}

/-- What follows the wait. -/
def afterWait (name : PyStr) (job : Job) : Program τ ServiceInfo := do
  if job ≠ .stop then refuseAFailedUnit name
  getOne name

/-- What follows the job. -/
def following (name : PyStr) (job : Job) (timeout : τ) (wait : Bool) (rounds : Nat) :
    Program τ ServiceInfo := do
  if wait then
    waitUntilSettled name (job = .stop) timeout rounds
    if job ≠ .stop then refuseAFailedUnit name
  getOne name

theorem carryOut_eq : carryOut name job timeout wait rounds =
    (do
      let reply ← answerTo (.job job name)
      asked (py "systemd " ++ job.value) reply
      following name job timeout wait rounds) := rfl

theorem stops_following (name : PyStr) (job : Job) (timeout : τ) (wait : Bool) (rounds : Nat) :
    Stops (following name job timeout wait rounds) := by
  unfold following
  split
  · have hwait : Stops (waitUntilSettled name (job = .stop) timeout rounds) :=
      stops_answerTo_bind (fun _ => id) fun now => stops_pollUntilSettled ..
    split
    · exact hwait.bind fun _ => (stops_refuseAFailedUnit name).bind fun _ => stops_getOne name
    · exact hwait.bind fun _ => stops_getOne name
  · exact stops_getOne name

theorem stops_carryOut (name : PyStr) (job : Job) (timeout : τ) (wait : Bool) (rounds : Nat) :
    Stops (carryOut name job timeout wait rounds) := by
  rw [carryOut_eq]
  apply stops_answerTo_bind (fun _ => id)
  intro reply
  exact (stops_asked _ reply).bind fun _ => stops_following name job timeout wait rounds

/-- A program about the unit and the clock. -/
abbrev AsksInner {α : Type} (x : Program τ α) : Prop :=
  x.Within (·.isInner = true) fun _ => True

omit [LinearOrder τ] [Add τ] in
theorem Inner.asksInner {α : Type} {x : Program τ α} (h : Inner x) : AsksInner x :=
  h.mono (fun _ => id) fun _ _ => trivial

theorem asksInner_following (name : PyStr) (job : Job) (timeout : τ) (wait : Bool) (rounds : Nat) :
    AsksInner (following name job timeout wait rounds) := by
  have hone := Inner.asksInner (inner_getOne (τ := τ) name)
  have hpoll (deadline : τ) :
      AsksInner (pollUntilSettled name (job = .stop) timeout deadline rounds) := by
    induction rounds with
    | zero => exact Within.raise trivial
    | succ rounds ih =>
        apply (Inner.asksInner (inner_isSettled name _)).bind
        intro settled
        split
        · exact Within.pure _
        · apply (Inner.asksInner (inner_answerTo rfl)).bind
          intro now
          split
          · exact Within.raise trivial
          · exact (Inner.asksInner (inner_answerTo rfl)).bind fun _ => ih
  unfold following
  split
  · have hwait : AsksInner (waitUntilSettled name (job = .stop) timeout rounds) :=
      (Inner.asksInner (inner_answerTo rfl)).bind fun now => hpoll (now + timeout)
    split
    · apply hwait.bind
      exact fun _ => (Inner.asksInner (inner_refuseAFailedUnit name)).bind fun _ => hone
    · exact hwait.bind fun _ => hone
  · exact hone

omit [LinearOrder τ] [Add τ] in
theorem runs_refuseAFailedUnit (h : Runs (refuseAFailedUnit name) log (.ok ())) :
    ∃ state, SawState name log state ∧ state ≠ .failed := by
  obtain ⟨first, state, rest, rfl, hstate, hrest⟩ := Asking.runs_bind_ok.mp h
  by_cases hfailed : state ≠ .failed
  · simp only [if_pos hfailed] at hrest
    obtain ⟨rfl, -⟩ := Asking.runs_pure.mp hrest
    rw [List.append_nil]
    exact ⟨state, runs_activeState hstate, hfailed⟩
  · simp only [if_neg hfailed] at hrest
    obtain ⟨_, result, last, -, -, hraise⟩ := Asking.runs_bind_ok.mp hrest
    cases (Asking.runs_raise.mp hraise).2

theorem following_waits : following name job timeout true rounds =
    (do
      waitUntilSettled name (job = .stop) timeout rounds
      afterWait name job) := rfl

/-- What a wait that returned saw. -/
theorem runs_following_ok {info : ServiceInfo}
    (h : Runs (following name job timeout true rounds) log (.ok info)) :
    ∃ now polls poll rest, log = ⟨.monotonic, now⟩ :: (polls ++ (poll ++ rest)) ∧
      Polls name (job = .stop) (now + timeout) polls ∧ Poll name (job = .stop) poll true ∧
      (job ≠ .stop → ∃ check state later, rest = check ++ later ∧
        SawState name check state ∧ state ≠ .failed) := by
  rw [following_waits] at h
  obtain ⟨waited, ⟨⟩, rest, rfl, hwait, hrest⟩ := Asking.runs_bind_ok.mp h
  obtain ⟨now, later, rfl, hpolls⟩ := Asking.runs_question_bind.mp hwait
  obtain ⟨polls, poll, rfl, hpolls, hpoll⟩ := runs_pollUntilSettled_ok hpolls
  refine ⟨now, polls, poll, rest, by simp, hpolls, hpoll, ?_⟩
  intro hjob
  rw [afterWait, if_pos hjob] at hrest
  obtain ⟨check, ⟨⟩, last, rfl, hcheck, -⟩ := Asking.runs_bind_ok.mp hrest
  obtain ⟨state, hstate, hne⟩ := runs_refuseAFailedUnit hcheck
  exact ⟨check, state, last, rfl, hstate, hne⟩

omit [LinearOrder τ] [Add τ] in
/-- No read ends with a timeout. -/
theorem not_timeout_of_inner {α : Type} {x : Program τ α} (hx : Inner x) {unit : PyStr} {limit : τ}
    (h : Runs x log (.error (.operationTimeout unit limit))) : False := by
  cases (hx.runs h).2 _ rfl

omit [LinearOrder τ] [Add τ] in
theorem inner_afterWait (name : PyStr) (job : Job) :
    Inner (afterWait name job : Program τ ServiceInfo) := by
  unfold afterWait
  split
  · exact (inner_refuseAFailedUnit name).bind fun _ => inner_getOne name
  · exact inner_getOne name

theorem runs_following_timeout {unit : PyStr} {limit : τ}
    (h : Runs (following name job timeout wait rounds) log
      (.error (.operationTimeout unit limit))) :
    unit = name ∧ limit = timeout ∧ ∃ now polls poll later,
      log = ⟨.monotonic, now⟩ :: (polls ++ poll ++ [⟨.monotonic, later⟩]) ∧
      Polls name (job = .stop) (now + timeout) polls ∧ Poll name (job = .stop) poll false ∧
      now + timeout ≤ later := by
  cases wait with
  | false => exact (not_timeout_of_inner (inner_getOne name) h).elim
  | true =>
      rw [following_waits] at h
      rcases Asking.runs_bind.mp h with ⟨_, _, _, -, -, hrest⟩ | ⟨e, hwait, he⟩
      · exact (not_timeout_of_inner (inner_afterWait name job) hrest).elim
      · obtain rfl := Except.error.inj he
        obtain ⟨now, later, rfl, hpolls⟩ := Asking.runs_question_bind.mp hwait
        obtain ⟨hunit, hlimit, polls, poll, late, rfl, hloop⟩ :=
          runs_pollUntilSettled_timeout hpolls
        exact ⟨hunit, hlimit, now, polls, poll, late, rfl, hloop⟩

/-- A job that was answered is followed by the rest; one that was not ends the verb. -/
theorem runs_carryOut {ending : Except (Stopped τ) ServiceInfo}
    (h : Runs (carryOut name job timeout wait rounds) log ending) :
    (∃ rest, log = ⟨.job job name, .ok ()⟩ :: rest ∧
      Runs (following name job timeout wait rounds) rest ending) ∨
    ∃ error, log = [⟨.job job name, .error error⟩] ∧
      ending = .error (.raised (replyError (py "systemd " ++ job.value) error)) := by
  rw [carryOut_eq] at h
  obtain ⟨reply, rest, rfl, hrest⟩ := Asking.runs_question_bind.mp h
  cases reply with
  | ok _ => exact .inl ⟨rest, rfl, hrest⟩
  | error error =>
      obtain ⟨rfl, rfl⟩ := Asking.runs_raise.mp hrest
      exact .inr ⟨error, rfl, rfl⟩

/-- Behind the job nothing but the unit and the clock is asked about. -/
theorem inner_of_runs_carryOut {ending : Except (Stopped τ) ServiceInfo}
    (h : Runs (carryOut name job timeout wait rounds) log ending) :
    ∃ reply rest, log = ⟨.job job name, reply⟩ :: rest ∧
      ∀ exchange ∈ rest, exchange.1.isInner = true := by
  rcases runs_carryOut h with ⟨rest, rfl, hrest⟩ | ⟨error, rfl, -⟩
  · exact ⟨_, rest, rfl, ((asksInner_following ..).runs hrest).1⟩
  · exact ⟨_, [], rfl, nofun⟩

omit [LinearOrder τ] [Add τ] in
/-- An exchange before the last one of a dialogue. -/
theorem before_last {inner before after : List (Exchange τ)} {last exchange : Exchange τ}
    (h : inner ++ [last] = before ++ exchange :: after) (hne : exchange ≠ last) :
    ∃ rest, after = rest ++ [last] ∧ inner = before ++ exchange :: rest := by
  rcases List.eq_nil_or_concat after with rfl | ⟨rest, other, rfl⟩
  · obtain ⟨-, hlast⟩ := List.append_inj' h rfl
    exact absurd (List.cons.inj hlast).1.symm hne
  · have hsplit : inner ++ [last] = (before ++ exchange :: rest) ++ [other] := by
      rw [h, List.append_assoc, List.cons_append, List.concat_eq_append]
    obtain ⟨hinner, hlast⟩ := List.append_inj' hsplit rfl
    obtain rfl := (List.cons.inj hlast).1
    exact ⟨rest, List.concat_eq_append, hinner⟩

omit [LinearOrder τ] [Add τ] in
theorem isInner_of_failedRead {question : Question} {reply : question.Reply τ}
    (h : FailedRead question reply) : question.isInner = true := by
  cases question with
  | getUnit name => rfl
  | getJob path => rfl
  | read r => rfl
  | openBus => cases h
  | job job name => cases h
  | getResult path => cases h
  | monotonic => cases h
  | sleep => cases h
  | close => cases h

variable {verb : ServiceVerb} {ending : Except (Stopped τ) ServiceInfo} {inner : List (Exchange τ)}

/-- A failed read of an opened verb stands among what its `try` block asks. -/
theorem fails_of_runs
    (hinner : Runs (carryOut name job timeout wait rounds) inner ending)
    (hlog : (ending = .error .running ∧ log = ⟨.openBus, .ok ()⟩ :: inner) ∨
      (ending ≠ .error .running ∧ log = ⟨.openBus, .ok ()⟩ :: (inner ++ [⟨.close, ()⟩])))
    {before after : List (Exchange τ)} {question : Question} {reply : question.Reply τ}
    (hsplit : log = before ++ ⟨question, reply⟩ :: after) (hfailed : FailedRead question reply) :
    after = [⟨.close, ()⟩] ∧ ∃ e, ending = .error (.raised e) ∧ isNativeCallError e = true := by
  have hquestion := isInner_of_failedRead hfailed
  have hnative : ∀ e : Stopped τ, e.IsNative → ∃ e', e = .raised e' ∧ isNativeCallError e' = true := by
    intro e he
    cases e with
    | raised e => exact ⟨e, rfl, he⟩
    | operationTimeout name timeout => cases he
    | running => cases he
  cases before with
  | nil =>
      have hfirst : question = .openBus := by
        rcases hlog with ⟨-, rfl⟩ | ⟨-, rfl⟩ <;> exact (congrArg Sigma.fst (List.cons.inj hsplit).1).symm
      rw [hfirst] at hquestion
      cases hquestion
  | cons first before =>
      rcases hlog with ⟨hrunning, rfl⟩ | ⟨-, rfl⟩
      · have hlater := (List.cons.inj hsplit).2
        rw [hlater] at hinner
        obtain ⟨-, e, he, hending⟩ := (stops_carryOut ..).last_exchange hinner hfailed
        obtain ⟨e', rfl, -⟩ := hnative e he
        rw [hrunning] at hending
        cases hending
      · have hlater := (List.cons.inj hsplit).2
        have hne : (⟨question, reply⟩ : Exchange τ) ≠ ⟨.close, ()⟩ := by
          intro heq
          have hclose : question = .close := congrArg Sigma.fst heq
          rw [hclose] at hquestion
          cases hquestion
        obtain ⟨rest, rfl, hrest⟩ := before_last hlater hne
        rw [hrest] at hinner
        obtain ⟨rfl, e, he, hending⟩ := (stops_carryOut ..).last_exchange hinner hfailed
        obtain ⟨e', rfl, hnative'⟩ := hnative e he
        exact ⟨rfl, e', hending, hnative'⟩

theorem truthful_of_runs
    (hinner : Runs (carryOut name verb.job timeout verb.waits rounds) inner ending)
    (hlog : (ending = .error .running ∧ log = ⟨.openBus, .ok ()⟩ :: inner) ∨
      (ending ≠ .error .running ∧ log = ⟨.openBus, .ok ()⟩ :: (inner ++ [⟨.close, ()⟩]))) :
    Truthful verb name timeout ending log where
  sends_one := by
    obtain ⟨reply, rest, rfl, hrest⟩ := inner_of_runs_carryOut hinner
    have hnoJob : ∀ exchange ∈ rest, exchange.1.isJob = false := by
      intro exchange hmem
      have hin := hrest exchange hmem
      cases hquestion : exchange.1 with
      | job job name =>
          rw [hquestion] at hin
          cases hin
      | _ => rfl
    rcases hlog with ⟨-, rfl⟩ | ⟨-, rfl⟩
    · exact ⟨reply, rest, rfl, hnoJob⟩
    · refine ⟨reply, rest ++ [⟨.close, ()⟩], rfl, List.forall_mem_append.mpr ⟨hnoJob, ?_⟩⟩
      simp [Question.isJob]
  settled := by
    rintro hwaits info rfl
    rcases hlog with ⟨hrunning, -⟩ | ⟨-, rfl⟩
    · cases hrunning
    · rcases runs_carryOut hinner with ⟨rest, rfl, hrest⟩ | ⟨error, -, hending⟩
      · rw [hwaits] at hrest
        obtain ⟨now, polls, poll, later, rfl, hpolls, hpoll, hcheck⟩ := runs_following_ok hrest
        refine ⟨now, polls, poll, later ++ [⟨.close, ()⟩], by simp, hpolls, hpoll, ?_⟩
        intro hjob
        obtain ⟨check, state, last, rfl, hstate⟩ := hcheck hjob
        exact ⟨check, state, last ++ [⟨.close, ()⟩], by simp, hstate⟩
      · cases hending
  fails := fun _ _ _ _ => fails_of_runs hinner hlog
  expires := by
    rintro unit limit rfl
    rcases hlog with ⟨hrunning, -⟩ | ⟨-, rfl⟩
    · cases hrunning
    · rcases runs_carryOut hinner with ⟨rest, rfl, hrest⟩ | ⟨error, -, hending⟩
      · obtain ⟨hunit, hlimit, now, polls, poll, later, rfl, hlate⟩ := runs_following_timeout hrest
        exact ⟨hunit, hlimit, now, polls, poll, later, by simp, hlate⟩
      · cases hending
  closes := by
    intro hne
    rcases hlog with ⟨hrunning, -⟩ | ⟨-, rfl⟩
    · exact absurd hrunning hne
    · obtain ⟨reply, rest, rfl, hrest⟩ := inner_of_runs_carryOut hinner
      refine ⟨⟨.openBus, .ok ()⟩ :: ⟨.job verb.job name, reply⟩ :: rest, rfl, ?_⟩
      intro exchange hmem hclose
      rcases List.mem_cons.mp hmem with rfl | hmem
      · cases hclose
      · rcases List.mem_cons.mp hmem with rfl | hmem
        · cases hclose
        · have hin := hrest exchange hmem
          rw [hclose] at hin
          cases hin

/-- Whatever systemd answers to whichever call and whatever the clock reads, however long the verb
polls, it reports the truth. -/
theorem verb_reports_truth (replies : Nat → ∀ question : Question, question.Reply τ)
    (verb : ServiceVerb) (name : PyStr) (timeout : τ) (rounds : Nat) :
    let run := (verb.run name timeout rounds).answered replies 0
    Unopened run.1 run.2 ∨ Truthful verb name timeout run.1 run.2 := by
  rcases runs_withBus (Asking.runs_answered replies (verb.run name timeout rounds) 0) with
    hunopened | ⟨inner, hinner, hlog⟩
  · exact .inl hunopened
  · exact .inr (truthful_of_runs hinner hlog)

end

end PwshPy.Systemd
