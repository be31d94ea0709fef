import PwshPy.Systemd.Transition

/-! # What a verb sees

The dialogues of the reads that decide, of one poll, and of the wait.
-/

namespace PwshPy.Systemd

open Effects (Asking)
open Effects.Asking (Runs Within)
open Dbus

variable {τ : Type} {name : PyStr} {stopping : Bool}

abbrev Exchange (τ : Type) : Type := Asking.Exchange Question (Question.Reply τ)

/-! ## Reads that came back -/

/-- What `GetUnit` said of the unit. -/
inductive SawUnit (name : PyStr) : List (Exchange τ) → Option PyStr → Prop where
  | loaded (path : PyStr) : SawUnit name [⟨.getUnit name, .ok path⟩] (some path)
  | unloaded {error : DbusError} (h : error.name = noSuchUnit) :
      SawUnit name [⟨.getUnit name, .error error⟩] none

/-- The ActiveState that was read, of a unit or of one that is not loaded. -/
inductive SawState (name : PyStr) : List (Exchange τ) → ActiveState → Prop where
  | loaded (path value : PyStr) :
      SawState name [⟨.getUnit name, .ok path⟩, ⟨.read (.get path .activeState), .ok value⟩]
        (.parse value)
  | unloaded {error : DbusError} (h : error.name = noSuchUnit) :
      SawState name [⟨.getUnit name, .error error⟩] .inactive

def JobValue.isPending : JobValue → Bool
  | .tuple (some first) => first ≠ 0
  | _ => false

/-- Whether a job is pending, for a unit or one that is not loaded. -/
inductive SawJob (name : PyStr) : List (Exchange τ) → Bool → Prop where
  | loaded (path : PyStr) {value : JobValue} (h : value ≠ .tuple none) :
      SawJob name [⟨.getUnit name, .ok path⟩, ⟨.getJob path, .ok value⟩] value.isPending
  | unloaded {error : DbusError} (h : error.name = noSuchUnit) :
      SawJob name [⟨.getUnit name, .error error⟩] false

/-- One poll, and whether it saw the unit settled. -/
inductive Poll (name : PyStr) (stopping : Bool) : List (Exchange τ) → Bool → Prop where
  | no_job {log : List (Exchange τ)} (h : SawJob name log false) : Poll name stopping log true
  | pending {log : List (Exchange τ)} (h : SawJob name log true) (hstopping : stopping = false) :
      Poll name stopping log false
  | stopping {first second : List (Exchange τ)} {state : ActiveState} (hjob : SawJob name first true)
      (hstate : SawState name second state) (hstopping : stopping = true) :
      Poll name stopping (first ++ second) state.isStopped

section

variable {log : List (Exchange τ)}

theorem runs_unitPath {path : Option PyStr} (h : Runs (unitPath name) log (.ok path)) :
    SawUnit name log path := by
  obtain ⟨reply, rest, rfl, hrest⟩ := Asking.runs_question_bind.mp h
  cases reply with
  | ok found =>
      obtain ⟨rfl, hpath⟩ := Asking.runs_pure.mp hrest
      obtain rfl := Except.ok.inj hpath
      exact .loaded found
  | error error =>
      by_cases hname : error.name = noSuchUnit
      · simp only [if_pos hname] at hrest
        obtain ⟨rfl, hpath⟩ := Asking.runs_pure.mp hrest
        obtain rfl := Except.ok.inj hpath
        exact .unloaded hname
      · simp only [if_neg hname] at hrest
        cases (Asking.runs_raise.mp hrest).2

/-- A reply that is no error is taken as it is. -/
theorem runs_asked {α : Type} {what : PyStr} {reply : Except DbusError α} {value : α}
    (h : Runs (asked what reply : Program τ α) log (.ok value)) : log = [] ∧ reply = .ok value := by
  cases reply with
  | ok found =>
      obtain ⟨rfl, hvalue⟩ := Asking.runs_pure.mp h
      exact ⟨rfl, congrArg _ (Except.ok.inj hvalue).symm⟩
  | error error => cases (Asking.runs_raise.mp h).2

theorem runs_activeState {state : ActiveState} (h : Runs (activeState name) log (.ok state)) :
    SawState name log state := by
  obtain ⟨first, path, rest, rfl, hpath, hstate⟩ := Asking.runs_bind_ok.mp h
  cases runs_unitPath hpath with
  | unloaded hname =>
      obtain ⟨rfl, hvalue⟩ := Asking.runs_pure.mp hstate
      obtain rfl := Except.ok.inj hvalue
      exact .unloaded hname
  | loaded path =>
      obtain ⟨reply, later, rfl, hlater⟩ := Asking.runs_question_bind.mp hstate
      obtain ⟨none, value, last, rfl, hasked, hpure⟩ := Asking.runs_bind_ok.mp hlater
      obtain ⟨rfl, rfl⟩ := runs_asked hasked
      obtain ⟨rfl, hvalue⟩ := Asking.runs_pure.mp hpure
      obtain rfl := Except.ok.inj hvalue
      exact .loaded path value

theorem runs_pending {value : JobValue} {pending : Bool}
    (h : Runs (value.pending : Program τ Bool) log (.ok pending)) :
    log = [] ∧ value ≠ .tuple none ∧ pending = value.isPending := by
  cases value with
  | other =>
      obtain ⟨rfl, hpending⟩ := Asking.runs_pure.mp h
      exact ⟨rfl, nofun, Except.ok.inj hpending⟩
  | tuple first =>
      cases first with
      | none => cases (Asking.runs_raise.mp h).2
      | some first =>
          obtain ⟨rfl, hpending⟩ := Asking.runs_pure.mp h
          exact ⟨rfl, nofun, Except.ok.inj hpending⟩

theorem runs_hasPendingJob {pending : Bool} (h : Runs (hasPendingJob name) log (.ok pending)) :
    SawJob name log pending := by
  obtain ⟨first, path, rest, rfl, hpath, hjob⟩ := Asking.runs_bind_ok.mp h
  cases runs_unitPath hpath with
  | unloaded hname =>
      obtain ⟨rfl, hvalue⟩ := Asking.runs_pure.mp hjob
      obtain rfl := Except.ok.inj hvalue
      exact .unloaded hname
  | loaded path =>
      obtain ⟨reply, later, rfl, hlater⟩ := Asking.runs_question_bind.mp hjob
      obtain ⟨none, value, last, rfl, hasked, hpending⟩ := Asking.runs_bind_ok.mp hlater
      obtain ⟨rfl, rfl⟩ := runs_asked hasked
      obtain ⟨rfl, hvalue, rfl⟩ := runs_pending hpending
      exact .loaded path hvalue

theorem runs_isSettled {settled : Bool} (h : Runs (isSettled name stopping) log (.ok settled)) :
    Poll name stopping log settled := by
  obtain ⟨first, pending, rest, rfl, hjob, hrest⟩ := Asking.runs_bind_ok.mp h
  have hsaw := runs_hasPendingJob hjob
  cases pending with
  | false =>
      obtain ⟨rfl, hsettled⟩ := Asking.runs_pure.mp hrest
      obtain rfl := Except.ok.inj hsettled
      rw [List.append_nil]
      exact .no_job hsaw
  | true =>
      cases stopping with
      | false =>
          obtain ⟨rfl, hsettled⟩ := Asking.runs_pure.mp hrest
          obtain rfl := Except.ok.inj hsettled
          rw [List.append_nil]
          exact .pending hsaw rfl
      | true =>
          obtain ⟨second, state, last, rfl, hstate, hpure⟩ := Asking.runs_bind_ok.mp hrest
          obtain ⟨rfl, hsettled⟩ := Asking.runs_pure.mp hpure
          obtain rfl := Except.ok.inj hsettled
          rw [List.append_nil]
          exact .stopping hsaw (runs_activeState hstate) rfl

end

/-! ## What the parts ask and raise -/

/-- A question about the unit or the clock. -/
def Question.isInner : Question → Bool
  | openBus | job _ _ | close => false
  | _ => true

/-- An exception a read ends with. -/
def Stopped.isRaised : Stopped τ → Bool
  | raised _ => true
  | _ => false

abbrev Inner {α : Type} (x : Program τ α) : Prop :=
  x.Within (·.isInner = true) (·.isRaised = true)

theorem inner_answerTo {question : Question} (h : question.isInner = true) :
    Inner (answerTo question : Program τ _) := Within.question h

theorem inner_unitPath (name : PyStr) : Inner (unitPath name : Program τ (Option PyStr)) := by
  apply (inner_answerTo rfl).bind
  intro reply
  cases reply with
  | ok path => exact Within.pure _
  | error error =>
      dsimp only
      split
      · exact Within.pure _
      · exact Within.raise rfl

theorem inner_asked {α : Type} (what : PyStr) (reply : Except DbusError α) :
    Inner (asked what reply : Program τ α) := by
  cases reply with
  | ok value => exact Within.pure _
  | error error => exact Within.raise rfl

theorem inner_liveActiveState (path : Option PyStr) :
    Inner (liveActiveState path : Program τ ActiveState) := by
  cases path with
  | none => exact Within.pure _
  | some path =>
      apply (inner_answerTo rfl).bind
      intro reply
      exact (inner_asked _ reply).bind fun _ => Within.pure _

theorem inner_activeState (name : PyStr) : Inner (activeState name : Program τ ActiveState) :=
  (inner_unitPath name).bind inner_liveActiveState

theorem inner_pending (value : JobValue) : Inner (value.pending : Program τ Bool) := by
  cases value with
  | other => exact Within.pure _
  | tuple first =>
      cases first with
      | none => exact Within.raise rfl
      | some first => exact Within.pure _

theorem inner_hasPendingJob (name : PyStr) : Inner (hasPendingJob name : Program τ Bool) := by
  apply (inner_unitPath name).bind
  intro path
  cases path with
  | none => exact Within.pure _
  | some path =>
      apply (inner_answerTo rfl).bind
      intro reply
      exact (inner_asked _ reply).bind inner_pending

theorem inner_isSettled (name : PyStr) (stopping : Bool) :
    Inner (isSettled name stopping : Program τ Bool) := by
  apply (inner_hasPendingJob name).bind
  intro pending
  split
  · exact Within.pure _
  · split
    · exact (inner_activeState name).bind fun _ => Within.pure _
    · exact Within.pure _

theorem inner_unitResult (name : PyStr) : Inner (unitResult name : Program τ (Option PyStr)) := by
  apply (inner_unitPath name).bind
  intro path
  cases path with
  | none => exact Within.pure _
  | some path =>
      apply (inner_answerTo rfl).bind
      intro reply
      cases reply with
      | ok value => exact Within.pure _
      | error error =>
          dsimp only
          split
          · exact Within.raise rfl
          · exact Within.pure _

theorem inner_resultUnread (stopped : Stopped τ) (h : stopped.isRaised = true) :
    Inner (resultUnread stopped) := by
  cases stopped with
  | raised e =>
      rw [resultUnread]
      split
      · exact Within.pure _
      · exact Within.raise rfl
  | operationTimeout name timeout => cases h
  | running => cases h

theorem inner_refuseAFailedUnit (name : PyStr) : Inner (refuseAFailedUnit name : Program τ Unit) := by
  apply (inner_activeState name).bind
  intro state
  split
  · exact Within.pure _
  · apply Within.bind ((inner_unitResult name).handling inner_resultUnread)
    exact fun _ => Within.raise rfl

theorem inner_reading {α : Type} (x : Reading α) : Inner (reading x : Program τ α) :=
  (Within.all x).lift (fun _ _ => rfl) fun _ _ => rfl

theorem inner_getOne (name : PyStr) : Inner (getOne name : Program τ ServiceInfo) := by
  apply (inner_reading (loadUnitPath name)).bind
  intro path
  cases path with
  | none =>
      apply (inner_activeState name).bind
      exact fun _ => (inner_reading _).bind fun _ => inner_reading _
  | some path =>
      apply (inner_liveActiveState (some path)).bind
      exact fun _ => (inner_reading _).bind fun _ => inner_reading _

/-! ## The wait -/

section

variable [LinearOrder τ] {log : List (Exchange τ)} {timeout deadline : τ} {rounds : Nat}

/-- Polls that saw the unit unsettled, each before the deadline and with a sleep behind it. -/
inductive Polls (name : PyStr) (stopping : Bool) (deadline : τ) : List (Exchange τ) → Prop where
  | nil : Polls name stopping deadline []
  | next {poll rest : List (Exchange τ)} {now : τ} (hpoll : Poll name stopping poll false)
      (hnow : now < deadline) (hrest : Polls name stopping deadline rest) :
      Polls name stopping deadline (poll ++ ⟨.monotonic, now⟩ :: ⟨.sleep, ()⟩ :: rest)

/-- One round of the loop, ended or not. -/
theorem runs_round {ending : Except (Stopped τ) Unit}
    (h : Runs (pollUntilSettled name stopping timeout deadline (rounds + 1)) log ending) :
    (Poll name stopping log true ∧ ending = .ok ()) ∨
    (∃ e, ending = .error (.raised e)) ∨
    ∃ poll now rest, Poll name stopping poll false ∧
      ((deadline ≤ now ∧ log = poll ++ [⟨.monotonic, now⟩] ∧
          ending = .error (.operationTimeout name timeout)) ∨
        (now < deadline ∧ log = poll ++ ⟨.monotonic, now⟩ :: ⟨.sleep, ()⟩ :: rest ∧
          Runs (pollUntilSettled name stopping timeout deadline rounds) rest ending)) := by
  rcases Asking.runs_bind.mp h with ⟨poll, settled, rest, rfl, hpoll, hrest⟩ | ⟨e, herror, rfl⟩
  · have hsaw := runs_isSettled hpoll
    cases settled with
    | true =>
        obtain ⟨rfl, rfl⟩ := Asking.runs_pure.mp hrest
        rw [List.append_nil]
        exact .inl ⟨hsaw, rfl⟩
    | false =>
        obtain ⟨now, later, rfl, hlater⟩ := Asking.runs_question_bind.mp hrest
        by_cases hlate : deadline ≤ now
        · simp only [if_pos hlate] at hlater
          obtain ⟨rfl, rfl⟩ := Asking.runs_raise.mp hlater
          exact .inr (.inr ⟨poll, now, [], hsaw, .inl ⟨hlate, rfl, rfl⟩⟩)
        · simp only [if_neg hlate] at hlater
          obtain ⟨⟨⟩, last, rfl, hlast⟩ := Asking.runs_question_bind.mp hlater
          exact .inr (.inr ⟨poll, now, last, hsaw, .inr ⟨not_le.mp hlate, rfl, hlast⟩⟩)
  · have hraised := (inner_isSettled name stopping).runs herror
    cases e with
    | raised e => exact .inr (.inl ⟨e, rfl⟩)
    | operationTimeout name timeout => cases hraised.2 _ rfl
    | running => cases hraised.2 _ rfl

/-- The loop returns at a poll that saw the unit settled. -/
theorem runs_pollUntilSettled_ok
    (h : Runs (pollUntilSettled name stopping timeout deadline rounds) log (.ok ())) :
    ∃ polls poll, log = polls ++ poll ∧ Polls name stopping deadline polls ∧
      Poll name stopping poll true := by
  induction rounds generalizing log with
  | zero => cases (Asking.runs_raise.mp h).2
  | succ rounds ih =>
      rcases runs_round h with ⟨hpoll, -⟩ | ⟨e, he⟩ | ⟨poll, now, rest, hpoll, hround⟩
      · exact ⟨[], log, rfl, .nil, hpoll⟩
      · cases he
      · rcases hround with ⟨-, -, hending⟩ | ⟨hnow, rfl, hrest⟩
        · cases hending
        · obtain ⟨polls, last, rfl, hpolls, hlast⟩ := ih hrest
          exact ⟨_, last, by simp, .next hpoll hnow hpolls, hlast⟩

/-- The loop gives up at a reading behind the deadline, taken after a poll that saw the unit
unsettled. -/
theorem runs_pollUntilSettled_timeout {unit : PyStr} {limit : τ}
    (h : Runs (pollUntilSettled name stopping timeout deadline rounds) log
      (.error (.operationTimeout unit limit))) :
    unit = name ∧ limit = timeout ∧ ∃ polls poll now,
      log = polls ++ poll ++ [⟨.monotonic, now⟩] ∧ Polls name stopping deadline polls ∧
        Poll name stopping poll false ∧ deadline ≤ now := by
  induction rounds generalizing log with
  | zero => cases (Asking.runs_raise.mp h).2
  | succ rounds ih =>
      rcases runs_round h with ⟨-, hending⟩ | ⟨e, he⟩ | ⟨poll, now, rest, hpoll, hround⟩
      · cases hending
      · cases he
      · rcases hround with ⟨hlate, rfl, hending⟩ | ⟨hnow, rfl, hrest⟩
        · cases hending
          exact ⟨rfl, rfl, [], poll, now, rfl, .nil, hpoll, hlate⟩
        · obtain ⟨hunit, hlimit, polls, last, later, rfl, hpolls, hlast, hlate⟩ := ih hrest
          exact ⟨hunit, hlimit, _, last, later, by simp, .next hpoll hnow hpolls, hlast, hlate⟩

end

end PwshPy.Systemd
