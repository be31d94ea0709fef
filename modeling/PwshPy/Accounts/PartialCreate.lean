import PwshPy.Accounts.Course

/-! # What a failed account creation leaves behind

From the way a call ends follow what was locked, what the error says of it, and
how long each command was given.
-/

namespace PwshPy.Accounts

open Effects

/-! ## What the error says -/

section Says

variable (outside : Outside)

/-- The report that ends the message says that the account is locked. -/
def Failure.SaysLocked (failure : Failure) : Prop :=
  py ", " ++ lockPart outside none <:+ failure.message

variable {outside}

theorem describe_lock {progress : NewUserProgress} (h : progress.lock_requested = true) :
    ∃ before, describe outside progress =
      before ++ py ", " ++ lockPart outside progress.lock_failure := by
  cases hrequested : progress.password_requested with
  | true =>
      refine ⟨py "user " ++ repr outside progress.name ++ py " was created" ++ py ", " ++
        if progress.password_set then py "its password was set"
          else py "its password may not be set (chpasswd failed)", ?_⟩
      simp [describe, h, hrequested]
  | false =>
      refine ⟨py "user " ++ repr outside progress.name ++ py " was created", ?_⟩
      simp [describe, h, hrequested]

theorem getLast?_lockPart (front : PyStr) :
    (front ++ lockPart outside none).getLast? = some 0x65 ∧
      ∀ why, (front ++ lockPart outside (some why)).getLast? = some 0x29 := by
  simp only [lockPart, ← List.append_assoc]
  refine ⟨?_, fun why => ?_⟩
  · rw [List.getLast?_append_of_ne_nil _ (by decide)]
    rfl
  · rw [List.getLast?_append_of_ne_nil _ (by decide)]
    rfl

/-- The report names the lock exactly when it did not fail. -/
theorem saysLocked_iff {failure : Failure} {cause : PyStr} {progress : NewUserProgress}
    (hmessage : failure.message = cause ++ py "; " ++ describe outside progress)
    (h : progress.lock_requested = true) :
    failure.SaysLocked outside ↔ progress.lock_failure = none := by
  obtain ⟨before, hdescribe⟩ := @describe_lock outside progress h
  rw [Failure.SaysLocked, hmessage, hdescribe]
  cases hlock : progress.lock_failure with
  | none => exact iff_of_true ⟨cause ++ py "; " ++ before, by simp⟩ rfl
  | some why =>
      refine iff_of_false ?_ nofun
      rintro ⟨front, hfront⟩
      have hlast := congrArg List.getLast? hfront
      rw [← List.append_assoc, ← List.append_assoc, (getLast?_lockPart _).1,
        (getLast?_lockPart _).2] at hlast
      cases hlast

end Says

/-! ## What a run of the commands shows -/

/-- It was run under the call's own deadline, not under the grace's. -/
def Run.IsOwn (r : Run) : Prop := r.deadline.reading = 0

namespace NewUser

variable (outside : Outside) (call : NewUser)

def Locked (log : List Run) : Prop :=
  ∃ r ∈ log, r.command = call.lock ∧ r.outcome.succeeded = true

def PasswordSet (log : List Run) : Prop :=
  ∃ r ∈ log, r.command = call.chpasswd ∧ r.outcome.succeeded = true

/-- `useradd` succeeded, and a command behind it did not. -/
def StepFailed (log : List Run) : Prop :=
  (∃ r ∈ log, r.command = call.useradd ∧ r.outcome.succeeded = true) ∧
    ∃ command ∈ call.later, ∀ r ∈ log, r.IsOwn → r.command = command → r.outcome.succeeded = false

/-- A command was killed when the call's time was up, or was not started for that. -/
def TimedOut (log : List Run) : Prop :=
  (∃ r ∈ log, r.IsOwn ∧ r.outcome = .timed_out) ∨
    (call.Accepted ∧ (∀ r ∈ log, r.IsOwn → r.outcome.succeeded = true) ∧
      ∃ command ∈ call.steps, ∀ r ∈ log, r.IsOwn → r.command ≠ command)

/-- The account's lock was tried within the grace, unless that was over between the two readings
of the clock that stand before it. -/
def LockTried (w : World) : Prop :=
  (∃ r ∈ w.log, r.command = call.lock ∧ ¬ r.IsOwn ∧ r.deadline.limit = LOCK_GRACE_SECONDS ∧
    0 < r.timeout ∧ r.timeout ≤ LOCK_GRACE_SECONDS) ∨
  ∃ k, w.readings = k + 2 ∧ outside.clock k + LOCK_GRACE_SECONDS ≤ outside.clock (k + 1)

/-- What a command of the call failed with. -/
def Causes (cause : Failure) (log : List Run) : Prop :=
  ∃ command ∈ call.steps, cause = notStarted outside command (call.deadline outside) ∨
    ∃ r ∈ log, r.command = command ∧
      failureOf outside command (call.deadline outside) r.outcome = some cause

/-- An error is that of a command with a report behind it, which tells the truth. -/
def Told (failure : Failure) (log : List Run) : Prop :=
  ∃ (cause : Failure) (progress : NewUserProgress),
    call.Causes outside cause log ∧ failure.kind = cause.kind ∧
      failure.message = cause.message ++ py "; " ++ describe outside progress ∧
      progress.name = call.name ∧
      progress.password_requested = decide (call.password ≠ []) ∧
      progress.lock_requested = call.disabled ∧
      (progress.password_set = true → call.PasswordSet log) ∧
      (call.disabled = true → (progress.lock_failure = none ↔ call.Locked log))

/-- A call tells the truth about what it leaves behind, and keeps its time. -/
structure Truthful (ending : Except Failure LocalUser) (w : World) : Prop where
  locked : call.disabled = true → ∀ user, ending = .ok user → call.Locked w.log
  lock_tried : call.disabled = true → call.StepFailed w.log → call.LockTried outside w
  told : call.StepFailed w.log → ∃ failure, ending = .error failure ∧
    call.Told outside failure w.log ∧
    (call.disabled = true → (failure.SaysLocked outside ↔ call.Locked w.log))
  limit : ∀ failure timeout, ending = .error failure →
    failure.kind = .operation_timeout timeout → timeout = call.timeout
  timed_out : call.TimedOut w.log ↔
    ∃ failure, ending = .error failure ∧ failure.kind = .operation_timeout call.timeout
  /-- Each command was started before the deadline, for what was left of it; the others are the
  lock within the grace. -/
  in_time : ∀ r ∈ w.log,
    (r.now < outside.clock 0 + call.timeout ∧
      r.timeout = outside.clock 0 + call.timeout - r.now) ∨
    (¬ r.IsOwn ∧ r.command = call.lock ∧ call.disabled = true ∧ call.StepFailed w.log)

variable {outside call} {w : World}

theorem isOwn_of_within {r : Run} {command : Command}
    (h : r.Within outside (call.deadline outside) command) : r.IsOwn := by
  rw [Run.IsOwn, h.deadline_eq]
  rfl

theorem in_time_of_within {r : Run} {command : Command}
    (h : r.Within outside (call.deadline outside) command) :
    r.now < outside.clock 0 + call.timeout ∧
      r.timeout = outside.clock 0 + call.timeout - r.now :=
  ⟨h.in_time, by rw [Run.timeout, h.deadline_eq]; rfl⟩

theorem lock_mem_later (hdisabled : call.disabled = true) : call.lock ∈ call.later := by
  simp [later, hdisabled]

theorem getLast?_steps (hdisabled : call.disabled = true) :
    call.steps.getLast? = some call.lock := by
  rw [steps, later, hdisabled, if_pos rfl, ← List.cons_append,
    List.getLast?_append_of_ne_nil _ (List.cons_ne_nil _ _)]
  rfl

/-- Nothing failed behind `useradd` where nothing failed. -/
theorem not_stepFailed_of_finished {log : List Run}
    (h : Tried outside (call.deadline outside) call.steps log none) : ¬ call.StepFailed log := by
  rintro ⟨-, command, hcommand, hfailed⟩
  obtain ⟨r, hr, heq, hsucceeded⟩ := h.all_succeeded command (List.mem_cons_of_mem _ hcommand)
  obtain ⟨_, -, hwithin⟩ := h.within r hr
  rw [hfailed r hr (isOwn_of_within hwithin) heq] at hsucceeded
  cases hsucceeded

theorem not_timedOut_of_finished {log : List Run}
    (h : Tried outside (call.deadline outside) call.steps log none) : ¬ call.TimedOut log := by
  rintro (⟨r, hr, -, hkilled⟩ | ⟨-, -, command, hcommand, hnot⟩)
  · have hsucceeded := h.succeeded r hr
    rw [hkilled] at hsucceeded
    cases hsucceeded
  · obtain ⟨r, hr, heq, -⟩ := h.all_succeeded command hcommand
    obtain ⟨_, -, hwithin⟩ := h.within r hr
    exact hnot r hr (isOwn_of_within hwithin) heq

/-- The commands that were run under the call's deadline, and those of the grace. -/
structure Split (outside : Outside) (call : NewUser) (cause : Failure) (runs grace log : List Run) :
    Prop where
  tried : Tried outside (call.deadline outside) call.steps runs (some cause)
  log_eq : log = runs ++ grace
  grace_later : ∀ r ∈ grace, ¬ r.IsOwn

namespace Split

variable {cause : Failure} {runs grace log : List Run}

theorem isOwn (h : Split outside call cause runs grace log) {r : Run} (hr : r ∈ runs) : r.IsOwn := by
  obtain ⟨_, -, hwithin⟩ := h.tried.within r hr
  exact isOwn_of_within hwithin

theorem forall_own_iff (h : Split outside call cause runs grace log) {P : Run → Prop} :
    (∀ r ∈ log, r.IsOwn → P r) ↔ ∀ r ∈ runs, P r := by
  rw [h.log_eq]
  constructor
  · intro hall r hr
    exact hall r (List.mem_append_left _ hr) (h.isOwn hr)
  · intro hall r hr hown
    cases List.mem_append.mp hr with
    | inl hin => exact hall r hin
    | inr hin => exact absurd hown (h.grace_later r hin)

theorem exists_own_iff (h : Split outside call cause runs grace log) {P : Run → Prop} :
    (∃ r ∈ log, r.IsOwn ∧ P r) ↔ ∃ r ∈ runs, P r := by
  rw [h.log_eq]
  constructor
  · rintro ⟨r, hr, hown, hP⟩
    cases List.mem_append.mp hr with
    | inl hin => exact ⟨r, hin, hP⟩
    | inr hin => exact absurd hown (h.grace_later r hin)
  · rintro ⟨r, hr, hP⟩
    exact ⟨r, List.mem_append_left _ hr, h.isOwn hr, hP⟩

theorem timedOut_iff (h : Split outside call cause runs grace log) (haccepted : call.Accepted) :
    call.TimedOut log ↔ cause.kind = .operation_timeout call.timeout := by
  have hkind : (∃ limit, cause.kind = .operation_timeout limit) ↔
      cause.kind = .operation_timeout call.timeout := by
    constructor
    · rintro ⟨limit, hlimit⟩
      have heq : limit = call.timeout := h.tried.limit_eq hlimit
      rw [hlimit, heq]
    · exact fun hlimit => ⟨_, hlimit⟩
  rw [← hkind, h.tried.timeout_iff call.steps_nodup, TimedOut, h.exists_own_iff, h.forall_own_iff]
  simp only [haccepted, true_and, h.forall_own_iff]

end Split

/-! ## The four endings -/

section Endings

variable {ending : Except Failure LocalUser} {failure cause : Failure} {runs grace : List Run}

theorem truthful_of_refused (hkind : failure.kind = .native_call) (hlog : w.log = [])
    (hrefused : ¬ call.Accepted) : call.Truthful outside (.error failure) w where
  locked := nofun
  lock_tried := by simp [StepFailed, hlog]
  told := by simp [StepFailed, hlog]
  limit := by
    rintro _ timeout ⟨⟩ htimeout
    rw [hkind] at htimeout
    cases htimeout
  timed_out := by
    simp only [TimedOut, hlog, hrefused, List.not_mem_nil, false_and, exists_false, or_self, false_iff]
    rintro ⟨_, ⟨⟩, htimeout⟩
    rw [hkind] at htimeout
    cases htimeout
  in_time := by simp [hlog]

theorem truthful_of_finished
    (h : Tried outside (call.deadline outside) call.steps w.log none)
    (hkind : ∀ failure, ending = .error failure → failure.kind = .native_call) :
    call.Truthful outside ending w where
  locked := by
    intro hdisabled _ _
    exact h.all_succeeded call.lock (List.mem_cons_of_mem _ (lock_mem_later hdisabled))
  lock_tried := fun _ hfailed => absurd hfailed (not_stepFailed_of_finished h)
  told := fun hfailed => absurd hfailed (not_stepFailed_of_finished h)
  limit := by
    intro failure timeout hending htimeout
    rw [hkind failure hending] at htimeout
    cases htimeout
  timed_out := by
    refine iff_of_false (not_timedOut_of_finished h) ?_
    rintro ⟨failure, hending, htimeout⟩
    rw [hkind failure hending] at htimeout
    cases htimeout
  in_time := by
    intro r hr
    obtain ⟨_, -, hwithin⟩ := h.within r hr
    exact .inl (in_time_of_within hwithin)

theorem truthful_of_not_created (haccepted : call.Accepted)
    (h : Tried outside (call.deadline outside) [call.useradd] w.log (some failure)) :
    call.Truthful outside (.error failure) w := by
  have hsplit : Split outside call failure w.log [] w.log :=
    ⟨h.stopped call.later, (List.append_nil _).symm, nofun⟩
  have hnot : ¬ call.StepFailed w.log := by
    rintro ⟨⟨r, hr, hcommand, hsucceeded⟩, -⟩
    obtain ⟨command, hmem, hfailed⟩ := h.some_failed (List.nodup_singleton _)
    rw [hfailed r hr (hcommand.trans (List.mem_singleton.mp hmem).symm)] at hsucceeded
    cases hsucceeded
  exact {
    locked := nofun
    lock_tried := fun _ hfailed => absurd hfailed hnot
    told := fun hfailed => absurd hfailed hnot
    limit := by
      rintro _ timeout ⟨⟩ htimeout
      exact h.limit_eq htimeout
    timed_out := by
      rw [hsplit.timedOut_iff haccepted]
      simp
    in_time := by
      intro r hr
      obtain ⟨_, -, hwithin⟩ := h.within r hr
      exact .inl (in_time_of_within hwithin) }

theorem lockTried_of_graced {lock_failure : Option PyStr}
    (h : call.Graced outside grace lock_failure w) (hlog : w.log = runs ++ grace) :
    call.LockTried outside w := by
  obtain ⟨k, hpos, hreadings, ⟨r, rfl, hwithin, -⟩ | ⟨-, -, hover⟩⟩ := h
  · refine .inl ⟨r, by simp [hlog], hwithin.command_eq, ?_, by rw [hwithin.deadline_eq], ?_, ?_⟩
    · rw [Run.IsOwn, hwithin.deadline_eq]
      exact Nat.pos_iff_ne_zero.mp hpos
    · rw [Run.timeout, hwithin.deadline_eq]
      exact sub_pos.mpr hwithin.in_time
    · obtain ⟨later, hlater, hnow⟩ := hwithin.later
      have hclock := outside.clock_mono (Nat.le_of_lt hlater)
      rw [Run.timeout, hwithin.deadline_eq, hnow]
      exact sub_le_iff_le_add'.mpr (add_le_add_left hclock _)
  · exact .inr ⟨k, hreadings, hover⟩

/-- What was locked was locked by the grace's command. -/
theorem locked_iff_of_graced {lock_failure : Option PyStr}
    (h : call.Graced outside grace lock_failure w) (hlog : w.log = runs ++ grace)
    (hruns : ∀ r ∈ runs, r.command = call.lock → r.outcome.succeeded = false) :
    lock_failure = none ↔ call.Locked w.log := by
  have hgrace : call.Locked w.log ↔ call.Locked grace := by
    rw [hlog]
    constructor
    · rintro ⟨r, hr, hcommand, hsucceeded⟩
      cases List.mem_append.mp hr with
      | inl hin =>
          rw [hruns r hin hcommand] at hsucceeded
          cases hsucceeded
      | inr hin => exact ⟨r, hin, hcommand, hsucceeded⟩
    · rintro ⟨r, hr, hlocks⟩
      exact ⟨r, List.mem_append_right _ hr, hlocks⟩
  rw [hgrace]
  obtain ⟨k, -, -, ⟨r, rfl, hwithin, hlocked⟩ | ⟨rfl, hfailed, -⟩⟩ := h
  · simp [Locked, hlocked, hwithin.command_eq]
  · simp [Locked, hfailed]

theorem truthful_of_unfinished {password_set : Bool} {lock_failure : Option PyStr}
    (haccepted : call.Accepted)
    (hcreated : ∃ r ∈ runs, r.command = call.useradd ∧ r.outcome.succeeded = true)
    (htried : Tried outside (call.deadline outside) call.steps runs (some cause))
    (hlater : ∃ command ∈ call.later, ∀ r ∈ runs, r.command = command → r.outcome.succeeded = false)
    (hlog : w.log = runs ++ grace)
    (hpassword : password_set = true → ∃ r ∈ runs, r.command = call.chpasswd ∧
      r.outcome.succeeded = true)
    (hgrace : if call.disabled then call.Graced outside grace lock_failure w
      else grace = [] ∧ lock_failure = none) :
    call.Truthful outside (.error { cause with
      message := cause.message ++ py "; " ++
        describe outside { call.progress with password_set, lock_failure } }) w := by
  have hruns : ∀ r ∈ runs, r ∈ w.log := fun r hr => hlog ▸ List.mem_append_left _ hr
  have hgraceRun : ∀ r ∈ grace, ¬ r.IsOwn ∧ r.command = call.lock ∧ call.disabled = true := by
    intro r hr
    cases hdisabled : call.disabled with
    | false =>
        rw [hdisabled, if_neg Bool.false_ne_true] at hgrace
        rw [hgrace.1] at hr
        cases hr
    | true =>
        rw [hdisabled, if_pos rfl] at hgrace
        obtain ⟨k, hpos, -, ⟨r', rfl, hwithin, -⟩ | ⟨rfl, -, -⟩⟩ := hgrace
        · rw [List.mem_singleton.mp hr, Run.IsOwn, hwithin.deadline_eq]
          exact ⟨Nat.pos_iff_ne_zero.mp hpos, hwithin.command_eq, rfl⟩
        · cases hr
  have hsplit : Split outside call cause runs grace w.log :=
    ⟨htried, hlog, fun r hr => (hgraceRun r hr).1⟩
  have hfailed : call.StepFailed w.log := by
    obtain ⟨r, hr, hcommand⟩ := hcreated
    obtain ⟨command, hmem, hnot⟩ := hlater
    exact ⟨⟨r, hruns r hr, hcommand⟩, command, hmem, hsplit.forall_own_iff.mpr hnot⟩
  have hlocked (hdisabled : call.disabled = true) : lock_failure = none ↔ call.Locked w.log := by
    rw [hdisabled, if_pos rfl] at hgrace
    exact locked_iff_of_graced hgrace hlog
      (htried.last_failed call.steps_nodup (getLast?_steps hdisabled))
  exact {
    locked := nofun
    lock_tried := by
      intro hdisabled _
      rw [hdisabled, if_pos rfl] at hgrace
      exact lockTried_of_graced hgrace hlog
    told := by
      intro _
      refine ⟨_, rfl, ⟨cause, { call.progress with password_set, lock_failure }, ?_, rfl, rfl, rfl,
        rfl, rfl, ?_, hlocked⟩, ?_⟩
      · obtain ⟨command, hmem, hcause⟩ := htried.cause
        refine ⟨command, hmem, hcause.imp_right ?_⟩
        rintro ⟨r, hr, hfailure⟩
        exact ⟨r, hruns r hr, hfailure⟩
      · intro hset
        obtain ⟨r, hr, hchpasswd⟩ := hpassword hset
        exact ⟨r, hruns r hr, hchpasswd⟩
      · intro hdisabled
        exact (saysLocked_iff rfl hdisabled).trans (hlocked hdisabled)
    limit := by
      rintro _ timeout ⟨⟩ htimeout
      exact htried.limit_eq htimeout
    timed_out := by
      rw [hsplit.timedOut_iff haccepted]
      simp
    in_time := by
      intro r hr
      rw [hlog] at hr
      cases List.mem_append.mp hr with
      | inl hin =>
          obtain ⟨_, -, hwithin⟩ := htried.within r hin
          exact .inl (in_time_of_within hwithin)
      | inr hin =>
          obtain ⟨hother, hlock, hdisabled⟩ := hgraceRun r hin
          exact .inr ⟨hother, hlock, hdisabled, hfailed⟩ }

end Endings

/-- However its commands end and whatever the clock reads, a call is truthful. -/
theorem new_user_truthful (outside : Outside) (call : NewUser) :
    call.Truthful outside (exec (call.new_user outside) start).1
      (exec (call.new_user outside) start).2 := by
  have hended := new_user_ended outside call
  generalize (exec (call.new_user outside) start).1 = ending at hended ⊢
  generalize (exec (call.new_user outside) start).2 = w at hended ⊢
  cases hended with
  | refused hkind hlog hrefused => exact truthful_of_refused hkind hlog hrefused
  | not_created haccepted htried => exact truthful_of_not_created haccepted htried
  | unfinished haccepted hcreated htried hlater hlog hpassword hgrace =>
      exact truthful_of_unfinished haccepted hcreated htried hlater hlog hpassword hgrace
  | finished htried hkind => exact truthful_of_finished htried hkind

end NewUser

end PwshPy.Accounts
