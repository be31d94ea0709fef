import Mathlib.Algebra.Order.Group.Unbundled.Basic
import Mathlib.Algebra.Order.Ring.Rat
import PwshPy.Accounts.Tried

/-! # The course of an account creation

What each part of `new_user` leaves behind, and the four ways in which a call
ends whatever its commands come to.
-/

namespace PwshPy.Accounts

open Effects

/-! ## What each part of the verb does -/

section Parts

variable (outside : Outside)

/-- A command that is started leaves one run behind it. -/
theorem exec_run (command : Command) (deadline : Deadline) (w : World) :
    exec (run outside command deadline) w =
      if deadline.ends_at - outside.clock w.readings ≤ 0 then
        (.error (notStarted outside command deadline), { w with readings := w.readings + 1 })
      else
        (match failureOf outside command deadline (outside.outcomes w.log.length) with
          | some failure => .error failure
          | none => .ok (),
        { readings := w.readings + 1
          log := w.log ++
            [{ command, deadline, now := outside.clock w.readings
               outcome := outside.outcomes w.log.length : Run }]
          progress := w.progress }) := by
  unfold run
  rw [Triple.exec_bind]
  show exec _ _ = _
  split
  · rfl
  · show exec _ _ = _
    rw [Triple.exec_bind]
    show exec (match failureOf outside command deadline (outside.outcomes w.log.length) with
      | some failure => throw failure
      | none => pure ()) _ = _
    cases failureOf outside command deadline (outside.outcomes w.log.length) <;> rfl

/-- What trying commands leaves of the world they are tried in. -/
structure Leaves (deadline : Deadline) (w : World) (commands : List Command) (runs : List Run)
    (ending : Option Failure) (w' : World) : Prop where
  tried : Tried outside deadline commands runs ending
  log_eq : w'.log = w.log ++ runs
  readings_le : w.readings ≤ w'.readings

variable {outside} {deadline : Deadline} {w : World}

theorem run_spec (command : Command) (hreading : deadline.reading < w.readings) :
    Triple (fun w' => w' = w) (run outside command deadline)
      (fun _ w' => w'.progress = w.progress ∧
        ∃ runs, Leaves outside deadline w [command] runs none w')
      (fun failure w' => w'.progress = w.progress ∧
        ∃ runs, Leaves outside deadline w [command] runs (some failure) w') := by
  rintro s rfl
  rw [exec_run]
  by_cases hlate : deadline.ends_at - outside.clock s.readings ≤ 0
  · rw [if_pos hlate]
    exact ⟨rfl, [], .late command [] s.readings (sub_nonpos.mp hlate), by simp, Nat.le_succ _⟩
  · rw [if_neg hlate]
    have hwithin : Run.Within outside deadline ⟨command, deadline, outside.clock s.readings,
        outside.outcomes s.log.length⟩ command :=
      ⟨rfl, rfl, sub_pos.mp (not_le.mp hlate), s.readings, hreading, rfl⟩
    cases hfailure : failureOf outside command deadline (outside.outcomes s.log.length) with
    | none =>
        exact ⟨rfl, _, .next hwithin (failureOf_eq_none.mp hfailure) .done, rfl, Nat.le_succ _⟩
    | some failure => exact ⟨rfl, _, .failed [] hwithin hfailure, rfl, Nat.le_succ _⟩

/-- The deadline of the grace begun in a world. -/
def graceDeadline (outside : Outside) (w : World) : Deadline where
  limit := LOCK_GRACE_SECONDS
  ends_at := outside.clock w.readings + LOCK_GRACE_SECONDS
  reading := w.readings

/-- What locking within a grace leaves: the command was run under the grace's own deadline, or
the grace was over before it could be. -/
def Locks (outside : Outside) (name : PyStr) (w : World) (lock_failure : Option PyStr) (w' : World) :
    Prop :=
  (∃ r, w'.log = w.log ++ [r] ∧ r.Within outside (graceDeadline outside w) (lockCommand name) ∧
    (lock_failure = none ↔ r.outcome.succeeded = true)) ∨
  (w'.log = w.log ∧ lock_failure ≠ none ∧
    outside.clock w.readings + LOCK_GRACE_SECONDS ≤ outside.clock (w.readings + 1))

theorem exec_lock_within_grace (name : PyStr) (w : World) :
    exec (lock_within_grace outside name) w =
      match exec (run outside (lockCommand name) (graceDeadline outside w))
        { w with readings := w.readings + 1 } with
      | (.ok _, w') => (.ok none, w')
      | (.error failure, w') => (.ok (some failure.message), w') := by
  have hafter : exec (Deadline.after outside LOCK_GRACE_SECONDS) w =
      (.ok (graceDeadline outside w), { w with readings := w.readings + 1 }) := rfl
  unfold lock_within_grace
  rw [Triple.exec_tryCatch, Triple.exec_bind, hafter]
  dsimp only
  rw [Triple.exec_bind]
  rcases exec (run outside (lockCommand name) (graceDeadline outside w))
    { w with readings := w.readings + 1 } with ⟨_ | _, w'⟩ <;> rfl

theorem lock_within_grace_spec (name : PyStr) (w : World) :
    Triple (fun w' => w' = w) (lock_within_grace outside name)
      (fun lock_failure w' => w'.progress = w.progress ∧ w'.readings = w.readings + 2 ∧
        Locks outside name w lock_failure w')
      (fun _ _ => False) := by
  rintro s rfl
  rw [exec_lock_within_grace, exec_run]
  by_cases hlate : (graceDeadline outside s).ends_at - outside.clock (s.readings + 1) ≤ 0
  · rw [if_pos hlate]
    exact ⟨rfl, rfl, .inr ⟨rfl, nofun, sub_nonpos.mp hlate⟩⟩
  · rw [if_neg hlate]
    have hwithin : Run.Within outside (graceDeadline outside s) ⟨lockCommand name,
        graceDeadline outside s, outside.clock (s.readings + 1), outside.outcomes s.log.length⟩
        (lockCommand name) :=
      ⟨rfl, rfl, sub_pos.mp (not_le.mp hlate), s.readings + 1, Nat.lt_succ_self _, rfl⟩
    cases hfailure : failureOf outside (lockCommand name) (graceDeadline outside s)
      (outside.outcomes s.log.length) with
    | none =>
        exact ⟨rfl, rfl, .inl ⟨_, rfl, hwithin, iff_of_true rfl (failureOf_eq_none.mp hfailure)⟩⟩
    | some failure =>
        have hnot : ¬ (outside.outcomes s.log.length).succeeded = true := by
          rw [not_succeeded_of_failure hfailure]
          exact Bool.false_ne_true
        exact ⟨rfl, rfl, .inl ⟨_, rfl, hwithin, iff_of_false nofun hnot⟩⟩

end Parts

/-! ## The course of a call -/

namespace Leaves

variable {outside : Outside} {deadline : Deadline} {w w' w'' : World} {commands more : List Command}
  {runs others : List Run} {ending : Option Failure} {failure : Failure}

theorem append (h : Leaves outside deadline w commands runs none w')
    (hmore : Leaves outside deadline w' more others ending w'') :
    Leaves outside deadline w (commands ++ more) (runs ++ others) ending w'' where
  tried := h.tried.append hmore.tried
  log_eq := by rw [hmore.log_eq, h.log_eq, List.append_assoc]
  readings_le := h.readings_le.trans hmore.readings_le

theorem stopped (h : Leaves outside deadline w commands runs (some failure) w')
    (more : List Command) :
    Leaves outside deadline w (commands ++ more) runs (some failure) w' :=
  ⟨h.tried.stopped more, h.log_eq, h.readings_le⟩

/-- What the call notes of itself is no part of it. -/
theorem noted (h : Leaves outside deadline w commands runs ending w') (progress : NewUserProgress) :
    Leaves outside deadline w commands runs ending { w' with progress } :=
  ⟨h.tried, h.log_eq, h.readings_le⟩

end Leaves

namespace NewUser

variable {outside : Outside} (call : NewUser)

/-- The commands behind `useradd`. -/
def later : List Command :=
  (if call.password ≠ [] then [call.chpasswd] else []) ++ if call.disabled then [call.lock] else []

def steps : List Command := call.useradd :: call.later

theorem programs_steps : call.steps.map (fun command => command.argv.head?) =
    some (py "useradd") :: ((if call.password ≠ [] then [some (py "chpasswd")] else []) ++
      if call.disabled then [some (py "usermod")] else []) := by
  rw [steps, later, List.map_cons, List.map_append]
  congr 2
  · split <;> rfl
  · split <;> rfl

/-- No two commands of a call are the same. -/
theorem steps_nodup : call.steps.Nodup := by
  apply List.Nodup.of_map (fun command => command.argv.head?)
  rw [programs_steps]
  split <;> split <;> decide

theorem lock_spec {deadline : Deadline} {w : World} (hreading : deadline.reading < w.readings) :
    Triple (fun w' => w' = w) (if call.disabled then run outside call.lock deadline else pure ())
      (fun _ w' => w'.progress = w.progress ∧ ∃ runs,
        Leaves outside deadline w (if call.disabled then [call.lock] else []) runs none w')
      (fun failure w' => w'.progress = w.progress ∧ ∃ runs,
        Leaves outside deadline w (if call.disabled then [call.lock] else []) runs (some failure) w') := by
  split
  · exact run_spec call.lock hreading
  · apply Triple.pure
    rintro s rfl
    exact ⟨rfl, [], .done, by simp, Nat.le_refl _⟩

/-- Whether the password was set is noted truly. -/
def Notes (w : World) (runs : List Run) (w' : World) : Prop :=
  ∃ password_set, w'.progress = { w.progress with password_set } ∧
    (password_set = true → ∃ r ∈ runs, r.command = call.chpasswd ∧ r.outcome.succeeded = true)

theorem finish_spec {deadline : Deadline} {w : World} (hreading : deadline.reading < w.readings)
    (hunset : w.progress.password_set = false) :
    Triple (fun w' => w' = w) (call.finish outside deadline)
      (fun _ w' => ∃ runs, Leaves outside deadline w call.later runs none w')
      (fun failure w' => ∃ runs, Leaves outside deadline w call.later runs (some failure) w' ∧
        call.Notes w runs w') := by
  have hnothing {runs : List Run} {w' : World} (h : w'.progress = w.progress) :
      call.Notes w runs w' := ⟨false, by rw [h, ← hunset], nofun⟩
  by_cases hpassword : call.password ≠ []
  · simp only [finish, later, if_pos hpassword]
    apply Triple.bind (m := fun _ w' => w'.progress = w.progress ∧
      ∃ runs, Leaves outside deadline w [call.chpasswd] runs none w')
    · apply (run_spec call.chpasswd hreading).weaken (fun _ h => h) (fun _ _ h => h)
      rintro failure w' ⟨hprogress, runs, hruns⟩
      exact ⟨runs, hruns.stopped _, hnothing hprogress⟩
    · intro _
      apply Triple.bind (m := fun _ w' => w'.progress = { w.progress with password_set := true } ∧
        ∃ runs, Leaves outside deadline w [call.chpasswd] runs none w')
      · apply Triple.modify
        rintro w' ⟨hprogress, runs, hruns⟩
        exact ⟨by rw [hprogress], runs, hruns.noted _⟩
      · intro _ w' ⟨hprogress, runs, hruns⟩
        have hlock := @lock_spec outside call deadline w'
          (hreading.trans_le hruns.readings_le) w' rfl
        rcases hrun : exec (if call.disabled then run outside call.lock deadline else pure ()) w'
          with ⟨failure | _, w''⟩
        · rw [hrun] at hlock
          obtain ⟨hprogress', others, hothers⟩ := hlock
          obtain ⟨r, hr, hcommand, hsucceeded⟩ :=
            hruns.tried.all_succeeded call.chpasswd List.mem_cons_self
          exact ⟨runs ++ others, hruns.append hothers, true, by rw [hprogress', hprogress],
            fun _ => ⟨r, List.mem_append_left _ hr, hcommand, hsucceeded⟩⟩
        · rw [hrun] at hlock
          obtain ⟨-, others, hothers⟩ := hlock
          exact ⟨runs ++ others, hruns.append hothers⟩
  · simp only [finish, later, if_neg hpassword]
    apply (call.lock_spec hreading).weaken (fun _ h => h)
    · rintro _ w' ⟨-, runs, hruns⟩
      exact ⟨runs, hruns⟩
    · rintro failure w' ⟨hprogress, runs, hruns⟩
      exact ⟨runs, hruns, hnothing hprogress⟩

/-! ## How a call ends -/

variable (outside)

/-- The one deadline of the call. -/
def deadline : Deadline where
  limit := call.timeout
  ends_at := outside.clock 0 + call.timeout
  reading := 0

/-- What the call notes of itself behind `useradd`. -/
def progress : NewUserProgress where
  name := call.name
  password_requested := decide (call.password ≠ [])
  lock_requested := call.disabled

/-- Its arguments are taken. -/
def Accepted : Prop :=
  isName call.name = true ∧ (py "\n\r:").any call.comment.contains = false ∧
    (py "\n\r").any call.password.contains = false

/-- What locking within the grace came to. -/
def Graced (grace : List Run) (lock_failure : Option PyStr) (w : World) : Prop :=
  ∃ k, 0 < k ∧ w.readings = k + 2 ∧
    ((∃ r, grace = [r] ∧
        r.Within outside ⟨LOCK_GRACE_SECONDS, outside.clock k + LOCK_GRACE_SECONDS, k⟩ call.lock ∧
        (lock_failure = none ↔ r.outcome.succeeded = true)) ∨
      (grace = [] ∧ lock_failure ≠ none ∧
        outside.clock k + LOCK_GRACE_SECONDS ≤ outside.clock (k + 1)))

inductive Ended (w : World) : Except Failure LocalUser → Prop where
  | refused {failure : Failure} (hkind : failure.kind = .native_call) (hlog : w.log = [])
      (hrefused : ¬ call.Accepted) : Ended w (.error failure)
  | not_created {failure : Failure} (haccepted : call.Accepted)
      (htried : Tried outside (call.deadline outside) [call.useradd] w.log (some failure)) :
      Ended w (.error failure)
  /-- A step behind `useradd` failed. -/
  | unfinished {cause : Failure} {runs grace : List Run} {password_set : Bool}
      {lock_failure : Option PyStr} (haccepted : call.Accepted)
      (hcreated : ∃ r ∈ runs, r.command = call.useradd ∧ r.outcome.succeeded = true)
      (htried : Tried outside (call.deadline outside) call.steps runs (some cause))
      (hlater : ∃ command ∈ call.later, ∀ r ∈ runs, r.command = command →
        r.outcome.succeeded = false)
      (hlog : w.log = runs ++ grace)
      (hpassword : password_set = true → ∃ r ∈ runs, r.command = call.chpasswd ∧
        r.outcome.succeeded = true)
      (hgrace : if call.disabled then call.Graced outside grace lock_failure w
        else grace = [] ∧ lock_failure = none) :
      Ended w (.error { cause with
        message := cause.message ++ py "; " ++
          describe outside { call.progress with password_set, lock_failure } })
  /-- Each command succeeded; the user is read back, or is not there. -/
  | finished {ending : Except Failure LocalUser}
      (htried : Tried outside (call.deadline outside) call.steps w.log none)
      (hkind : ∀ failure, ending = .error failure → failure.kind = .native_call) : Ended w ending

/-! ## Each call ends so -/

def start : World where
  readings := 0
  log := []
  progress := { name := [], password_requested := false, lock_requested := false }

variable {outside}

theorem valid_name_spec (w : World) (name : PyStr) :
    Triple (fun w' => w' = w) (valid_name outside name) (fun _ w' => w' = w ∧ isName name = true)
      (fun failure w' => w' = w ∧ failure.kind = .native_call ∧ ¬ isName name = true) := by
  unfold valid_name
  split
  · rename_i h
    exact Triple.pure fun s hs => ⟨hs, h⟩
  · rename_i h
    exact Triple.throw fun s hs => ⟨hs, rfl, h⟩

theorem reject_delimiters_spec (w : World) (value field forbidden : PyStr) :
    Triple (fun w' => w' = w) (reject_delimiters outside value field forbidden)
      (fun _ w' => w' = w ∧ forbidden.any value.contains = false)
      (fun failure w' => w' = w ∧ failure.kind = .native_call ∧
        ¬ forbidden.any value.contains = false) := by
  unfold reject_delimiters
  split
  · rename_i h
    exact Triple.throw fun s hs => ⟨hs, rfl, by simp [h]⟩
  · rename_i h
    exact Triple.pure fun s hs => ⟨hs, by simpa using h⟩

theorem after_partial_create_spec (failure : Failure) (w : World) (hreadings : 0 < w.readings)
    (hprogress : w.progress.lock_requested = call.disabled ∧ w.progress.name = call.name ∧
      w.progress.lock_failure = none) :
    Triple (fun w' => w' = w) (after_partial_create outside failure)
      (fun raised w' => ∃ grace lock_failure, w'.log = w.log ++ grace ∧
        raised = { failure with
          message := failure.message ++ py "; " ++
            describe outside { w.progress with lock_failure } } ∧
        if call.disabled then call.Graced outside grace lock_failure w'
        else grace = [] ∧ lock_failure = none)
      (fun _ _ => False) := by
  obtain ⟨hrequested, hname, hunlocked⟩ := hprogress
  unfold after_partial_create
  apply Triple.get_bind
  rintro before rfl
  rw [hrequested, hname]
  cases hdisabled : call.disabled with
  | true =>
      simp only [if_true]
      apply Triple.bind (lock_within_grace_spec call.name before)
      rintro lock_failure after ⟨hprogress, hreadings', hlocks⟩
      have hsame : { after.progress with lock_failure } = { before.progress with lock_failure } := by
        rw [hprogress]
      cases hlocks with
      | inl hran =>
          obtain ⟨r, hlog, hwithin, hlocked⟩ := hran
          exact ⟨[r], lock_failure, hlog, by rw [← hsame], before.readings, hreadings, hreadings',
            .inl ⟨r, rfl, hwithin, hlocked⟩⟩
      | inr hlate =>
          obtain ⟨hlog, hfailed, hover⟩ := hlate
          exact ⟨[], lock_failure, by rw [List.append_nil]; exact hlog, by rw [← hsame],
            before.readings, hreadings, hreadings', .inr ⟨rfl, hfailed, hover⟩⟩
  | false =>
      simp only [Bool.false_eq_true, if_false]
      apply Triple.get_bind
      rintro after rfl
      apply Triple.pure
      rintro w rfl
      exact ⟨[], none, by simp, by rw [← hunlocked], rfl, rfl⟩

/-- From the world behind a successful `useradd`. -/
theorem finishing_spec {w : World} {created : List Run} (haccepted : call.Accepted)
    (hleaves : Leaves outside (call.deadline outside) { start with readings := 1 } [call.useradd]
      created none w) (hprogress : w.progress = call.progress) :
    Triple (fun w' => w' = w)
      (tryCatch (call.finish outside (call.deadline outside)) fun failure => do
        throw (← after_partial_create outside failure))
      (fun _ w' => Tried outside (call.deadline outside) call.steps w'.log none)
      (fun failure w' => call.Ended outside w' (.error failure)) := by
  have hreading : (call.deadline outside).reading < w.readings := hleaves.readings_le
  have hlog : w.log = created := hleaves.log_eq
  apply Triple.tryCatch
  · apply (call.finish_spec hreading (by rw [hprogress]; rfl)).weaken (fun _ h => h)
    · rintro _ w' ⟨runs, hruns⟩
      rw [hruns.log_eq, hlog]
      exact hleaves.tried.append hruns.tried
    · exact fun _ _ h => h
  · rintro cause before ⟨runs, hruns, password_set, hnoted, hpassword⟩
    rw [hprogress] at hnoted
    have hreadings : 0 < before.readings := Nat.lt_of_lt_of_le hreading hruns.readings_le
    have hafter := @after_partial_create_spec outside call cause before hreadings
      ⟨by rw [hnoted]; rfl, by rw [hnoted]; rfl, by rw [hnoted]; rfl⟩ before rfl
    rw [Triple.exec_bind]
    rcases hrun : exec (after_partial_create outside cause) before with ⟨e | raised, after⟩
    · rw [hrun] at hafter
      exact hafter.elim
    · rw [hrun] at hafter
      obtain ⟨grace, lock_failure, hafterlog, hraised, hgrace⟩ := hafter
      have hraised' : raised = { cause with
          message := cause.message ++ py "; " ++
            describe outside { call.progress with password_set, lock_failure } } := by
        rw [hraised, hnoted]
      obtain ⟨r, hr, hcommand, hsucceeded⟩ :=
        hleaves.tried.all_succeeded call.useradd List.mem_cons_self
      have hcreatedOnly : ∀ r ∈ created, r.command = call.useradd := by
        intro r hr
        obtain ⟨command, hmem, hwithin⟩ := hleaves.tried.within r hr
        rw [hwithin.command_eq, List.mem_singleton.mp hmem]
      have hnodup : call.useradd ∉ call.later ∧ call.later.Nodup :=
        List.nodup_cons.mp call.steps_nodup
      obtain ⟨failing, hfailing, hnot⟩ := hruns.tried.some_failed hnodup.2
      show call.Ended outside after (.error raised)
      rw [hraised']
      have hcreated : ∃ r ∈ created ++ runs, r.command = call.useradd ∧
          r.outcome.succeeded = true := ⟨r, List.mem_append_left _ hr, hcommand, hsucceeded⟩
      have hafterlog' : after.log = (created ++ runs) ++ grace := by
        rw [hafterlog, hruns.log_eq, hlog]
      refine .unfinished haccepted hcreated (hleaves.tried.append hruns.tried)
        ⟨failing, hfailing, ?_⟩ hafterlog' ?_ hgrace
      · intro r hr heq
        cases List.mem_append.mp hr with
        | inl hin => exact absurd (hcreatedOnly r hin ▸ heq ▸ hfailing) hnodup.1
        | inr hin => exact hnot r hin heq
      · intro hset
        obtain ⟨r, hr, hchpasswd⟩ := hpassword hset
        exact ⟨r, List.mem_append_right _ hr, hchpasswd⟩

/-- However the commands end and whatever the clock reads, a call ends in one of the four ways. -/
theorem new_user_ended (outside : Outside) (call : NewUser) :
    call.Ended outside (exec (call.new_user outside) start).2 (exec (call.new_user outside) start).1 := by
  have hspec : Triple (fun w' => w' = start) (call.new_user outside)
      (fun user w' => call.Ended outside w' (.ok user))
      (fun failure w' => call.Ended outside w' (.error failure)) := by
    unfold new_user
    apply Triple.bind (m := fun _ w => w = start ∧ isName call.name = true)
    · apply (valid_name_spec start call.name).weaken (fun _ h => h) (fun _ _ h => h)
      rintro failure w ⟨rfl, hkind, hnot⟩
      exact .refused hkind rfl fun haccepted => hnot haccepted.1
    intro _
    apply Triple.of_and
    intro hname
    apply Triple.bind (m := fun _ w => w = start ∧
      (py "\n\r:").any call.comment.contains = false)
    · apply (reject_delimiters_spec start _ _ _).weaken (fun _ h => h) (fun _ _ h => h)
      rintro failure w ⟨rfl, hkind, hnot⟩
      exact .refused hkind rfl fun haccepted => hnot haccepted.2.1
    intro _
    apply Triple.of_and
    intro hcomment
    apply Triple.bind (m := fun _ w => w = start ∧
      (py "\n\r").any call.password.contains = false)
    · apply (reject_delimiters_spec start _ _ _).weaken (fun _ h => h) (fun _ _ h => h)
      rintro failure w ⟨rfl, hkind, hnot⟩
      exact .refused hkind rfl fun haccepted => hnot haccepted.2.2
    intro _
    apply Triple.of_and
    intro hpassword
    apply Triple.bind (m := fun deadline w => w = { start with readings := 1 } ∧
      deadline = call.deadline outside)
    · rintro w rfl
      exact ⟨rfl, rfl⟩
    intro deadline
    apply Triple.of_and
    rintro rfl
    apply Triple.bind (m := fun _ w => ∃ created, Leaves outside (call.deadline outside)
      { start with readings := 1 } [call.useradd] created none w)
    · apply (run_spec call.useradd Nat.zero_lt_one).weaken (fun _ h => h)
      · rintro _ w ⟨-, h⟩
        exact h
      · rintro failure w ⟨-, runs, hruns⟩
        have hlog : w.log = runs := hruns.log_eq
        exact .not_created ⟨hname, hcomment, hpassword⟩ (hlog ▸ hruns.tried)
    intro _
    apply Triple.of_exists
    intro created
    apply Triple.bind (m := fun _ w => Leaves outside (call.deadline outside)
      { start with readings := 1 } [call.useradd] created none w ∧ w.progress = call.progress)
    · exact Triple.modify fun w hw => ⟨hw.noted _, rfl⟩
    intro _
    apply Triple.bind (m := fun _ w => Tried outside (call.deadline outside) call.steps w.log none)
    · rintro w ⟨hleaves, hprogress⟩
      exact call.finishing_spec ⟨hname, hcomment, hpassword⟩ hleaves hprogress w rfl
    intro _
    unfold read_user
    split
    · exact Triple.throw fun w hw => .finished hw fun failure h => by cases h; rfl
    · exact Triple.pure fun w hw => .finished hw nofun
  have h := hspec start rfl
  rcases hrun : exec (call.new_user outside) start with ⟨_ | _, w⟩
  · rw [hrun] at h
    exact h
  · rw [hrun] at h
    exact h

end NewUser

end PwshPy.Accounts
