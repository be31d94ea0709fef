import Mathlib.Data.List.Nodup
import PwshPy.Accounts.NewUser

/-! # Commands tried one after the other

The commands of a call are tried in order, each under the same deadline, up to
the first that fails or that the deadline does not leave time for.
-/

namespace PwshPy.Accounts

section Tried

variable (outside : Outside) (deadline : Deadline)

/-- A command that was started before its deadline, behind the reading that the deadline was made from. -/
structure Run.Within (r : Run) (command : Command) : Prop where
  command_eq : r.command = command
  deadline_eq : r.deadline = deadline
  in_time : r.now < deadline.ends_at
  later : ∃ k, deadline.reading < k ∧ r.now = outside.clock k

/-- The runs of commands tried in order, and the failure they end with. -/
inductive Tried : List Command → List Run → Option Failure → Prop where
  | done : Tried [] [] none
  | next {command : Command} {r : Run} {commands : List Command} {runs : List Run}
      {ending : Option Failure} (hr : r.Within outside deadline command)
      (hok : r.outcome.succeeded = true) (hrest : Tried commands runs ending) :
      Tried (command :: commands) (r :: runs) ending
  | failed {command : Command} {r : Run} {failure : Failure} (commands : List Command)
      (hr : r.Within outside deadline command)
      (hfailure : failureOf outside command deadline r.outcome = some failure) :
      Tried (command :: commands) [r] (some failure)
  | late (command : Command) (commands : List Command) (k : Nat)
      (hlate : deadline.ends_at ≤ outside.clock k) :
      Tried (command :: commands) [] (some (notStarted outside command deadline))

variable {outside deadline}

theorem failureOf_eq_none {command : Command} {outcome : Outcome} :
    failureOf outside command deadline outcome = none ↔ outcome.succeeded = true := by
  cases outcome with
  | exited exit_code stdout stderr => simp [failureOf, Outcome.succeeded]
  | timed_out => simp [failureOf, Outcome.succeeded]
  | not_started message denied => simp [failureOf, Outcome.succeeded]

theorem not_succeeded_of_failure {command : Command} {outcome : Outcome} {failure : Failure}
    (h : failureOf outside command deadline outcome = some failure) : outcome.succeeded = false := by
  cases hsucceeded : outcome.succeeded with
  | false => rfl
  | true =>
      rw [failureOf_eq_none.mpr hsucceeded] at h
      cases h

theorem failureOf_timeout {command : Command} {outcome : Outcome} {failure : Failure}
    (h : failureOf outside command deadline outcome = some failure) :
    (∃ limit, failure.kind = .operation_timeout limit) ↔ outcome = .timed_out := by
  cases outcome with
  | exited exit_code stdout stderr =>
      simp only [failureOf] at h
      split at h
      · obtain rfl := Option.some.inj h
        simp
      · cases h
  | timed_out =>
      obtain rfl := Option.some.inj h
      simp
  | not_started message denied =>
      obtain rfl := Option.some.inj h
      cases denied <;> simp

theorem failureOf_limit {command : Command} {outcome : Outcome} {failure : Failure} {limit : ℚ}
    (h : failureOf outside command deadline outcome = some failure)
    (hkind : failure.kind = .operation_timeout limit) : limit = deadline.limit := by
  obtain rfl := (failureOf_timeout h).mp ⟨limit, hkind⟩
  obtain rfl := Option.some.inj h
  exact (FailureKind.operation_timeout.inj hkind).symm

namespace Tried

variable {commands more : List Command} {runs others : List Run} {ending : Option Failure}
  {failure : Failure}

theorem append (h : Tried outside deadline commands runs none)
    (hmore : Tried outside deadline more others ending) :
    Tried outside deadline (commands ++ more) (runs ++ others) ending := by
  generalize hnone : (none : Option Failure) = before at h
  induction h with
  | done => exact hmore
  | next hr hok _ ih => exact .next hr hok (ih hnone)
  | failed => cases hnone
  | late => cases hnone

theorem stopped (h : Tried outside deadline commands runs (some failure)) (more : List Command) :
    Tried outside deadline (commands ++ more) runs (some failure) := by
  generalize hsome : some failure = before at h
  induction h with
  | done => cases hsome
  | next hr hok _ ih => exact .next hr hok (ih hsome)
  | failed commands hr hfailure => exact .failed (commands ++ more) hr hfailure
  | late command commands k hlate => exact .late command (commands ++ more) k hlate

theorem within (h : Tried outside deadline commands runs ending) :
    ∀ r ∈ runs, ∃ command ∈ commands, r.Within outside deadline command := by
  induction h with
  | done => simp
  | next hr hok _ ih =>
      intro r hmem
      cases List.mem_cons.mp hmem with
      | inl heq => exact ⟨_, List.mem_cons_self, heq ▸ hr⟩
      | inr hin =>
          obtain ⟨command, hcommand, hwithin⟩ := ih r hin
          exact ⟨command, List.mem_cons_of_mem _ hcommand, hwithin⟩
  | failed commands hr hfailure =>
      intro r hmem
      rw [List.mem_singleton.mp hmem]
      exact ⟨_, List.mem_cons_self, hr⟩
  | late => simp

/-- Without a failure each command was run and succeeded. -/
theorem all_succeeded (h : Tried outside deadline commands runs none) :
    ∀ command ∈ commands, ∃ r ∈ runs, r.command = command ∧ r.outcome.succeeded = true := by
  generalize hnone : (none : Option Failure) = before at h
  induction h with
  | done => simp
  | next hr hok _ ih =>
      intro command hmem
      cases List.mem_cons.mp hmem with
      | inl heq => exact ⟨_, List.mem_cons_self, heq ▸ hr.command_eq, hok⟩
      | inr hin =>
          obtain ⟨r, hr, hsucceeded⟩ := ih hnone command hin
          exact ⟨r, List.mem_cons_of_mem _ hr, hsucceeded⟩
  | failed => cases hnone
  | late => cases hnone

/-- With a failure there is a command that did not succeed. -/
theorem some_failed (h : Tried outside deadline commands runs (some failure))
    (hdistinct : commands.Nodup) :
    ∃ command ∈ commands, ∀ r ∈ runs, r.command = command → r.outcome.succeeded = false := by
  generalize hsome : some failure = before at h
  induction h with
  | done => cases hsome
  | @next command r commands runs ending hr hok hrest ih =>
      rw [List.nodup_cons] at hdistinct
      obtain ⟨failing, hfailing, hnot⟩ := ih hdistinct.2 hsome
      refine ⟨failing, List.mem_cons_of_mem _ hfailing, ?_⟩
      intro r' hr' heq
      cases List.mem_cons.mp hr' with
      | inl hfirst =>
          rw [hfirst, hr.command_eq] at heq
          exact absurd (heq ▸ hfailing) hdistinct.1
      | inr hin => exact hnot r' hin heq
  | @failed command r failure' commands hr hfailure =>
      refine ⟨command, List.mem_cons_self, ?_⟩
      intro r' hr' _
      rw [List.mem_singleton.mp hr']
      exact not_succeeded_of_failure hfailure
  | late command commands => exact ⟨command, List.mem_cons_self, by simp⟩

/-- The last command did not succeed. -/
theorem last_failed (h : Tried outside deadline commands runs (some failure))
    (hdistinct : commands.Nodup) {last : Command} (hlast : commands.getLast? = some last) :
    ∀ r ∈ runs, r.command = last → r.outcome.succeeded = false := by
  generalize hsome : some failure = before at h
  induction h with
  | done => cases hsome
  | @next command first commands runs ending hr hok hrest ih =>
      have hne : commands ≠ [] := by
        rintro rfl
        subst hsome
        cases hrest
      rw [List.getLast?_cons, List.getLast?_eq_some_getLast hne] at hlast
      have hlast' : commands.getLast? = some last := by
        rw [List.getLast?_eq_some_getLast hne]
        exact hlast
      rw [List.nodup_cons] at hdistinct
      intro r hmem heq
      cases List.mem_cons.mp hmem with
      | inl hfirst =>
          rw [hfirst, hr.command_eq] at heq
          exact absurd (heq ▸ List.mem_of_getLast? hlast') hdistinct.1
      | inr hin => exact ih hdistinct.2 hlast' hsome r hin heq
  | @failed command first failure' commands hr hfailure =>
      intro r hmem _
      rw [List.mem_singleton.mp hmem]
      exact not_succeeded_of_failure hfailure
  | late => simp

/-- The failure is that of one of the commands: it was run and failed, or was not started. -/
theorem cause (h : Tried outside deadline commands runs (some failure)) :
    ∃ command ∈ commands, failure = notStarted outside command deadline ∨
      ∃ r ∈ runs, r.command = command ∧
        failureOf outside command deadline r.outcome = some failure := by
  generalize hsome : some failure = before at h
  induction h with
  | done => cases hsome
  | next _ _ _ ih =>
      obtain ⟨command, hmem, hcause⟩ := ih hsome
      refine ⟨command, List.mem_cons_of_mem _ hmem, hcause.imp_right ?_⟩
      rintro ⟨r, hr, hfailed⟩
      exact ⟨r, List.mem_cons_of_mem _ hr, hfailed⟩
  | failed commands hr hfailure =>
      exact ⟨_, List.mem_cons_self, .inr ⟨_, List.mem_cons_self, hr.command_eq, hsome ▸ hfailure⟩⟩
  | late command commands =>
      exact ⟨command, List.mem_cons_self, .inl (Option.some.inj hsome)⟩

theorem limit_eq {limit : ℚ} (h : Tried outside deadline commands runs (some failure))
    (hkind : failure.kind = .operation_timeout limit) : limit = deadline.limit := by
  generalize hsome : some failure = before at h
  induction h with
  | done => cases hsome
  | next _ _ _ ih => exact ih hsome
  | failed commands hr hfailure =>
      obtain rfl := Option.some.inj hsome
      exact failureOf_limit hfailure hkind
  | late command commands =>
      obtain rfl := Option.some.inj hsome
      exact (FailureKind.operation_timeout.inj hkind).symm

theorem succeeded (h : Tried outside deadline commands runs none) :
    ∀ r ∈ runs, r.outcome.succeeded = true := by
  generalize hnone : (none : Option Failure) = before at h
  induction h with
  | done => simp
  | next hr hok _ ih =>
      intro r hmem
      cases List.mem_cons.mp hmem with
      | inl hfirst => exact hfirst ▸ hok
      | inr hin => exact ih hnone r hin
  | failed => cases hnone
  | late => cases hnone

/-- A failure is a timeout when a command was killed, or when each one that was run succeeded. -/
theorem timeout_iff (h : Tried outside deadline commands runs (some failure))
    (hdistinct : commands.Nodup) :
    (∃ limit, failure.kind = .operation_timeout limit) ↔
      (∃ r ∈ runs, r.outcome = .timed_out) ∨
        ((∀ r ∈ runs, r.outcome.succeeded = true) ∧
          ∃ command ∈ commands, ∀ r ∈ runs, r.command ≠ command) := by
  generalize hsome : some failure = before at h
  induction h with
  | done => cases hsome
  | @next command first commands runs ending hr hok hrest ih =>
      rw [List.nodup_cons] at hdistinct
      have hkilled : first.outcome ≠ .timed_out := by
        intro heq
        rw [heq] at hok
        cases hok
      rw [ih hdistinct.2 hsome]
      simp only [List.mem_cons, exists_eq_or_imp, forall_eq_or_imp, hkilled, hok, true_and, false_or]
      apply or_congr Iff.rfl
      apply and_congr_right
      intro _
      constructor
      · rintro ⟨later, hlater, hnot⟩
        refine .inr ⟨later, hlater, ?_, hnot⟩
        rintro rfl
        exact hdistinct.1 (hr.command_eq ▸ hlater)
      · rintro (⟨hfirst, -⟩ | ⟨later, hlater, -, hnot⟩)
        · exact absurd hr.command_eq hfirst
        · exact ⟨later, hlater, hnot⟩
  | @failed command first failure' commands hr hfailure =>
      obtain rfl := Option.some.inj hsome
      simp [failureOf_timeout hfailure, not_succeeded_of_failure hfailure]
  | late command commands =>
      obtain rfl := Option.some.inj hsome
      simp [notStarted]

end Tried

end Tried

end PwshPy.Accounts
