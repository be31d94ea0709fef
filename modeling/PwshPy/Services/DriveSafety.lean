import PwshPy.Services.Drive

/-! # What a service call leaves behind

Against any sequence of service states and any clock that does not go back, a
call sends its control once at most, from a settled state that is not the
target, and gives up only at its deadline.
-/

namespace PwshPy.Services

variable {τ : Type} [LinearOrder τ]

/-- What holds of a call at whatever point it stands: `ending` is how, `p` what
it did so far. -/
structure Safe (outside : Outside τ) (deadline : Deadline τ) (control : Control) (wait : Bool)
    (ending : Ending τ Unit) (p : Progress τ) : Prop where
  sent_once : p.log.countP isSent ≤ 1
  /-- The state observed last before the control was settled and not the target. -/
  sent_settled : ∀ later earlier, p.log = later ++ .sent :: earlier →
    ∃ state, observed earlier = some state ∧ state ∉ PENDING_STATES ∧ state ≠ control.target
  at_target : wait = true → ending = .returned () → observed p.log = some control.target
  settling_unsent : ∀ state timeout,
    ending = .raised (.operation_timeout (.still_pending state) timeout) → .sent ∉ p.log
  /-- The clock was at or behind the deadline when the timeout was raised, and stays there. -/
  expires_late : ∀ why timeout, ending = .raised (.operation_timeout why timeout) →
    ∀ n, p.readings ≤ n + 1 → deadline.ends ≤ outside.clock n

omit [LinearOrder τ] in
theorem not_sent_of_countP {log : List (Event τ)} (h : log.countP isSent = 0) : .sent ∉ log := by
  intro hmem
  exact absurd (List.countP_eq_zero.mp h _ hmem) (by simp [isSent])

omit [LinearOrder τ] in
/-- Of a control sent once, only one part of the log is the earlier one. -/
theorem earlier_of_sent {new old later earlier : List (Event τ)} (hnew : new.countP isSent = 0)
    (hold : old.countP isSent = 0) (h : new ++ .sent :: old = later ++ .sent :: earlier) :
    earlier = old := by
  induction new generalizing later with
  | nil =>
      cases later with
      | nil => exact (List.cons.inj h).2.symm
      | cons e later =>
          have hmem : .sent ∈ old := by
            rw [(List.cons.inj h).2]
            simp
          exact absurd hmem (not_sent_of_countP hold)
  | cons e new ih =>
      rw [List.countP_cons] at hnew
      cases later with
      | nil =>
          have he : e = .sent := (List.cons.inj h).1
          rw [he] at hnew
          simp [isSent] at hnew
      | cons e' later => exact ih (by omega) (List.cons.inj h).2

theorem late_from_here {outside : Outside τ} (hclock : Monotone outside.clock)
    {deadline : Deadline τ} {p : Progress τ} (h : Late outside deadline p) :
    ∀ n, p.readings ≤ n + 1 → deadline.ends ≤ outside.clock n := by
  obtain ⟨k, hk, hends⟩ := h
  intro n hn
  have hkn : k ≤ n := by omega
  exact hends.trans (hclock hkn)

/-- Up to the decision nothing is sent. -/
theorem safe_unsent {outside : Outside τ} (hclock : Monotone outside.clock)
    {deadline : Deadline τ} {control : Control} {wait : Bool} {ending : Ending τ Unit}
    {p : Progress τ} (hsent : p.log.countP isSent = 0)
    (htarget : wait = true → ending = .returned () → observed p.log = some control.target)
    (hlate : ∀ why timeout, ending = .raised (.operation_timeout why timeout) →
      Late outside deadline p) :
    Safe outside deadline control wait ending p where
  sent_once := by omega
  sent_settled := by
    intro later earlier h
    exact absurd (by rw [h]; simp) (not_sent_of_countP hsent)
  at_target := htarget
  settling_unsent := fun _ _ _ => not_sent_of_countP hsent
  expires_late := fun why timeout h => late_from_here hclock (hlate why timeout h)

/-- The control is sent, and the call waits for its target or not. -/
theorem safe_sent {outside : Outside τ} (hclock : Monotone outside.clock) {deadline : Deadline τ}
    {control : Control} {wait : Bool} {ending : Ending τ Unit} {p q : Progress τ}
    {state : ServiceState} (hunsent : p.log.countP isSent = 0)
    (hobserved : observed p.log = some state) (hstep : control.step_in state = .issue)
    (hpolls : Polls { p with log := .sent :: p.log } q)
    (htarget : wait = true → ending = .returned () → observed q.log = some control.target)
    (hwhy : ∀ why timeout, ending = .raised (.operation_timeout why timeout) →
      why = .not_reached control.target)
    (hlate : ∀ why timeout, ending = .raised (.operation_timeout why timeout) →
      Late outside deadline q) :
    Safe outside deadline control wait ending q where
  sent_once := by
    obtain ⟨new, hq, hnew⟩ := hpolls
    rw [hq, List.countP_append, List.countP_cons, hnew, hunsent]
    simp [isSent]
  sent_settled := by
    obtain ⟨new, hq, hnew⟩ := hpolls
    intro later earlier h
    have hold := earlier_of_sent hnew hunsent (hq.symm.trans h)
    obtain ⟨hsettled, hother⟩ := Control.step_in_issue.mp hstep
    exact ⟨state, by rw [hold]; exact hobserved, hsettled, hother⟩
  at_target := htarget
  settling_unsent := by
    intro _ timeout h
    cases hwhy _ timeout h
  expires_late := fun why timeout h => late_from_here hclock (hlate why timeout h)

/-- From a state that is settled, or whose own transition is under way, on. -/
theorem carry_out_safe {outside : Outside τ} (hclock : Monotone outside.clock)
    (deadline : Deadline τ) (control : Control) (wait : Bool) (rounds : Nat) {p : Progress τ}
    {state : ServiceState} (hunsent : p.log.countP isSent = 0)
    (hobserved : observed p.log = some state) :
    let out := carry_out outside deadline control wait rounds (control.step_in state) p
    Safe outside deadline control wait out.1 out.2 := by
  by_cases hissue : control.step_in state = .issue
  · cases hc : outside.control with
    | error e =>
        simp only [carry_out, if_pos hissue, issue, hc]
        exact safe_sent hclock hunsent hobserved hissue (.refl _) (by simp) (by simp) (by simp)
    | ok _ =>
        have hnot_done : control.step_in state ≠ .done := by
          rw [hissue]
          decide
        cases wait with
        | false =>
            simp only [carry_out, if_pos hissue, issue, hc]
            exact safe_sent hclock hunsent hobserved hissue (.refl _) (by simp) (by simp) (by simp)
        | true =>
            obtain ⟨hpolls, htarget, hwhy⟩ := wait_for_state_spec outside deadline control.target
              rounds { p with log := .sent :: p.log }
            simp only [carry_out, if_pos hissue, issue, hc, hnot_done, ne_eq, not_false_eq_true,
              and_self, if_true]
            exact safe_sent hclock hunsent hobserved hissue hpolls.polls (fun _ => htarget) hwhy
              hpolls.expires_late
  · by_cases hwaits : wait = true ∧ control.step_in state ≠ .done
    · obtain ⟨hpolls, htarget, -⟩ := wait_for_state_spec outside deadline control.target rounds p
      obtain ⟨new, hlog, hnew⟩ := hpolls.polls
      have hcount : ((wait_for_state outside deadline control.target rounds p).2.log).countP
          isSent = 0 := by
        rw [hlog, List.countP_append, hnew, hunsent]
      simp only [carry_out, if_neg hissue, if_pos hwaits]
      exact safe_unsent hclock hcount (fun _ => htarget) hpolls.expires_late
    · simp only [carry_out, if_neg hissue, if_neg hwaits]
      refine safe_unsent hclock hunsent ?_ (by simp)
      intro hwait _
      have hdone : control.step_in state = .done := by
        by_contra hother
        exact hwaits ⟨hwait, hother⟩
      rw [hobserved, Control.step_in_done.mp hdone]

theorem drive_safe {outside : Outside τ} (hclock : Monotone outside.clock)
    (deadline : Deadline τ) (control : Control) (wait : Bool) (rounds : Nat) {p : Progress τ}
    (hunsent : p.log.countP isSent = 0) :
    let out := drive outside deadline control wait rounds p
    Safe outside deadline control wait out.1 out.2 := by
  have hsum : ∀ {q : Progress τ}, Polls p q → q.log.countP isSent = 0 := by
    intro q hq
    obtain ⟨new, hlog, hnew⟩ := hq
    rw [hlog, List.countP_append, hnew, hunsent]
  cases hq : current_state outside p with
  | mk answer q =>
      cases answer with
      | error e =>
          simp only [drive, hq]
          exact safe_unsent hclock (hsum (current_state_error hq)) (by simp) (by simp)
      | ok state =>
          obtain ⟨hpolls, hobserved⟩ := current_state_ok hq
          by_cases hsettle : control.step_in state = .settle_first
          · obtain ⟨hsettles, hsettled⟩ := wait_until_settled_spec outside deadline rounds q
            cases hw : wait_until_settled outside deadline rounds q with
            | mk answer r =>
                rw [hw] at hsettles hsettled
                have hcount := hsum (hpolls.trans hsettles.polls)
                cases answer with
                | raised e =>
                    simp only [drive, hq, if_pos hsettle, hw]
                    refine safe_unsent hclock hcount (by simp) ?_
                    intro why timeout h
                    refine hsettles.expires_late why timeout ?_
                    simpa using h
                | running =>
                    simp only [drive, hq, if_pos hsettle, hw]
                    exact safe_unsent hclock hcount (by simp) (by simp)
                | returned settled =>
                    simp only [drive, hq, if_pos hsettle, hw]
                    exact carry_out_safe hclock deadline control wait rounds hcount
                      (hsettled settled rfl).1
          · simp only [drive, hq, if_neg hsettle]
            exact carry_out_safe hclock deadline control wait rounds (hsum hpolls) hobserved

/-! ## Calls end -/

theorem passed_of_late {outside : Outside τ} (hclock : Monotone outside.clock)
    {deadline : Deadline τ} {n : Nat} (hn : deadline.ends ≤ outside.clock n) {p : Progress τ}
    (hp : n ≤ p.readings) : (deadline.passed outside p).1 = true :=
  decide_eq_true (hn.trans (hclock hp))

omit [LinearOrder τ] in
theorem current_state_readings (outside : Outside τ) (p : Progress τ) :
    (current_state outside p).2.readings = p.readings := by
  unfold current_state
  split <;> rfl

/-- Once the clock reaches the deadline, the loop has ended after one reading more. -/
theorem wait_for_state_ends {outside : Outside τ} (hclock : Monotone outside.clock)
    {deadline : Deadline τ} {n : Nat} (hn : deadline.ends ≤ outside.clock n)
    (target : ServiceState) {rounds : Nat} (hrounds : 0 < rounds) {p : Progress τ}
    (hp : n < p.readings + rounds) :
    (wait_for_state outside deadline target rounds p).1 ≠ .running := by
  induction rounds generalizing p with
  | zero => omega
  | succ rounds ih =>
      have hreadings := current_state_readings outside p
      cases hq : current_state outside p with
      | mk answer q =>
          rw [hq] at hreadings
          replace hreadings : q.readings = p.readings := hreadings
          cases answer with
          | error e => simp [wait_for_state, hq]
          | ok state =>
              by_cases hstate : state = target
              · simp [wait_for_state, hq, hstate]
              · by_cases hlate : n ≤ q.readings
                · have hpassed := passed_of_late hclock hn hlate
                  cases hread : deadline.passed outside q with
                  | mk passed r =>
                      rw [hread] at hpassed
                      obtain rfl : passed = true := hpassed
                      simp [wait_for_state, hq, hstate, hread]
                · cases hread : deadline.passed outside q with
                  | mk passed r =>
                      have hr : r.readings = q.readings + 1 := by
                        simp only [Deadline.passed, monotonic, Prod.mk.injEq] at hread
                        rw [← hread.2]
                      cases passed with
                      | true => simp [wait_for_state, hq, hstate, hread]
                      | false =>
                          have hnext : n < (sleep r).readings + rounds := by
                            show n < r.readings + rounds
                            omega
                          simp only [wait_for_state, hq, if_neg hstate, hread]
                          exact ih (by omega) hnext

theorem wait_until_settled_ends {outside : Outside τ} (hclock : Monotone outside.clock)
    {deadline : Deadline τ} {n : Nat} (hn : deadline.ends ≤ outside.clock n) {rounds : Nat}
    (hrounds : 0 < rounds) {p : Progress τ} (hp : n < p.readings + rounds) :
    (wait_until_settled outside deadline rounds p).1 ≠ .running ∧
      p.readings ≤ (wait_until_settled outside deadline rounds p).2.readings := by
  induction rounds generalizing p with
  | zero => omega
  | succ rounds ih =>
      have hreadings := current_state_readings outside p
      cases hq : current_state outside p with
      | mk answer q =>
          rw [hq] at hreadings
          replace hreadings : q.readings = p.readings := hreadings
          cases answer with
          | error e => simp [wait_until_settled, hq, hreadings]
          | ok state =>
              by_cases hstate : state ∈ PENDING_STATES
              · cases hread : deadline.passed outside q with
                | mk passed r =>
                    have hr : r.readings = q.readings + 1 := by
                      simp only [Deadline.passed, monotonic, Prod.mk.injEq] at hread
                      rw [← hread.2]
                    cases passed with
                    | true =>
                        simp only [wait_until_settled, hq, if_pos hstate, hread]
                        exact ⟨by simp, by omega⟩
                    | false =>
                        have hlate : ¬n ≤ q.readings := by
                          intro hlate
                          have hpassed := passed_of_late hclock hn hlate
                          rw [hread] at hpassed
                          cases hpassed
                        have hnext : n < (sleep r).readings + rounds := by
                          show n < r.readings + rounds
                          omega
                        obtain ⟨hends, hmore⟩ := ih (by omega) hnext
                        simp only [wait_until_settled, hq, if_pos hstate, hread]
                        refine ⟨hends, ?_⟩
                        replace hmore : r.readings ≤ _ := hmore
                        omega
              · simp [wait_until_settled, hq, hstate, hreadings]

theorem carry_out_ends {outside : Outside τ} (hclock : Monotone outside.clock)
    {deadline : Deadline τ} {n : Nat} (hn : deadline.ends ≤ outside.clock n) (control : Control)
    (wait : Bool) {rounds : Nat} (hrounds : n < rounds) (step : ControlStep) (p : Progress τ) :
    (carry_out outside deadline control wait rounds step p).1 ≠ .running := by
  unfold carry_out
  split
  · simp
  · split
    · exact wait_for_state_ends hclock hn control.target (by omega) (by omega)
    · simp

theorem drive_ends {outside : Outside τ} (hclock : Monotone outside.clock)
    {deadline : Deadline τ} {n : Nat} (hn : deadline.ends ≤ outside.clock n) (control : Control)
    (wait : Bool) {rounds : Nat} (hrounds : n < rounds) (p : Progress τ) :
    (drive outside deadline control wait rounds p).1 ≠ .running := by
  unfold drive
  split
  · simp
  · rename_i state q _
    split
    · have hends : (wait_until_settled outside deadline rounds q).1 ≠ .running :=
        (wait_until_settled_ends hclock hn (by omega) (by omega)).1
      split
      · exact carry_out_ends hclock hn control wait hrounds _ _
      · simp
      · rename_i h
        rw [h] at hends
        exact absurd rfl hends
    · exact carry_out_ends hclock hn control wait hrounds _ _

/-! ## Every call -/

/-- A start or stop is safe at whatever point of its run, its one deadline fixed
by the first reading of the clock; once the service has settled the step decided
is to do nothing or to send the control; and a clock that reaches the deadline
ends the call. -/
theorem service_calls_are_safe [Add τ] {outside : Outside τ} (hclock : Monotone outside.clock)
    (control : Control) (timeout : τ) (wait : Bool) :
    (∀ rounds, Safe outside ⟨outside.clock 0 + timeout, timeout⟩ control wait
      (control_service outside control timeout wait rounds).1
      (control_service outside control timeout wait rounds).2) ∧
    (∀ deadline rounds p state q,
      wait_until_settled outside deadline rounds p = (.returned state, q) →
        control.step_in state = .done ∨ control.step_in state = .issue) ∧
    ∀ n, outside.clock 0 + timeout ≤ outside.clock n → ∀ rounds, n < rounds →
      (control_service outside control timeout wait rounds).1 ≠ .running := by
  refine ⟨?_, ?_, ?_⟩
  · intro rounds
    have hread : ({ queries := 0, readings := 1, log := [.read (outside.clock 0)] } :
        Progress τ).log.countP isSent = 0 := rfl
    exact drive_safe hclock ⟨outside.clock 0 + timeout, timeout⟩ control wait rounds hread
  · intro deadline rounds p state q h
    have hsettled := (wait_until_settled_spec outside deadline rounds p).2 state (by rw [h])
    exact Control.step_in_settled hsettled.2
  · intro n hn rounds hrounds
    exact @drive_ends _ _ outside hclock ⟨outside.clock 0 + timeout, timeout⟩ n hn control wait
      rounds hrounds _

/-- A service that is stopping when a start comes, on a clock that stands still. -/
def stoppingService : Outside Nat where
  states n := .ok (if n = 0 then SERVICE_STOP_PENDING else SERVICE_STOPPED)
  clock _ := 0
  control := .ok ()

theorem service_calls_are_safe_stopping :
    (control_service stoppingService .start 30 false 2).2.log.countP isSent ≤ 1 :=
  ((@service_calls_are_safe _ _ _ stoppingService (fun _ _ _ => le_rfl) .start 30 false).1
    2).sent_once

end PwshPy.Services
