import PwshPy.Jobs.JobTree

/-! # No process of the tree is left

Before the program is in the job it has run nothing, so all that it ever starts is in
the job too, and the job kills what is left when it is closed.
-/

namespace PwshPy.Jobs

open Effects (Asking)
open Effects.Asking
open Host

/-- What holds of each ending, with the processes of the host going on meanwhile. -/
abbrev Leaving {α : Type} (post : Except Failure α → Host → Prop) (x : Win α) (s : Host) : Prop :=
  Leaves Move serves post x s

/-! ## Behind the assignment -/

/-- A call that neither makes nor closes the job, nor puts a process into it. -/
def Harmless : Call → Prop
  | .create_job | .set_limits _ | .close_job | .popen _ | .assign _ => False
  | _ => True

theorem inside_served {program : Nat} (q : Call) (reply : q.Reply) (s s' : Host) (hq : Harmless q)
    (hserved : serves s q reply s') (h : s.Inside program) : s'.Inside program := by
  have hsame : s' = s → s'.Inside program := fun hs => hs ▸ h
  cases q with
  | create_job | set_limits _ | close_job | popen _ | assign _ => exact hq.elim
  | load _ | close_handle | past_deadline | sleep | start_io _ | output => exact hsame hserved
  | query_limits | threads _ | active_processes =>
      cases reply with
      | error text => exact hsame hserved
      | ok value => exact hsame hserved.2
  | open_process _ | open_thread _ =>
      cases reply with
      | error text => exact hsame hserved
      | ok value => exact hsame hserved
  | resume_thread thread =>
      cases reply with
      | error text => exact hsame hserved
      | ok value => exact hserved ▸ h.resume (s.owner thread)
  | terminate_job code =>
      cases reply with
      | error text => exact hsame hserved
      | ok value => exact hserved ▸ Onward.endMembers.inside h
  | kill pid =>
      cases reply with
      | error text => exact hserved ▸ h.unkilled
      | ok value => exact hserved ▸ Onward.finish.inside h
  | wait pid =>
      cases reply with
      | error text => exact hsame hserved
      | ok code => exact hsame hserved.2

section Harmless

variable {α : Type} {asks : Call → Prop} {raises : Failure → Prop}

theorem within_native {what : PyStr} {call : Win (Except PyStr α)} (hcall : call.Within asks raises)
    (hraises : ∀ message, raises (.native_call message)) : (native what call).Within asks raises := by
  refine hcall.bind fun reply => ?_
  cases reply with
  | ok a => exact .pure a
  | error text => exact .raise (hraises _)

theorem within_unmapped {call : Win (Except PyStr α)} (hcall : call.Within asks raises)
    (hraises : ∀ fault, raises (.popen fault)) : (unmapped call).Within asks raises := by
  refine hcall.bind fun reply => ?_
  cases reply with
  | ok a => exact .pure a
  | error text => exact .raise (hraises _)

theorem within_load (name : PyStr) : (load name).Within Harmless fun _ => True := by
  refine Within.bind (.question trivial) fun found => ?_
  cases found with
  | true => exact .pure ()
  | false => exact .raise trivial

theorem within_resume_threads (threads : List Nat) :
    (resume_threads threads).Within Harmless fun _ => True := by
  induction threads with
  | nil => exact .pure ()
  | cons thread threads ih =>
      refine (within_native (.question trivial) fun _ => trivial).bind fun _ => ?_
      have hclose : (question Call.close_handle : Win Unit).Within Harmless fun _ => True :=
        .question trivial
      have hresume : (native (py "ResumeThread") (question (Call.resume_thread thread))).Within Harmless
          fun _ => True := within_native (.question trivial) fun _ => trivial
      exact (hclose.ensuring hresume).bind fun _ => ih

theorem within_resume (pid : Nat) : (resume pid).Within Harmless fun _ => True := by
  refine (within_load _).bind fun _ => (within_load _).bind fun _ => ?_
  refine (within_native (.question trivial) fun _ => trivial).bind fun threads => ?_
  split_ifs with hnone
  · exact .raise trivial
  · exact within_resume_threads threads

theorem within_kill (pid : Nat) : (kill pid).Within Harmless fun _ => True :=
  (within_native (.question trivial) fun _ => trivial).bind fun _ =>
    (within_unmapped (.question trivial) fun _ => trivial).bind fun _ => .pure ()

theorem leaves_inside {s : Host} {program : Nat} {x : Win α}
    (hx : x.Within Harmless fun _ => True) (h : s.Inside program) :
    Leaving (fun _ s' => s'.Inside program) x s :=
  (within_leaves hx (fun _ _ hmove hs => hmove.onward.inside hs) inside_served h).mono
    fun _ _ hending => hending.1

end Harmless

/-! ## The launch -/

section Launch

variable {s s' : Host} {program : Nat}

theorem later_bare (hlater : Later s s') (h : s.Bare) : s'.Bare :=
  kept (fun _ _ ho => ho.bare) hlater h

theorem later_kills (hlater : Later s s') (h : s.killsOnClose = true) : s'.killsOnClose = true :=
  kept (P := fun s => s.killsOnClose = true) (fun _ _ ho => ho.kills) hlater h

theorem later_inside (hlater : Later s s') (h : s.Inside program) : s'.Inside program :=
  kept (fun _ _ ho => ho.inside) hlater h

theorem later_waiting (hlater : Later s s') (h : s.Waiting program) : s'.Waiting program :=
  kept (fun _ _ ho => ho.waiting) hlater h

theorem later_gone (hlater : Later s s') (h : s.Gone) : s'.Gone :=
  kept (fun _ _ ho => ho.gone) hlater h

theorem later_left (hlater : Later s s') (h : s.Left) : s'.Left :=
  kept (fun _ _ ho => ho.left) hlater h

theorem later_confined (hlater : Later s s') (h : s.Confined) : s'.Confined :=
  kept (fun _ _ ho => ho.confined) hlater h

/-- The program goes into the job, or still waits outside. -/
theorem leaves_assign (hkills : s.killsOnClose = true) (h : s.Waiting program) :
    Leaving (fun ending s' =>
      match ending with
      | .ok _ => s'.Inside program
      | .error failure => (∃ message, failure = .native_call message) ∧ s'.killsOnClose = true ∧
          s'.Waiting program) (assign program) s := by
  rw [assign, native, bind_assoc]
  refine leaves_call fun s₁ reply s₁' h₁ hserved => ?_
  have hkills₁ := later_kills h₁ hkills
  have hwaiting₁ := later_waiting h₁ h
  cases reply with
  | error text =>
      obtain rfl : s₁' = s₁ := hserved
      exact leaves_raise fun s' h' => ⟨⟨_, rfl⟩, later_kills h' hkills₁, later_waiting h' hwaiting₁⟩
  | ok opened =>
      obtain rfl : s₁' = s₁ := hserved
      refine leaves_ensuring (leaves_call fun s₂ reply s₂' h₂ hserved => ?_)
      have hkills₂ := later_kills h₂ hkills₁
      have hwaiting₂ := later_waiting h₂ hwaiting₁
      cases reply with
      | error text =>
          obtain rfl : s₂' = s₂ := hserved
          refine leaves_raise fun s₃ h₃ => leaves_reply (q := Call.close_handle)
            fun s₄ reply s₄' s' h₄ hserved h' => ?_
          obtain rfl : s₄' = s₄ := hserved
          have hlater : Later s₂' s' := (h₃.trans h₄).trans h'
          exact ⟨⟨_, rfl⟩, later_kills hlater hkills₂, later_waiting hlater hwaiting₂⟩
      | ok assigned =>
          have hinside : s₂'.Inside program := hserved ▸ hwaiting₂.assign hkills₂
          refine leaves_pure fun s₃ h₃ => leaves_reply (q := Call.close_handle)
            fun s₄ reply s₄' s' h₄ hserved h' => ?_
          obtain rfl : s₄' = s₄ := hserved
          exact later_inside ((h₃.trans h₄).trans h') hinside

theorem leaves_kill_program : Leaving (fun _ s' => ∃ s₁, Later s s₁ ∧
    (Later (s₁.finish program 1) s' ∨ Later { s₁ with unkilled := true } s')) (kill_program program)
      s := by
  rw [kill_program, unmapped]
  refine leaves_bind (leaves_call fun s₁ reply s₁' h₁ hserved => ?_)
  cases reply with
  | error text =>
      obtain rfl : s₁' = { s₁ with unkilled := true } := hserved
      exact leaves_raise fun s' h' => ⟨s₁, h₁, Or.inr h'⟩
  | ok killed =>
      obtain rfl : s₁' = s₁.finish program 1 := hserved
      refine leaves_pure fun s₂ h₂ => ?_
      show Leaving _ (unmapped (question (Call.wait program)) >>= fun _ => pure ()) s₂
      rw [unmapped]
      refine leaves_bind (leaves_call fun s₃ reply s₃' h₃ hserved => ?_)
      cases reply with
      | error text =>
          obtain rfl : s₃' = s₃ := hserved
          exact leaves_raise fun s' h' => ⟨s₁, h₁, Or.inl ((h₂.trans h₃).trans h')⟩
      | ok code =>
          obtain ⟨-, rfl⟩ := hserved
          exact leaves_pure fun s₄ h₄ => leaves_pure fun s' h' =>
            ⟨s₁, h₁, Or.inl (((h₂.trans h₃).trans h₄).trans h')⟩

/-- `popen.kill(); popen.wait(); raise`, where it may be the kill that fails. -/
theorem leaves_killed {α : Type} {post : Except Failure α → Host → Prop} {failure : Failure}
    (hkilled : ∀ e s₁ s₂, Later s s₁ → Later (s₁.finish program 1) s₂ → post (.error e) s₂)
    (hfailed : ∀ e s₁ s₂, Later s s₁ → Later { s₁ with unkilled := true } s₂ → post (.error e) s₂) :
    Leaving post (kill_program program >>= fun _ => raise failure) s := by
  refine leaves_bind (leaves_kill_program.mono fun ending s₂ hleft => ?_)
  have hraised : ∀ e s₃, Later s₂ s₃ → post (.error e) s₃ := by
    intro e s₃ h₃
    obtain ⟨s₁, h₁, h₂ | h₂⟩ := hleft
    · exact hkilled e s₁ s₃ h₁ (h₂.trans h₃)
    · exact hfailed e s₁ s₃ h₁ (h₂.trans h₃)
  cases ending with
  | error e => exact hraised e s₂ .refl
  | ok killed => exact leaves_raise fun s₃ h₃ => hraised failure s₃ h₃

/-- The program runs in the job, or what is left of it is dead, in the job, or waits
because it could not be killed. -/
theorem leaves_launch (request : Request) (hkills : s.killsOnClose = true) (h : s.Bare) :
    Leaving (fun ending s' =>
      match ending with
      | .ok program => s'.Inside program
      | .error _ => s'.killsOnClose = true ∧ s'.Left) (launch request) s := by
  rw [launch]
  refine leaves_call fun s₁ reply s₁' h₁ hserved => ?_
  have hkills₁ := later_kills h₁ hkills
  have hbare₁ := later_bare h₁ h
  cases reply with
  | error fault =>
      obtain rfl : s₁' = s₁ := hserved
      exact leaves_raise fun s' h' =>
        ⟨later_kills h' hkills₁, Or.inl (later_bare h' hbare₁).gone.confined⟩
  | ok program =>
      obtain ⟨rfl, hcreated⟩ := hserved
      have hsuspended : CREATE_SUSPENDED.testBit 2 = true := by decide
      simp only [hsuspended] at hcreated
      have hwaiting : s₁'.Waiting s₁.next := hcreated ▸ hbare₁.launch
      have hkills₁' : s₁'.killsOnClose = true := by
        rw [hcreated]
        exact hkills₁
      refine leaves_bind (leaves_handling (leaves_bind ((leaves_assign hkills₁' hwaiting).mono
        fun ending s₂ hassigned => ?_)))
      cases ending with
      | error failure =>
          obtain ⟨⟨message, rfl⟩, hkills₂, hwaiting₂⟩ := hassigned
          refine leaves_killed (fun _ s₃ s₄ h₃ h₄ => ?_) fun _ s₃ s₄ h₃ h₄ => ?_
          · exact ⟨later_kills h₄ (Onward.finish.kills (later_kills h₃ hkills₂)),
              Or.inl (later_gone h₄ (later_waiting h₃ hwaiting₂).finish).confined⟩
          · have hleft : { s₃ with unkilled := true }.Left :=
              Or.inr ⟨rfl, s₁.next, (later_waiting h₃ hwaiting₂).unkilled⟩
            have hkills₃ : s₃.killsOnClose = true := later_kills h₃ hkills₂
            have hkills₃' : { s₃ with unkilled := true }.killsOnClose = true := hkills₃
            exact ⟨later_kills h₄ hkills₃', later_left h₄ hleft⟩
      | ok assigned =>
          refine (leaves_inside (within_resume _) hassigned).mono fun ending s₃ hinside => ?_
          cases ending with
          | ok resumed => exact leaves_pure fun s' h' => later_inside h' hinside
          | error failure =>
              have hleft : ∀ s', Later s₃ s' → s'.killsOnClose = true ∧ s'.Left := fun s' h' =>
                ⟨later_kills h' hinside.kills, Or.inl (later_confined h' hinside.confined)⟩
              cases failure with
              | native_call message =>
                  have hended : ∀ {s₄ s₅ : Host}, s₄.Inside s₁.next → Later s₄ s₅ →
                      s₅.killsOnClose = true ∧ s₅.Left := fun h₄ h₅ =>
                    ⟨later_kills h₅ h₄.kills, Or.inl (later_confined h₅ h₄.confined)⟩
                  refine leaves_killed (fun _ s₄ s₅ h₄ h₅ => ?_) fun _ s₄ s₅ h₄ h₅ => ?_
                  · exact hended (Onward.finish.inside (later_inside h₄ hinside)) h₅
                  · exact hended (later_inside h₄ hinside).unkilled h₅
              | platform_unsupported message => exact leaves_raise hleft
              | timed_out message => exact leaves_raise hleft
              | popen fault => exact leaves_raise hleft
              | interrupted => exact leaves_raise hleft

/-- The failures of `CreateProcess` get other names. -/
theorem leaves_launch_named (table : Nat → Bool) (request : Request) (hkills : s.killsOnClose = true)
    (h : s.Bare) :
    Leaving (fun ending s' =>
      match ending with
      | .ok program => s'.Inside program
      | .error _ => s'.killsOnClose = true ∧ s'.Left) (launch_named table request) s := by
  refine leaves_handling ((leaves_launch request hkills h).mono fun ending s₁ hlaunched => ?_)
  cases ending with
  | ok program => exact hlaunched
  | error failure =>
      have hraised : ∀ s', Later s₁ s' → s'.killsOnClose = true ∧ s'.Left := fun s' h' =>
        ⟨later_kills h' hlaunched.1, later_left h' hlaunched.2⟩
      cases failure with
      | popen fault =>
          cases fault with
          | file_not_found text => exact leaves_raise hraised
          | os_error text => exact leaves_raise hraised
          | other text => exact leaves_raise hraised
      | native_call message => exact leaves_raise hraised
      | platform_unsupported message => exact leaves_raise hraised
      | timed_out message => exact leaves_raise hraised
      | interrupted => exact leaves_raise hraised

end Launch

/-! ## The wait -/

section Run

variable {s s' : Host} {program : Nat}

theorem gone_of_inactive (h : s.Inside program)
    (hactive : ∀ p < s.next, (s.process p).member = true → (s.process p).ended ≠ none) : s.Gone :=
  fun p hp htree halive => hactive p hp (h.confined p hp htree halive) halive

/-- The wait is over when nothing of the tree is left. -/
theorem leaves_wait (limited : Bool) (polls : Nat) (h : s.Inside program) :
    Leaving (fun ending s' => s'.Inside program ∧ (ending = .ok true → s'.Gone)) (wait limited polls)
      s := by
  induction polls generalizing s with
  | zero => exact leaves_raise fun s' h' => ⟨later_inside h' h, nofun⟩
  | succ polls ih =>
      rw [wait, active_processes, native, bind_assoc]
      refine leaves_call fun s₁ reply s₁' h₁ hserved => ?_
      have hinside := later_inside h₁ h
      cases reply with
      | error text =>
          obtain rfl : s₁' = s₁ := hserved
          exact leaves_raise fun s' h' => ⟨later_inside h' hinside, nofun⟩
      | ok active =>
          obtain ⟨hactive, rfl⟩ := hserved
          have hsleep : ∀ s₂, s₂.Inside program →
              Leaving (fun ending s' => s'.Inside program ∧ (ending = .ok true → s'.Gone))
                (question Call.sleep >>= fun _ => wait limited polls) s₂ := fun s₂ h₂ =>
            leaves_call fun s₃ _ s₃' h₃ hserved => by
              obtain rfl : s₃' = s₃ := hserved
              exact ih (later_inside h₃ h₂)
          show Leaving _ (if active = 0 then _ else _) s₁'
          split_ifs with hnone hlimited
          · have hgone := gone_of_inactive hinside (hactive hnone)
            exact leaves_pure fun s' h' => ⟨later_inside h' hinside, fun _ => later_gone h' hgone⟩
          · refine leaves_call fun s₂ past s₂' h₂ hserved => ?_
            obtain rfl : s₂' = s₂ := hserved
            have hinside₂ := later_inside h₂ hinside
            split_ifs with hpast
            · exact leaves_pure fun s' h' => ⟨later_inside h' hinside₂, nofun⟩
            · exact hsleep _ hinside₂
          · exact hsleep _ hinside

/-- What is left of the run before the job is closed. -/
theorem leaves_run_in_tree (table : Nat → Bool) (request : Request) (polls : Nat)
    (hkills : s.killsOnClose = true) (h : s.Bare) :
    Leaving (fun ending s' => (s'.killsOnClose = true ∧ s'.Left) ∧
      ∀ result, ending = .ok result → s'.Gone ∧ ∃ program, s'.Ended program result.exit_code)
      (run_in_tree table request polls) s := by
  have hleft : ∀ {s : Host} {program : Nat}, s.Inside program → s.killsOnClose = true ∧ s.Left :=
    fun h => ⟨h.kills, Or.inl h.confined⟩
  refine leaves_bind ((leaves_launch_named table request hkills h).mono fun ending s₁ hlaunched => ?_)
  cases ending with
  | error failure => exact ⟨hlaunched, nofun⟩
  | ok program =>
      refine leaves_call fun s₂ _ s₂' h₂ hserved => ?_
      obtain rfl : s₂' = s₂ := hserved
      refine leaves_bind ((leaves_wait _ polls (later_inside h₂ hlaunched)).mono
        fun ending s₃ hwaited => ?_)
      obtain ⟨hinside, hgone⟩ := hwaited
      cases ending with
      | error failure => exact ⟨hleft hinside, nofun⟩
      | ok gone =>
          cases gone with
          | true =>
              simp only [if_true, unmapped, bind_assoc]
              refine leaves_call fun s₄ reply s₄' h₄ hserved => ?_
              have hinside₄ := later_inside h₄ hinside
              cases reply with
              | error text =>
                  obtain rfl : s₄' = s₄ := hserved
                  exact leaves_raise fun s₅ h₅ => ⟨hleft (later_inside h₅ hinside₄), nofun⟩
              | ok exit_code =>
                  obtain ⟨hended, rfl⟩ := hserved
                  have hgone₄ := later_gone h₄ (hgone rfl)
                  refine leaves_call fun s₅ output s₅' h₅ hserved => ?_
                  obtain rfl : s₅' = s₅ := hserved
                  refine leaves_pure fun s₆ h₆ => ?_
                  have hlater := h₅.trans h₆
                  refine ⟨hleft (later_inside hlater hinside₄), fun result hresult => ?_⟩
                  obtain rfl := Except.ok.inj hresult
                  refine ⟨later_gone hlater hgone₄, program, ?_⟩
                  exact kept (fun _ _ ho => ho.program_ended) hlater
                    ⟨hinside₄.launched, hinside₄.created, hinside₄.tree, hended⟩
          | false =>
              refine leaves_bind ((leaves_inside (within_kill program) hinside).mono
                fun ending s₄ hkilled => ?_)
              cases ending with
              | error failure => exact ⟨hleft hkilled, nofun⟩
              | ok killed => exact leaves_raise fun s₅ h₅ => ⟨hleft (later_inside h₅ hkilled), nofun⟩

theorem leaves_load (name : PyStr) (h : s.Bare) :
    Leaving (fun _ s' => s'.Bare) (load name) s := by
  refine leaves_call fun s₁ found s₁' h₁ hserved => ?_
  obtain rfl : s₁' = s₁ := hserved
  have hbare := later_bare h₁ h
  cases found with
  | true => exact leaves_pure fun s' h' => later_bare h' hbare
  | false => exact leaves_raise fun s' h' => later_bare h' hbare

theorem kills_of_limits {flags : Nat} (h : s.flags = flags ||| (KILL_ON_JOB_CLOSE ||| BREAKAWAY_OK)) :
    s.killsOnClose = true := by
  have hbit : (KILL_ON_JOB_CLOSE ||| BREAKAWAY_OK).testBit 13 = true := by decide
  rw [killsOnClose, h, Nat.testBit_or, hbit, Bool.or_true]

/-- A job that could not be set up is closed again. -/
theorem leaves_closed {failure : Failure} (h : s.Bare) :
    Leaving (fun ending s' => s'.Bare ∧ ∀ u : Unit, ending = .ok u → s'.killsOnClose = true)
      (question Call.close_job >>= fun _ => raise failure) s :=
  leaves_call fun s₁ _ s₁' h₁ hserved => by
    obtain rfl : s₁' = s₁.closeJob := hserved
    exact leaves_raise fun s' h' => ⟨later_bare h' (later_bare h₁ h).closeJob, nofun⟩

theorem leaves_create_job (h : s.Bare) :
    Leaving (fun ending s' => s'.Bare ∧ ∀ u, ending = .ok u → s'.killsOnClose = true) create_job s := by
  rw [create_job, native, bind_assoc]
  refine leaves_call fun s₁ reply s₁' h₁ hserved => ?_
  have hbare₁ := later_bare h₁ h
  cases reply with
  | error text =>
      obtain rfl : s₁' = s₁ := hserved
      exact leaves_raise fun s' h' => ⟨later_bare h' hbare₁, nofun⟩
  | ok created =>
      have hbare₁' : s₁'.Bare := by
        rw [show s₁' = { s₁ with handle := .opened, flags := 0 } from hserved]
        exact hbare₁
      refine leaves_handling ?_
      rw [native, bind_assoc]
      refine leaves_call fun s₂ reply s₂' h₂ hserved => ?_
      have hbare₂ := later_bare h₂ hbare₁'
      cases reply with
      | error text =>
          obtain rfl : s₂' = s₂ := hserved
          exact leaves_raise fun s₃ h₃ => leaves_closed (later_bare h₃ hbare₂)
      | ok flags =>
          obtain ⟨-, rfl⟩ := hserved
          refine leaves_call fun s₃ reply s₃' h₃ hserved => ?_
          have hbare₃ := later_bare h₃ hbare₂
          cases reply with
          | error text =>
              obtain rfl : s₃' = s₃ := hserved
              exact leaves_raise fun s₄ h₄ => leaves_closed (later_bare h₄ hbare₃)
          | ok limited =>
              have hlimits : s₃' = { s₃ with flags := flags ||| (KILL_ON_JOB_CLOSE ||| BREAKAWAY_OK) } :=
                hserved
              have hbare₃' : s₃'.Bare := by
                rw [hlimits]
                exact hbare₃
              have hkills : s₃'.killsOnClose = true := kills_of_limits (congrArg Host.flags hlimits)
              exact leaves_pure fun s' h' =>
                ⟨later_bare h' hbare₃', fun _ _ => later_kills h' hkills⟩

/-- The job is made, and kills what is left in it when it is closed. -/
theorem leaves_new_tree (h : s.Bare) :
    Leaving (fun ending s' => s'.Bare ∧ ∀ u, ending = .ok u → s'.killsOnClose = true) new_tree s := by
  refine leaves_bind ((leaves_load _ h).mono fun ending s₁ hbare => ?_)
  cases ending with
  | error failure => exact ⟨hbare, nofun⟩
  | ok loaded =>
      refine leaves_bind ((leaves_load _ hbare).mono fun ending s₂ hbare => ?_)
      cases ending with
      | error failure => exact ⟨hbare, nofun⟩
      | ok loaded => exact leaves_create_job hbare

/-- However the run ends, and whatever call of it failed, no process of the tree is left
running, but for a program that could not be killed: it has run nothing and waits, alone.
A result leaves nothing and has the exit code of the program. -/
theorem tree_is_gone (table : Nat → Bool) (request : Request) (polls : Nat)
    {ending : Except Failure ProcessResult} (hbare : s.Bare)
    (hrun : Amid Move serves (run_process_tree table request polls) s ending s') :
    (s'.Gone ∨ s'.unkilled = true ∧ ∃ program, s'.Waiting program) ∧
      ∀ result, ending = .ok result →
        s'.Gone ∧ ∃ program, s'.Ended program result.exit_code := by
  have hleaves : Leaving (fun ending s' =>
      (s'.Gone ∨ s'.unkilled = true ∧ ∃ program, s'.Waiting program) ∧ ∀ result, ending = .ok result →
        s'.Gone ∧ ∃ program, s'.Ended program result.exit_code)
          (run_process_tree table request polls) s := by
    refine leaves_bind ((leaves_new_tree hbare).mono fun made s₁ hmade => ?_)
    obtain ⟨hbare₁, hkills⟩ := hmade
    cases made with
    | error failure => exact ⟨Or.inl hbare₁.gone, nofun⟩
    | ok made =>
        refine leaves_ensuring ((leaves_run_in_tree table request polls (hkills made rfl) hbare₁).mono
          fun ending s₂ hrun => leaves_reply (q := Call.close_job) fun s₃ _ s₃' s₄ h₃ hserved h₄ => ?_)
        obtain ⟨⟨hkills₂, hleft⟩, hresult⟩ := hrun
        obtain rfl : s₃' = s₃.closeJob := hserved
        refine ⟨?_, fun result hending => ?_⟩
        · obtain hconfined | ⟨hfailed, program, hwaiting⟩ := later_left h₃ hleft
          · exact Or.inl (later_gone h₄ (hconfined.closeJob (later_kills h₃ hkills₂)))
          · refine Or.inr ⟨?_, program, later_waiting h₄ hwaiting.closeJob⟩
            exact kept (P := fun s => s.unkilled = true) (fun _ _ ho h => ho.unkilled.trans h) h₄
              (unkilled_closeJob.trans hfailed)
        · obtain ⟨hgone, program, hended⟩ := hresult result hending
          have hconfined := (later_gone h₃ hgone).confined
          have hended₃ := kept (fun _ _ ho => ho.program_ended) h₃ hended
          exact ⟨later_gone h₄ (hconfined.closeJob (later_kills h₃ hkills₂)), program,
            kept (fun _ _ ho => ho.program_ended) h₄ hended₃.closeJob⟩
  exact hleaves ending s' hrun

end Run

/-- A host on which nothing has run yet. -/
def bareHost : Host where
  next := 0
  process _ := ⟨some 0, false, false, false⟩
  handle := .unmade
  flags := 0
  owner _ := 0
  launched := none
  unkilled := false

def setup : Request := ⟨[py "setup"], none, none, none, none⟩

/-- The program has started a child when the caller gives up. -/
theorem run_interrupted : ∃ s', s'.next = 2 ∧ s'.unkilled = false ∧
    Amid Move serves (run_process_tree (fun _ => true) setup 0) bareHost (.error .interrupted) s' := by
  refine ⟨_, ?_, ?_, .ask .refl (show serves _ (.load _) true _ from rfl) <|
    .ask .refl (show serves _ (.load _) true _ from rfl) <|
    .ask .refl (show serves _ .create_job (.ok ()) _ from rfl) <|
    .ask .refl (show serves _ .query_limits (.ok 0) _ from ⟨rfl, rfl⟩) <|
    .ask .refl (show serves _ (.set_limits _) (.ok ()) _ from rfl) <|
    .ask .refl (show serves _ (.popen _) (.ok 0) _ from ⟨rfl, rfl⟩) <|
    .ask .refl (show serves _ (.open_process 0) (.ok ()) _ from rfl) <|
    .ask .refl (show serves _ (.assign 0) (.ok ()) _ from rfl) <|
    .ask .refl (show serves _ .close_handle () _ from rfl) <|
    .ask .refl (show serves _ (.load _) true _ from rfl) <|
    .ask .refl (show serves _ (.load _) true _ from rfl) <|
    .ask .refl (show serves _ (.threads 0) (.ok [7]) _ from ⟨fun _ _ => rfl, rfl⟩) <|
    .ask .refl (show serves _ (.open_thread 7) (.ok ()) _ from rfl) <|
    .ask .refl (show serves _ (.resume_thread 7) (.ok ()) _ from rfl) <|
    .ask .refl (show serves _ .close_handle () _ from rfl) <|
    .ask .refl (show serves _ (.start_io none) () _ from rfl) <|
    .ask (.single (@Move.start _ 0 false false (by decide) rfl rfl nofun))
      (show serves _ .close_job () _ from rfl) <| .done .refl⟩
  · rfl
  · rfl

theorem tree_is_gone_interrupted : ∃ s', s'.next = 2 ∧ s'.Gone ∧
    Amid Move serves (run_process_tree (fun _ => true) setup 0) bareHost (.error .interrupted) s' := by
  obtain ⟨s', hnext, hkilled, hrun⟩ := run_interrupted
  have hbare : bareHost.Bare := fun p hp => absurd hp (Nat.not_lt_zero p)
  obtain hgone | ⟨hfailed, -⟩ := (tree_is_gone _ setup 0 hbare hrun).1
  · exact ⟨s', hnext, hgone, hrun⟩
  · rw [hkilled] at hfailed
    cases hfailed

end PwshPy.Jobs
