import PwshPy.Hosted.Dispatch

/-! # When the calls keep their promise

The invocation is typed, reading its results is not: any call into the engine that raises there, a
cycle, a graph deeper than the frames and a shell that cannot be set up all come out as they are.
-/

namespace PwshPy.Hosted

open Storage Raises

/-! ## Reading the results -/

theorem exists_answers_iff {records : List (Read PyStr)} :
    (∀ record ∈ records, ∃ text, record = .ok text) ↔ ∃ texts, records = List.map .ok texts := by
  induction records with
  | nil => exact ⟨fun _ => ⟨[], rfl⟩, fun _ => by simp⟩
  | cons record rest ih =>
      rw [List.forall_mem_cons, ih]
      constructor
      · intro h
        obtain ⟨⟨text, rfl⟩, texts, rfl⟩ := h
        exact ⟨text :: texts, rfl⟩
      · intro h
        obtain ⟨texts, htexts⟩ := h
        cases texts with
        | nil => cases htexts
        | cons text texts =>
            cases htexts
            exact ⟨⟨text, rfl⟩, texts, rfl⟩

theorem render_stream_eq_ok {records : List (Read PyStr)} {texts : List PyStr} :
    render_stream records = .ok texts ↔ records = texts.map .ok := by
  induction records generalizing texts with
  | nil =>
      rw [render_stream]
      constructor
      · intro h
        cases h
        rfl
      · intro h
        rw [List.map_eq_nil_iff.mp h.symm]
  | cons record rest ih =>
      rw [render_stream]
      simp only [bind_eq_ok, read_eq_ok, ih]
      constructor
      · intro h
        obtain ⟨text, rfl, texts, rfl, h⟩ := h
        cases h
        rfl
      · intro h
        cases texts with
        | nil => cases h
        | cons text texts =>
            cases h
            exact ⟨text, rfl, texts, rfl, rfl⟩

theorem untyped_render_stream (records : List (Read PyStr)) : Untyped (render_stream records) := by
  induction records with
  | nil => exact untyped_ok _
  | cons record rest ih =>
      rw [render_stream]
      exact (untyped_read _).bind fun _ => ih.bind fun _ => untyped_ok _

section Results

variable {graph : Graph} {comprehension frames : Nat} {host : Host graph}

theorem marshal_result_eq_ok {result : Option (PSObject graph.size)} {m : Marshaled} :
    marshal_result comprehension frames result = .ok m ↔
      ∃ t, ResultUnfolds comprehension frames result t ∧ m = t.stored := by
  cases result with
  | none =>
      rw [marshal_result, stopped_eq_ok]
      constructor
      · intro h
        obtain ⟨hframes, h⟩ := h
        cases h
        exact ⟨_, ⟨hframes, rfl⟩, rfl⟩
      · intro h
        obtain ⟨t, ⟨hframes, rfl⟩, rfl⟩ := h
        exact ⟨hframes, rfl⟩
  | some o => exact (marshal_exact graph comprehension frames).2 o m

theorem marshal_results_eq_ok {results : List (Option (PSObject graph.size))}
    {out : List Marshaled} :
    marshal_results comprehension frames results = .ok out ↔ ∃ trees,
      List.Forall₂ (ResultUnfolds comprehension frames) results trees ∧
        out = trees.map (·.stored) := by
  induction results generalizing out with
  | nil =>
      rw [marshal_results]
      constructor
      · intro h
        cases h
        exact ⟨[], .nil, rfl⟩
      · intro h
        obtain ⟨trees, htrees, rfl⟩ := h
        cases htrees
        rfl
  | cons result rest ih =>
      rw [marshal_results]
      simp only [bind_eq_ok, marshal_result_eq_ok, ih]
      constructor
      · intro h
        obtain ⟨m, ⟨t, ht, rfl⟩, out, ⟨trees, htrees, rfl⟩, h⟩ := h
        cases h
        exact ⟨t :: trees, .cons ht htrees, rfl⟩
      · intro h
        obtain ⟨trees, htrees, rfl⟩ := h
        cases htrees with
        | cons ht htrees => exact ⟨_, ⟨_, ht, rfl⟩, _, ⟨_, htrees, rfl⟩, rfl⟩

theorem untyped_marshal_results (results : List (Option (PSObject graph.size))) :
    Untyped (marshal_results comprehension frames results) := by
  induction results with
  | nil => exact untyped_ok _
  | cons result rest ih =>
      rw [marshal_results]
      refine Untyped.bind ?_ fun _ => ih.bind fun _ => untyped_ok _
      cases result with
      | none => exact (untyped_ok _).stopped
      | some o => exact (untyped_marshal graph comprehension frames).2 o

theorem untyped_build_result (results : List (Option (PSObject graph.size))) :
    Untyped (build_result comprehension frames host results) := by
  rw [build_result]
  exact (untyped_marshal_results _).bind fun _ => (untyped_read _).bind fun _ =>
    (untyped_render_stream _).bind fun _ => (untyped_render_stream _).bind fun _ =>
    (untyped_render_stream _).bind fun _ => (untyped_render_stream _).bind fun _ =>
    (untyped_render_stream _).bind fun _ => untyped_ok _

/-- What a result that was built says of the engine. -/
theorem build_result_ok {results : List (Option (PSObject graph.size))} {r : PSInvocationResult}
    (h : build_result comprehension frames host results = .ok r) :
    host.StreamsAnswer ∧ host.had_errors = .ok r.had_errors ∧ host.errors = r.errors.map .ok ∧
      ∃ trees, List.Forall₂ (ResultUnfolds comprehension frames) results trees ∧
        r.output = trees.map (·.stored) := by
  rw [build_result] at h
  simp only [bind_eq_ok, marshal_results_eq_ok, read_eq_ok, render_stream_eq_ok] at h
  obtain ⟨out, ⟨trees, htrees, rfl⟩, b, hb, errors, herrors, warnings, hwarnings, verbose, hverbose,
    debug, hdebug, information, hinformation, h⟩ := h
  cases h
  refine ⟨⟨⟨b, hb⟩, ?_, ?_, ?_, ?_, ?_⟩, hb, herrors, trees, htrees, rfl⟩
  · exact exists_answers_iff.mpr ⟨errors, herrors⟩
  · exact exists_answers_iff.mpr ⟨warnings, hwarnings⟩
  · exact exists_answers_iff.mpr ⟨verbose, hverbose⟩
  · exact exists_answers_iff.mpr ⟨debug, hdebug⟩
  · exact exists_answers_iff.mpr ⟨information, hinformation⟩

/-- A result is built of results that unfold. -/
theorem exists_build_result {results : List (Option (PSObject graph.size))} {trees : List Marshaled}
    (hstreams : host.StreamsAnswer)
    (htrees : List.Forall₂ (ResultUnfolds comprehension frames) results trees) :
    ∃ r, build_result comprehension frames host results = .ok r := by
  obtain ⟨b, hb⟩ := hstreams.had_errors
  obtain ⟨errors, herrors⟩ := exists_answers_iff.mp hstreams.errors
  obtain ⟨warnings, hwarnings⟩ := exists_answers_iff.mp hstreams.warnings
  obtain ⟨verbose, hverbose⟩ := exists_answers_iff.mp hstreams.verbose
  obtain ⟨debug, hdebug⟩ := exists_answers_iff.mp hstreams.debug
  obtain ⟨information, hinformation⟩ := exists_answers_iff.mp hstreams.information
  refine ⟨⟨trees.map (·.stored), errors, warnings, verbose, debug, information, b⟩, ?_⟩
  rw [build_result]
  simp only [bind_eq_ok, marshal_results_eq_ok, read_eq_ok, render_stream_eq_ok]
  exact ⟨_, ⟨trees, htrees, rfl⟩, b, hb, errors, herrors, warnings, hwarnings, verbose, hverbose,
    debug, hdebug, information, hinformation, rfl⟩

end Results

/-! ## The invocation -/

section Invocation

variable {graph : Graph} {comprehension frames : Nat} {host : Host graph} {timeout : Option PyStr}

theorem typed_eq_ok {α : Type} {x : Except Raised α} {a : α} : typed x = .ok a ↔ x = .ok a := by
  cases x with
  | ok b => rfl
  | error e => cases e <;> simp [typed]

/-- Whatever the invocation raises becomes a `PowerShellError`. -/
theorem is_pwshpy_of_typed {e : Raised} (h : typed (invoke_shell host timeout) = .error e) :
    e.is_pwshpy = true := by
  have hread : ∀ {α : Type} (x : Read α), typed (read x) = .error e → e.is_pwshpy = true := by
    intro α x h
    cases x with
    | ok a => cases h
    | error raised =>
        cases h
        rfl
  cases timeout with
  | none => exact hread _ h
  | some seconds =>
      rw [invoke_shell] at h
      split at h
      · exact hread _ h
      · cases hstop : host.stop with
        | ok =>
            rw [hstop] at h
            cases h
            rfl
        | error raised =>
            rw [hstop] at h
            cases h
            rfl

theorem dispatch_reached (h : host.Reached) : dispatch comprehension frames host timeout =
    { ended := finally_dispose host (invocation comprehension frames host timeout)
      created := 1
      disposed := 1 } := by
  rw [dispatch, h.available, h.ready, h.created, h.attached, h.configured]
  rfl

/-- With a shell that can be disposed of, the results are what is built of them. -/
theorem dispatch_results (comprehension frames : Nat) (h : host.Reached) (hdispose : host.dispose = .ok ())
    {results : List (Option (PSObject graph.size))}
    (hresults : invoke_shell host timeout = .ok results) :
    (dispatch comprehension frames host timeout).ended =
      build_result comprehension frames host results := by
  rw [dispatch_reached h, finally_dispose, hdispose, invocation, typed_eq_ok.mpr hresults]
  rfl

theorem call_error {str : Marshaled → PyStr} {command : Command} {e : Raised}
    (h : (dispatch comprehension frames host command.timeout).ended = .error e) :
    (call comprehension frames str host command).ended = .error e := by
  rw [call, h]
  rfl

theorem call_ok {str : Marshaled → PyStr} {command : Command} {r : PSInvocationResult}
    (h : (dispatch comprehension frames host command.timeout).ended = .ok r) :
    (call comprehension frames str host command).ended = answer str r command := by
  rw [call, h]
  rfl

theorem resultUnfolds_unique {enough more : Nat} {result : Option (PSObject graph.size)}
    {t t' : Marshaled} (h : ResultUnfolds comprehension enough result t)
    (h' : ResultUnfolds comprehension more result t') : t = t' := by
  cases result with
  | none => exact h.2.trans h'.2.symm
  | some o => exact h.unique h'

theorem results_unique {results : List (Option (PSObject graph.size))} {trees trees' : List Marshaled}
    (h : List.Forall₂ (ResultUnfolds comprehension frames) results trees)
    (h' : List.Forall₂ (fun result t => ∃ enough, ResultUnfolds comprehension enough result t)
      results trees') : trees = trees' := by
  induction h generalizing trees' with
  | nil =>
      cases h'
      rfl
  | cons ht _ ih =>
      cases h' with
      | cons ht' hrest =>
          obtain ⟨enough, ht'⟩ := ht'
          rw [resultUnfolds_unique ht ht', ih hrest]

theorem forall₂_enough {results : List (Option (PSObject graph.size))} {trees : List Marshaled}
    (h : List.Forall₂ (ResultUnfolds comprehension frames) results trees) :
    List.Forall₂ (fun result t => ∃ enough, ResultUnfolds comprehension enough result t)
      results trees := h.imp fun _ _ ht => ⟨frames, ht⟩

theorem stored_trees {trees : List Marshaled} :
    trees.map (·.stored) = trees ↔ ∀ t ∈ trees, t.Distinct := by
  rw [← stored_items_eq, stored_items_eq_self]
  exact forall_congr' fun t => imp_congr_right fun _ => stored_eq_self_iff

end Invocation

/-! ## What a command makes of the result -/

section Answer

variable {str : Marshaled → PyStr} {r : PSInvocationResult}

theorem is_pwshpy_of_raise_errors {e : Raised} (h : raise_errors r = .error e) :
    e.is_pwshpy = true := by
  rw [raise_errors] at h
  split at h
  · cases h
    rfl
  · cases h

theorem to_command_info_error {record : Marshaled} {e : Raised}
    (h : to_command_info str record = .error e) : (raw_parameters record).iter = .error e := by
  rw [to_command_info, bind_eq_error] at h
  cases h with
  | inl h => exact h
  | inr h =>
      obtain ⟨raws, -, h⟩ := h
      cases h

theorem iter_error {value : Marshaled} {e : Raised} (h : value.iter = .error e) :
    e = .type_error := by
  rw [Marshaled.iter.eq_def] at h
  split at h <;> cases h
  rfl

/-- A command raises a `PwshPyError`, but for a `get_command` whose parameters are no iterable. -/
theorem answer_error {command : Command} {e : Raised} (h : answer str r command = .error e) :
    e.is_pwshpy = true ∨ ∃ name record rest, command = .get_command name ∧
      raise_errors r = .ok () ∧ r.output = record :: rest ∧
        (raw_parameters record).iter = .error e := by
  cases command with
  | run timeout =>
      rw [answer, bind_eq_error] at h
      cases h with
      | inl h => exact Or.inl (is_pwshpy_of_raise_errors h)
      | inr h =>
          obtain ⟨_, -, h⟩ := h
          cases h
  | invoke timeout => cases h
  | get_command name =>
      rw [answer, bind_eq_error] at h
      cases h with
      | inl h => exact Or.inl (is_pwshpy_of_raise_errors h)
      | inr h =>
          obtain ⟨_, hraise, h⟩ := h
          cases houtput : r.output with
          | nil =>
              rw [houtput] at h
              cases h
              exact Or.inl rfl
          | cons record rest =>
              rw [houtput] at h
              dsimp only at h
              rw [bind_eq_error] at h
              cases h with
              | inl h => exact Or.inr ⟨name, record, rest, rfl, hraise, rfl, to_command_info_error h⟩
              | inr h =>
                  obtain ⟨_, -, h⟩ := h
                  cases h

/-- A `get_command` whose parameters are no iterable raises what iterating raises. -/
theorem answer_of_iter_error {name : PyStr} {record : Marshaled} {rest : List Marshaled} {e : Raised}
    (hraise : raise_errors r = .ok ()) (houtput : r.output = record :: rest)
    (h : (raw_parameters record).iter = .error e) :
    answer str r (.get_command name) = .error e := by
  have hinfo : to_command_info str record = .error e := by
    rw [to_command_info, h]
    rfl
  rw [answer, hraise, houtput]
  dsimp only [Bind.bind, Except.bind]
  rw [hinfo]

theorem raise_errors_ok {graph : Graph} {host : Host graph} (hflag : host.had_errors = .ok r.had_errors)
    (herrors : host.errors = r.errors.map .ok) : raise_errors r = .ok () ↔ host.Quiet := by
  rw [Host.Quiet, hflag, herrors, raise_errors]
  cases r.had_errors <;> cases r.errors <;> simp

end Answer

/-! ## The promise -/

section Promise

variable {graph : Graph} {comprehension frames : Nat} {str : Marshaled → PyStr} {host : Host graph}
  {command : Command}

/-- Results that are invoked for are built, where the promise is kept. -/
theorem Promise.built (h : Promise comprehension frames str host command) (hreached : host.Reached)
    (hdispose : host.dispose = .ok ()) {results : List (Option (PSObject graph.size))}
    (hresults : invoke_shell host command.timeout = .ok results) :
    ∃ r, (dispatch comprehension frames host command.timeout).ended = .ok r ∧
      build_result comprehension frames host results = .ok r := by
  have hended := dispatch_results comprehension frames hreached hdispose hresults
  cases hbuilt : build_result comprehension frames host results with
  | ok r => exact ⟨r, hended.trans hbuilt, rfl⟩
  | error e =>
      have htyped := h.typed e (call_error (hended.trans hbuilt))
      rw [untyped_build_result results e hbuilt] at htyped
      cases htyped

theorem Promise.shell (h : Promise comprehension frames str host command)
    (havailable : host.is_available = true) (hready : host.ensure_ready = .ok ()) :
    host.create = .ok () ∧ host.attach = .ok () ∧ host.configure = .ok () ∧ host.dispose = .ok () := by
  have hraised : ∀ e, (dispatch comprehension frames host command.timeout).ended = .error e →
      e.is_pwshpy = true := fun e he => h.typed e (call_error he)
  cases hcreate : host.create with
  | error e =>
      have hnet := hraised (.net e) (by rw [dispatch, havailable, hready, hcreate]; rfl)
      cases hnet
  | ok =>
      cases hattach : host.attach with
      | error e =>
          have hnet := hraised (.net e) (by rw [dispatch, havailable, hready, hcreate, hattach]; rfl)
          cases hnet
      | ok =>
          cases hconfigure : host.configure with
          | error e =>
              have hdisposed := h.disposed
              rw [call, dispatch, havailable, hready, hcreate, hattach, hconfigure] at hdisposed
              cases hdisposed
          | ok =>
              cases hdispose : host.dispose with
              | error e =>
                  have hreached : host.Reached := ⟨havailable, hready, hcreate, hattach, hconfigure⟩
                  have hnet := hraised (.net e) (by
                    rw [dispatch_reached hreached, finally_dispose, hdispose])
                  cases hnet
              | ok => exact ⟨rfl, rfl, rfl, rfl⟩

theorem Promise.sound (h : Promise comprehension frames str host command) :
    Sound comprehension frames host command where
  ready havailable e he := by
    refine h.typed e (call_error ?_)
    rw [dispatch, havailable, he]
    rfl
  shell := h.shell
  results hreached results hresults := by
    have hshell := h.shell hreached.available hreached.ready
    obtain ⟨r, hended, hbuilt⟩ := h.built hreached hshell.2.2.2 hresults
    obtain ⟨hstreams, -, -, trees, htrees, houtput⟩ := build_result_ok hbuilt
    refine ⟨hstreams, trees, htrees, ?_⟩
    obtain ⟨r', hended', houtput'⟩ := h.kept hreached results hresults trees (forall₂_enough htrees)
    rw [hended] at hended'
    cases hended'
    exact stored_trees.mp (houtput.symm.trans houtput')
  parameters name hcommand hreached hquiet results hresults first rest htrees := by
    subst hcommand
    have hshell := h.shell hreached.available hreached.ready
    obtain ⟨r, hended, hbuilt⟩ := h.built hreached hshell.2.2.2 hresults
    obtain ⟨-, hflag, herrors, -⟩ := build_result_ok hbuilt
    obtain ⟨r', hended', houtput⟩ := h.kept hreached results hresults _ (forall₂_enough htrees)
    rw [hended] at hended'
    cases hended'
    have hraise := (raise_errors_ok hflag herrors).mpr hquiet
    cases hiter : (raw_parameters first).iter with
    | ok raws => exact ⟨raws, rfl⟩
    | error e =>
        have htyped := h.typed e ((call_ok hended).trans (answer_of_iter_error hraise houtput hiter))
        rw [iter_error hiter] at htyped
        cases htyped

/-- Of a sound host the results come out whole. -/
theorem Sound.returned (h : Sound comprehension frames host command) (hreached : host.Reached)
    {results : List (Option (PSObject graph.size))}
    (hresults : invoke_shell host command.timeout = .ok results) :
    ∃ r trees, (dispatch comprehension frames host command.timeout).ended = .ok r ∧
      host.had_errors = .ok r.had_errors ∧ host.errors = r.errors.map .ok ∧
      List.Forall₂ (ResultUnfolds comprehension frames) results trees ∧ r.output = trees := by
  have hdispose := (h.shell hreached.available hreached.ready).2.2.2
  obtain ⟨hstreams, trees, htrees, hdistinct⟩ := h.results hreached results hresults
  obtain ⟨r, hbuilt⟩ := exists_build_result hstreams htrees
  obtain ⟨-, hflag, herrors, trees', htrees', houtput⟩ := build_result_ok hbuilt
  have hsame : trees' = trees := results_unique htrees' (forall₂_enough htrees)
  subst hsame
  rw [stored_trees.mpr hdistinct] at houtput
  exact ⟨r, _, (dispatch_results comprehension frames hreached hdispose hresults).trans hbuilt,
    hflag, herrors, htrees', houtput⟩

/-- Of a sound host the call is refused in time, or it comes to its invocation. -/
theorem Sound.refused_or_reached (h : Sound comprehension frames host command) :
    (∃ e, e.is_pwshpy = true ∧ dispatch comprehension frames host command.timeout =
      { ended := .error e, created := 0, disposed := 0 }) ∨ host.Reached := by
  by_cases havailable : host.is_available = true
  · cases hready : host.ensure_ready with
    | error e =>
        refine Or.inl ⟨e, h.ready havailable e hready, ?_⟩
        rw [dispatch, havailable, hready]
        rfl
    | ok =>
        obtain ⟨hcreate, hattach, hconfigure, -⟩ := h.shell havailable hready
        exact Or.inr ⟨havailable, hready, hcreate, hattach, hconfigure⟩
  · rw [Bool.not_eq_true] at havailable
    refine Or.inl ⟨.feature_unavailable, rfl, ?_⟩
    rw [dispatch, if_pos havailable]

theorem Sound.is_pwshpy (h : Sound comprehension frames host command) {e : Raised}
    (he : (call comprehension frames str host command).ended = .error e) : e.is_pwshpy = true := by
  cases h.refused_or_reached with
  | inl hrefused =>
      obtain ⟨e', hpwshpy, hdispatch⟩ := hrefused
      rw [call_error (by rw [hdispatch])] at he
      cases he
      exact hpwshpy
  | inr hreached =>
      cases hinvoke : typed (invoke_shell host command.timeout) with
      | error e' =>
          have hdispose := (h.shell hreached.available hreached.ready).2.2.2
          have hended : (dispatch comprehension frames host command.timeout).ended = .error e' := by
            rw [dispatch_reached hreached, finally_dispose, hdispose, invocation, hinvoke]
            rfl
          rw [call_error hended] at he
          cases he
          exact is_pwshpy_of_typed hinvoke
      | ok results =>
          have hresults := typed_eq_ok.mp hinvoke
          obtain ⟨r, trees, hended, hflag, herrors, htrees, houtput⟩ := h.returned hreached hresults
          rw [call_ok hended] at he
          cases answer_error he with
          | inl hpwshpy => exact hpwshpy
          | inr hparameters =>
              obtain ⟨name, first, rest, rfl, hraise, hfirst, hiter⟩ := hparameters
              rw [← houtput, hfirst] at htrees
              obtain ⟨raws, hraws⟩ := h.parameters name rfl hreached
                ((raise_errors_ok hflag herrors).mp hraise) results hresults first rest htrees
              rw [hraws] at hiter
              cases hiter

theorem Sound.promise (h : Sound comprehension frames host command) :
    Promise comprehension frames str host command where
  typed _ := h.is_pwshpy
  kept hreached results hresults trees htrees := by
    obtain ⟨r, trees', hended, -, -, htrees', houtput⟩ := h.returned hreached hresults
    exact ⟨r, hended, houtput.trans (results_unique htrees' htrees)⟩
  disposed := by
    rw [call]
    cases h.refused_or_reached with
    | inl hrefused =>
        obtain ⟨e, -, hdispatch⟩ := hrefused
        rw [hdispatch]
    | inr hreached => rw [dispatch_reached hreached]

/-- The three calls return or raise a `PwshPyError`, return what they should and dispose of their
shell exactly where nothing outside the invocation goes wrong. -/
theorem promise_iff_sound (graph : Graph) (comprehension frames : Nat) (str : Marshaled → PyStr)
    (host : Host graph) (command : Command) :
    Promise comprehension frames str host command ↔ Sound comprehension frames host command :=
  ⟨Promise.sound, Sound.promise⟩

end Promise

/-! ### A getter that raises -/

def no_objects : Graph where
  size := 0
  object := Fin.elim0

/-- What reading the exit code of a process that still runs raises. -/
def still_running : NetException := { message := py "Process must exit first." }

/-- A process object by its one property. -/
def running_process : PSObject no_objects.size where
  base := none
  properties := [(.ok (py "ExitCode"), .error still_running)]
  type_names := [py "System.Diagnostics.Process"]

def process_host : Host no_objects where
  is_available := true
  ensure_ready := .ok ()
  create := .ok ()
  attach := .ok ()
  configure := .ok ()
  invoke := .ok [some running_process]
  in_time := true
  stop := .ok ()
  had_errors := .ok false
  errors := []
  warnings := []
  verbose := []
  debug := []
  information := []
  dispose := .ok ()

theorem marshal_running_process (frames : Nat) :
    marshal no_objects 0 (frames + 1) running_process = .error (.net still_running) := by
  rw [marshal]
  rfl

/-- The exception of the getter reaches the caller of `run` as it is. -/
theorem run_raises_untyped :
    ¬ Promise 0 900 (fun _ => []) process_host (.run none) := by
  intro h
  have hreached : process_host.Reached := ⟨rfl, rfl, rfl, rfl, rfl⟩
  have hbuilt : build_result 0 900 process_host [some running_process] =
      .error (.net still_running) := by
    rw [build_result, marshal_results]
    have hresult : marshal_result 0 900 (some running_process) = .error (.net still_running) :=
      marshal_running_process 899
    rw [hresult]
    rfl
  have hended : (dispatch 0 900 process_host (Command.run none).timeout).ended =
      .error (.net still_running) := (dispatch_results 0 900 hreached rfl rfl).trans hbuilt
  have htyped := h.typed _ (call_error hended)
  cases htyped

end PwshPy.Hosted
