import PwshPy.Systemd.Timers

/-! # Unit files as documents

For an accepted input the text is a rendered document (`serviceUnit_ok`,
`timerUnit_ok`), and every line of it but `Description=` and `ExecStart=` is known
to stay on its line.
-/

namespace PwshPy.Systemd

open UnitFile (Directive Line Name render directives parse trim endsInBackslash equalsSign isBlank)
open Raises

/-! ## The documents -/

def unitSection : Name := ⟨py "Unit", by decide⟩
def serviceSection : Name := ⟨py "Service", by decide⟩
def timerSection : Name := ⟨py "Timer", by decide⟩
def installSection : Name := ⟨py "Install", by decide⟩

def descriptionKey : Name := ⟨py "Description", by decide⟩
def ownershipName : Name := ⟨ownershipKey, by decide⟩
def onCalendar : Name := ⟨py "OnCalendar", by decide⟩
def onBootSec : Name := ⟨py "OnBootSec", by decide⟩
def execStart : Name := ⟨py "ExecStart", by decide⟩
def userKey : Name := ⟨py "User", by decide⟩

/-- The value of `Description=`. -/
def described (description : PyStr) : PyStr :=
  let doubled := replaceChar 0x25 (py "%%") description
  if doubled.isEmpty then py "pwshpy task" else doubled

/-- The first word of `ExecStart=`, in its double quotes. -/
def execWord (program : PyStr) : PyStr :=
  0x22 :: replaceChar 0x22 (py "\\\"") (replaceChar 0x5c (py "\\\\")
    (replaceChar 0x25 (py "%%") program)) ++ [0x22]

/-- The value of `ExecStart=`. -/
def execLine (program arguments : PyStr) : PyStr :=
  let arguments := replaceChar 0x25 (py "%%") arguments
  if arguments.isEmpty then execWord program else execWord program ++ py " " ++ arguments

def headDoc (description : PyStr) (extra : List Line) : List Line :=
  .header unitSection :: .assign descriptionKey (described description) ::
    .assign ownershipName version :: extra ++ [.blank]

def unitKeys : Option TaskSettings → List Line
  | none => []
  | some settings =>
    (if settings.allow_start_if_on_batteries = some false then
      [.assign ⟨py "ConditionACPower", by decide⟩ (py "true")] else []) ++
    (if settings.allow_demand_start = some false then
      [.assign ⟨py "RefuseManualStart", by decide⟩ (py "yes")] else [])

def timeoutText (limit : Nat) : PyStr := if limit = 0 then py "infinity" else decimal limit

def serviceKeys : Option TaskSettings → List Line
  | none => []
  | some settings =>
    (settings.execution_time_limit.map fun limit =>
      .assign ⟨py "TimeoutStartSec", by decide⟩ (timeoutText limit.val)).toList ++
    (if settings.allow_hard_terminate = some false then
      [.assign ⟨py "SendSIGKILL", by decide⟩ (py "no")] else [])

def userLines (user : Option PyStr) : List Line := (user.map (.assign userKey ·)).toList

/-- The lines above `ExecStart=`. -/
def servicePrologue (description : PyStr) (user : Option PyStr) (settings : Option TaskSettings) :
    List Line :=
  headDoc description (unitKeys settings) ++
    .header serviceSection :: .assign ⟨py "Type", by decide⟩ (py "oneshot") :: userLines user

def serviceDoc (program arguments description : PyStr) (user : Option PyStr)
    (settings : Option TaskSettings) : List Line :=
  servicePrologue description user settings ++
    .assign execStart (execLine program arguments) :: serviceKeys settings

/-- The [Timer] line of a trigger; a logon trigger has none. -/
def triggerLine : TaskTrigger → Option Line
  | .once at_ => some (.assign onCalendar (dateText at_ ++ py " " ++ timeText at_ ++ py " UTC"))
  | .daily at_ _ => some (.assign onCalendar (py "*-*-* " ++ timeText at_ ++ py " UTC"))
  | .boot delay => some (.assign onBootSec (decimal (totalSeconds delay) ++ py "s"))
  | .logon _ => none

def timerBody (base : PyStr) (triggers : List TaskTrigger) : List Line :=
  .header timerSection :: triggers.filterMap triggerLine ++
    [.assign ⟨py "AccuracySec", by decide⟩ (py "1s"),
      .assign ⟨py "Unit", by decide⟩ (base ++ py ".service"), .blank, .header installSection,
      .assign ⟨py "WantedBy", by decide⟩ (py "timers.target")]

def timerDoc (base description : PyStr) (triggers : List TaskTrigger) : List Line :=
  headDoc description [] ++ timerBody base triggers

/-! ## Accepted inputs -/

/-- No line break, NUL or other control character. -/
def Printable (text : PyStr) : Prop := ∀ c ∈ text, isControlCharacter c = false

theorem singleLine_ok {text field value : PyStr} (h : singleLine text field = .ok value) :
    value = text ∧ Printable text := by
  simp only [singleLine, ite_error_eq_ok, Except.ok.injEq] at h
  obtain ⟨-, hany, rfl⟩ := h
  exact ⟨rfl, by simpa [Printable] using hany⟩

theorem unitValue_ok {text field value : PyStr} (h : unitValue text field = .ok value) :
    value = replaceChar 0x25 (py "%%") text ∧ Printable text := by
  obtain ⟨a, ha, rfl⟩ := map_eq_ok.mp h
  obtain ⟨rfl, hp⟩ := singleLine_ok ha
  exact ⟨rfl, hp⟩

theorem execProgram_ok {program word : PyStr} (h : execProgram program = .ok word) :
    word = execWord program ∧ Printable program := by
  obtain ⟨value, hvalue, h⟩ := bind_eq_ok.mp h
  obtain ⟨rfl, hp⟩ := unitValue_ok hvalue
  refine ⟨?_, hp⟩
  simp only [execWord]
  split at h
  · cases h
  · simp only [ite_error_eq_ok, Except.ok.injEq] at h
    exact h.2.2.symm

theorem settingsKeys_eq (settings : Option TaskSettings) :
    settingsKeys settings = (render (unitKeys settings), render (serviceKeys settings)) := by
  cases settings with
  | none => rfl
  | some settings =>
      obtain ⟨battery, -, limit, -, terminate, demand⟩ := settings
      simp only [settingsKeys, unitKeys, serviceKeys, timeoutText]
      cases limit <;> by_cases hb : battery = some false <;> by_cases hd : demand = some false <;>
        by_cases ht : terminate = some false <;> simp [hb, hd, ht, Line.render, LF, equalsSign, py]

theorem unitHead_ok {description text : PyStr} {e : List Line}
    (h : unitHead description (render e) = .ok text) :
    text = render (headDoc description e) ∧ Printable description := by
  obtain ⟨value, hvalue, h⟩ := bind_eq_ok.mp h
  obtain ⟨rfl, hp⟩ := unitValue_ok hvalue
  refine ⟨?_, hp⟩
  simp only [pure, Except.pure, Except.ok.injEq] at h
  rw [← h]
  simp [headDoc, UnitFile.render_append, Line.render, unitSection, descriptionKey, ownershipName,
    described, py, LF, equalsSign]

theorem serviceUnit_ok {program arguments description : PyStr} {user : Option PyStr}
    {settings : Option TaskSettings} {text : PyStr}
    (h : serviceUnit program arguments description user settings = .ok text) :
    text = render (serviceDoc program arguments description user settings) ∧
      Printable program ∧ Printable arguments ∧ Printable description := by
  obtain ⟨_, -, h⟩ := bind_eq_ok.mp h
  obtain ⟨word, hword, h⟩ := bind_eq_ok.mp h
  obtain ⟨args, hargs, h⟩ := bind_eq_ok.mp h
  obtain ⟨head, hhead, h⟩ := bind_eq_ok.mp h
  obtain ⟨rfl, hprogram⟩ := execProgram_ok hword
  obtain ⟨rfl, harguments⟩ := unitValue_ok hargs
  rw [settingsKeys_eq] at hhead h
  obtain ⟨rfl, hdescription⟩ := unitHead_ok hhead
  refine ⟨?_, hprogram, harguments, hdescription⟩
  simp only [pure, Except.pure, Except.ok.injEq] at h
  rw [← h]
  cases user <;>
    simp [serviceDoc, servicePrologue, userLines, UnitFile.render_append, Line.render,
      serviceSection, execStart, userKey, execLine, py, LF, equalsSign]

theorem timerLine_ok {trigger : TaskTrigger} {text : PyStr} (h : timerLine trigger = .ok text) :
    ∃ line, triggerLine trigger = some line ∧ text = line.render := by
  cases trigger with
  | once at_ =>
      cases h
      exact ⟨_, rfl, by simp [Line.render, onCalendar, py, equalsSign]⟩
  | daily at_ every_days =>
      simp only [timerLine, ite_error_eq_ok, Except.ok.injEq] at h
      exact ⟨_, rfl, by simp [← h.2, Line.render, onCalendar, py, equalsSign]⟩
  | boot delay =>
      cases h
      exact ⟨_, rfl, by simp [Line.render, onBootSec, py, equalsSign]⟩
  | logon user_id => cases h

/-- Every trigger of an accepted timer has its line. -/
theorem timerLines_ok {triggers : List TaskTrigger} {lines : List PyStr}
    (h : triggers.mapM timerLine = .ok lines) :
    lines = (triggers.filterMap triggerLine).map Line.render ∧
      (triggers.filterMap triggerLine).length = triggers.length := by
  induction triggers generalizing lines with
  | nil =>
      simp only [List.mapM_nil, pure, Except.pure, Except.ok.injEq] at h
      exact ⟨h.symm, rfl⟩
  | cons trigger triggers ih =>
      rw [List.mapM_cons] at h
      obtain ⟨first, hfirst, h⟩ := bind_eq_ok.mp h
      obtain ⟨rest, hrest, h⟩ := bind_eq_ok.mp h
      obtain ⟨line, hline, rfl⟩ := timerLine_ok hfirst
      obtain ⟨rfl, hlength⟩ := ih hrest
      simp only [pure, Except.pure, Except.ok.injEq] at h
      rw [List.filterMap_cons_some hline]
      exact ⟨h.symm, by simp [hlength]⟩

theorem timerUnit_ok {base description : PyStr} {triggers : List TaskTrigger} {text : PyStr}
    (h : timerUnit base description triggers = .ok text) :
    text = render (timerDoc base description triggers) ∧ Printable base ∧ Printable description ∧
      (triggers.filterMap triggerLine).length = triggers.length := by
  obtain ⟨lines, hlines, h⟩ := bind_eq_ok.mp h
  obtain ⟨unit, hunit, h⟩ := bind_eq_ok.mp h
  obtain ⟨head, hhead, h⟩ := bind_eq_ok.mp h
  obtain ⟨rfl, hlength⟩ := timerLines_ok hlines
  obtain ⟨rfl, hbase⟩ := singleLine_ok hunit
  obtain ⟨rfl, hdescription⟩ := unitHead_ok (e := []) hhead
  refine ⟨?_, hbase, hdescription, hlength⟩
  simp only [pure, Except.pure, Except.ok.injEq] at h
  rw [← h]
  simp [timerDoc, timerBody, Line.render, timerSection, installSection,
    UnitFile.render, unlines_append, py, LF, equalsSign]

/-! ## Lines that stay on their line -/

theorem Printable.not_mem {text : PyStr} {c : Nat} (h : Printable text)
    (hc : isControlCharacter c = true) : c ∉ text := by
  intro hm
  simp [h c hm] at hc

theorem Printable.append {s t : PyStr} (hs : Printable s) (ht : Printable t) : Printable (s ++ t) := by
  intro c hc
  rcases List.mem_append.mp hc with hc | hc
  · exact hs c hc
  · exact ht c hc

theorem Printable.replaceChar {text new : PyStr} (h : Printable text) (hnew : Printable new)
    (c : Nat) : Printable (replaceChar c new text) := by
  intro d hd
  obtain ⟨e, he, hd⟩ := List.mem_flatMap.mp hd
  split at hd
  · exact hnew d hd
  · rw [List.mem_singleton.mp hd]
    exact h e he

theorem printable_described {description : PyStr} (h : Printable description) :
    Printable (described description) := by
  simp only [described]
  split
  · unfold Printable
    decide
  · exact h.replaceChar (by unfold Printable; decide) _

theorem printable_execLine {program arguments : PyStr} (hp : Printable program)
    (ha : Printable arguments) : Printable (execLine program arguments) := by
  have hquote : Printable [0x22] := by unfold Printable; decide
  have hword : Printable (execWord program) := by
    refine hquote.append (Printable.append ?_ hquote)
    refine ((hp.replaceChar ?_ _).replaceChar ?_ _).replaceChar ?_ _ <;> (unfold Printable; decide)
  simp only [execLine]
  split
  · exact hword
  · refine (hword.append ?_).append (ha.replaceChar ?_ _) <;> (unfold Printable; decide)

/-- Doubling `%` does not change whether a text ends in a backslash. -/
theorem endsInBackslash_doubled (text : PyStr) :
    endsInBackslash (replaceChar 0x25 (py "%%") text) = endsInBackslash text := by
  rcases List.eq_nil_or_concat text with rfl | ⟨t, c, rfl⟩
  · rfl
  · rw [List.concat_eq_append, replaceChar, List.flatMap_append]
    by_cases hc : c = 0x25
    · simp [hc, endsInBackslash, py]
    · simp [hc, endsInBackslash]

theorem doubled_eq_nil {text : PyStr} (h : (replaceChar 0x25 (py "%%") text).isEmpty) :
    text = [] := by
  cases text with
  | nil => rfl
  | cons c t =>
      by_cases hc : c = 0x25 <;> simp [replaceChar, hc, py] at h

theorem endsInBackslash_described (description : PyStr) :
    endsInBackslash (described description) = endsInBackslash description := by
  simp only [described]
  split
  · rename_i h
    rw [doubled_eq_nil h]
    rfl
  · exact endsInBackslash_doubled description

theorem getLast?_execWord (program : PyStr) : (execWord program).getLast? = some 0x22 := by
  rw [execWord, List.getLast?_concat]

theorem endsInBackslash_execLine (program arguments : PyStr) :
    endsInBackslash (execLine program arguments) = endsInBackslash arguments := by
  simp only [execLine]
  split
  · rename_i h
    rw [doubled_eq_nil h, endsInBackslash, getLast?_execWord]
    rfl
  · rename_i h
    rw [← endsInBackslash_doubled arguments, endsInBackslash, endsInBackslash,
      List.getLast?_append_of_ne_nil _ (by simpa using h)]

/-! ## Values without free text -/

/-- ASCII between blank and tilde, without a backslash. -/
def isPlain (c : Nat) : Bool := 0x20 ≤ c && c ≤ 0x7e && c != 0x5c

def Plain (text : PyStr) : Prop := ∀ c ∈ text, isPlain c = true

theorem Plain.append {s t : PyStr} (hs : Plain s) (ht : Plain t) : Plain (s ++ t) := by
  intro c hc
  rcases List.mem_append.mp hc with hc | hc
  · exact hs c hc
  · exact ht c hc

theorem plain_of_digits {text : PyStr} (h : ∀ c ∈ text, isDigit c) : Plain text := by
  intro c hc
  have := h c hc
  simp only [isDigit, Bool.and_eq_true, decide_eq_true_eq] at this
  simp only [isPlain, Bool.and_eq_true, decide_eq_true_eq, bne_iff_ne]
  omega

theorem plain_decimal (n : Nat) : Plain (decimal n) :=
  plain_of_digits fun _ => isDigit_of_mem_decimal

theorem plain_padded (width n : Nat) : Plain (padded width n) :=
  plain_of_digits fun _ => isDigit_of_mem_padded

theorem plain_timeText (at_ : Instant) : Plain (timeText at_) := by
  have hcolon : Plain (py ":") := by unfold Plain; decide
  exact ((((plain_padded _ _).append hcolon).append (plain_padded _ _)).append hcolon).append
    (plain_padded _ _)

theorem plain_dateText (at_ : Instant) : Plain (dateText at_) := by
  have hdash : Plain (py "-") := by unfold Plain; decide
  exact ((((plain_decimal _).append hdash).append (plain_padded _ _)).append hdash).append
    (plain_padded _ _)

/-- A line whose value, if it has one, holds no free text. -/
def IsPlainLine : Line → Prop
  | .assign _ value => Plain value
  | _ => True

theorem IsPlainLine.clean {l : Line} (h : IsPlainLine l) : l.Clean := by
  cases l with
  | header name => trivial
  | assign key value =>
      refine ⟨fun hlf => absurd (h LF hlf) (by decide), ?_⟩
      cases hlast : value.getLast? with
      | none => simp [endsInBackslash, hlast]
      | some c =>
          have hc := h c (List.mem_of_getLast? hlast)
          simp only [endsInBackslash, hlast, beq_eq_false_iff_ne, ne_eq, Option.some.injEq]
          rintro rfl
          simp [isPlain] at hc
  | blank => trivial

theorem plain_unitKeys (settings : Option TaskSettings) : ∀ l ∈ unitKeys settings, IsPlainLine l := by
  intro l hl
  cases settings with
  | none => cases hl
  | some settings =>
      rcases List.mem_append.mp hl with hl | hl <;> split at hl <;>
        simp only [List.mem_singleton, List.not_mem_nil] at hl <;> rw [hl] <;>
        (unfold IsPlainLine Plain; decide)

theorem plain_timeoutText (limit : Nat) : Plain (timeoutText limit) := by
  simp only [timeoutText]
  split
  · unfold Plain; decide
  · exact plain_decimal limit

theorem plain_serviceKeys (settings : Option TaskSettings) :
    ∀ l ∈ serviceKeys settings, IsPlainLine l := by
  intro l hl
  cases settings with
  | none => cases hl
  | some settings =>
      rcases List.mem_append.mp hl with hl | hl
      · obtain ⟨limit, -, rfl⟩ := Option.map_eq_some_iff.mp (Option.mem_toList.mp hl)
        exact plain_timeoutText limit.val
      · split at hl <;> simp only [List.mem_singleton, List.not_mem_nil] at hl
        rw [hl]
        unfold IsPlainLine Plain
        decide

theorem plain_userLines {user : Option PyStr} (h : ∀ u ∈ user, isUid u) :
    ∀ l ∈ userLines user, IsPlainLine l := by
  intro l hl
  cases user with
  | none => cases hl
  | some u =>
      rw [List.mem_singleton.mp hl]
      exact plain_of_digits (List.all_eq_true.mp (isDigit_of_isUid (h u rfl)))

theorem plain_triggerLine {trigger : TaskTrigger} {l : Line} (h : triggerLine trigger = some l) :
    IsPlainLine l := by
  have hutc : Plain (py " UTC") := by unfold Plain; decide
  cases trigger with
  | once at_ =>
      cases h
      refine (((plain_dateText at_).append ?_).append (plain_timeText at_)).append hutc
      unfold Plain; decide
  | daily at_ every_days =>
      cases h
      refine (Plain.append ?_ (plain_timeText at_)).append hutc
      unfold Plain; decide
  | boot delay =>
      cases h
      refine (plain_decimal _).append ?_
      unfold Plain; decide
  | logon user_id => cases h

/-- Whatever holds of plain lines and of `Unit=` holds of the whole body. -/
theorem timerBody_forall {P : Line → Prop} {base : PyStr} (hplain : ∀ l, IsPlainLine l → P l)
    (hunit : ∀ key, P (.assign key (base ++ py ".service"))) (triggers : List TaskTrigger) :
    ∀ l ∈ timerBody base triggers, P l := by
  intro l hl
  simp only [timerBody, List.cons_append, List.mem_cons, List.mem_append, List.not_mem_nil,
    or_false] at hl
  rcases hl with rfl | hl | rfl | rfl | rfl | rfl | rfl
  · exact hplain _ trivial
  · obtain ⟨trigger, -, htrigger⟩ := List.mem_filterMap.mp hl
    exact hplain _ (plain_triggerLine htrigger)
  · exact hplain _ (by unfold IsPlainLine Plain; decide)
  · exact hunit _
  · exact hplain _ trivial
  · exact hplain _ trivial
  · exact hplain _ (by unfold IsPlainLine Plain; decide)

theorem clean_timerBody {base : PyStr} (hbase : Printable base) (triggers : List TaskTrigger) :
    ∀ l ∈ timerBody base triggers, l.Clean := by
  refine timerBody_forall (fun _ => IsPlainLine.clean) (fun key => ⟨?_, ?_⟩) triggers
  · refine (hbase.append ?_).not_mem (by decide)
    unfold Printable; decide
  · rw [endsInBackslash, List.getLast?_append_of_ne_nil _ (by decide)]
    rfl

end PwshPy.Systemd
