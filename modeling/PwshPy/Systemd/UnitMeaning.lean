import PwshPy.Systemd.UnitText

/-! # What systemd reads in a unit file

The line rules read back what was meant exactly when no line reaches into the next
one. A description or an argument text that ends in a backslash does: the refusals
of `_single_line` stop at control characters.
-/

namespace PwshPy.Systemd

open UnitFile (Directive Line Name render directives sectionAfter parse trim endsInBackslash isBlank)

/-! ## What was meant -/

/-- The directives the settings stand for, in each section. -/
def settingsDirectives (settings : Option TaskSettings) : List Directive × List Directive :=
  match settings with
  | none => ([], [])
  | some settings =>
    ((if settings.allow_start_if_on_batteries = some false then
        [⟨py "Unit", py "ConditionACPower", py "true"⟩] else []) ++
      (if settings.allow_demand_start = some false then
        [⟨py "Unit", py "RefuseManualStart", py "yes"⟩] else []),
      (settings.execution_time_limit.map fun limit =>
        ⟨py "Service", py "TimeoutStartSec", timeoutText limit.val⟩).toList ++
      (if settings.allow_hard_terminate = some false then
        [⟨py "Service", py "SendSIGKILL", py "no"⟩] else []))

/-- The values of the free texts are meant without the white space around them. -/
def serviceDirectives (program arguments description : PyStr) (user : Option PyStr)
    (settings : Option TaskSettings) : List Directive :=
  [⟨py "Unit", py "Description", trim (described description)⟩,
    ⟨py "Unit", py "X-PwshPy", version⟩] ++
  (settingsDirectives settings).1 ++ [⟨py "Service", py "Type", py "oneshot"⟩] ++
  (user.map fun u => ⟨py "Service", py "User", u⟩).toList ++
  [⟨py "Service", py "ExecStart", trim (execLine program arguments)⟩] ++
  (settingsDirectives settings).2

/-- The directive of a trigger; a logon trigger, which is refused, has none. -/
def triggerDirective : TaskTrigger → Option Directive
  | .once at_ =>
    some ⟨py "Timer", py "OnCalendar", dateText at_ ++ py " " ++ timeText at_ ++ py " UTC"⟩
  | .daily at_ _ => some ⟨py "Timer", py "OnCalendar", py "*-*-* " ++ timeText at_ ++ py " UTC"⟩
  | .boot delay => some ⟨py "Timer", py "OnBootSec", decimal (totalSeconds delay) ++ py "s"⟩
  | .logon _ => none

def timerDirectives (base description : PyStr) (triggers : List TaskTrigger) : List Directive :=
  [⟨py "Unit", py "Description", trim (described description)⟩,
    ⟨py "Unit", py "X-PwshPy", version⟩] ++
  triggers.filterMap triggerDirective ++
  [⟨py "Timer", py "AccuracySec", py "1s"⟩, ⟨py "Timer", py "Unit", trim (base ++ py ".service")⟩,
    ⟨py "Install", py "WantedBy", py "timers.target"⟩]

theorem isBlank_of_isDigit {c : Nat} (h : isDigit c = true) : isBlank c = false := by
  simp only [isDigit, Bool.and_eq_true, decide_eq_true_eq] at h
  simp only [isBlank, LF, Bool.or_eq_false_iff, beq_eq_false_iff_ne]
  omega

theorem trim_of_digits {text : PyStr} (h : ∀ c ∈ text, isDigit c) : trim text = text := by
  cases hhead : text.head? with
  | none => rw [List.head?_eq_none_iff.mp hhead]; rfl
  | some c =>
      cases hlast : text.getLast? with
      | none => rw [List.getLast?_eq_none_iff.mp hlast]; rfl
      | some d =>
          exact UnitFile.trim_eq_self hhead hlast
            (isBlank_of_isDigit (h c (List.mem_of_head? hhead)))
            (isBlank_of_isDigit (h d (List.mem_of_getLast? hlast)))

/-- A text between a digit or a star and a capital C is written as it is meant. -/
theorem trim_utc {text : PyStr} {c : Nat} (hhead : text.head? = some c) (hc : isBlank c = false) :
    trim (text ++ py " UTC") = text ++ py " UTC" := by
  obtain ⟨t, rfl⟩ := List.head?_eq_some_iff.mp hhead
  refine UnitFile.trim_eq_self (c := c) (d := 0x43) rfl ?_ hc (by decide)
  exact List.getLast?_append_of_ne_nil _ (by decide)

theorem head_decimal (n : Nat) : ∃ c t, decimal n = c :: t ∧ isDigit c := by
  cases h : decimal n with
  | nil => simp [decimal, Nat.toDigits_ne_nil] at h
  | cons c t => exact ⟨c, t, rfl, isDigit_of_mem_decimal (by rw [h]; simp)⟩

theorem directives_unitKeys (sect : PyStr) (settings : Option TaskSettings) :
    directives (py "Unit") (unitKeys settings) = (settingsDirectives settings).1 ∧
      sectionAfter sect (unitKeys settings) = sect := by
  cases settings with
  | none => exact ⟨rfl, rfl⟩
  | some settings =>
      simp only [unitKeys, settingsDirectives]
      split <;> split <;> exact ⟨rfl, rfl⟩

theorem directives_serviceKeys (settings : Option TaskSettings) :
    directives (py "Service") (serviceKeys settings) = (settingsDirectives settings).2 := by
  cases settings with
  | none => rfl
  | some settings =>
      have htimeout (n : Nat) : trim (timeoutText n) = timeoutText n := by
        simp only [timeoutText]
        split
        · decide
        · exact trim_of_digits fun _ => isDigit_of_mem_decimal
      have hkill : directives (py "Service")
          (if settings.allow_hard_terminate = some false then
            [.assign ⟨py "SendSIGKILL", by decide⟩ (py "no")] else []) =
          if settings.allow_hard_terminate = some false then
            [⟨py "Service", py "SendSIGKILL", py "no"⟩] else [] := by
        split <;> rfl
      simp only [serviceKeys, settingsDirectives]
      cases settings.execution_time_limit with
      | none => exact hkill
      | some limit => simp [directives, htimeout, hkill]

theorem directives_headDoc (description : PyStr) {extra : List Line} {d : List Directive}
    (h : directives (py "Unit") extra = d)
    (hsect : sectionAfter (py "Unit") extra = py "Unit") (doc : List Line) :
    directives [] (headDoc description extra ++ doc) =
      [⟨py "Unit", py "Description", trim (described description)⟩,
        ⟨py "Unit", py "X-PwshPy", version⟩] ++ d ++ directives (py "Unit") doc := by
  have hversion : trim version = version := by decide
  simp only [headDoc, List.cons_append, List.append_assoc, directives, hversion, UnitFile.directives_append,
    unitSection, hsect, h, List.nil_append]
  rfl

theorem directives_serviceDoc (program arguments description : PyStr) {user : Option PyStr}
    (huser : ∀ u ∈ user, isUid u) (settings : Option TaskSettings) :
    directives [] (serviceDoc program arguments description user settings) =
      serviceDirectives program arguments description user settings := by
  have huserLines : directives (py "Service") (userLines user) =
      (user.map fun u => ⟨py "Service", py "User", u⟩).toList ∧
        sectionAfter (py "Service") (userLines user) = py "Service" := by
    cases user with
    | none => exact ⟨rfl, rfl⟩
    | some u =>
        have htrim := trim_of_digits (List.all_eq_true.mp (isDigit_of_isUid (huser u rfl)))
        exact ⟨by simp [userLines, directives, htrim, userKey], rfl⟩
  have hsettings := directives_unitKeys (py "Unit") settings
  rw [serviceDoc, servicePrologue, List.append_assoc,
    directives_headDoc description hsettings.1 hsettings.2]
  have htype : trim (py "oneshot") = py "oneshot" := by decide
  simp only [List.cons_append, directives, serviceSection, UnitFile.directives_append, huserLines, htype,
    directives_serviceKeys, serviceDirectives, execStart, List.append_assoc, List.nil_append]

theorem triggerLine_spec (trigger : TaskTrigger) :
    (triggerLine trigger = none ∧ triggerDirective trigger = none) ∨
      ∃ key value, triggerLine trigger = some (.assign key value) ∧
        triggerDirective trigger = some ⟨py "Timer", key.text, trim value⟩ := by
  cases trigger with
  | once at_ =>
      obtain ⟨c, t, hc, hdigit⟩ := head_decimal at_.year
      refine .inr ⟨_, _, rfl, ?_⟩
      rw [trim_utc (c := c) (by simp [dateText, hc]) (isBlank_of_isDigit hdigit)]
      rfl
  | daily at_ every_days =>
      refine .inr ⟨_, _, rfl, ?_⟩
      rw [trim_utc (c := 0x2a) rfl (by decide)]
      rfl
  | boot delay =>
      obtain ⟨c, t, hc, hdigit⟩ := head_decimal (totalSeconds delay)
      refine .inr ⟨_, _, rfl, ?_⟩
      rw [UnitFile.trim_eq_self (c := c) (d := 0x73) (by simp [hc])
        (List.getLast?_append_of_ne_nil _ (by decide)) (isBlank_of_isDigit hdigit) (by decide)]
      rfl
  | logon user_id => exact .inl ⟨rfl, rfl⟩

theorem directives_triggerLines (triggers : List TaskTrigger) :
    directives (py "Timer") (triggers.filterMap triggerLine) = triggers.filterMap triggerDirective ∧
      sectionAfter (py "Timer") (triggers.filterMap triggerLine) = py "Timer" := by
  induction triggers with
  | nil => exact ⟨rfl, rfl⟩
  | cons trigger triggers ih =>
      rcases triggerLine_spec trigger with ⟨hline, hdirective⟩ | ⟨key, value, hline, hdirective⟩
      · rw [List.filterMap_cons_none hline, List.filterMap_cons_none hdirective]
        exact ih
      · rw [List.filterMap_cons_some hline, List.filterMap_cons_some hdirective]
        exact ⟨by rw [directives, ih.1], ih.2⟩

theorem directives_timerDoc (base description : PyStr) (triggers : List TaskTrigger) :
    directives [] (timerDoc base description triggers) =
      timerDirectives base description triggers := by
  obtain ⟨hlines, hsect⟩ := directives_triggerLines triggers
  rw [timerDoc, directives_headDoc description (d := []) rfl rfl]
  simp only [timerBody, List.cons_append, directives, timerSection, UnitFile.directives_append, hlines,
    hsect, timerDirectives, List.nil_append]
  rfl

/-! ## When the text says what was meant -/

theorem clean_headDoc {description : PyStr} (h : Printable description)
    (hlast : endsInBackslash description = false) {extra : List Line}
    (hextra : ∀ l ∈ extra, l.Clean) : ∀ l ∈ headDoc description extra, l.Clean := by
  intro l hl
  simp only [headDoc, List.cons_append, List.mem_cons, List.mem_append, List.not_mem_nil,
    or_false] at hl
  rcases hl with rfl | rfl | rfl | hl | rfl
  · trivial
  · exact ⟨(printable_described h).not_mem (by decide),
      (endsInBackslash_described description).trans hlast⟩
  · exact ⟨by decide, by decide⟩
  · exact hextra l hl
  · trivial

theorem clean_servicePrologue {description : PyStr} (h : Printable description)
    (hlast : endsInBackslash description = false) {user : Option PyStr}
    (huser : ∀ u ∈ user, isUid u) (settings : Option TaskSettings) :
    ∀ l ∈ servicePrologue description user settings, l.Clean := by
  intro l hl
  simp only [servicePrologue, List.mem_append, List.mem_cons] at hl
  rcases hl with hl | rfl | rfl | hl
  · exact clean_headDoc h hlast (fun l hl => (plain_unitKeys settings l hl).clean) l hl
  · trivial
  · exact ⟨by decide, by decide⟩
  · exact (plain_userLines huser l hl).clean

theorem lf_not_mem_of_clean {doc : List Line} (h : ∀ l ∈ doc, l.Clean) :
    ∀ l ∈ doc, LF ∉ l.render := fun l hl => Line.lf_not_mem_render (h l hl)

theorem lf_not_mem_assign {key : Name} {value : PyStr} (h : LF ∉ value) :
    LF ∉ (Line.assign key value).render := by
  have hk : LF ∉ key.text := Name.not_mem (by decide)
  simpa [Line.render, LF, UnitFile.equalsSign] using And.intro hk h

/-- A description that ends in a backslash swallows the ownership line below it. -/
theorem parse_headDoc_ne {description : PyStr} (h : Printable description)
    (hlast : endsInBackslash description = true) {extra doc : List Line}
    (hextra : ∀ l ∈ extra, l.Clean) (hdoc : ∀ l ∈ doc, LF ∉ l.render) :
    parse (render (headDoc description extra ++ doc)) ≠
      some (directives [] (headDoc description extra ++ doc)) := by
  have hshape : headDoc description extra ++ doc =
      [.header unitSection] ++ .assign descriptionKey (described description) ::
        (.assign ownershipName version :: (extra ++ [.blank] ++ doc)) := by
    simp [headDoc]
  rw [hshape]
  refine UnitFile.parse_render_ne _ _ _ (by simp [Line.Clean]) ?_
    ((printable_described h).not_mem (by decide))
    ((endsInBackslash_described description).trans hlast) ?_
  · simp only [List.forall_mem_cons, List.forall_mem_append]
    exact ⟨by decide, ⟨lf_not_mem_of_clean hextra, by decide, by simp⟩, hdoc⟩
  · intro l hl
    cases hl
    exact ⟨⟨by decide, by decide⟩, by decide⟩

/-- The line below `ExecStart=`, if there is one, ends in no blank. -/
theorem serviceKeys_head (settings : Option TaskSettings) :
    ∀ l ∈ (serviceKeys settings).head?, l.Clean ∧ ∀ c ∈ l.render.getLast?, isBlank c = false := by
  intro l hl
  have hmem := List.mem_of_head? hl
  refine ⟨(plain_serviceKeys settings l hmem).clean, ?_⟩
  cases settings with
  | none => cases hmem
  | some settings =>
      rcases List.mem_append.mp hmem with hmem | hmem
      · obtain ⟨limit, -, rfl⟩ := Option.map_eq_some_iff.mp (Option.mem_toList.mp hmem)
        simp only [timeoutText]
        split
        · decide
        · obtain ⟨d, t, hd, -⟩ := head_decimal limit.val
          rw [UnitFile.getLast?_render_assign _ (by simp [hd])]
          exact fun c hc => isBlank_of_isDigit (isDigit_of_mem_decimal (List.mem_of_getLast? hc))
      · split at hmem <;> simp only [List.mem_singleton, List.not_mem_nil] at hmem
        rw [hmem]
        decide

theorem parse_serviceUnit_iff {program arguments description text : PyStr} {user : Option PyStr}
    (huser : ∀ u ∈ user, isUid u) {settings : Option TaskSettings}
    (h : serviceUnit program arguments description user settings = .ok text) :
    parse text = some (serviceDirectives program arguments description user settings) ↔
      endsInBackslash description = false ∧ endsInBackslash arguments = false := by
  obtain ⟨rfl, hprogram, harguments, hdescription⟩ := serviceUnit_ok h
  rw [← directives_serviceDoc program arguments description huser settings]
  have hexec := (printable_execLine hprogram harguments).not_mem (c := LF) (by decide)
  have hlast := endsInBackslash_execLine program arguments
  have hkeys := fun l hl => (plain_serviceKeys settings l hl).clean
  cases hd : endsInBackslash description with
  | true =>
      refine iff_of_false ?_ (by simp)
      rw [serviceDoc, servicePrologue, List.append_assoc]
      refine parse_headDoc_ne hdescription hd (fun l hl => (plain_unitKeys settings l hl).clean) ?_
      simp only [List.cons_append, List.forall_mem_cons, List.forall_mem_append]
      exact ⟨by decide, by decide, lf_not_mem_of_clean fun l hl => (plain_userLines huser l hl).clean,
        lf_not_mem_assign hexec, lf_not_mem_of_clean hkeys⟩
  | false =>
      have hpre := clean_servicePrologue hdescription hd huser settings
      cases ha : endsInBackslash arguments with
      | true =>
          exact iff_of_false (UnitFile.parse_render_ne _ execStart _ hpre (lf_not_mem_of_clean hkeys)
            hexec (hlast.trans ha) (serviceKeys_head settings)) (by simp)
      | false =>
          refine iff_of_true (UnitFile.parse_render _ ?_) (by simp)
          simp only [serviceDoc, List.forall_mem_append, List.forall_mem_cons]
          exact ⟨hpre, ⟨hexec, hlast.trans ha⟩, hkeys⟩

theorem parse_timerUnit_iff {base description text : PyStr} {triggers : List TaskTrigger}
    (h : timerUnit base description triggers = .ok text) :
    parse text = some (timerDirectives base description triggers) ↔
      endsInBackslash description = false := by
  obtain ⟨rfl, hbase, hdescription, -⟩ := timerUnit_ok h
  rw [← directives_timerDoc, timerDoc]
  have hbody := clean_timerBody hbase triggers
  cases hd : endsInBackslash description with
  | true =>
      exact iff_of_false (parse_headDoc_ne hdescription hd (by simp) (lf_not_mem_of_clean hbody))
        (by simp)
  | false =>
      refine iff_of_true (UnitFile.parse_render _ ?_) rfl
      rw [List.forall_mem_append]
      exact ⟨clean_headDoc hdescription hd (by simp), hbody⟩

/-- The settings, a user and the fixed lines never write one key twice. -/
theorem nodup_serviceDirectives (program arguments description : PyStr) (user : Option PyStr)
    (settings : Option TaskSettings) :
    ((serviceDirectives program arguments description user settings).map
      fun d => (d.sect, d.key)).Nodup := by
  -- each optional directive is there or not; all of them together have distinct keys
  have hif (c : Prop) [Decidable c] (d : Directive) : (if c then [d] else []).Sublist [d] := by
    split <;> simp
  have hoption {α : Type} (o : Option α) (sect key : PyStr) (value : α → PyStr) :
      ((o.map fun a => Directive.mk sect key (value a)).toList.map fun d => (d.sect, d.key)).Sublist
        [(sect, key)] := by
    cases o <;> simp
  have hsettings : ((settingsDirectives settings).1.map fun d => (d.sect, d.key)).Sublist
        [(py "Unit", py "ConditionACPower"), (py "Unit", py "RefuseManualStart")] ∧
      ((settingsDirectives settings).2.map fun d => (d.sect, d.key)).Sublist
        [(py "Service", py "TimeoutStartSec"), (py "Service", py "SendSIGKILL")] := by
    cases settings with
    | none => exact ⟨List.nil_sublist _, List.nil_sublist _⟩
    | some settings =>
        constructor
        · exact ((hif _ _).append (hif _ _)).map _
        · rw [settingsDirectives, List.map_append]
          exact (hoption settings.execution_time_limit _ _ fun limit => timeoutText limit.val).append
            ((hif _ _).map _)
  have huser := hoption user (py "Service") (py "User") id
  simp only [serviceDirectives, List.map_append]
  refine List.Nodup.sublist ((((((List.Sublist.refl _).append hsettings.1).append
    (List.Sublist.refl _)).append huser).append (List.Sublist.refl _)).append hsettings.2) ?_
  simp only [List.map_cons, List.map_nil]
  decide

theorem length_triggerDirectives (triggers : List TaskTrigger) :
    (triggers.filterMap triggerDirective).length = (triggers.filterMap triggerLine).length := by
  induction triggers with
  | nil => rfl
  | cons trigger triggers ih =>
      rcases triggerLine_spec trigger with ⟨hline, hdirective⟩ | ⟨key, value, hline, hdirective⟩
      · rw [List.filterMap_cons_none hline, List.filterMap_cons_none hdirective, ih]
      · rw [List.filterMap_cons_some hline, List.filterMap_cons_some hdirective, List.length_cons, ih,
          List.length_cons]

/-- Both unit files say exactly what was meant, one line per key and one per trigger, exactly when
no free text of theirs ends in a backslash. -/
theorem unit_files_say_what_was_meant_iff (program arguments description : PyStr)
    (user : Option PyStr) (huser : ∀ u ∈ user, isUid u) (settings : Option TaskSettings)
    (base : PyStr) (triggers : List TaskTrigger) (_ : triggers ≠ []) :
    (∀ text, serviceUnit program arguments description user settings = .ok text →
      ((parse text = some (serviceDirectives program arguments description user settings) ∧
          ((serviceDirectives program arguments description user settings).map
            fun d => (d.sect, d.key)).Nodup) ↔
        endsInBackslash description = false ∧ endsInBackslash arguments = false)) ∧
    (∀ text, timerUnit base description triggers = .ok text →
      ((parse text = some (timerDirectives base description triggers) ∧
          (triggers.filterMap triggerDirective).length = triggers.length) ↔
        endsInBackslash description = false)) := by
  constructor
  · intro text h
    rw [and_iff_left (nodup_serviceDirectives program arguments description user settings)]
    exact parse_serviceUnit_iff huser h
  · intro text h
    have hlength := (length_triggerDirectives triggers).trans (timerUnit_ok h).2.2.2
    rw [and_iff_left hlength]
    exact parse_timerUnit_iff h

theorem unit_files_say_what_was_meant_at :
    (∃ text, serviceUnit (py "/usr/bin/rsync") (py "-a /srv /mnt") (py "Nightly copy")
        (some (py "1000")) (some { allow_demand_start := some false }) = .ok text ∧
      parse text = some (serviceDirectives (py "/usr/bin/rsync") (py "-a /srv /mnt")
        (py "Nightly copy") (some (py "1000")) (some { allow_demand_start := some false }))) ∧
    ∃ text, timerUnit (py "copy") (py "Nightly copy") [.boot 90000000] = .ok text ∧
      parse text = some (timerDirectives (py "copy") (py "Nightly copy") [.boot 90000000]) := by
  have h := unit_files_say_what_was_meant_iff (py "/usr/bin/rsync") (py "-a /srv /mnt")
    (py "Nightly copy") (some (py "1000")) (by decide) (some { allow_demand_start := some false })
    (py "copy") [.boot 90000000] (by simp)
  exact ⟨⟨_, rfl, ((h.1 _ rfl).mpr (by decide)).1⟩, _, rfl, ((h.2 _ rfl).mpr (by decide)).1⟩

/-- A description that ends in a backslash: the ownership key becomes part of it. -/
theorem backslash_description_swallows_ownership_key :
    ∃ text, serviceUnit (py "/usr/bin/true") [] (py "Copy to D:\\") none none = .ok text ∧
      parse text ≠
        some (serviceDirectives (py "/usr/bin/true") [] (py "Copy to D:\\") none none) ∧
      ∃ ds, parse text = some ds ∧ ∀ d ∈ ds, d.key ≠ ownershipKey :=
  ⟨_, rfl, by decide, _, rfl, by decide⟩

end PwshPy.Systemd
