import PwshPy.Systemd.ControllerSafety

/-! # The four verbs, call by call and along a run

What a call may do is settled before its first effect: both units are judged on the
files as they are then. From there the files change only by the call's own effects,
so what was owned is still owned when its turn comes, unless the two unit names lead
to one and the same file.
-/

namespace PwshPy.Systemd

open Effects (Triple exec)

/-- Exceptions raised before a call has done anything. -/
def Origin.isEarly : Origin → Bool
  | .validation | .ownership | .reading => true
  | .bus | .schedule | .effect | .readBack => false

/-- How a call that raised has left the world. -/
def Outcome (w₀ : World) (base : PyStr) (e : Raised) (w : World) : Prop :=
  (∃ files, During w₀ base files w) ∧ (e.origin.isEarly = true → Untouched w₀ w)

section Verbs

variable {w₀ : World} {base : PyStr} {files : Files}

theorem Untouched.outcome {e : Raised} {w : World} (h : Untouched w₀ w) : Outcome w₀ base e w :=
  ⟨⟨_, h.during base⟩, fun _ => h⟩

theorem Broken.outcome {e : Raised} {w : World} (h : Broken w₀ base e w) : Outcome w₀ base e w :=
  ⟨h.1, fun hearly => by simp [h.2, Origin.isEarly] at hearly⟩

theorem untouched_clockFree : ClockFree (Untouched w₀) := fun _ h => h

theorem serviceOf_ne_timerOf (base : PyStr) : unitFile (serviceOf base) ≠ unitFile (timerOf base) := by
  simp [unitFile, serviceOf, timerOf, serviceSuffix, timerSuffix, py]

theorem validated_spec {α : Type} {P : World → Prop} (x : Except PyError α) :
    Triple P (validated x) (fun a w => P w ∧ x = .ok a) (fun e w => P w ∧ e.origin = .validation) := by
  cases x with
  | ok a => exact Triple.pure fun w hw => ⟨hw, rfl⟩
  | error e => exact Triple.throw fun w hw => ⟨hw, rfl⟩

theorem openBus_spec : Triple (Untouched w₀) openBus (fun _ => Untouched w₀) (Outcome w₀ base) :=
  Triple.bind ((attempt_spec untouched_clockFree .bus).weaken (fun _ h => h) (fun _ _ h => h)
    fun _ _ h => h.1.outcome) fun _ => Triple.pure fun _ hw => hw

/-! ## Allowed effects -/

theorem allowed_of_unchanged {event : Event} (h : event.changed = none)
    (hunit : ∀ unit ∈ event.unit, unit ∈ unitsOf base) : Allowed w₀ base (event, files) :=
  ⟨hunit, by simp [h]⟩

theorem allowed_of_carries {event : Event} {unit : PyStr} (hchanged : event.changed = some unit)
    (hunit : unit ∈ unitsOf base) (h : Carries w₀.files unit)
    (hnow : Apart w₀.files base → Carries files unit) : Allowed w₀ base (event, files) := by
  have hsame : event.unit = some unit := by
    cases event <;> simp_all [Event.changed, Event.unit]
  exact ⟨by simpa [hsame] using hunit, by simpa [hchanged] using Or.inl ⟨h, hnow⟩⟩

theorem allowed_write_free {unit : PyStr} (hunit : unit ∈ unitsOf base) (h : Free w₀ unit)
    (hnow : files (unitFile unit) = none) : Allowed w₀ base (.write unit, files) :=
  ⟨by simpa [Event.unit] using hunit, by
    intro u hu
    cases hu
    exact .inr ⟨rfl, h, hnow⟩⟩

theorem serviceOf_mem (base : PyStr) : serviceOf base ∈ unitsOf base := by simp [unitsOf]
theorem timerOf_mem (base : PyStr) : timerOf base ∈ unitsOf base := by simp [unitsOf]

/-! ## Reading a task back -/

section Reads

variable {P : World → Prop} (hP : ClockFree P)

include hP in
theorem liveUnitFileState_spec (origin : Origin) :
    Triple P (liveUnitFileState origin) (fun _ => P) (fun e w => P w ∧ e.origin = origin) :=
  Triple.bind (attempt_spec hP origin) fun _ => Triple.pure fun _ hw => hw

include hP in
theorem hasTimer_spec (origin : Origin) (name : PyStr) :
    Triple P (hasTimer origin name) (fun _ => P) (fun e w => P w ∧ e.origin = origin) := by
  refine Triple.bind (liveUnitFileState_spec hP origin) fun state => ?_
  split
  · exact Triple.pure fun _ hw => hw
  · exact (pathExists_spec hP _ _).weaken (fun _ h => h) (fun _ _ h => h.1) fun _ _ h => h

include hP in
theorem info_spec (name : PyStr) :
    Triple P (info name) (fun _ => P) (fun e w => P w ∧ e.origin = .readBack) := by
  refine Triple.bind (hasTimer_spec hP _ _) fun timer => Triple.bind (attempt_spec hP _) fun _ =>
    Triple.bind (m := fun _ => P) ?_ fun _ =>
      Triple.bind (attempt_spec hP _) fun _ => Triple.pure fun _ hw => hw
  exact (loadUnit_spec hP _ _).weaken (fun _ h => h) (fun _ _ h => h.1) fun _ _ h => h

include hP in
theorem requireTimer_spec (name : PyStr) (verb : ScheduleVerb) :
    Triple P (requireTimer name verb) (fun _ => P) (fun e w => P w ∧ e.origin = .schedule) := by
  refine Triple.bind (m := fun _ => P) (Triple.bind (hasTimer_spec hP _ _) fun timer => ?_)
    fun _ => Triple.bind (liveUnitFileState_spec hP _) fun state => ?_
  · split
    · exact Triple.pure fun _ hw => hw
    · exact Triple.throw fun _ hw => ⟨hw, rfl⟩
  · split
    · exact Triple.throw fun _ hw => ⟨hw, rfl⟩
    · exact Triple.pure fun _ hw => hw

end Reads

/-! ## Parts of a registration -/

theorem call_outcome {event : Event} (h : Allowed w₀ base (event, files)) :
    Triple (During w₀ base files) (call event) (fun _ => During w₀ base files) (Outcome w₀ base) :=
  (call_spec h).weaken (fun _ hw => hw) (fun _ _ hw => hw) fun _ _ hw => (During.broken hw).outcome

theorem retireTimer_spec (h : Carries w₀.files (timerOf base)) (remove : Bool) :
    Triple (During w₀ base w₀.files) (retireTimer (timerOf base) remove)
      (fun _ => During w₀ base (if remove then w₀.files.erase (unitFile (timerOf base)) else w₀.files))
      (Outcome w₀ base) := by
  have hallowed {event : Event} (hevent : event.changed = some (timerOf base)) :
      Allowed w₀ base (event, w₀.files) :=
    allowed_of_carries hevent (timerOf_mem base) h fun _ => h
  refine Triple.bind ((stopIfLoaded_spec (hallowed rfl)).weaken (fun _ hw => hw) (fun _ _ hw => hw)
    fun _ _ hw => (During.broken hw).outcome) fun _ => ?_
  cases remove with
  | false => exact Triple.pure fun w hw => hw
  | true =>
      exact Triple.bind (call_outcome (hallowed rfl)) fun _ =>
        (removeUnit_spec (timerOf_mem base) (.inl h) (hallowed rfl)).weaken (fun _ hw => hw)
          (fun _ _ hw => hw) fun _ _ hw => hw.outcome

/-- The files once the timer of a previous registration is retired. -/
def Retired (w₀ : World) (base : PyStr) (remove : Bool) (files : Files) : Prop :=
  files = w₀.files ∨
    (remove = true ∧ Carries w₀.files (timerOf base) ∧
      files = w₀.files.erase (unitFile (timerOf base)))

theorem retirePrevious_spec (h : Checked w₀ (timerOf base)) (remove : Bool) :
    Triple (Untouched w₀) (retirePrevious (timerOf base) remove)
      (fun _ w => ∃ files, During w₀ base files w ∧ Retired w₀ base remove files)
      (Outcome w₀ base) := by
  refine Triple.bind ((pathExists_spec untouched_clockFree .reading _).weaken (fun _ hw => hw)
    (fun _ _ hw => hw) fun _ _ hw => hw.1.outcome) fun there => ?_
  split
  · rename_i hthere
    rcases h with hcarries | hfree
    · refine (retireTimer_spec hcarries remove).weaken (fun w hw => hw.1.during base)
        (fun _ w hw => ⟨_, hw, ?_⟩) fun _ _ hw => hw
      cases remove with
      | false => exact .inl rfl
      | true => exact .inr ⟨rfl, hcarries, rfl⟩
    · -- a free name has no file to retire
      intro w hw
      have hnone := Files.fileAt_of_none hfree.1
      have hsome := hw.2
      rw [hw.1.1, hnone, hthere] at hsome
      cases hsome
  · exact Triple.pure fun w hw => ⟨_, hw.1.during base, .inl rfl⟩

theorem Retired.allowed_write {remove : Bool} (h : Retired w₀ base remove files)
    (hchecked : Checked w₀ (serviceOf base)) :
    Allowed w₀ base (.write (serviceOf base), files) := by
  rcases h with rfl | ⟨-, htimer, rfl⟩
  · rcases hchecked with hcarries | hfree
    · exact allowed_of_carries rfl (serviceOf_mem base) hcarries fun _ => hcarries
    · exact allowed_write_free (serviceOf_mem base) hfree hfree.1
  · rcases hchecked with hcarries | hfree
    · exact allowed_of_carries rfl (serviceOf_mem base) hcarries fun hapart =>
        hcarries.erase hapart.symm
    · refine allowed_write_free (serviceOf_mem base) hfree ?_
      rw [Files.erase, if_neg (serviceOf_ne_timerOf base)]
      exact hfree.1

theorem Retired.spot {remove : Bool} (h : Retired w₀ base remove files)
    (hservice : Checked w₀ (serviceOf base)) {p : PyStr}
    (hp : files.resolve (unitFile (serviceOf base)) = some p) : Spot w₀ base p := by
  rcases h with rfl | ⟨-, htimer, rfl⟩
  · exact ⟨_, serviceOf_mem base, hservice, .inr hp⟩
  · rcases Files.follow_erase hp with rfl | hp
    · exact ⟨_, timerOf_mem base, .inl htimer, .inl rfl⟩
    · exact ⟨_, serviceOf_mem base, hservice, .inr hp⟩

/-- The new service does not take the place of a timer that is free. -/
theorem write_service_free (hservice : Checked w₀ (serviceOf base)) (htimer : Free w₀ (timerOf base))
    (text : Option PyStr) :
    w₀.files.write (unitFile (serviceOf base)) text (unitFile (timerOf base)) = none := by
  have hne : ∀ p, w₀.files.resolve (unitFile (serviceOf base)) = some p →
      unitFile (timerOf base) ≠ p := by
    rintro p hp rfl
    rcases hservice with hcarries | hfree
    · obtain ⟨q, old, hq, hnode, -⟩ := hcarries.resolve
      rw [hp] at hq
      cases hq
      rw [htimer.1] at hnode
      cases hnode
    · rw [Files.resolve_of_none hfree.1] at hp
      exact serviceOf_ne_timerOf base (Option.some.inj hp)
  cases hp : w₀.files.resolve (unitFile (serviceOf base)) with
  | none => simpa [Files.write, hp] using htimer.1
  | some p => simpa [Files.write, hp, hne p hp] using htimer.1

theorem allowed_write_timer (hservice : Checked w₀ (serviceOf base))
    (htimer : Checked w₀ (timerOf base)) (text : Option PyStr) :
    Allowed w₀ base (.write (timerOf base), w₀.files.write (unitFile (serviceOf base)) text) := by
  rcases htimer with hcarries | hfree
  · exact allowed_of_carries rfl (timerOf_mem base) hcarries fun hapart => hcarries.write hapart text
  · exact allowed_write_free (timerOf_mem base) hfree (write_service_free hservice hfree text)

theorem armTimer_spec (timer_text : Option PyStr) (arm_now : Bool) :
    Triple (During w₀ base files) (armTimer (timerOf base) timer_text arm_now)
      (fun _ => During w₀ base files) (Outcome w₀ base) := by
  have hunit (event : Event) (h : event.changed = none)
      (hevent : event.unit = some (timerOf base) ∨ event.unit = none) :
      Allowed w₀ base (event, files) := by
    refine allowed_of_unchanged h fun unit hmem => ?_
    rcases hevent with hevent | hevent <;> rw [hevent] at hmem <;> cases hmem
    exact timerOf_mem base
  cases timer_text with
  | none => exact Triple.pure fun w hw => hw
  | some text =>
      refine Triple.bind (call_outcome (hunit _ rfl (.inl rfl))) fun _ =>
        Triple.bind (call_outcome (hunit _ rfl (.inr rfl))) fun _ => ?_
      split
      · exact call_outcome (hunit _ rfl (.inl rfl))
      · exact Triple.pure fun w hw => hw

theorem reload_spec : Triple (During w₀ base files) (call .reload) (fun _ => During w₀ base files)
    (Outcome w₀ base) := call_outcome (allowed_of_unchanged rfl nofun)

/-- Writing the units: with a new timer the old one is still in its place. -/
theorem writes_spec {remove : Bool} (hretired : Retired w₀ base remove files)
    (hservice : Checked w₀ (serviceOf base)) (htimer : Checked w₀ (timerOf base))
    (service_text : PyStr) {timer_text : Option PyStr} (hremove : remove = timer_text.isNone) :
    Triple (During w₀ base files)
      (writeUnit (serviceOf base) service_text >>= fun _ => writeTimer (timerOf base) timer_text)
      (fun _ w => ∃ files, During w₀ base files w) (Outcome w₀ base) := by
  refine Triple.bind ((writeUnit_spec (hretired.allowed_write hservice) fun p => hretired.spot hservice).weaken
    (fun _ hw => hw) (fun _ _ hw => hw) fun _ _ hw => hw.outcome) fun _ => ?_
  cases timer_text with
  | none => exact Triple.pure fun w hw => ⟨_, hw⟩
  | some text =>
      have hfiles : files = w₀.files := by
        rcases hretired with h | ⟨h, -⟩
        · exact h
        · rw [hremove] at h
          cases h
      subst hfiles
      refine (writeUnit_spec (allowed_write_timer hservice htimer _) fun p hp => ?_).weaken
        (fun _ hw => hw) (fun _ w hw => ⟨_, hw⟩) fun _ _ hw => hw.outcome
      rw [Files.resolve, Files.follow_write] at hp
      exact ⟨_, timerOf_mem base, htimer, .inr hp⟩

/-! ## Registration and removal -/

/-- The end of a call that may have changed something. -/
def Finished (w₀ : World) (base : PyStr) (w : World) : Prop := ∃ files, During w₀ base files w

theorem info_finished (name : PyStr) :
    Triple (During w₀ base files) (info name) (fun _ => Finished w₀ base) (Outcome w₀ base) :=
  (info_spec During.clockFree name).weaken (fun _ hw => hw) (fun _ _ hw => ⟨_, hw⟩)
    fun _ _ hw => ⟨⟨_, hw.1⟩, fun hearly => by simp [hw.2, Origin.isEarly] at hearly⟩

theorem renderTask_base {task_path : PyStr} {task : Registration} {rendered : Rendered}
    (h : renderTask task_path task = .ok rendered) : unitBase task_path = .ok rendered.base := by
  obtain ⟨base, hbase, h⟩ := Raises.bind_eq_ok.mp h
  obtain ⟨_, -, h⟩ := Raises.bind_eq_ok.mp h
  obtain ⟨user, -, h⟩ := Raises.bind_eq_ok.mp h
  obtain ⟨service_text, -, h⟩ := Raises.bind_eq_ok.mp h
  obtain ⟨timer_text, -, h⟩ := Raises.bind_eq_ok.mp h
  obtain ⟨arm_now, -, h⟩ := Raises.bind_eq_ok.mp h
  cases h
  exact hbase

theorem requireFreeOrOwned_untouched (unit : PyStr) :
    Triple (Untouched w₀) (requireFreeOrOwned unit)
      (fun _ w => Untouched w₀ w ∧ Checked w₀ unit) (Outcome w₀ base) := by
  refine (requireFreeOrOwned_spec untouched_clockFree unit).weaken (fun _ hw => hw)
    (fun _ w hw => ⟨hw.1, ?_⟩) fun _ _ hw => hw.1.outcome
  rcases hw.2 with hcarries | hfree
  · exact .inl (hw.1.1 ▸ hcarries)
  · exact .inr ⟨hw.1.1 ▸ hfree.1, hw.1.2.1 ▸ hfree.2⟩

theorem register_spec {task_path : PyStr} (hbase : ∀ b, unitBase task_path = .ok b → b = base)
    (task : Registration) :
    Triple (Untouched w₀) (register task_path task) (fun _ => Finished w₀ base)
      (Outcome w₀ base) := by
  refine Triple.bind ((validated_spec (renderTask task_path task)).weaken (fun _ hw => hw)
    (fun _ _ hw => hw) fun _ _ hw => hw.1.outcome) fun rendered => Triple.of_and fun hrendered => ?_
  obtain rfl : rendered.base = base := hbase _ (renderTask_base hrendered)
  refine Triple.bind openBus_spec fun _ => ?_
  refine Triple.bind (requireFreeOrOwned_untouched (serviceOf rendered.base)) fun _ =>
    Triple.of_and fun hservice => ?_
  refine Triple.bind (requireFreeOrOwned_untouched (timerOf rendered.base)) fun _ =>
    Triple.of_and fun htimer => ?_
  refine Triple.bind (retirePrevious_spec htimer _) fun _ => Triple.of_exists fun files =>
    Triple.of_and fun hretired => ?_
  have hrest (files' : Files) : Triple (During w₀ rendered.base files')
      (do
        call .reload
        armTimer (timerOf rendered.base) rendered.timer_text rendered.arm_now
        info rendered.base)
      (fun _ => Finished w₀ rendered.base) (Outcome w₀ rendered.base) :=
    Triple.bind reload_spec fun _ => Triple.bind (armTimer_spec _ _) fun _ => info_finished _
  have hwrites := writes_spec hretired hservice htimer rendered.service_text rfl
  have hboth := Triple.bind hwrites fun _ => Triple.of_exists hrest
  simp only [bind_assoc] at hboth
  exact hboth

theorem unregister_spec {task_path : PyStr} (hbase : ∀ b, unitBase task_path = .ok b → b = base) :
    Triple (Untouched w₀) (unregister task_path) (fun _ => Finished w₀ base) (Outcome w₀ base) := by
  refine Triple.bind ((validated_spec (unitBase task_path)).weaken (fun _ hw => hw)
    (fun _ _ hw => hw) fun _ _ hw => hw.1.outcome) fun b => Triple.of_and fun hb => ?_
  obtain rfl : b = base := hbase _ hb
  have howned (unit : PyStr) : Triple (Untouched w₀) (ownedUnitFile unit)
      (fun owned w => Untouched w₀ w ∧ (owned = true → Carries w₀.files unit)) (Outcome w₀ b) :=
    (ownedUnitFile_spec untouched_clockFree unit).weaken (fun _ hw => hw)
      (fun owned w hw => ⟨hw.1, fun h => hw.1.1 ▸ hw.2.1 h⟩) fun _ _ hw => hw.1.outcome
  refine Triple.bind (howned (timerOf b)) fun ownedTimer => Triple.of_and fun htimer =>
    Triple.bind (howned (serviceOf b)) fun ownedService => Triple.of_and fun hservice => ?_
  refine Triple.bind (m := fun _ => Untouched w₀) ?_ fun _ => Triple.bind openBus_spec fun _ => ?_
  · rw [requireAnyOwned]
    split
    · exact Triple.pure fun _ hw => hw
    · exact Triple.throw fun _ hw => hw.outcome
  have hdropTimer : Triple (Untouched w₀) (dropTimer (timerOf b) ownedTimer)
      (fun _ w => ∃ files, During w₀ b files w ∧ Retired w₀ b true files) (Outcome w₀ b) := by
    rw [dropTimer]
    split
    · rename_i hown
      exact (retireTimer_spec (htimer hown) true).weaken (fun w hw => hw.during b)
        (fun _ w hw => ⟨_, hw, .inr ⟨rfl, htimer hown, rfl⟩⟩) fun _ _ hw => hw
    · exact Triple.pure fun w hw => ⟨_, hw.during b, .inl rfl⟩
  refine Triple.bind hdropTimer fun _ => Triple.of_exists fun files => Triple.of_and fun hretired => ?_
  have hdropService : Triple (During w₀ b files) (dropService (serviceOf b) ownedService)
      (fun _ => Finished w₀ b) (Outcome w₀ b) := by
    rw [dropService]
    split
    · rename_i hown
      have hcarries := hservice hown
      have hallowed {event : Event} (hevent : event.changed = some (serviceOf b)) :
          Allowed w₀ b (event, files) := by
        refine allowed_of_carries hevent (serviceOf_mem b) hcarries fun hapart => ?_
        rcases hretired with rfl | ⟨-, -, rfl⟩
        · exact hcarries
        · exact hcarries.erase hapart.symm
      exact Triple.bind ((stopIfLoaded_spec (hallowed rfl)).weaken (fun _ hw => hw)
        (fun _ _ hw => hw) fun _ _ hw => (During.broken hw).outcome) fun _ =>
          (removeUnit_spec (serviceOf_mem b) (.inl hcarries) (hallowed rfl)).weaken (fun _ hw => hw)
            (fun _ _ hw => ⟨_, hw⟩) fun _ _ hw => hw.outcome
    · exact Triple.pure fun w hw => ⟨_, hw⟩
  refine Triple.bind hdropService fun _ => Triple.of_exists fun files' => ?_
  exact reload_spec.weaken (fun _ hw => hw) (fun _ _ hw => ⟨_, hw⟩) fun _ _ hw => hw

theorem register_of_error {task_path : PyStr} {e : PyError} (h : unitBase task_path = .error e)
    (task : Registration) (w : World) :
    exec (register task_path task) w = (.error ⟨.validation, e⟩, w) := by
  have hrender : renderTask task_path task = .error e := by
    simp [renderTask, h, bind, Except.bind]
  rw [register, Triple.exec_bind, hrender]
  rfl

theorem unregister_of_error {task_path : PyStr} {e : PyError} (h : unitBase task_path = .error e)
    (w : World) : exec (unregister task_path) w = (.error ⟨.validation, e⟩, w) := by
  rw [unregister, Triple.exec_bind, h]
  rfl

end Verbs

/-! ## Arming and disarming -/

/-- `enable` and `disable` write no file, and have done nothing when they raise early. -/
def Toggled (w₀ w : World) : Prop := w.files = w₀.files

theorem call_toggled {w₀ : World} (event : Event) :
    Triple (Toggled w₀) (call event) (fun _ => Toggled w₀)
      (fun e w => Toggled w₀ w ∧ e.origin.isEarly = false) := by
  have hclock : ClockFree (Toggled w₀) := fun _ h => h
  refine Triple.bind (ask_spec hclock) fun answer =>
    Triple.bind (m := fun _ => Toggled w₀) (Triple.modify fun w hw => hw) fun _ =>
      Triple.bind (m := fun _ => Toggled w₀) (Triple.modify fun w hw => hw) fun _ => ?_
  split
  · exact Triple.throw fun w hw => ⟨hw, rfl⟩
  · exact Triple.pure fun w hw => hw

/-- How a call that toggles a schedule may end. -/
def ToggleOutcome (w₀ : World) (e : Raised) (w : World) : Prop :=
  Toggled w₀ w ∧ (e.origin.isEarly = true → Untouched w₀ w)

theorem toggle_late {w₀ w : World} {e : Raised} (h : Toggled w₀ w)
    (hlate : e.origin.isEarly = false) : ToggleOutcome w₀ e w :=
  ⟨h, fun hearly => by simp [hlate] at hearly⟩

theorem call_toggle {w₀ : World} (event : Event) :
    Triple (Toggled w₀) (call event) (fun _ => Toggled w₀) (ToggleOutcome w₀) :=
  (call_toggled event).weaken (fun _ hw => hw) (fun _ _ hw => hw) fun _ _ hw => toggle_late hw.1 hw.2

theorem info_toggle {w₀ : World} (name : PyStr) :
    Triple (Toggled w₀) (info name) (fun _ => Toggled w₀) (ToggleOutcome w₀) :=
  (info_spec (fun _ h => h) name).weaken (fun _ hw => hw) (fun _ _ hw => hw)
    fun _ _ hw => toggle_late hw.1 (by rw [hw.2]; rfl)

/-- The checks both verbs make before they do anything. -/
theorem toggle_checks {w₀ : World} (task_path : PyStr) (verb : ScheduleVerb) {α : Type}
    {rest : PyStr → Control α}
    (hrest : ∀ base, Triple (Untouched w₀) (rest base) (fun _ => Toggled w₀) (ToggleOutcome w₀)) :
    Triple (Untouched w₀)
      (do
        let base ← validated (existingUnitBase task_path)
        openBus
        requireTimer base verb
        rest base)
      (fun _ => Toggled w₀) (ToggleOutcome w₀) := by
  have hearly {e : Raised} {w : World} {o : Origin} (h : Untouched w₀ w ∧ e.origin = o) :
      ToggleOutcome w₀ e w := ⟨h.1.1, fun _ => h.1⟩
  refine Triple.bind ((validated_spec _).weaken (fun _ hw => hw) (fun _ _ hw => hw.1)
    fun _ _ hw => hearly hw) fun base => ?_
  have hbus : Triple (Untouched w₀) openBus (fun _ => Untouched w₀) (ToggleOutcome w₀) :=
    Triple.bind ((attempt_spec untouched_clockFree .bus).weaken (fun _ hw => hw)
      (fun _ _ hw => hw) fun _ _ hw => hearly hw) fun _ => Triple.pure fun _ hw => hw
  refine Triple.bind hbus fun _ => ?_
  exact Triple.bind ((requireTimer_spec untouched_clockFree base verb).weaken (fun _ hw => hw)
    (fun _ _ hw => hw) fun _ _ hw => hearly hw) fun _ => hrest base

theorem enable_spec {w₀ : World} (task_path : PyStr) :
    Triple (Untouched w₀) (enable task_path) (fun _ => Toggled w₀) (ToggleOutcome w₀) := by
  refine toggle_checks task_path .enable fun base => ?_
  have hbases : Triple (Untouched w₀) readMonotonicBases (fun _ => Toggled w₀) (ToggleOutcome w₀) :=
    Triple.bind ((attempt_spec untouched_clockFree .schedule).weaken (fun _ hw => hw)
      (fun _ _ hw => hw) fun _ _ hw => ⟨hw.1.1, fun _ => hw.1⟩) fun _ => Triple.pure fun _ hw => hw.1
  refine Triple.bind hbases fun bases => ?_
  refine Triple.bind (call_toggle _) fun _ => Triple.bind (call_toggle _) fun _ =>
    Triple.bind (m := fun _ => Toggled w₀) ?_ fun _ => info_toggle base
  rw [startArmed]
  split
  · exact call_toggle _
  · exact Triple.pure fun _ hw => hw

theorem disable_spec {w₀ : World} (task_path : PyStr) :
    Triple (Untouched w₀) (disable task_path) (fun _ => Toggled w₀) (ToggleOutcome w₀) := by
  refine toggle_checks task_path .disable fun base => ?_
  exact Triple.bind ((call_toggle _).weaken (fun _ hw => hw.1) (fun _ _ hw => hw) fun _ _ hw => hw)
    fun _ => Triple.bind (call_toggle _) fun _ => Triple.bind (call_toggle _) fun _ =>
      info_toggle base

/-! ## Every call of every run -/

/-- What holds of one call, whatever the world it starts in. -/
structure Call.Safe (c : Call) : Prop where
  /-- only the two units of the task are touched, each effect allowed at its moment -/
  effects : ∀ task_path ∈ c.verb.writes, ∀ base, unitBase task_path = .ok base →
    c.after.log = c.before.log ++ c.effects ∧ ∀ entry ∈ c.effects, Allowed c.before base entry
  /-- no file changes but what the units that were owned or free lead to -/
  frame : ∀ task_path ∈ c.verb.writes, ∀ base, unitBase task_path = .ok base →
    ∀ path, ¬ Spot c.before base path → c.after.files path = c.before.files path
  /-- the verbs without a task path to write change no file, nor does a refused task path -/
  still : (∀ task_path ∈ c.verb.writes, ∀ base, unitBase task_path ≠ .ok base) →
    c.after.files = c.before.files
  /-- a refused task path has no effect -/
  refused : ∀ task_path ∈ c.verb.writes, ∀ e, unitBase task_path = .error e →
    c.after.log = c.before.log
  /-- an exception from a check comes before every effect -/
  early : ∀ e, c.ending = .error e → e.origin.isEarly = true →
    c.after.log = c.before.log ∧ c.after.files = c.before.files

/-- A call that started in `w₀`, by what its two endings leave. -/
theorem safe_of_triple {verb : Verb} {task_path base : PyStr} (hverb : verb.writes = some task_path)
    (hbase : unitBase task_path = .ok base) (w₀ : World)
    (h : Triple (Untouched w₀) verb.run (fun _ => Finished w₀ base) (Outcome w₀ base)) :
    (Call.mk verb w₀ (exec verb.run w₀).1 (exec verb.run w₀).2).Safe := by
  have hrun := h w₀ ⟨rfl, rfl, rfl⟩
  have hfinished : Finished w₀ base (exec verb.run w₀).2 := by
    rcases hexec : exec verb.run w₀ with ⟨e | a, w⟩ <;> rw [hexec] at hrun
    · exact hrun.1
    · exact hrun
  have hearly : ∀ e, (exec verb.run w₀).1 = .error e → e.origin.isEarly = true →
      Untouched w₀ (exec verb.run w₀).2 := by
    rintro e he horigin
    rcases hexec : exec verb.run w₀ with ⟨e' | a, w⟩ <;> rw [hexec] at hrun he
    · cases he
      exact hrun.2 horigin
    · cases he
  obtain ⟨files, hfiles, hframe, entries, hlog, hentries⟩ := hfinished
  have heffects : (Call.mk verb w₀ (exec verb.run w₀).1 (exec verb.run w₀).2).effects = entries := by
    simp [Call.effects, hlog]
  refine ⟨?_, ?_, ?_, ?_, ?_⟩
  · intro path hpath b hb
    obtain rfl : task_path = path := by rwa [hverb, Option.mem_some_iff] at hpath
    obtain rfl : base = b := Except.ok.inj (hbase.symm.trans hb)
    rw [heffects]
    exact ⟨hlog, hentries⟩
  · intro path hpath b hb p hp
    obtain rfl : task_path = path := by rwa [hverb, Option.mem_some_iff] at hpath
    obtain rfl : base = b := Except.ok.inj (hbase.symm.trans hb)
    exact (congrFun hfiles p).trans (hframe p hp)
  · exact fun hnone => absurd hbase (hnone task_path hverb base)
  · intro path hpath e he
    obtain rfl : task_path = path := by rwa [hverb, Option.mem_some_iff] at hpath
    rw [hbase] at he
    cases he
  · exact fun e he horigin => ⟨(hearly e he horigin).2.2, (hearly e he horigin).1⟩

theorem safe_of_toggle {verb : Verb} (hverb : verb.writes = none) (w₀ : World)
    (h : Triple (Untouched w₀) verb.run (fun _ => Toggled w₀) (ToggleOutcome w₀)) :
    (Call.mk verb w₀ (exec verb.run w₀).1 (exec verb.run w₀).2).Safe := by
  have hrun := h w₀ ⟨rfl, rfl, rfl⟩
  refine ⟨by simp [hverb], by simp [hverb], fun _ => ?_, by simp [hverb], ?_⟩
  · rcases hexec : exec verb.run w₀ with ⟨e | a, w⟩ <;> rw [hexec] at hrun
    · exact hrun.1
    · exact hrun
  · rintro e he horigin
    rcases hexec : exec verb.run w₀ with ⟨e' | a, w⟩ <;> rw [hexec] at hrun <;>
      simp only [hexec] at he
    · cases he
      exact ⟨(hrun.2 horigin).2.2, (hrun.2 horigin).1⟩
    · cases he

/-- A refused task path: the call ends where it started. -/
theorem safe_of_refused {verb : Verb} {task_path : PyStr} {e : PyError}
    (hverb : verb.writes = some task_path) (hbase : unitBase task_path = .error e) (w₀ : World)
    (h : exec verb.run w₀ = (.error ⟨.validation, e⟩, w₀)) :
    (Call.mk verb w₀ (exec verb.run w₀).1 (exec verb.run w₀).2).Safe := by
  rw [h]
  refine ⟨?_, ?_, fun _ => rfl, fun _ _ _ _ => rfl, fun _ _ _ => ⟨rfl, rfl⟩⟩ <;>
  · intro path hpath b hb
    obtain rfl : task_path = path := by rwa [hverb, Option.mem_some_iff] at hpath
    rw [hbase] at hb
    cases hb

theorem call_safe (verb : Verb) (w : World) :
    (Call.mk verb w (exec verb.run w).1 (exec verb.run w).2).Safe := by
  have hunique {task_path base : PyStr} (h : unitBase task_path = .ok base) :
      ∀ b, unitBase task_path = .ok b → b = base := fun b hb => Except.ok.inj (hb.symm.trans h)
  cases verb with
  | register task_path task =>
      cases h : unitBase task_path with
      | ok base => exact safe_of_triple rfl h w (register_spec (hunique h) task)
      | error e => exact safe_of_refused rfl h w (register_of_error h task w)
  | unregister task_path =>
      cases h : unitBase task_path with
      | ok base => exact safe_of_triple rfl h w (unregister_spec (hunique h))
      | error e => exact safe_of_refused rfl h w (unregister_of_error h w)
  | enable task_path => exact safe_of_toggle rfl w (enable_spec task_path)
  | disable task_path => exact safe_of_toggle rfl w (disable_spec task_path)

theorem run_safe (verbs : List Verb) (w : World) : ∀ c ∈ run verbs w, c.Safe := by
  induction verbs generalizing w with
  | nil => simp [run]
  | cons verb verbs ih =>
      rw [run, List.forall_mem_cons]
      exact ⟨call_safe verb w, ih _⟩

/-! ## Units of others -/

/-- A file that pwshpy did not write, or that cannot be read. -/
def Foreign (files : Files) (path : PyStr) : Prop :=
  ∃ text, files path = some (.file text) ∧ ∀ t, text = some t → isPwshpyUnit t = false

theorem Foreign.not_spot {w : World} {path : PyStr} (h : Foreign w.files path) (base : PyStr) :
    ¬ Spot w base path := by
  obtain ⟨text, hnode, hforeign⟩ := h
  have hself : w.files.resolve path = some path := by simp [Files.resolve, Files.follow, hnode]
  rintro ⟨unit, -, hcarries | hfree, hpath⟩
  · obtain ⟨p, owned, hp, hfile, hmark⟩ := hcarries.resolve
    have hsame : p = path := by
      rcases hpath with rfl | hpath
      · exact Option.some.inj (hp.symm.trans hself)
      · exact Option.some.inj (hp.symm.trans hpath)
    rw [hsame, hnode] at hfile
    cases hfile
    simp [hforeign owned rfl] at hmark
  · have hnone : path = unitFile unit := by
      rcases hpath with hpath | hpath
      · exact hpath
      · exact (Option.some.inj ((Files.resolve_of_none hfree.1).symm.trans hpath)).symm
    rw [hnone, hfree.1] at hnode
    cases hnode

/-- No call of any run changes a file that pwshpy did not write. -/
theorem foreign_file_kept (verbs : List Verb) (w : World) (path : PyStr)
    (h : Foreign w.files path) : ∀ c ∈ run verbs w, c.after.files path = w.files path := by
  induction verbs generalizing w with
  | nil => simp [run]
  | cons verb verbs ih =>
      have hsafe := call_safe verb w
      have hstep : (exec verb.run w).2.files path = w.files path := by
        cases hwrites : verb.writes with
        | none =>
            have hnone : ∀ p ∈ verb.writes, ∀ base, unitBase p ≠ .ok base := by simp [hwrites]
            exact congrFun (hsafe.still hnone) path
        | some task_path =>
            cases hbase : unitBase task_path with
            | ok base => exact hsafe.frame _ hwrites _ hbase path (h.not_spot base)
            | error e =>
                refine congrFun (hsafe.still fun p hp base => ?_) path
                obtain rfl : task_path = p := by simpa [hwrites] using hp
                simp [hbase]
      have hforeign : Foreign (exec verb.run w).2.files path := by
        obtain ⟨text, hnode, htext⟩ := h
        exact ⟨text, hstep.trans hnode, htext⟩
      rw [run, List.forall_mem_cons]
      exact ⟨hstep, fun c hc => (ih _ hforeign c hc).trans hstep⟩

/-! ## What the verbs promise -/

/-- A registered task: both unit files are there. -/
def ownedUnits : World where
  files path :=
    if path = unitFile (py "job.service") ∨ path = unitFile (py "job.timer") then
      some (.file (some (py "[Unit]\nX-PwshPy=1.11.0\n")))
    else none
  known _ := true
  log := []
  clock := 0
  answers _ := {}

/-- Over every run, whatever fails on the way: registering and removing a task touch its own two
units only, each owned or free when it was checked, and still so at the moment of the effect unless
both names lead to one file; a call that raises from a check has done nothing. -/
theorem verbs_touch_owned_units_only (verbs : List Verb) (w : World) :
    ∀ c ∈ run verbs w,
      (∀ task_path ∈ c.verb.writes, c.after.log = c.before.log ++ c.effects ∧
        ∀ entry ∈ c.effects, ∃ base, unitBase task_path = .ok base ∧
          (∀ unit ∈ entry.1.unit, unit = base ++ serviceSuffix ∨ unit = base ++ timerSuffix) ∧
          ∀ unit ∈ entry.1.changed,
            (Carries c.before.files unit ∧ (Apart c.before.files base → Carries entry.2 unit)) ∨
              (entry.1 = .write unit ∧ Free c.before unit ∧ entry.2 (unitFile unit) = none)) ∧
      (∀ task_path ∈ c.verb.writes, ∀ path,
        (∀ base, unitBase task_path = .ok base → ¬ Spot c.before base path) →
          c.after.files path = c.before.files path) ∧
      (∀ e, c.ending = .error e → e.origin.isEarly = true →
        c.after.log = c.before.log ∧ c.after.files = c.before.files) := by
  intro c hc
  have hsafe := run_safe verbs w c hc
  refine ⟨fun task_path hwrites => ?_, fun task_path hwrites path hpath => ?_, hsafe.early⟩
  · cases hbase : unitBase task_path with
    | ok base =>
        obtain ⟨hlog, hallowed⟩ := hsafe.effects task_path hwrites base hbase
        refine ⟨hlog, fun entry hentry => ⟨base, rfl, ?_, (hallowed entry hentry).2⟩⟩
        intro unit hunit
        simpa [unitsOf, serviceOf, timerOf] using (hallowed entry hentry).1 unit hunit
    | error e =>
        have hlog := hsafe.refused task_path hwrites e hbase
        simp [Call.effects, hlog]
  · cases hbase : unitBase task_path with
    | ok base => exact hsafe.frame task_path hwrites base hbase path (hpath base hbase)
    | error e =>
        refine congrFun (hsafe.still fun p hp base => ?_) path
        rw [Option.mem_def] at hp hwrites
        rw [Option.some.inj (hp.symm.trans hwrites), hbase]
        exact nofun

theorem verbs_touch_owned_units_only_at :
    Carries ownedUnits.files (py "job.service") ∧ Carries ownedUnits.files (py "job.timer") := by
  have hstops (unit : PyStr) (hunit : unit = py "job.service" ∨ unit = py "job.timer") :
      ∃ entry ∈ (exec (Verb.unregister (py "job")).run ownedUnits).2.log, entry.1 = .stop unit := by
    rcases hunit with rfl | rfl <;> decide
  have hcarries (unit : PyStr) (hunit : unit = py "job.service" ∨ unit = py "job.timer") :
      Carries ownedUnits.files unit := by
    obtain ⟨entry, hmem, hevent⟩ := hstops unit hunit
    obtain ⟨base, -, -, hchanged⟩ := ((verbs_touch_owned_units_only [.unregister (py "job")] ownedUnits
      _ (List.mem_cons_self ..)).1 (py "job") rfl).2 entry hmem
    rcases hchanged unit (by rw [hevent]; rfl) with ⟨h, -⟩ | ⟨hwrite, -⟩
    · exact h
    · rw [hevent] at hwrite
      cases hwrite
  exact ⟨hcarries _ (.inl rfl), hcarries _ (.inr rfl)⟩

/-- The service is a link to the timer: deleting the timer takes the owned file from under it. -/
def linkedUnits : World where
  files path :=
    if path = unitFile (py "job.service") then some (.link (unitFile (py "job.timer")))
    else if path = unitFile (py "job.timer") then
      some (.file (some (py "[Unit]\nX-PwshPy=1.11.0\n")))
    else none
  known _ := true
  log := []
  clock := 0
  answers _ := {}

/-- The service of `linkedUnits` is stopped when its file no longer carries the key. -/
theorem linked_service_stopped_without_its_key :
    ¬ ∀ verbs w, ∀ c ∈ run verbs w, ∀ task_path ∈ c.verb.writes, ∀ entry ∈ c.effects,
      ∀ unit ∈ entry.1.changed, Carries entry.2 unit ∨
        (entry.1 = .write unit ∧ Free c.before unit ∧ entry.2 (unitFile unit) = none) := by
  intro h
  have hstop : ∃ entry ∈ (exec (Verb.unregister (py "job")).run linkedUnits).2.log,
      entry.1 = .stop (py "job.service") ∧ entry.2.fileAt (unitFile (py "job.service")) = none := by
    decide
  obtain ⟨entry, hmem, hevent, hgone⟩ := hstop
  have hcall := h [.unregister (py "job")] linkedUnits _ (List.mem_cons_self ..) (py "job") rfl entry hmem
    (py "job.service") (by rw [hevent]; rfl)
  rcases hcall with ⟨text, hfile, -⟩ | ⟨hwrite, -⟩
  · rw [hgone] at hfile
    cases hfile
  · rw [hevent] at hwrite
    cases hwrite

end PwshPy.Systemd
