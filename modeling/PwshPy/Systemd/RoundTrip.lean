import PwshPy.Systemd.ControllerRuns

/-! # A registered task can be changed and removed again

The texts `register` writes carry the ownership mark exactly when no piece of the
description hides it; as long as they do, no later `register` or `unregister` of the
task takes its files for those of somebody else.
-/

namespace PwshPy.Systemd

open Effects (Triple exec)
open Raises

/-! ## The rendered texts -/

theorem linuxUser_ok {principal : TaskPrincipal} {user : Option PyStr}
    (h : linuxUser principal = .ok user) : ∀ u ∈ user, isUid u = true := by
  simp only [linuxUser, ite_error_eq_ok] at h
  obtain ⟨-, h⟩ := h
  cases hid : principal.user_id with
  | none =>
      rw [hid] at h
      cases h
      exact nofun
  | some name =>
      simp only [hid] at h
      split at h
      · cases h
        exact nofun
      · simp only [ite_error_eq_ok, Except.ok.injEq] at h
        obtain ⟨huid, -, rfl⟩ := h
        rintro u ⟨⟩
        simpa using huid

theorem renderTask_ok {task_path : PyStr} {task : Registration} {rendered : Rendered}
    (h : renderTask task_path task = .ok rendered) :
    unitBase task_path = .ok rendered.base ∧
      (∃ user, (∀ u ∈ user, isUid u = true) ∧
        serviceUnit task.program task.arguments task.description user task.settings =
          .ok rendered.service_text) ∧
      timerTextOf rendered.base task = .ok rendered.timer_text := by
  obtain ⟨base, hbase, h⟩ := bind_eq_ok.mp h
  obtain ⟨_, -, h⟩ := bind_eq_ok.mp h
  obtain ⟨user, huser, h⟩ := bind_eq_ok.mp h
  obtain ⟨service_text, hservice, h⟩ := bind_eq_ok.mp h
  obtain ⟨timer_text, htimer, h⟩ := bind_eq_ok.mp h
  obtain ⟨arm_now, -, h⟩ := bind_eq_ok.mp h
  cases h
  exact ⟨hbase, ⟨user, linuxUser_ok huser, hservice⟩, htimer⟩

theorem timerTextOf_ok {base : PyStr} {task : Registration} {timer_text : Option PyStr}
    (h : timerTextOf base task = .ok timer_text) :
    (task.triggers = [] ∧ timer_text = none) ∨
      (task.triggers ≠ [] ∧ ∃ text, timer_text = some text ∧
        timerUnit base task.description task.triggers = .ok text) := by
  rw [timerTextOf] at h
  split at h
  · rename_i hempty
    exact .inl ⟨by simpa using hempty, (Except.ok.inj h).symm⟩
  · rename_i hempty
    obtain ⟨text, htext, rfl⟩ := map_eq_ok.mp h
    exact .inr ⟨by simpa using hempty, text, rfl, htext⟩

/-- All the texts of a registration carry the ownership mark. -/
def Rendered.IsMarked (rendered : Rendered) : Prop :=
  isPwshpyUnit rendered.service_text = true ∧
    ∀ text ∈ rendered.timer_text, isPwshpyUnit text = true

theorem isMarked_iff {task_path : PyStr} {task : Registration} {rendered : Rendered}
    (h : renderTask task_path task = .ok rendered) :
    rendered.IsMarked ↔ KeepsMark task.description ∨
      (task.triggers = [] ∧ ForgesMark task.program task.arguments) := by
  obtain ⟨hbase, ⟨user, huser, hservice⟩, htimer⟩ := renderTask_ok h
  have hname := (unitBase_ok hbase).2
  rw [Rendered.IsMarked, isPwshpyUnit_serviceUnit huser hservice]
  rcases timerTextOf_ok htimer with ⟨hnone, htext⟩ | ⟨hsome, text, htext, hunit⟩
  · simp [hnone, htext]
  · rw [htext]
    simp only [Option.mem_def, Option.some.injEq, forall_eq', hsome, false_and, or_false,
      isPwshpyUnit_timerUnit hname hunit]
    exact ⟨fun h => h.2, fun h => ⟨.inl h, h⟩⟩

/-! ## Later calls -/

/-- The unit files of the task are the ones `register` wrote. -/
structure Registered (rendered : Rendered) (w : World) : Prop where
  service : w.files.fileAt (unitFile (serviceOf rendered.base)) = some (some rendered.service_text)
  timer : ∀ text ∈ rendered.timer_text,
    w.files.fileAt (unitFile (timerOf rendered.base)) = some (some text)

theorem not_taken_of_text {w : World} {unit text : PyStr}
    (h : w.files.fileAt (unitFile unit) = some (some text)) :
    ¬ Taken w unit ↔ isPwshpyUnit text = true := by
  constructor
  · intro htaken
    by_contra hmark
    exact htaken (.inl ⟨text, h, by simpa using hmark⟩)
  · rintro hmark (hunmarked | ⟨hnone, -⟩)
    · exact hunmarked.not_carries ⟨text, h, hmark⟩
    · rw [Files.fileAt_of_none hnone] at h
      cases h

/-- The computation never refuses a unit as one pwshpy did not write. -/
def NeverForeign {α : Type} (pre : World → Prop) (x : Control α) : Prop :=
  Triple pre x (fun _ _ => True) (fun e _ => e.origin ≠ .ownership)

namespace NeverForeign

variable {α β : Type} {pre : World → Prop}

theorem bind {x : Control α} {f : α → Control β} (hx : NeverForeign pre x)
    (hf : ∀ a, NeverForeign (fun _ => True) (f a)) : NeverForeign pre (x >>= f) :=
  Triple.bind hx hf

theorem pure (a : α) : NeverForeign pre (Pure.pure a : Control α) := Triple.pure fun _ _ => trivial

theorem attempt {origin : Origin} (h : origin ≠ .ownership) :
    NeverForeign pre (Systemd.attempt origin) :=
  (attempt_spec (P := fun _ => True) (fun _ h => h) origin).weaken (fun _ _ => trivial)
    (fun _ _ _ => trivial) fun _ _ he => he.2 ▸ h

theorem ask : NeverForeign pre Systemd.ask :=
  (ask_spec (P := fun _ => True) fun _ h => h).weaken (fun _ _ => trivial)
    (fun _ _ _ => trivial) fun _ _ he => he

theorem modify (f : World → World) :
    NeverForeign pre (MonadState.modifyGet fun w => (PUnit.unit, f w) : Control PUnit) :=
  fun _ _ => trivial

theorem call (event : Event) : NeverForeign pre (Systemd.call event) := by
  refine ask.bind fun answer => (modify _).bind fun _ => (modify _).bind fun _ => ?_
  split
  · exact Triple.throw fun _ _ => nofun
  · exact pure _

theorem writeUnit (unit text : PyStr) : NeverForeign pre (Systemd.writeUnit unit text) := by
  refine ask.bind fun answer => (modify _).bind fun _ => ?_
  split
  · exact (modify _).bind fun _ => Triple.throw fun _ _ => nofun
  · split
    · exact (modify _).bind fun _ => Triple.throw fun _ _ => nofun
    · exact modify _

theorem removeUnit (unit : PyStr) : NeverForeign pre (Systemd.removeUnit unit) := by
  refine ask.bind fun answer => (modify _).bind fun _ => ?_
  split
  · exact Triple.throw fun _ _ => nofun
  · exact modify _

theorem stopIfLoaded (unit : PyStr) : NeverForeign pre (Systemd.stopIfLoaded unit) := by
  refine Triple.tryCatch (m := fun (e : Raised) _ => e.origin ≠ .ownership)
    (call (.stop unit) : NeverForeign pre _) fun e => ?_
  split
  · exact Triple.throw fun _ he => he
  · exact pure _

theorem retireTimer (timer : PyStr) (remove : Bool) :
    NeverForeign pre (Systemd.retireTimer timer remove) := by
  refine (stopIfLoaded timer).bind fun _ => ?_
  split
  · exact (call _).bind fun _ => removeUnit timer
  · exact pure _

theorem retirePrevious (timer : PyStr) (remove : Bool) :
    NeverForeign pre (Systemd.retirePrevious timer remove) := by
  refine Triple.bind (m := fun _ _ => True)
    ((pathExists_spec (P := fun _ => True) (fun _ h => h) .reading _).weaken (fun _ _ => trivial)
      (fun _ _ _ => trivial) fun _ _ he => by rw [he.2]; nofun) fun there => ?_
  split
  · exact retireTimer timer remove
  · exact pure _

theorem writeTimer (timer : PyStr) (text : Option PyStr) :
    NeverForeign pre (Systemd.writeTimer timer text) := by
  cases text with
  | none => exact pure _
  | some text => exact writeUnit timer text

theorem armTimer (timer : PyStr) (text : Option PyStr) (arm_now : Bool) :
    NeverForeign pre (Systemd.armTimer timer text arm_now) := by
  cases text with
  | none => exact pure _
  | some text =>
      refine (call _).bind fun _ => (call _).bind fun _ => ?_
      split
      · exact call _
      · exact pure _

theorem info (name : PyStr) : NeverForeign pre (Systemd.info name) :=
  (info_spec (P := fun _ => True) (fun _ h => h) name).weaken (fun _ _ => trivial)
    (fun _ _ _ => trivial) fun _ _ he => by rw [he.2]; nofun

end NeverForeign

theorem validated_neverForeign {α : Type} (w₀ : World) (x : Except PyError α) :
    Triple (Untouched w₀) (validated x) (fun a w => Untouched w₀ w ∧ x = .ok a)
      (fun e _ => e.origin ≠ .ownership) :=
  (validated_spec x).weaken (fun _ hw => hw) (fun _ _ hw => hw) fun _ _ hw => by rw [hw.2]; nofun

theorem openBus_neverForeign (w₀ : World) :
    Triple (Untouched w₀) openBus (fun _ => Untouched w₀) (fun e _ => e.origin ≠ .ownership) :=
  Triple.bind ((attempt_spec untouched_clockFree .bus).weaken (fun _ hw => hw) (fun _ _ hw => hw)
    fun _ _ hw => by rw [hw.2]; nofun) fun _ => Triple.pure fun _ hw => hw

theorem requireFreeOrOwned_neverForeign {w₀ : World} {unit : PyStr} (h : ¬ Taken w₀ unit) :
    Triple (Untouched w₀) (requireFreeOrOwned unit) (fun _ => Untouched w₀)
      (fun e _ => e.origin ≠ .ownership) := by
  refine (requireFreeOrOwned_spec untouched_clockFree unit).weaken (fun _ hw => hw)
    (fun _ _ hw => hw.1) ?_
  rintro e w ⟨hw, hreading | ⟨-, htaken⟩⟩
  · rw [hreading]; nofun
  · rw [Taken, hw.1, hw.2.1] at htaken
    exact absurd htaken h

theorem register_neverForeign {w₀ : World} {task_path : PyStr} {task : Registration}
    {base : PyStr} (hbase : unitBase task_path = .ok base) (hservice : ¬ Taken w₀ (serviceOf base))
    (htimer : ¬ Taken w₀ (timerOf base)) : NeverForeign (Untouched w₀) (register task_path task) := by
  refine Triple.bind (validated_neverForeign w₀ _) fun rendered => Triple.of_and fun hrendered => ?_
  obtain rfl : base = rendered.base := Except.ok.inj (hbase.symm.trans (renderTask_base hrendered))
  refine Triple.bind (openBus_neverForeign w₀) fun _ =>
    Triple.bind (requireFreeOrOwned_neverForeign hservice) fun _ =>
      Triple.bind (requireFreeOrOwned_neverForeign htimer) fun _ => ?_
  exact (NeverForeign.retirePrevious _ _).bind fun _ => (NeverForeign.writeUnit _ _).bind fun _ =>
    (NeverForeign.writeTimer _ _).bind fun _ => (NeverForeign.call _).bind fun _ =>
      (NeverForeign.armTimer _ _ _).bind fun _ => NeverForeign.info _

/-- The answer of the check on a unit that is not somebody else's. -/
theorem ownedUnitFile_neverForeign {w₀ : World} {unit : PyStr} (h : ¬ Taken w₀ unit) :
    Triple (Untouched w₀) (ownedUnitFile unit)
      (fun owned w => Untouched w₀ w ∧ (Carries w₀.files unit → owned = true))
      (fun e _ => e.origin ≠ .ownership) := by
  refine (ownedUnitFile_spec untouched_clockFree unit).weaken (fun _ hw => hw) ?_ ?_
  · rintro owned w ⟨hw, -, hnone⟩
    refine ⟨hw, fun hcarries => ?_⟩
    by_contra howned
    refine hcarries.ne_none ?_
    rw [← hw.1]
    exact hnone (by simpa using howned)
  · rintro e w ⟨hw, hreading | ⟨-, hunmarked⟩⟩
    · rw [hreading]; nofun
    · rw [hw.1] at hunmarked
      exact absurd (.inl hunmarked) h

theorem unregister_neverForeign {w₀ : World} {task_path base : PyStr}
    (hbase : unitBase task_path = .ok base) (hservice : Carries w₀.files (serviceOf base))
    (hfree : ¬ Taken w₀ (serviceOf base)) (htimer : ¬ Taken w₀ (timerOf base)) :
    NeverForeign (Untouched w₀) (unregister task_path) := by
  refine Triple.bind (validated_neverForeign w₀ _) fun b => Triple.of_and fun hb => ?_
  obtain rfl : base = b := Except.ok.inj (hbase.symm.trans hb)
  refine Triple.bind (ownedUnitFile_neverForeign htimer) fun ownedTimer => Triple.of_and fun _ =>
    Triple.bind (ownedUnitFile_neverForeign hfree) fun ownedService =>
      Triple.of_and fun howned => ?_
  rw [howned hservice, Bool.or_true]
  refine Triple.bind (m := fun _ => Untouched w₀) (Triple.pure fun _ hw => hw) fun _ =>
    Triple.bind (openBus_neverForeign w₀) fun _ => ?_
  refine NeverForeign.bind (x := dropTimer _ _) ?_ fun _ =>
    NeverForeign.bind (x := dropService _ _) ?_ fun _ => NeverForeign.call _
  · rw [dropTimer]
    split
    · exact NeverForeign.retireTimer _ _
    · exact NeverForeign.pure _
  · exact (NeverForeign.stopIfLoaded _).bind fun _ => NeverForeign.removeUnit _

/-- No later `register` or `unregister` of the task is refused as one of somebody else's, whatever the
operations it comes to answer. -/
def NeverRefused (base : PyStr) (w : World) : Prop :=
  ∀ (answers : Nat → Answer) (verb : Verb) (later : PyStr), verb.writes = some later →
    unitBase later = .ok base → ∀ e : Raised,
      (exec verb.run { w with answers := answers }).1 = .error e → e.origin ≠ .ownership

theorem Registered.neverRefused {rendered : Rendered} {w : World} (h : Registered rendered w)
    (hmark : isPwshpyUnit rendered.service_text = true) (htimer : ¬ Taken w (timerOf rendered.base)) :
    NeverRefused rendered.base w := by
  intro answers verb later hverb hbase e he
  have hservice : Carries w.files (serviceOf rendered.base) := ⟨_, h.service, hmark⟩
  have hfree : ¬ Taken w (serviceOf rendered.base) := (not_taken_of_text h.service).mpr hmark
  have hnever : NeverForeign (Untouched { w with answers := answers }) verb.run := by
    cases verb with
    | register path task =>
        cases hverb
        exact register_neverForeign hbase hfree htimer
    | unregister path =>
        cases hverb
        exact unregister_neverForeign hbase hservice hfree htimer
    | enable path => cases hverb
    | disable path => cases hverb
  have hrun := hnever { w with answers := answers } ⟨rfl, rfl, rfl⟩
  rcases hexec : exec verb.run { w with answers := answers } with ⟨e' | a, t⟩ <;>
    rw [hexec] at hrun he
  · cases he
    exact hrun
  · cases he

/-! ## A world in which every operation succeeds -/

section Calm

variable {w₀ : World} {P : World → Prop} (hP : ClockFree P)
  (hcalm : ∀ w, P w → ∀ n, (w.answers n).failure = none)

include hP hcalm

theorem ask_calm {err : Raised → World → Prop} :
    Triple P ask (fun answer w => P w ∧ answer.failure = none) err :=
  Triple.get_bind fun w hw => Triple.bind (m := fun _ => P) (Triple.set fun _ _ => hP w hw)
    fun _ => Triple.pure fun _ hs => ⟨hs, hcalm w hw w.clock⟩

theorem attempt_calm (origin : Origin) {err : Raised → World → Prop} :
    Triple P (attempt origin) (fun _ => P) err := by
  refine Triple.bind (ask_calm hP hcalm) fun answer => ?_
  split
  · rename_i e he
    refine Triple.throw fun _ hw => ?_
    rw [hw.2] at he
    cases he
  · exact Triple.pure fun _ hw => hw.1

theorem readText_calm {path text : PyStr} (h : ∀ w, P w → w.files.fileAt path = some (some text))
    {err : Raised → World → Prop} :
    Triple P (readText path) (fun found w => P w ∧ found = text) err := by
  refine Triple.bind (ask_calm hP hcalm) fun answer => Triple.get_bind fun w hw => ?_
  split
  · rename_i hfailure
    rw [hw.2] at hfailure
    cases hfailure
  · rename_i found hnone hfile
    rw [h w hw.1] at hfile
    cases hfile
    exact Triple.pure fun _ hs => hs ▸ ⟨hw.1, rfl⟩
  · rename_i hother
    exact absurd (h w hw.1) (hother text)

theorem existsOrIsSymlink_calm (origin : Origin) (path : PyStr) {err : Raised → World → Prop} :
    Triple P (existsOrIsSymlink origin path) (fun _ => P) err := by
  have hread {α : Type} (f : World → α) : Triple P
      (do let _ ← attempt origin
          return f (← get)) (fun _ => P) err :=
    Triple.bind (attempt_calm hP hcalm origin) fun _ =>
      Triple.get_bind fun _ hw => Triple.pure fun _ hs => hs ▸ hw
  refine Triple.bind (hread fun w => (w.files.fileAt path).isSome) fun file => ?_
  split
  · exact Triple.pure fun _ hw => hw
  · exact hread fun w => w.files.isLink path

end Calm

/-- Nothing was done yet, and every operation will succeed. -/
def Calm (w₀ w : World) : Prop := Untouched w₀ w ∧ ∀ n, (w.answers n).failure = none

section Refused

variable {w₀ : World}

theorem calm_clockFree : ClockFree (Calm w₀) := fun _ h => h

/-- Where what the check reads can be read, it fails only on a unit of somebody else. -/
theorem requireFreeOrOwned_calm {unit : PyStr} (h : w₀.files (unitFile unit) = none ∨
    ∃ text, w₀.files.fileAt (unitFile unit) = some (some text)) :
    Triple (Calm w₀) (requireFreeOrOwned unit) (fun _ w => Calm w₀ w ∧ ¬ Taken w₀ unit)
      (fun e _ => e.origin = .ownership) := by
  have hcalm : ∀ w, Calm w₀ w → ∀ n, (w.answers n).failure = none := fun w hw => hw.2
  have hentry : Triple (Calm w₀) (existsOrIsSymlink .reading (unitFile unit))
      (fun there w => Calm w₀ w ∧ (there = true ↔ w₀.files (unitFile unit) ≠ none))
      (fun e _ => e.origin = .ownership) :=
    (Triple.and (existsOrIsSymlink_calm calm_clockFree hcalm .reading _)
      (existsOrIsSymlink_spec calm_clockFree .reading _)).weaken (fun _ hw => hw)
        (fun _ w hw => ⟨hw.1, hw.1.1.1 ▸ hw.2.2⟩) fun _ _ he => he.1
  have howned : Triple (Calm w₀) (ownedUnitFile unit) (fun _ => Calm w₀)
      (fun e _ => e.origin = .ownership) := by
    refine Triple.bind hentry fun there => Triple.of_and fun hthere => ?_
    split
    · rename_i htrue
      obtain hnone | ⟨text, htext⟩ := h
      · exact absurd hnone (hthere.mp htrue)
      · refine Triple.bind (readText_calm calm_clockFree hcalm fun w hw => hw.1.1 ▸ htext)
          fun found => ?_
        split
        · exact Triple.pure fun _ hw => hw.1
        · exact Triple.throw fun _ _ => rfl
    · exact Triple.pure fun _ hw => hw
  have hrun : Triple (Calm w₀) (requireFreeOrOwned unit) (fun _ => Calm w₀)
      (fun e _ => e.origin = .ownership) := by
    refine Triple.bind howned fun owned => ?_
    split
    · exact Triple.pure fun _ hw => hw
    · refine Triple.bind (m := fun _ => Calm w₀) (Triple.bind
        (attempt_calm calm_clockFree hcalm .reading) fun _ => Triple.get_bind fun _ hw =>
          Triple.pure fun _ hs => hs ▸ hw) fun known => ?_
      split
      · exact Triple.throw fun _ _ => rfl
      · exact Triple.pure fun _ hw => hw
  refine (Triple.and hrun (requireFreeOrOwned_spec calm_clockFree unit)).weaken (fun _ hw => hw)
    (fun _ w hw => ⟨hw.1, ?_⟩) fun _ _ he => he.1
  have hchecked : Checked w₀ unit := by
    have hchecked := hw.2.2
    rwa [Checked, Free, hw.1.1.1, hw.1.1.2.1] at hchecked
  exact hchecked.not_taken

/-- On a calm system `register` refuses what is somebody else's. -/
theorem register_refused {task_path : PyStr} {task : Registration} {rendered : Rendered}
    (hrendered : renderTask task_path task = .ok rendered) (h : Registered rendered w₀)
    (htaken : Taken w₀ (serviceOf rendered.base) ∨ Taken w₀ (timerOf rendered.base)) :
    Triple (Calm w₀) (register task_path task) (fun _ _ => False)
      (fun e _ => e.origin = .ownership) := by
  have hcalm : ∀ w, Calm w₀ w → ∀ n, (w.answers n).failure = none := fun w hw => hw.2
  rw [register, hrendered]
  refine Triple.bind (m := fun r w => Calm w₀ w ∧ r = rendered)
    (Triple.pure fun _ hw => ⟨hw, rfl⟩) fun r => Triple.of_and fun hr => ?_
  subst hr
  refine Triple.bind (m := fun _ => Calm w₀) (Triple.bind
    (attempt_calm calm_clockFree hcalm .bus) fun _ => Triple.pure fun _ hw => hw) fun _ => ?_
  refine Triple.bind (requireFreeOrOwned_calm (.inr ⟨_, h.service⟩)) fun _ =>
    Triple.of_and fun hservice => ?_
  have htimer := htaken.resolve_left hservice
  have hread : w₀.files (unitFile (timerOf r.base)) = none ∨
      ∃ text, w₀.files.fileAt (unitFile (timerOf r.base)) = some (some text) := by
    rcases htimer with ⟨text, htext, -⟩ | hnone
    · exact .inr ⟨text, htext⟩
    · exact .inl hnone.1
  exact Triple.bind (requireFreeOrOwned_calm hread) fun _ => Triple.of_and fun hnot =>
    absurd htimer hnot

end Refused

/-- Only names that nobody else holds are never refused. -/
theorem NeverRefused.not_taken {task_path : PyStr} {task : Registration} {rendered : Rendered}
    {w : World} (hnever : NeverRefused rendered.base w)
    (hrendered : renderTask task_path task = .ok rendered) (h : Registered rendered w) :
    ¬ Taken w (serviceOf rendered.base) ∧ ¬ Taken w (timerOf rendered.base) := by
  rw [← not_or]
  intro htaken
  have hregistered : Registered rendered { w with answers := fun _ => {} } := ⟨h.1, h.2⟩
  have hrefused := register_refused hrendered hregistered htaken { w with answers := fun _ => {} }
    ⟨⟨rfl, rfl, rfl⟩, fun _ => rfl⟩
  rcases hexec : exec (register task_path task) { w with answers := fun _ => {} } with
    ⟨e | a, t⟩ <;> rw [hexec] at hrefused
  · refine hnever (fun _ => {}) (.register task_path task) task_path rfl
      (renderTask_base hrendered) e ?_ hrefused
    exact congrArg Prod.fst hexec
  · exact hrefused

/-! ## The round trip -/

/-- No piece of the description hides the mark of the texts, or the command line forges one where
there is no timer. -/
def MarkSurvives (task : Registration) : Prop :=
  KeepsMark task.description ∨ (task.triggers = [] ∧ ForgesMark task.program task.arguments)

/-- Every text of an accepted registration carries the mark exactly when the mark survives, and no
later call on these files is refused as foreign exactly when, moreover, the timer of a task without
triggers is not somebody else's. -/
theorem registered_task_is_owned_iff (task_path : PyStr) (task : Registration)
    (rendered : Rendered) (h : renderTask task_path task = .ok rendered) :
    (rendered.IsMarked ↔ MarkSurvives task) ∧
      ∀ w, Registered rendered w → (NeverRefused rendered.base w ↔
        MarkSurvives task ∧ (task.triggers = [] → ¬ Taken w (timerOf rendered.base))) := by
  refine ⟨isMarked_iff h, fun w hw => ?_⟩
  rw [MarkSurvives, ← isMarked_iff h, Rendered.IsMarked]
  constructor
  · intro hnever
    obtain ⟨hservice, htimer⟩ := hnever.not_taken h hw
    refine ⟨⟨(not_taken_of_text hw.service).mp hservice, fun text htext => ?_⟩, fun _ => htimer⟩
    exact (not_taken_of_text (hw.timer text htext)).mp htimer
  · rintro ⟨⟨hservice, htimer⟩, hfree⟩
    refine hw.neverRefused hservice ?_
    rcases timerTextOf_ok (renderTask_ok h).2.2 with ⟨hnone, -⟩ | ⟨-, text, htext, -⟩
    · exact hfree hnone
    · exact (not_taken_of_text (hw.timer text htext)).mpr (htimer text htext)

/-- The files `register` writes, and nothing else known. -/
def writtenUnits (rendered : Rendered) : World where
  files path :=
    if path = unitFile (serviceOf rendered.base) then some (.file (some rendered.service_text))
    else if path = unitFile (timerOf rendered.base) then
      rendered.timer_text.map fun text => .file (some text)
    else none
  known _ := false
  log := []
  clock := 0
  answers _ := {}

def plainTask : Registration where
  program := py "/usr/bin/true"
  description := py "Nightly [copy]"

theorem registered_task_is_owned_at :
    ∃ rendered, renderTask (py "job") plainTask = .ok rendered ∧ rendered.IsMarked ∧
      NeverRefused rendered.base (writtenUnits rendered) := by
  obtain ⟨rendered, h⟩ : ∃ rendered, renderTask (py "job") plainTask = .ok rendered := ⟨_, rfl⟩
  have hkeeps : MarkSurvives plainTask := .inl (.inr (by decide))
  have hnone : rendered.timer_text = none := by
    cases h
    rfl
  have htimer : (writtenUnits rendered).files (unitFile (timerOf rendered.base)) = none := by
    cases h
    rfl
  obtain ⟨hmarked, hnever⟩ := registered_task_is_owned_iff (py "job") plainTask rendered h
  refine ⟨rendered, h, hmarked.mpr hkeeps, (hnever _ ⟨?_, ?_⟩).mpr ⟨hkeeps, fun _ => ?_⟩⟩
  · cases h
    rfl
  · rw [hnone]
    exact nofun
  · rintro (⟨text, htext, -⟩ | ⟨-, hknown⟩)
    · rw [Files.fileAt_of_none htimer] at htext
      cases htext
    · cases hknown

/-- A description of two lines in Unicode's sense: U+2028 stands between them. -/
def separatedTask : Registration where
  program := py "/usr/bin/true"
  description := py "Nightly copy" ++ 0x2028 :: py "[disk 2]"
  triggers := [.boot 0]

/-- The second line reads as a section header, so the mark below it is not found: the task that was
just registered is refused as a unit of somebody else. -/
theorem separated_task_is_refused : ∃ rendered,
    renderTask (py "job") separatedTask = .ok rendered ∧
      isPwshpyUnit rendered.service_text = false ∧
      (∃ text, rendered.timer_text = some text ∧ isPwshpyUnit text = false) ∧
      Registered rendered (writtenUnits rendered) ∧
      ∃ e, (exec (unregister (py "job")) (writtenUnits rendered)).1 = .error e ∧
        e.origin = .ownership :=
  ⟨_, rfl, by decide, ⟨_, rfl, by decide⟩, ⟨rfl, by rintro _ ⟨⟩; rfl⟩, _, rfl, rfl⟩

end PwshPy.Systemd
