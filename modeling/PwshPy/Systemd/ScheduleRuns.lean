import PwshPy.Systemd.RoundTrip
import PwshPy.Systemd.TimerBases

/-! # The schedule a registration leaves

A successful call has made all its effects, so what systemd keeps of a timer follows
from the effects alone. The specifications below say which effects a call makes, in
order, and what files it leaves.
-/

namespace PwshPy.Systemd

open Effects (Triple exec)

/-! ## What systemd keeps of a timer -/

structure TimerUnit where
  enabled : Bool
  /-- the schedule of an earlier registration still runs -/
  earlier : Bool
  /-- started since a unit file of the task was written last -/
  startedSinceWrite : Bool

/-- A timer behind one effect of a call. -/
def TimerUnit.after (timer : PyStr) (t : TimerUnit) : Event → TimerUnit
  | .stop unit => if unit = timer then { t with earlier := false } else t
  | .disable unit => if unit = timer then { t with enabled := false } else t
  | .enable unit => if unit = timer then { t with enabled := true } else t
  | .start unit => if unit = timer then { t with startedSinceWrite := true } else t
  | .write _ => { t with startedSinceWrite := false }
  | .reload | .delete _ => t

/-- A timer behind the effects of a call. -/
def TimerUnit.behind (timer : PyStr) (t : TimerUnit) (effects : List (Event × Files)) : TimerUnit :=
  effects.foldl (fun t entry => t.after timer entry.1) t

/-! ## The effects of a registration -/

section Effects

variable (files : Files) (rendered : Rendered)

/-- A previous timer is there to retire. -/
def hasPrevious (base : PyStr) : Bool := (files.fileAt (unitFile (timerOf base))).isSome

def retiredFiles : Files :=
  if hasPrevious files rendered.base && rendered.timer_text.isNone then
    files.erase (unitFile (timerOf rendered.base))
  else files

def retireEffects : List (Event × Files) :=
  if hasPrevious files rendered.base then
    (.stop (timerOf rendered.base), files) ::
      if rendered.timer_text.isNone then
        [(.disable (timerOf rendered.base), files), (.delete (timerOf rendered.base), files)]
      else []
  else []

def serviceFiles : Files :=
  (retiredFiles files rendered).write (unitFile (serviceOf rendered.base)) (some rendered.service_text)

def registeredFiles : Files :=
  match rendered.timer_text with
  | none => serviceFiles files rendered
  | some text => (serviceFiles files rendered).write (unitFile (timerOf rendered.base)) (some text)

def armEffects : List (Event × Files) :=
  match rendered.timer_text with
  | none => []
  | some _ =>
    (.enable (timerOf rendered.base), registeredFiles files rendered) ::
      (.reload, registeredFiles files rendered) ::
        if rendered.arm_now then [(.start (timerOf rendered.base), registeredFiles files rendered)] else []

def writeEffects : List (Event × Files) :=
  (.write (serviceOf rendered.base), retiredFiles files rendered) ::
    match rendered.timer_text with
    | none => []
    | some _ => [(.write (timerOf rendered.base), serviceFiles files rendered)]

/-- What a successful registration does, in order. -/
def registerEffects : List (Event × Files) :=
  retireEffects files rendered ++ writeEffects files rendered ++
    (.reload, registeredFiles files rendered) :: armEffects files rendered

end Effects

/-! ## One effect at a time -/

/-- Every start among the effects met files by which its timer can be armed at once. -/
def StartsRight (reading : Reading) (entries : List (Event × Files)) : Prop :=
  ∀ timer files, (.start timer, files) ∈ entries → Armable reading files timer

/-- A call that started in `w₀` has left `files` and made the effects `entries`. -/
def Made (reading : Reading) (w₀ : World) (files : Files) (entries : List (Event × Files)) (w : World) :
    Prop :=
  w.files = files ∧ w.log = w₀.log ++ entries ∧ StartsRight reading entries

/-- A call that started in `w₀` has made effects that start only what can be armed. -/
def Kept (reading : Reading) (w₀ w : World) : Prop :=
  ∃ entries, w.log = w₀.log ++ entries ∧ StartsRight reading entries

section Steps

variable {reading : Reading} {w₀ : World} {files : Files} {entries : List (Event × Files)}

theorem Made.kept {w : World} (h : Made reading w₀ files entries w) : Kept reading w₀ w :=
  ⟨entries, h.2.1, h.2.2⟩

theorem Made.clockFree : ClockFree (Made reading w₀ files entries) := fun _ h => h

theorem startsRight_append {entries : List (Event × Files)} {event : Event}
    (h : StartsRight reading entries) (hstart : ∀ timer, event = .start timer → Armable reading files timer) :
    StartsRight reading (entries ++ [(event, files)]) := by
  intro timer met hmem
  rcases List.mem_append.mp hmem with hmem | hmem
  · exact h timer met hmem
  · obtain ⟨hevent, hfiles⟩ := Prod.mk.inj (List.mem_singleton.mp hmem)
    subst hfiles
    exact hstart timer hevent.symm

theorem record_made {event : Event} (hstart : ∀ timer, event = .start timer → Armable reading files timer)
    {err : Raised → World → Prop} :
    Triple (Made reading w₀ files entries) (record event)
      (fun _ => Made reading w₀ files (entries ++ [(event, files)])) err := by
  refine Triple.modify fun w h => ⟨h.1, ?_, startsRight_append h.2.2 hstart⟩
  show w.log ++ [(event, w.files)] = w₀.log ++ (entries ++ [(event, files)])
  rw [h.2.1, h.1, List.append_assoc]

theorem call_made {event : Event} (hstart : ∀ timer, event = .start timer → Armable reading files timer) :
    Triple (Made reading w₀ files entries) (call event)
      (fun _ => Made reading w₀ files (entries ++ [(event, files)]))
      (fun _ => Made reading w₀ files (entries ++ [(event, files)])) := by
  refine Triple.bind (ask_spec Made.clockFree) fun answer => Triple.bind (record_made hstart) fun _ =>
    Triple.bind (m := fun _ => Made reading w₀ files (entries ++ [(event, files)]))
      (Triple.modify fun w hw => hw) fun _ => ?_
  split
  · exact Triple.throw fun w hw => hw
  · exact Triple.pure fun w hw => hw

theorem call_kept {event : Event} (hstart : ∀ timer, event = .start timer → Armable reading files timer) :
    Triple (Made reading w₀ files entries) (call event)
      (fun _ => Made reading w₀ files (entries ++ [(event, files)])) (fun _ => Kept reading w₀) :=
  (call_made hstart).weaken (fun _ hw => hw) (fun _ _ hw => hw) fun _ _ hw => hw.kept

theorem stopIfLoaded_made {unit : PyStr} :
    Triple (Made reading w₀ files entries) (stopIfLoaded unit)
      (fun _ => Made reading w₀ files (entries ++ [(.stop unit, files)])) (fun _ => Kept reading w₀) := by
  refine Triple.tryCatch (call_made nofun) fun e => ?_
  split
  · exact Triple.throw fun w hw => hw.kept
  · exact Triple.pure fun w hw => hw

theorem changeFiles_made {change : Files → Files} {err : Raised → World → Prop} :
    Triple (Made reading w₀ files entries) (changeFiles change)
      (fun _ => Made reading w₀ (change files) entries) err :=
  Triple.modify fun w h => ⟨by rw [h.1], h.2⟩

theorem writeUnit_made {unit text : PyStr} :
    Triple (Made reading w₀ files entries) (writeUnit unit text)
      (fun _ => Made reading w₀ (files.write (unitFile unit) (some text))
        (entries ++ [(.write unit, files)])) (fun _ => Kept reading w₀) := by
  refine Triple.bind (ask_spec Made.clockFree) fun answer => Triple.bind (record_made (by simp)) fun _ => ?_
  split
  · exact Triple.bind changeFiles_made fun _ => Triple.throw fun w hw => hw.kept
  · split
    · exact Triple.bind changeFiles_made fun _ => Triple.throw fun w hw => hw.kept
    · exact changeFiles_made

theorem removeUnit_made {unit : PyStr} :
    Triple (Made reading w₀ files entries) (removeUnit unit)
      (fun _ => Made reading w₀ (files.erase (unitFile unit)) (entries ++ [(.delete unit, files)]))
      (fun _ => Kept reading w₀) := by
  refine Triple.bind (ask_spec Made.clockFree) fun answer => Triple.bind (record_made (by simp)) fun _ => ?_
  split
  · exact Triple.throw fun w hw => hw.kept
  · exact changeFiles_made

end Steps

/-! ## A registration -/

section Register

variable {reading : Reading} {w₀ : World}

/-- Nothing was done yet. -/
theorem untouched_made (reading : Reading) {w : World} (h : Untouched w₀ w) :
    Made reading w₀ w₀.files [] w := ⟨h.1, by simp [h.2.2], nofun⟩

theorem untouched_kept {w : World} (h : Untouched w₀ w) : Kept reading w₀ w := (untouched_made reading h).kept

theorem retirePrevious_made (rendered : Rendered) :
    Triple (Untouched w₀) (retirePrevious (timerOf rendered.base) rendered.timer_text.isNone)
      (fun _ => Made reading w₀ (retiredFiles w₀.files rendered) (retireEffects w₀.files rendered))
      (fun _ => Kept reading w₀) := by
  refine Triple.bind ((pathExists_spec untouched_clockFree .reading _).weaken (fun _ hw => hw)
    (fun _ _ hw => hw) fun _ _ hw => untouched_kept hw.1) fun there => ?_
  have hthere : ∀ w, Untouched w₀ w ∧ there = (w.files.fileAt (unitFile (timerOf rendered.base))).isSome →
      Made reading w₀ w₀.files [] w ∧ hasPrevious w₀.files rendered.base = there := by
    intro w hw
    rw [hw.2, hw.1.1]
    exact ⟨untouched_made reading hw.1, rfl⟩
  refine Triple.weaken (Triple.of_and ?_) hthere (fun _ _ hw => hw) fun _ _ hw => hw
  intro hprevious
  unfold retiredFiles retireEffects
  rw [hprevious]
  cases there with
  | false => exact Triple.pure fun w hw => hw
  | true =>
      simp only [if_true, Bool.true_and]
      refine Triple.bind stopIfLoaded_made fun _ => ?_
      cases rendered.timer_text.isNone with
      | false => exact Triple.pure fun w hw => hw
      | true => exact Triple.bind (call_kept (by simp)) fun _ => removeUnit_made

theorem writes_made (rendered : Rendered) {entries : List (Event × Files)} :
    Triple (Made reading w₀ (retiredFiles w₀.files rendered) entries)
      (writeUnit (serviceOf rendered.base) rendered.service_text >>= fun _ =>
        writeTimer (timerOf rendered.base) rendered.timer_text)
      (fun _ => Made reading w₀ (registeredFiles w₀.files rendered)
        (entries ++ writeEffects w₀.files rendered)) (fun _ => Kept reading w₀) := by
  refine Triple.bind writeUnit_made fun _ => ?_
  unfold registeredFiles writeEffects serviceFiles
  cases rendered.timer_text with
  | none => exact Triple.pure fun w hw => hw
  | some text =>
      exact writeUnit_made.weaken (fun _ hw => hw) (fun _ w hw => by simpa using hw)
        fun _ _ hw => hw

/-- A registration may start the timer it writes only if it can be armed at once. -/
def StartsArmable (reading : Reading) (files : Files) (rendered : Rendered) : Prop :=
  rendered.timer_text.isSome = true → rendered.arm_now = true →
    Armable reading (registeredFiles files rendered) (timerOf rendered.base)

theorem armTimer_made {rendered : Rendered} {entries : List (Event × Files)}
    (h : StartsArmable reading w₀.files rendered) :
    Triple (Made reading w₀ (registeredFiles w₀.files rendered) entries)
      (armTimer (timerOf rendered.base) rendered.timer_text rendered.arm_now)
      (fun _ => Made reading w₀ (registeredFiles w₀.files rendered)
        (entries ++ armEffects w₀.files rendered)) (fun _ => Kept reading w₀) := by
  unfold armEffects armTimer
  cases htext : rendered.timer_text with
  | none => exact Triple.pure fun w hw => by simpa using hw
  | some text =>
      refine Triple.bind (call_kept (by simp)) fun _ => Triple.bind (call_kept (by simp)) fun _ => ?_
      cases harm : rendered.arm_now with
      | false => exact Triple.pure fun w hw => by simpa using hw
      | true =>
          have hstart : ∀ timer, Event.start (timerOf rendered.base) = .start timer →
              Armable reading (registeredFiles w₀.files rendered) timer := by
            rintro _ ⟨rfl⟩
            exact h (by rw [htext]; rfl) harm
          exact (call_kept hstart).weaken (fun _ hw => hw) (fun _ w hw => by simpa using hw)
            fun _ _ hw => hw

/-- The effects of a successful registration, and the files it leaves. -/
structure Settled (reading : Reading) (w₀ : World) (rendered : Rendered) (w : World) : Prop where
  service : Checked w₀ (serviceOf rendered.base)
  timer : Checked w₀ (timerOf rendered.base)
  made : Made reading w₀ (registeredFiles w₀.files rendered) (registerEffects w₀.files rendered) w

theorem register_settled {task_path : PyStr} {task : Registration} {rendered : Rendered}
    (hrendered : renderTask task_path task = .ok rendered)
    (hstart : Checked w₀ (serviceOf rendered.base) → Checked w₀ (timerOf rendered.base) →
      StartsArmable reading w₀.files rendered) :
    Triple (Untouched w₀) (register task_path task) (fun _ => Settled reading w₀ rendered)
      (fun _ => Kept reading w₀) := by
  have hcheck : ∀ unit : PyStr, Triple (Untouched w₀) (requireFreeOrOwned unit)
      (fun _ w => Untouched w₀ w ∧ Checked w₀ unit) (fun _ => Kept reading w₀) := by
    intro unit
    refine (requireFreeOrOwned_spec untouched_clockFree unit).weaken (fun _ hw => hw)
      (fun _ w hw => ⟨hw.1, ?_⟩) fun _ _ hw => untouched_kept hw.1
    rcases hw.2 with hcarries | hfree
    · exact .inl (hw.1.1 ▸ hcarries)
    · exact .inr ⟨hw.1.1 ▸ hfree.1, hw.1.2.1 ▸ hfree.2⟩
  refine Triple.bind ((validated_spec (renderTask task_path task)).weaken (fun _ hw => hw)
    (fun _ _ hw => hw) fun _ _ hw => untouched_kept hw.1) fun again => Triple.of_and fun hagain => ?_
  obtain rfl : again = rendered := by
    rw [hrendered] at hagain
    exact (Except.ok.inj hagain).symm
  have hbus : Triple (Untouched w₀) openBus (fun _ => Untouched w₀) (fun _ => Kept reading w₀) :=
    Triple.bind ((attempt_spec untouched_clockFree .bus).weaken (fun _ hw => hw) (fun _ _ hw => hw)
      fun _ _ hw => untouched_kept hw.1) fun _ => Triple.pure fun _ hw => hw
  refine Triple.bind hbus fun _ => Triple.bind (hcheck (serviceOf again.base)) fun _ =>
    Triple.of_and fun hservice => ?_
  refine Triple.bind (hcheck (timerOf again.base)) fun _ =>
    Triple.of_and fun htimer => Triple.bind (retirePrevious_made again) fun _ => ?_
  have hrest : Triple (Made reading w₀ (registeredFiles w₀.files again)
        (retireEffects w₀.files again ++ writeEffects w₀.files again))
      (do
        call .reload
        armTimer (timerOf again.base) again.timer_text again.arm_now
        info again.base)
      (fun _ => Settled reading w₀ again) (fun _ => Kept reading w₀) := by
    refine Triple.bind (call_kept (by simp)) fun _ =>
      Triple.bind (armTimer_made (hstart hservice htimer)) fun _ => ?_
    refine (info_spec Made.clockFree again.base).weaken (fun _ hw => hw) (fun _ w hw => ?_)
      fun _ _ hw => hw.1.kept
    exact ⟨hservice, htimer, by simpa [registerEffects] using hw⟩
  have hboth := Triple.bind (writes_made again) fun _ => hrest
  simp only [bind_assoc] at hboth
  exact hboth

end Register

/-! ## The files a registration leaves -/

namespace Files

theorem write_of_ne {files : Files} {path p q : PyStr} (hp : files.resolve path = some p) (hne : q ≠ p)
    (text : Option PyStr) : files.write path text q = files q := by
  simp [write, hp, hne]

theorem fileAt_write_self {files : Files} {path p : PyStr} (hp : files.resolve path = some p)
    (text : Option PyStr) : (files.write path text).fileAt path = some text := by
  have hsame : (files.write path text).resolve path = some p := by
    rw [← hp]
    exact follow_write files path text 41 path
  rw [fileAt_of_resolve hsame]
  simp [write, hp]

theorem fileAt_write_of_ne {files : Files} {path q : PyStr} (hne : files.resolve q ≠ files.resolve path)
    (text : Option PyStr) : (files.write path text).fileAt q = files.fileAt q := by
  have hsame : (files.write path text).resolve q = files.resolve q := follow_write files path text 41 q
  cases hq : files.resolve q with
  | none => simp [fileAt, hsame, hq]
  | some r =>
      rw [fileAt_of_resolve (hsame.trans hq), fileAt_of_resolve hq]
      cases hp : files.resolve path with
      | none => simp [write, hp]
      | some p =>
          have hrp : r ≠ p := by
            intro heq
            rw [hq, hp, heq] at hne
            exact hne rfl
          rw [write_of_ne hp hrp]

/-- Where a chain of links ends, the path stands for itself. -/
theorem resolve_end {files : Files} {path p : PyStr} (h : files.resolve path = some p) :
    files.resolve p = some p := by
  have hlink := isLink_of_follow h
  unfold resolve follow
  cases hnode : files p with
  | none => rfl
  | some node =>
      cases node with
      | file text => rfl
      | link target => simp [isLink, hnode] at hlink

end Files

section Left

variable {w₀ : World} {rendered : Rendered}

theorem Checked.resolve {unit : PyStr} (h : Checked w₀ unit) :
    ∃ p, w₀.files.resolve (unitFile unit) = some p ∧ (p = unitFile unit ∨ w₀.files p ≠ none) := by
  rcases h with hcarries | hfree
  · obtain ⟨p, text, hp, hnode, -⟩ := hcarries.resolve
    exact ⟨p, hp, .inr (by simp [hnode])⟩
  · exact ⟨_, Files.resolve_of_none hfree.1, .inl rfl⟩

/-- Retiring the timer leaves the way to the service as it was. -/
theorem resolve_retired (hservice : Checked w₀ (serviceOf rendered.base))
    (hapart : Apart w₀.files rendered.base) :
    (retiredFiles w₀.files rendered).resolve (unitFile (serviceOf rendered.base)) =
      w₀.files.resolve (unitFile (serviceOf rendered.base)) := by
  obtain ⟨p, hp, -⟩ := hservice.resolve
  unfold retiredFiles
  split
  · rw [hp]
    apply Files.follow_erase_of_ne hp (Nat.le_refl _)
    rw [← hp]
    exact hapart.symm
  · rfl

theorem fileAt_service_left (hservice : Checked w₀ (serviceOf rendered.base))
    (hapart : Apart w₀.files rendered.base) :
    (registeredFiles w₀.files rendered).fileAt (unitFile (serviceOf rendered.base)) =
      some (some rendered.service_text) := by
  obtain ⟨p, hp, -⟩ := hservice.resolve
  have hretired := (resolve_retired hservice hapart).trans hp
  have hwritten : (serviceFiles w₀.files rendered).fileAt (unitFile (serviceOf rendered.base)) =
      some (some rendered.service_text) := Files.fileAt_write_self hretired _
  unfold registeredFiles
  cases htext : rendered.timer_text with
  | none => exact hwritten
  | some text =>
      have hsame : retiredFiles w₀.files rendered = w₀.files := by
        simp [retiredFiles, htext]
      have hne : (serviceFiles w₀.files rendered).resolve (unitFile (serviceOf rendered.base)) ≠
          (serviceFiles w₀.files rendered).resolve (unitFile (timerOf rendered.base)) := by
        simp only [serviceFiles, hsame, Files.resolve, Files.follow_write]
        exact hapart
      exact (Files.fileAt_write_of_ne hne _).trans hwritten

theorem fileAt_timer_left (htimer : Checked w₀ (timerOf rendered.base)) {text : PyStr}
    (htext : rendered.timer_text = some text) :
    (registeredFiles w₀.files rendered).fileAt (unitFile (timerOf rendered.base)) = some (some text) := by
  obtain ⟨p, hp, -⟩ := htimer.resolve
  have hsame : retiredFiles w₀.files rendered = w₀.files := by
    simp [retiredFiles, htext]
  have hresolve : (serviceFiles w₀.files rendered).resolve (unitFile (timerOf rendered.base)) = some p := by
    simp only [serviceFiles, hsame, Files.resolve, Files.follow_write]
    exact hp
  simp only [registeredFiles, htext]
  exact Files.fileAt_write_self hresolve _

theorem timer_gone (hservice : Checked w₀ (serviceOf rendered.base))
    (htimer : Checked w₀ (timerOf rendered.base)) (hapart : Apart w₀.files rendered.base)
    (htext : rendered.timer_text = none) :
    registeredFiles w₀.files rendered (unitFile (timerOf rendered.base)) = none := by
  simp only [registeredFiles, htext]
  obtain ⟨p, hp, -⟩ := hservice.resolve
  have hretired := (resolve_retired hservice hapart).trans hp
  have hne : unitFile (timerOf rendered.base) ≠ p := by
    intro heq
    apply hapart
    rw [hp, ← heq]
    exact (heq ▸ Files.resolve_end hp).symm
  rw [serviceFiles, Files.write_of_ne hretired hne]
  rcases htimer with hcarries | hfree
  · obtain ⟨old, hold, -⟩ := hcarries
    simp [retiredFiles, hasPrevious, hold, htext, Files.erase]
  · have hnone := Files.fileAt_of_none hfree.1
    simpa [retiredFiles, hasPrevious, hnone] using hfree.1

/-- A registration creates nothing but its two unit files. -/
theorem registered_of_none (hservice : Checked w₀ (serviceOf rendered.base))
    (htimer : Checked w₀ (timerOf rendered.base)) (htext : rendered.timer_text.isSome = true) {q : PyStr}
    (hunit : ∀ unit ∈ unitsOf rendered.base, q ≠ unitFile unit) (hq : w₀.files q = none) :
    registeredFiles w₀.files rendered q = none := by
  obtain ⟨text, htext⟩ := Option.isSome_iff_exists.mp htext
  have hsame : retiredFiles w₀.files rendered = w₀.files := by
    simp [retiredFiles, htext]
  have hapart : ∀ unit ∈ unitsOf rendered.base, ∀ p, p = unitFile unit ∨ w₀.files p ≠ none → q ≠ p := by
    intro unit hmem p hp heq
    subst heq
    rcases hp with hp | hp
    · exact hunit unit hmem hp
    · exact hp hq
  obtain ⟨p, hp, hpnone⟩ := hservice.resolve
  obtain ⟨r, hr, hrnone⟩ := htimer.resolve
  have hresolve : (serviceFiles w₀.files rendered).resolve (unitFile (timerOf rendered.base)) = some r := by
    simp only [serviceFiles, hsame, Files.resolve, Files.follow_write]
    exact hr
  simp only [registeredFiles, htext]
  rw [Files.write_of_ne hresolve (hapart _ (timerOf_mem _) r hrnone), serviceFiles, hsame,
    Files.write_of_ne hp (hapart _ (serviceOf_mem _) p hpnone), hq]

end Left

/-! ## What systemd keeps of the registered timer -/

/-- Every effect of a registration, taken together. -/
theorem behind_registerEffects (files : Files) (rendered : Rendered) (t : TimerUnit) :
    t.behind (timerOf rendered.base) (registerEffects files rendered) =
      ⟨rendered.timer_text.isSome || (t.enabled && !hasPrevious files rendered.base),
        t.earlier && !hasPrevious files rendered.base, rendered.timer_text.isSome && rendered.arm_now⟩ := by
  unfold registerEffects retireEffects writeEffects armEffects TimerUnit.behind
  cases htext : rendered.timer_text with
  | none => cases hasPrevious files rendered.base <;> simp [TimerUnit.after]
  | some text =>
      cases hasPrevious files rendered.base <;> cases rendered.arm_now <;> simp [TimerUnit.after]

theorem armsOnRegister_of_renderTask {task_path : PyStr} {task : Registration} {rendered : Rendered}
    (h : renderTask task_path task = .ok rendered) :
    armsOnRegister task.triggers = .ok rendered.arm_now := by
  obtain ⟨base, hbase, h⟩ := Raises.bind_eq_ok.mp h
  obtain ⟨_, -, h⟩ := Raises.bind_eq_ok.mp h
  obtain ⟨user, -, h⟩ := Raises.bind_eq_ok.mp h
  obtain ⟨service_text, -, h⟩ := Raises.bind_eq_ok.mp h
  obtain ⟨timer_text, -, h⟩ := Raises.bind_eq_ok.mp h
  obtain ⟨arm_now, harm, h⟩ := Raises.bind_eq_ok.mp h
  cases h
  exact harm

/-! ## What a call keeps -/

/-- What a successful registration of a task leaves. -/
structure Scheduled (task : Registration) (rendered : Rendered) (files : Files) (t : TimerUnit) : Prop where
  service : files.fileAt (unitFile (serviceOf rendered.base)) = some (some rendered.service_text)
  scheduled : task.triggers ≠ [] → t.enabled = true ∧
    ∃ text, timerUnit rendered.base task.description task.triggers = .ok text ∧
      files.fileAt (unitFile (timerOf rendered.base)) = some (some text)
  onDemand : task.triggers = [] → t.enabled = false ∧ files (unitFile (timerOf rendered.base)) = none
  started : t.startedSinceWrite = true ↔
    task.triggers ≠ [] ∧ ∀ trigger ∈ task.triggers, trigger.isBoot = false
  stopped : t.earlier = false

/-- systemd runs and enables a timer only while its file is there. -/
def TimerUnit.HasFile (t : TimerUnit) (files : Files) (base : PyStr) : Prop :=
  t.earlier = true ∨ t.enabled = true → hasPrevious files base = true

theorem registered_of_settled {reading : Reading} {w₀ w : World} {task_path : PyStr} {task : Registration}
    {rendered : Rendered} (hrendered : renderTask task_path task = .ok rendered)
    (h : Settled reading w₀ rendered w) (hapart : Apart w₀.files rendered.base) {t : TimerUnit}
    (hfile : t.HasFile w₀.files rendered.base) :
    Scheduled task rendered w.files
      (t.behind (timerOf rendered.base) (w.log.drop w₀.log.length)) := by
  obtain ⟨hservice, htimer, hfiles, hlog, -⟩ := h
  have harm := armsOnRegister_of_renderTask hrendered
  obtain ⟨-, -, htext⟩ := renderTask_ok hrendered
  have hgone : (t.earlier && !hasPrevious w₀.files rendered.base) = false ∧
      (t.enabled && !hasPrevious w₀.files rendered.base) = false := by
    cases hprevious : hasPrevious w₀.files rendered.base with
    | true => simp
    | false =>
        have hnot := mt hfile (by simp [hprevious])
        simpa [not_or] using hnot
  have hdrop : w.log.drop w₀.log.length = registerEffects w₀.files rendered := by
    rw [hlog, List.drop_left]
  rw [hdrop, behind_registerEffects, hfiles, hgone.1, hgone.2, Bool.or_false]
  rcases timerTextOf_ok htext with ⟨hempty, hnone⟩ | ⟨hsome, text, htimerText, hunit⟩
  · constructor
    case service => exact fileAt_service_left hservice hapart
    case scheduled => exact fun hne => absurd hempty hne
    case onDemand => exact fun _ => ⟨by simp [hnone], timer_gone hservice htimer hapart hnone⟩
    case started => simp [hnone, hempty]
    case stopped => rfl
  · constructor
    case service => exact fileAt_service_left hservice hapart
    case scheduled =>
      exact fun _ => ⟨by simp [htimerText], text, hunit, fileAt_timer_left htimer htimerText⟩
    case onDemand => exact fun hempty => absurd hempty hsome
    case started => simp [htimerText, armsOnRegister_ok harm, hsome]
    case stopped => rfl

/-- The two units of a registration are files of the unit directory itself. -/
theorem slash_not_mem_unit {task_path : PyStr} {task : Registration} {rendered : Rendered}
    (hrendered : renderTask task_path task = .ok rendered) {unit : PyStr}
    (hmem : unit ∈ unitsOf rendered.base) : 0x2f ∉ unit := by
  have hchars := List.all_eq_true.mp (unitBase_ok (renderTask_base hrendered)).2
  have hbase : 0x2f ∉ rendered.base := by
    intro h
    exact absurd (hchars _ h) (by decide)
  have hservice : 0x2f ∉ serviceSuffix := by decide
  have htimer : 0x2f ∉ timerSuffix := by decide
  simp only [unitsOf, List.mem_cons, List.not_mem_nil, or_false] at hmem
  rcases hmem with rfl | rfl
  · simp [serviceOf, hbase, hservice]
  · simp [timerOf, hbase, htimer]

/-- The timer a registration starts can be armed at once where nothing overrides it. -/
theorem startsArmable {reading : Reading} {w₀ : World} {task_path : PyStr} {task : Registration}
    {rendered : Rendered} (hrendered : renderTask task_path task = .ok rendered)
    (hservice : Checked w₀ (serviceOf rendered.base)) (htimer : Checked w₀ (timerOf rendered.base))
    (hoverrides : rendered.timer_text.isSome = true → rendered.arm_now = true →
      ∀ path, reading.overrides (timerOf rendered.base) path = true → w₀.files path = none) :
    StartsArmable reading w₀.files rendered := by
  intro hsome harmed
  have harm := armsOnRegister_of_renderTask hrendered
  obtain ⟨-, -, htext⟩ := renderTask_ok hrendered
  rcases timerTextOf_ok htext with ⟨-, hnone⟩ | ⟨-, text, htimerText, hunit⟩
  · rw [hnone] at hsome
    cases hsome
  · apply armable_of_timerUnit hunit ((armsOnRegister_ok harm).mp harmed)
      (fileAt_timer_left htimer htimerText)
    intro path hpath
    have hne : ∀ unit ∈ unitsOf rendered.base, path ≠ unitFile unit := by
      intro unit hmem heq
      rw [heq, reading.overrides_unitFile _ _ (slash_not_mem_unit hrendered hmem)] at hpath
      cases hpath
    exact registered_of_none hservice htimer hsome hne (hoverrides hsome harmed path hpath)

/-! ## Arming a timer -/

/-- What `enable` asks before it changes anything. -/
def askBases (base : PyStr) : Control (Option (List TimerBase)) := do
  openBus
  requireTimer base .enable
  readMonotonicBases

/-- What systemd has loaded of the timer's bases is what its files say. -/
def UpToDate (reading : Reading) (w : World) (base : PyStr) : Prop :=
  ∀ found w', exec (askBases base) w = (.ok (some found), w') →
    reading.bases w.files (timerOf base) = some found

section Enable

variable {reading : Reading} {w₀ : World}

theorem askBases_made (base : PyStr) :
    Triple (Untouched w₀) (askBases base) (fun _ => Made reading w₀ w₀.files []) (fun _ => Kept reading w₀) := by
  have hbus : Triple (Untouched w₀) openBus (fun _ => Untouched w₀) (fun _ => Kept reading w₀) :=
    Triple.bind ((attempt_spec untouched_clockFree .bus).weaken (fun _ hw => hw) (fun _ _ hw => hw)
      fun _ _ hw => untouched_kept hw.1) fun _ => Triple.pure fun _ hw => hw
  refine Triple.bind hbus fun _ => Triple.bind ((requireTimer_spec untouched_clockFree base .enable).weaken
    (fun _ hw => hw) (fun _ _ hw => hw) fun _ _ hw => untouched_kept hw.1) fun _ => ?_
  exact Triple.bind ((attempt_spec untouched_clockFree .schedule).weaken (fun _ hw => hw)
    (fun _ _ hw => hw) fun _ _ hw => untouched_kept hw.1) fun _ =>
      Triple.pure fun _ hw => untouched_made reading hw

/-- Behind the questions, with the bases they found. -/
theorem enable_rest_made {base : PyStr} {bases : Option (List TimerBase)}
    (h : ∀ found, bases = some found → reading.bases w₀.files (timerOf base) = some found) :
    Triple (Made reading w₀ w₀.files [])
      (do
        call (.enable (timerOf base))
        call .reload
        startArmed (timerOf base) bases
        info base)
      (fun _ => Kept reading w₀) (fun _ => Kept reading w₀) := by
  refine Triple.bind (call_kept (by simp)) fun _ => Triple.bind (call_kept (by simp)) fun _ => ?_
  have hend : ∀ entries, Triple (Made reading w₀ w₀.files entries) (info base) (fun _ => Kept reading w₀)
      (fun _ => Kept reading w₀) := fun entries =>
    (info_spec Made.clockFree base).weaken (fun _ hw => hw) (fun _ _ hw => hw.kept) fun _ _ hw => hw.1.kept
  unfold startArmed
  split
  · rename_i hstarts
    have hstart : ∀ timer, Event.start (timerOf base) = .start timer →
        Armable reading w₀.files timer := by
      intro timer htimer
      cases htimer
      cases hbases : bases with
      | none =>
          rw [hbases] at hstarts
          cases hstarts
      | some found =>
          rw [hbases] at hstarts
          exact ⟨found, h found hbases, hstarts⟩
    exact Triple.bind (call_kept hstart) fun _ => hend _
  · exact Triple.bind (Triple.pure fun _ hw => hw) fun _ => hend _

/-- `enable` starts only what can be armed at once, if systemd's answer is up to date. -/
theorem enable_kept {task_path : PyStr}
    (h : ∀ base, existingUnitBase task_path = .ok base → UpToDate reading w₀ base) :
    Triple (fun w => w = w₀) (enable task_path) (fun _ => Kept reading w₀) (fun _ => Kept reading w₀) := by
  have hstart : ∀ w, w = w₀ → Untouched w₀ w := by
    rintro w rfl
    exact ⟨rfl, rfl, rfl⟩
  refine Triple.bind ((validated_spec (existingUnitBase task_path)).weaken (fun _ hw => hw)
    (fun _ _ hw => hw) fun _ w hw => untouched_kept (hstart w hw.1)) fun base => Triple.of_and fun hbase => ?_
  have hask : Triple (fun w => w = w₀) (askBases base)
      (fun bases w => Made reading w₀ w₀.files [] w ∧
        ∀ found, bases = some found → reading.bases w₀.files (timerOf base) = some found)
      (fun _ => Kept reading w₀) := by
    intro w hw
    subst hw
    have hmade := @askBases_made reading w base w ⟨rfl, rfl, rfl⟩
    cases hrun : exec (askBases base) w with
    | mk ending w' =>
        rw [hrun] at hmade
        cases ending with
        | error e => exact hmade
        | ok bases =>
            refine ⟨hmade, ?_⟩
            rintro found rfl
            exact h base hbase found w' hrun
  have hboth := Triple.bind hask fun bases => Triple.of_and fun hbases => enable_rest_made hbases
  simp only [askBases, bind_assoc] at hboth
  exact hboth

end Enable

/-! ## Runs -/

/-- When a call keeps what is asked of schedules: the unit names a registration writes do not lead to
one file, nothing overrides a timer it starts, and the bases `enable` is told are up to date. -/
def Call.Meets (reading : Reading) (c : Call) : Prop :=
  match c.verb with
  | .register task_path task => ∀ rendered, renderTask task_path task = .ok rendered →
      Apart c.before.files rendered.base ∧
      (rendered.timer_text.isSome = true → rendered.arm_now = true →
        ∀ path, reading.overrides (timerOf rendered.base) path = true → c.before.files path = none)
  | .enable task_path => ∀ base, existingUnitBase task_path = .ok base → UpToDate reading c.before base
  | .unregister _ | .disable _ => True

/-- What is asked of schedules of one call: a successful registration leaves the task as it says, and
no timer is started that waits for a boot, or whose bases cannot be read. -/
structure Call.KeepsSchedules (reading : Reading) (c : Call) : Prop where
  registered : ∀ task_path task rendered (t : TimerUnit), c.verb = .register task_path task → c.ending = .ok () →
    renderTask task_path task = .ok rendered → t.HasFile c.before.files rendered.base →
    Scheduled task rendered c.after.files (t.behind (timerOf rendered.base) c.effects)
  started : ∀ timer files, (.start timer, files) ∈ c.effects → Armable reading files timer

theorem Kept.started {reading : Reading} {w₀ w : World} (h : Kept reading w₀ w) {timer : PyStr} {files : Files}
    (hmem : (.start timer, files) ∈ w.log.drop w₀.log.length) : Armable reading files timer := by
  obtain ⟨entries, hlog, hright⟩ := h
  rw [hlog, List.drop_left] at hmem
  exact hright timer files hmem

/-- The calls that write and arm timers. -/
def Verb.schedules : Verb → Bool
  | .register _ _ | .enable _ => true
  | .unregister _ | .disable _ => false

/-- A single call of a run. -/
def Verb.call (verb : Verb) (w : World) : Call := ⟨verb, w, (exec verb.run w).1, (exec verb.run w).2⟩

theorem run_cons (verb : Verb) (verbs : List Verb) (w : World) :
    run (verb :: verbs) w = verb.call w :: run verbs (verb.call w).after := rfl

theorem register_keeps {reading : Reading} {task_path : PyStr} {task : Registration} {w : World}
    (hmeets : (Verb.call (.register task_path task) w).Meets reading) :
    (Verb.call (.register task_path task) w).KeepsSchedules reading := by
  unfold Verb.call Verb.run at hmeets ⊢
  have huntouched : Untouched w w := ⟨rfl, rfl, rfl⟩
  cases hrendered : renderTask task_path task with
  | error e =>
      have hexec : exec (register task_path task) w = (.error ⟨.validation, e⟩, w) := by
        rw [register, Triple.exec_bind, hrendered]
        rfl
      rw [hexec]
      constructor
      case registered =>
        intro _ _ _ _ _ hok
        cases hok
      case started =>
        intro timer files hmem
        simp [Call.effects] at hmem
  | ok rendered =>
      obtain ⟨hapart, hoverrides⟩ := hmeets rendered hrendered
      have hsettled := register_settled hrendered
        (fun hservice htimer => startsArmable hrendered hservice htimer hoverrides) w huntouched
      cases hrun : exec (register task_path task) w with
      | mk ending after =>
          rw [hrun] at hsettled
          cases ending with
          | error e =>
              constructor
              case registered =>
                intro _ _ _ _ _ hok
                cases hok
              case started => exact fun timer files hmem => Kept.started hsettled hmem
          | ok result =>
              constructor
              case registered =>
                intro _ _ again t hverb _ hagain hfile
                cases hverb
                obtain rfl : rendered = again := by
                  rw [hrendered] at hagain
                  exact Except.ok.inj hagain
                exact registered_of_settled hrendered hsettled hapart hfile
              case started => exact fun timer files hmem => hsettled.made.kept.started hmem

theorem enable_keeps {reading : Reading} {task_path : PyStr} {w : World}
    (hmeets : (Verb.call (.enable task_path) w).Meets reading) :
    (Verb.call (.enable task_path) w).KeepsSchedules reading := by
  unfold Verb.call Verb.run at hmeets ⊢
  have hkept := enable_kept hmeets w rfl
  constructor
  case registered =>
    intro _ _ _ _ hverb
    cases hverb
  case started =>
    intro timer files hmem
    have hafter : Kept reading w (exec (enable task_path) w).2 := by
      cases hrun : exec (enable task_path) w with
      | mk ending after =>
          rw [hrun] at hkept
          cases ending with
          | error e => exact hkept
          | ok result => exact hkept
    exact hafter.started hmem

/-! ## What the calls promise -/

/-- The bases of the directives in `[Timer]`. -/
def basesOf (read : List UnitFile.Directive) : List TimerBase :=
  read.filterMap fun d =>
    if d.sect = py "Timer" then
      [.onActive, .onBoot, .onStartup, .onUnitActive, .onUnitInactive].find? (baseKey · = some d.key)
    else none

/-- A systemd that looks at the unit file and its drop-in directory, where it finds nothing. -/
def plainReading : Reading where
  bases files timer := ((files.fileAt (unitFile timer)).join.bind UnitFile.parse).map basesOf
  overrides timer path := (unitFile timer ++ py ".d/").isPrefixOf path
  overrides_unitFile := by
    intro timer unit hunit
    by_contra h
    obtain ⟨rest, hrest⟩ := List.isPrefixOf_iff_prefix.mp (Bool.not_eq_false _ ▸ h)
    apply hunit
    have hunit : unit = timer ++ py ".d/" ++ rest := by
      simpa [unitFile] using hrest.symm
    rw [hunit]
    simp [py]
  bases_of_unitFile := by
    intro files timer text read _ hfile hparse
    refine ⟨basesOf read, by simp [hfile, hparse], ?_⟩
    intro base hbase
    obtain ⟨d, hd, hfound⟩ := List.mem_filterMap.mp hbase
    by_cases hsect : d.sect = py "Timer"
    · rw [if_pos hsect] at hfound
      exact ⟨d, hd, hsect, by simpa using List.find?_some hfound⟩
    · rw [if_neg hsect] at hfound
      cases hfound

/-- A machine without units, on which everything succeeds. -/
def freshWorld : World where
  files _ := none
  known _ := false
  log := []
  clock := 0
  answers _ := {}

def dailyTask : Registration where
  program := py "/bin/true"
  triggers := [.daily ⟨2026, 1, 1, 4, 0, 0, by decide⟩ ⟨1, by decide⟩]

/-- Over every run of registrations and enablings that meet the condition, every call keeps what is
asked of schedules. -/
theorem schedules_are_kept {reading : Reading} {verbs : List Verb} {w : World}
    (hverbs : ∀ verb ∈ verbs, verb.schedules = true)
    (hmeets : ∀ c ∈ run verbs w, c.Meets reading) : ∀ c ∈ run verbs w, c.KeepsSchedules reading := by
  induction verbs generalizing w with
  | nil => simp [run]
  | cons verb verbs ih =>
      rw [run_cons, List.forall_mem_cons] at hmeets ⊢
      have hrest := @ih (verb.call w).after (fun v hv => hverbs v (List.mem_cons_of_mem _ hv)) hmeets.2
      refine ⟨?_, hrest⟩
      cases verb with
      | register task_path task => exact register_keeps hmeets.1
      | enable task_path => exact enable_keeps hmeets.1
      | unregister task_path => exact absurd (hverbs _ List.mem_cons_self) (by simp [Verb.schedules])
      | disable task_path => exact absurd (hverbs _ List.mem_cons_self) (by simp [Verb.schedules])

theorem schedules_are_kept_daily :
    (Verb.call (.register (py "job") dailyTask) freshWorld).KeepsSchedules plainReading := by
  have hmeets : (Verb.call (.register (py "job") dailyTask) freshWorld).Meets plainReading := by
    intro rendered hrendered
    have hbase : unitBase (py "job") = .ok (py "job") := by decide
    have hjob : rendered.base = py "job" := by
      rw [renderTask_base hrendered] at hbase
      exact Except.ok.inj hbase
    have hnone : ∀ path, freshWorld.files path = none := fun _ => rfl
    rw [hjob]
    refine ⟨?_, fun _ _ _ _ => rfl⟩
    show freshWorld.files.resolve _ ≠ freshWorld.files.resolve _
    rw [Files.resolve_of_none (hnone _), Files.resolve_of_none (hnone _)]
    decide
  have hcalls : ∀ c ∈ run [.register (py "job") dailyTask] freshWorld, c.Meets plainReading := by
    rw [run_cons]
    exact List.forall_mem_singleton.mpr hmeets
  exact @schedules_are_kept plainReading _ _ (by decide) hcalls _ List.mem_cons_self

/-- The timer file became one that waits for the boot, and systemd was not told to reload. -/
def staleWorld : World where
  files path :=
    if path = unitFile (py "job.timer") then
      some (.file (some (py "[Unit]\nX-PwshPy=1.11.0\n[Timer]\nOnBootSec=5min\n")))
    else none
  known _ := true
  log := []
  clock := 0
  answers _ := { unitFileState := some .disabled, monotonicBases := some [] }

/-- `enable` asks for the bases before its reload, and starts a timer that waits for the boot. -/
theorem stale_bases_start_boot_timer :
    ¬∀ reading verbs w, (∀ verb ∈ verbs, verb.schedules = true) →
      ∀ c ∈ run verbs w, c.KeepsSchedules reading := by
  intro h
  have hstart : ∃ entry ∈ (exec (Verb.enable (py "job")).run staleWorld).2.log,
      entry.1 = .start (py "job.timer") ∧
        plainReading.bases entry.2 (py "job.timer") = some [.onBoot] := by
    decide
  obtain ⟨⟨event, files⟩, hmem, hevent, hbases⟩ := hstart
  obtain rfl : event = .start (py "job.timer") := hevent
  have hcall := h plainReading [.enable (py "job")] staleWorld (by decide) _ List.mem_cons_self
  obtain ⟨found, hfound, harmed⟩ := hcall.started (py "job.timer") files hmem
  rw [hbases] at hfound
  cases hfound
  cases harmed

end PwshPy.Systemd
