import PwshPy.Systemd.Controller
import PwshPy.Systemd.UnitMeaning

/-! # The monotonic bases of a timer

systemd reads the bases of a timer off the directives of its unit file, and off
whatever overrides that file. A timer pwshpy writes has a boot-relative base just
where one of its triggers is a boot trigger.
-/

namespace PwshPy.Systemd

open UnitFile (Directive Line render parse directives endsInBackslash)

/-! ## What systemd reads -/

/-- The key of a `[Timer]` section that gives a timer this base. -/
def baseKey : TimerBase → Option PyStr
  | .onActive => some (py "OnActiveSec")
  | .onBoot => some (py "OnBootSec")
  | .onStartup => some (py "OnStartupSec")
  | .onUnitActive => some (py "OnUnitActiveSec")
  | .onUnitInactive => some (py "OnUnitInactiveSec")
  | .unknown => none

/-- How systemd comes to the bases of a timer when it loads the unit files: `none` for bases that
cannot be read. `overrides` names the paths it also looks at (drop-ins, and unit files of a directory
with precedence). Where none of them is there, each base stands in the unit file itself. -/
structure Reading where
  bases : Files → PyStr → Option (List TimerBase)
  overrides : PyStr → PyStr → Bool
  overrides_unitFile : ∀ timer unit, 0x2f ∉ unit → overrides timer (unitFile unit) = false
  bases_of_unitFile : ∀ files timer text read,
    (∀ path, overrides timer path = true → files path = none) →
    files.fileAt (unitFile timer) = some (some text) → parse text = some read →
    ∃ found, bases files timer = some found ∧
      ∀ base ∈ found, ∃ d ∈ read, d.sect = py "Timer" ∧ baseKey base = some d.key

/-- The bases of the timer can be read, and none is boot-relative. -/
def Armable (reading : Reading) (files : Files) (timer : PyStr) : Prop :=
  ∃ found, reading.bases files timer = some found ∧ startsWhenArmed found = true

/-! ## The directives of a rendered timer -/

/-- Whatever the description does to the line below it, the `[Timer]` section is read as it was
meant. -/
theorem parse_timerUnit {base description text : PyStr} {triggers : List TaskTrigger}
    (h : timerUnit base description triggers = .ok text) :
    ∃ head, (∀ d ∈ head, d.sect = py "Unit") ∧
      parse text = some (head ++ directives (py "Unit") (timerBody base triggers)) := by
  obtain ⟨rfl, hbase, hdescription, -⟩ := timerUnit_ok h
  have hbody := clean_timerBody hbase triggers
  cases hd : endsInBackslash description with
  | false =>
      have hclean : ∀ l ∈ timerDoc base description triggers, l.Clean := by
        rw [timerDoc, List.forall_mem_append]
        exact ⟨clean_headDoc hdescription hd (by simp), hbody⟩
      have hhead := @directives_headDoc description [] [] rfl rfl (timerBody base triggers)
      refine ⟨_, ?_, by rw [UnitFile.parse_render _ hclean, timerDoc, hhead]⟩
      simp
  | true =>
      have hlf : ∀ l ∈ (timerDoc base description triggers).map Line.render, LF ∉ l := by
        simp only [timerDoc, headDoc, List.map_cons, List.nil_append, List.cons_append,
          List.forall_mem_cons]
        refine ⟨by decide, lf_not_mem_assign ((printable_described hdescription).not_mem (by decide)),
          by decide, by decide, ?_⟩
        intro l hl
        obtain ⟨line, hline, rfl⟩ := List.mem_map.mp hl
        exact Line.lf_not_mem_render (hbody line hline)
      have hdescribed : endsInBackslash (described description) = true :=
        (endsInBackslash_described description).trans hd
      have hend : UnitFile.readDirectives (UnitFile.sectionAfter (py "Unit") (timerBody base triggers))
          (UnitFile.joinContinued none [[]]) = some [] := UnitFile.read_blank _ []
      refine ⟨[⟨py "Unit", descriptionKey.text, UnitFile.trim ((described description).dropLast ++
        0x20 :: (Line.assign ownershipName version).render)⟩], by simp, ?_⟩
      rw [parse, render, splitOn_unlines _ hlf]
      simp only [timerDoc, headDoc, List.cons_append, List.map_cons, List.nil_append]
      rw [UnitFile.read_header, UnitFile.read_continued _ _ hdescribed (by decide) (by decide),
        UnitFile.read_blank, UnitFile.read_render _ _ hbody]
      rw [show unitSection.text = py "Unit" from rfl, hend]
      simp

/-- The directives of the triggers are read in `[Timer]`, with the fixed ones behind them. -/
theorem directives_timerBody (base : PyStr) (triggers : List TaskTrigger) :
    directives (py "Unit") (timerBody base triggers) = triggers.filterMap triggerDirective ++
      [⟨py "Timer", py "AccuracySec", py "1s"⟩,
        ⟨py "Timer", py "Unit", UnitFile.trim (base ++ py ".service")⟩,
        ⟨py "Install", py "WantedBy", py "timers.target"⟩] := by
  obtain ⟨hlines, hsect⟩ := directives_triggerLines triggers
  simp only [timerBody, List.cons_append, directives, timerSection, UnitFile.directives_append, hlines,
    hsect]
  rfl

theorem key_of_triggerDirective {trigger : TaskTrigger} {d : Directive}
    (h : triggerDirective trigger = some d) (hboot : trigger.isBoot = false) :
    d.key = py "OnCalendar" := by
  cases trigger with
  | once at_ =>
      cases h
      rfl
  | daily at_ interval =>
      cases h
      rfl
  | boot delay => cases hboot
  | logon user => cases h

theorem not_startsWhenArmed {found : List TimerBase} (h : startsWhenArmed found = false) :
    .onBoot ∈ found ∨ .onStartup ∈ found := by
  simpa [startsWhenArmed, Classical.or_iff_not_imp_left] using h

/-- A rendered timer without a boot trigger can be armed at once where nothing overrides it. -/
theorem armable_of_timerUnit {reading : Reading} {files : Files} {timer base description text : PyStr}
    {triggers : List TaskTrigger} (h : timerUnit base description triggers = .ok text)
    (hboot : ∀ t ∈ triggers, t.isBoot = false) (hfile : files.fileAt (unitFile timer) = some (some text))
    (hoverrides : ∀ path, reading.overrides timer path = true → files path = none) :
    Armable reading files timer := by
  obtain ⟨head, hhead, hparse⟩ := parse_timerUnit h
  obtain ⟨found, hfound, hkeys⟩ := reading.bases_of_unitFile files timer text _ hoverrides hfile hparse
  have hfree : ∀ d ∈ head ++ directives (py "Unit") (timerBody base triggers), d.sect = py "Timer" →
      d.key ≠ py "OnBootSec" ∧ d.key ≠ py "OnStartupSec" := by
    intro d hd hsect
    rw [directives_timerBody] at hd
    rcases List.mem_append.mp hd with hd | hd
    · rw [hhead d hd] at hsect
      exact absurd hsect (by decide)
    rcases List.mem_append.mp hd with hd | hd
    · obtain ⟨trigger, htrigger, hdirective⟩ := List.mem_filterMap.mp hd
      rw [key_of_triggerDirective hdirective (hboot trigger htrigger)]
      decide
    · simp only [List.mem_cons, List.not_mem_nil, or_false] at hd
      rcases hd with rfl | rfl | rfl
      · exact ⟨by decide, by decide⟩
      · exact ⟨(by decide : py "Unit" ≠ py "OnBootSec"), (by decide : py "Unit" ≠ py "OnStartupSec")⟩
      · exact absurd hsect (by decide)
  refine ⟨found, hfound, ?_⟩
  by_contra hstarts
  rcases not_startsWhenArmed (Bool.not_eq_true _ ▸ hstarts) with hmem | hmem
  · obtain ⟨d, hd, hsect, hkey⟩ := hkeys _ hmem
    exact (hfree d hd hsect).1 (Option.some.inj hkey).symm
  · obtain ⟨d, hd, hsect, hkey⟩ := hkeys _ hmem
    exact (hfree d hd hsect).2 (Option.some.inj hkey).symm

/-! ## The decision from the triggers -/

/-- `register` starts a timer at once just where no trigger is a boot trigger. -/
theorem armsOnRegister_ok {triggers : List TaskTrigger} {arm : Bool}
    (h : armsOnRegister triggers = .ok arm) : arm = true ↔ ∀ t ∈ triggers, t.isBoot = false := by
  unfold armsOnRegister at h
  split at h
  · cases h
  · cases h
    have hboot : TimerBase.onBoot ∈ (triggers.filter (·.isBoot)).map (fun _ => TimerBase.onBoot) ↔
        ∃ t ∈ triggers, t.isBoot = true := by
      simp
    have hstartup : TimerBase.onStartup ∉ (triggers.filter (·.isBoot)).map fun _ => TimerBase.onBoot := by
      simp
    simp only [startsWhenArmed, Bool.not_eq_true', Bool.or_eq_false_iff, List.contains_eq_mem,
      decide_eq_false_iff_not, hboot, hstartup, not_false_eq_true, and_true, not_exists, not_and,
      Bool.not_eq_true]

end PwshPy.Systemd
