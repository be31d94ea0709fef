import PwshPy.Systemd.Manager
import PwshPy.Systemd.UnitMeaning

/-! # Settings written and read

`service_unit` writes a key for some of the settings and none for those systemd
has as its default; `_service_settings` reads the properties of the loaded unit.
What lies between is how systemd reads the five keys that matter.
-/

namespace PwshPy.Systemd

open UnitFile (Directive Line Name render directives sectionAfter parse readDirectives joinContinued
  endsInBackslash)
open Dbus
open Effects (Asking)

/-! ## How systemd loads the keys -/

/-- The values a unit file gives a key, in their order. -/
def assigned (sect key : PyStr) (ds : List Directive) : List PyStr :=
  (ds.filter fun d => d.sect = sect ∧ d.key = key).map (·.value)

/-- `parse_boolean` -/
def parseBoolean (text : PyStr) : Option Bool :=
  if isSystemdTrue text then some true
  else if [py "0", py "no", py "n", py "false", py "f", py "off"].contains (asciiLower text) then
    some false
  else none

/-- The last value that is a boolean decides. -/
def lastBoolean (start : Bool) (values : List PyStr) : Bool :=
  (values.filterMap parseBoolean).getLastD start

/-- `parse_sec` and the reading of zero as no limit, for the spellings `service_unit` writes. -/
def parseTimeout (text : PyStr) : Option Nat :=
  if text = py "infinity" then some usecInfinity
  else if text ≠ [] ∧ text.all isDigit then
    let usec := intOfDigits text * 1000000
    if usec = 0 then some usecInfinity else if usec < usecInfinity then some usec else none
  else none

/-- A condition before it is checked: its kind, `|`, `!` and its parameter. -/
abbrev WrittenCondition := PyStr × Bool × Bool × PyStr

def writtenCondition (c : Condition) : WrittenCondition := (c.kind, c.trigger, c.negate, c.parameter)

/-- A value of a `Condition...=` key: `|`, then `!`, then the parameter. -/
def parseCondition (kind value : PyStr) : WrittenCondition :=
  let trigger := value.head? = some 0x7c
  let value := if trigger then value.tail.dropWhile UnitFile.isBlank else value
  let negate := value.head? = some 0x21
  (kind, trigger, negate, if negate then value.tail.dropWhile UnitFile.isBlank else value)

/-- The conditions of the values of one key; an empty value drops those before it. -/
def parseConditions (kind : PyStr) (values : List PyStr) : List WrittenCondition :=
  (values.reverse.takeWhile fun value => !value.isEmpty).reverse.map (parseCondition kind)

/-- A unit in memory has what its file says. -/
structure Loaded (ds : List Directive) (u : UnitObject) : Prop where
  type : u .type = (assigned (py "Service") (py "Type") ds).getLastD (py "simple")
  conditions : (u .conditions).map writtenCondition =
    parseConditions (py "ConditionACPower") (assigned (py "Unit") (py "ConditionACPower") ds)
  refuseManualStart : u .refuseManualStart =
    lastBoolean false (assigned (py "Unit") (py "RefuseManualStart") ds)
  timeoutStartUSec : u .type = py "oneshot" → u .timeoutStartUSec =
    ((assigned (py "Service") (py "TimeoutStartSec") ds).filterMap parseTimeout).getLastD usecInfinity
  sendSIGKILL : u .sendSIGKILL = lastBoolean true (assigned (py "Service") (py "SendSIGKILL") ds)

/-- The unit a file is loaded as; what the file says nothing of is empty. -/
def loadedUnit (ds : List Directive) : UnitObject
  | .type => (assigned (py "Service") (py "Type") ds).getLastD (py "simple")
  | .conditions =>
    (parseConditions (py "ConditionACPower") (assigned (py "Unit") (py "ConditionACPower") ds)).map
      fun c => ⟨c.1, c.2.1, c.2.2.1, c.2.2.2, 0⟩
  | .refuseManualStart => lastBoolean false (assigned (py "Unit") (py "RefuseManualStart") ds)
  | .timeoutStartUSec =>
    ((assigned (py "Service") (py "TimeoutStartSec") ds).filterMap parseTimeout).getLastD usecInfinity
  | .sendSIGKILL => lastBoolean true (assigned (py "Service") (py "SendSIGKILL") ds)
  | .id | .loadState | .activeState | .description | .fragmentPath | .unit | .user => []
  | .lastTriggerUSec | .nextElapseUSecRealtime | .execMainStartTimestamp => (0 : Nat)
  | .execMainCode | .execMainStatus => (0 : Int)

theorem loaded_loadedUnit (ds : List Directive) : Loaded ds (loadedUnit ds) where
  type := rfl
  conditions := by
    rw [loadedUnit, List.map_map]
    exact List.map_id _
  refuseManualStart := rfl
  timeoutStartUSec _ := rfl
  sendSIGKILL := rfl

theorem assigned_append (sect key : PyStr) (ds ds' : List Directive) :
    assigned sect key (ds ++ ds') = assigned sect key ds ++ assigned sect key ds' := by
  simp [assigned]

/-- A number of seconds is read back in microseconds; zero is written, and read, as no limit. -/
theorem intOfDigits_decimal (n : Nat) : intOfDigits (decimal n) = n := by
  rw [intOfDigits, decimal, List.foldl_map]
  exact Nat.ofDigitChars_ten_toDigits

theorem parseTimeout_timeoutText {n : Nat} (h : n ≤ 2147483647) :
    parseTimeout (timeoutText n) = some (if n = 0 then usecInfinity else n * 1000000) := by
  by_cases hzero : n = 0
  · rw [timeoutText, if_pos hzero, if_pos hzero]
    rfl
  · obtain ⟨c, t, hc, hdigit⟩ := head_decimal n
    have hall : (decimal n).all isDigit = true :=
      List.all_eq_true.mpr fun _ => isDigit_of_mem_decimal
    have hne : decimal n ≠ [] := by simp [hc]
    have hword : decimal n ≠ py "infinity" := by
      intro heq
      rw [heq] at hall
      exact absurd hall (by decide)
    rw [timeoutText, if_neg hzero, if_neg hzero, parseTimeout, if_neg hword,
      if_pos ⟨hne, hall⟩, intOfDigits_decimal]
    have hlarge : n * 1000000 < usecInfinity := by
      rw [usecInfinity]
      omega
    simp only [if_neg (show ¬ n * 1000000 = 0 by omega), if_pos hlarge]

/-! ## What systemd reads in the service -/

/-- The lines that are read below a free text: a backslash at its end takes the first along. -/
def kept {α : Type} (text : PyStr) (lines : List α) : List α :=
  if endsInBackslash text then lines.tail else lines

/-- The directives between `Description=` and `ExecStart=`, the mark apart. -/
def betweenDirectives (user : Option PyStr) (settings : Option TaskSettings) : List Directive :=
  (settingsDirectives settings).1 ++ [⟨py "Service", py "Type", py "oneshot"⟩] ++
    (user.map fun u => ⟨py "Service", py "User", u⟩).toList

/-- The directives read, for the values of the two free texts as they came out. -/
def readBack (described executed : PyStr) (arguments description : PyStr) (user : Option PyStr)
    (settings : Option TaskSettings) : List Directive :=
  ⟨py "Unit", py "Description", described⟩ ::
    kept description (⟨py "Unit", py "X-PwshPy", version⟩ :: betweenDirectives user settings) ++
  ⟨py "Service", py "ExecStart", executed⟩ :: kept arguments (settingsDirectives settings).2

/-- Each key stands on one line, so what the lines lose the directives lose. -/
theorem directives_keptKeys (arguments : PyStr) (settings : Option TaskSettings) :
    directives (py "Service") (kept arguments (serviceKeys settings ++ [.blank])) =
      kept arguments (settingsDirectives settings).2 := by
  rw [kept, kept]
  split
  · cases settings with
    | none => rfl
    | some settings =>
        simp only [serviceKeys, settingsDirectives]
        cases settings.execution_time_limit <;> split <;> rfl
  · rw [UnitFile.directives_append, directives_serviceKeys]
    exact List.append_nil _

theorem directives_userLines {user : Option PyStr} (huser : ∀ u ∈ user, isUid u) :
    directives (py "Service") (userLines user) =
      (user.map fun u => ⟨py "Service", py "User", u⟩).toList ∧
        sectionAfter (py "Service") (userLines user) = py "Service" := by
  cases user with
  | none => exact ⟨rfl, rfl⟩
  | some u =>
      have htrim := trim_of_digits (List.all_eq_true.mp (isDigit_of_isUid (huser u rfl)))
      exact ⟨by simp [userLines, directives, htrim, userKey], rfl⟩

theorem sectionAfter_append (sect : PyStr) (doc doc' : List Line) :
    sectionAfter sect (doc ++ doc') = sectionAfter (sectionAfter sect doc) doc' := by
  induction doc generalizing sect with
  | nil => rfl
  | cons l doc ih => cases l <;> exact ih _

theorem isName_type : py "Type" ≠ [] ∧ (py "Type").all UnitFile.isNameChar = true := by decide

/-- The lines between `Description=` and `ExecStart=`, the mark apart. -/
def betweenLines (user : Option PyStr) (settings : Option TaskSettings) : List Line :=
  unitKeys settings ++ [.blank, .header serviceSection,
    .assign ⟨py "Type", isName_type⟩ (py "oneshot")] ++ userLines user

theorem directives_betweenLines {user : Option PyStr} (huser : ∀ u ∈ user, isUid u)
    (settings : Option TaskSettings) :
    directives (py "Unit") (betweenLines user settings) = betweenDirectives user settings ∧
      sectionAfter (py "Unit") (betweenLines user settings) = py "Service" := by
  have hkeys := directives_unitKeys (py "Unit") settings
  have hlines := directives_userLines huser
  have hservice : sectionAfter (py "Unit") [.blank, .header serviceSection,
      .assign ⟨py "Type", isName_type⟩ (py "oneshot")] = py "Service" := rfl
  have htype : directives (py "Unit") [.blank, .header serviceSection,
      .assign ⟨py "Type", isName_type⟩ (py "oneshot")] =
        [⟨py "Service", py "Type", py "oneshot"⟩] := by decide
  simp only [betweenLines, betweenDirectives, UnitFile.directives_append, sectionAfter_append,
    hkeys, hservice, htype, hlines, and_self]

/-- The mark is read unless the description takes it along. -/
theorem directives_markedLines (description : PyStr) {user : Option PyStr}
    (huser : ∀ u ∈ user, isUid u) (settings : Option TaskSettings) :
    directives (py "Unit")
        (kept description (.assign ownershipName version :: betweenLines user settings)) =
        kept description
          (⟨py "Unit", py "X-PwshPy", version⟩ :: betweenDirectives user settings) ∧
      sectionAfter (py "Unit")
        (kept description (.assign ownershipName version :: betweenLines user settings)) =
        py "Service" := by
  obtain ⟨hbetween, hsect⟩ := directives_betweenLines huser settings
  have hversion : UnitFile.trim version = version := by decide
  rw [kept, kept]
  split
  · exact ⟨hbetween, hsect⟩
  · rw [directives, hbetween, hversion]
    exact ⟨rfl, hsect⟩

theorem clean_markedLines {user : Option PyStr} (huser : ∀ u ∈ user, isUid u)
    (settings : Option TaskSettings) :
    ∀ l ∈ .assign ownershipName version :: betweenLines user settings, l.Clean := by
  simp only [betweenLines, List.forall_mem_append, List.forall_mem_cons]
  exact ⟨⟨by decide, by decide⟩, ⟨fun l hl => (plain_unitKeys settings l hl).clean,
    trivial, trivial, ⟨by decide, by decide⟩, fun _ h => absurd h List.not_mem_nil⟩,
    fun l hl => (plain_userLines huser l hl).clean⟩

/-- Behind a value that may swallow the next line the rest of a document is read, with or without
that line. -/
theorem read_assign_doc (sect : PyStr) (key : Name) (value : PyStr) {next : Line} {doc : List Line}
    (h : ∀ l ∈ next :: doc, l.Clean) (ls : List PyStr) :
    ∃ v, readDirectives sect (joinContinued none
        ((Line.assign key value).render :: ((next :: doc).map Line.render ++ ls))) =
      (⟨sect, key.text, v⟩ :: ·) <$> ((directives sect (kept value (next :: doc)) ++ ·) <$>
        readDirectives (sectionAfter sect (kept value (next :: doc))) (joinContinued none ls)) := by
  obtain ⟨v, hv⟩ := UnitFile.read_assign_then sect key value (h next List.mem_cons_self)
    (doc.map Line.render ++ ls)
  refine ⟨v, hv.trans ?_⟩
  rw [kept, List.tail_cons]
  split
  · rw [UnitFile.read_render sect doc fun l hl => h l (List.mem_cons_of_mem _ hl)]
  · rw [← UnitFile.read_render sect (next :: doc) h]
    rfl

/-- `ExecStart=` and what stands below it, to the end of the file. -/
theorem read_execStart {program arguments : PyStr} {settings : Option TaskSettings} :
    ∃ executed, readDirectives (py "Service") (joinContinued none
        ((Line.assign execStart (execLine program arguments)).render ::
          (serviceKeys settings ++ [Line.blank]).map Line.render)) =
      some (⟨py "Service", py "ExecStart", executed⟩ ::
        kept arguments (settingsDirectives settings).2) := by
  have hclean : ∀ l ∈ serviceKeys settings ++ [.blank], l.Clean := by
    intro l hl
    rcases List.mem_append.mp hl with hl | hl
    · exact (plain_serviceKeys settings l hl).clean
    · rw [List.mem_singleton.mp hl]
      trivial
  have hsame : kept (execLine program arguments) (serviceKeys settings ++ [.blank]) =
      kept arguments (serviceKeys settings ++ [.blank]) := by
    rw [kept, kept, endsInBackslash_execLine]
  have hkept := directives_keptKeys arguments settings
  rw [← hsame] at hkept
  cases hlines : serviceKeys settings ++ [.blank] with
  | nil => exact absurd hlines (by simp)
  | cons next doc =>
      rw [hlines] at hclean hkept
      obtain ⟨v, hv⟩ := read_assign_doc (py "Service") execStart (execLine program arguments)
        hclean []
      rw [List.append_nil] at hv
      have hend : ∀ sect, readDirectives sect (joinContinued none []) = some [] := fun _ => rfl
      refine ⟨v, hv.trans ?_⟩
      simp only [hend, Option.map_eq_map, Option.map_some, List.append_nil]
      exact congrArg (some <| _ :: ·) hkept

theorem lf_not_mem_serviceDoc {program arguments description : PyStr} {user : Option PyStr}
    (hprogram : Printable program) (harguments : Printable arguments)
    (hdescription : Printable description) (huser : ∀ u ∈ user, isUid u)
    (settings : Option TaskSettings) :
    ∀ l ∈ serviceDoc program arguments description user settings, LF ∉ l.render := by
  have hexec := (printable_execLine hprogram harguments).not_mem (c := LF) (by decide)
  have hdescribed := (printable_described hdescription).not_mem (c := LF) (by decide)
  simp only [serviceDoc, servicePrologue, headDoc, List.forall_mem_append, List.cons_append,
    List.forall_mem_cons]
  exact ⟨by decide, lf_not_mem_assign hdescribed, by decide,
    ⟨⟨lf_not_mem_of_clean fun l hl => (plain_unitKeys settings l hl).clean, by decide,
      fun _ h => absurd h List.not_mem_nil⟩,
      by decide, by decide, lf_not_mem_of_clean fun l hl => (plain_userLines huser l hl).clean⟩,
    lf_not_mem_assign hexec,
    lf_not_mem_of_clean fun l hl => (plain_serviceKeys settings l hl).clean⟩

theorem parse_serviceUnit {program arguments description text : PyStr} {user : Option PyStr}
    (huser : ∀ u ∈ user, isUid u) {settings : Option TaskSettings}
    (h : serviceUnit program arguments description user settings = .ok text) :
    ∃ described executed,
      parse text = some (readBack described executed arguments description user settings) := by
  obtain ⟨rfl, hprogram, harguments, hdescription⟩ := serviceUnit_ok h
  have hlf : ∀ l ∈ (serviceDoc program arguments description user settings).map Line.render,
      LF ∉ l :=
    List.forall_mem_map.mpr
      (lf_not_mem_serviceDoc hprogram harguments hdescription huser settings)
  have hsame (lines : List Line) : kept (described description) lines = kept description lines := by
    rw [kept, kept, endsInBackslash_described]
  have hlines : (serviceDoc program arguments description user settings).map Line.render ++ [[]] =
      (Line.header unitSection).render :: (Line.assign descriptionKey (described description)).render ::
        ((Line.assign ownershipName version :: betweenLines user settings).map Line.render ++
          (Line.assign execStart (execLine program arguments)).render ::
            (serviceKeys settings ++ [Line.blank]).map Line.render) := by
    simp [serviceDoc, servicePrologue, headDoc, betweenLines, Line.render]
  obtain ⟨executed, hexecuted⟩ := @read_execStart program arguments settings
  obtain ⟨described', hdescribed⟩ := read_assign_doc (py "Unit") descriptionKey
    (described description) (clean_markedLines huser settings) ((Line.assign execStart (execLine program arguments)).render ::
      (serviceKeys settings ++ [Line.blank]).map Line.render)
  obtain ⟨hdirectives, hsect⟩ := directives_markedLines description huser settings
  refine ⟨described', executed, ?_⟩
  rw [parse, render, splitOn_unlines _ hlf, hlines, UnitFile.read_header]
  refine hdescribed.trans ?_
  rw [hsame, hsect, hexecuted, hdirectives]
  rfl

/-! ## The keys of the settings -/

theorem assigned_cons_of_ne {sect key : PyStr} {d : Directive} (h : (d.sect, d.key) ≠ (sect, key))
    (ds : List Directive) : assigned sect key (d :: ds) = assigned sect key ds := by
  have hne : ¬ (d.sect = sect ∧ d.key = key) := by
    rintro ⟨rfl, rfl⟩
    exact h rfl
  simp [assigned, hne]

/-- The keys beside those of the settings. -/
def otherKeys : List (PyStr × PyStr) :=
  [(py "Unit", py "Description"), (py "Unit", py "X-PwshPy"), (py "Service", py "User"),
    (py "Service", py "ExecStart")]

theorem assigned_readBack {sect key : PyStr} (h : ∀ other ∈ otherKeys, other ≠ (sect, key))
    (described executed arguments description : PyStr) (user : Option PyStr)
    (settings : Option TaskSettings) :
    assigned sect key (readBack described executed arguments description user settings) =
      assigned sect key (settingsDirectives settings).1 ++
        assigned sect key [⟨py "Service", py "Type", py "oneshot"⟩] ++
        assigned sect key (kept arguments (settingsDirectives settings).2) := by
  simp only [otherKeys, List.forall_mem_cons] at h
  obtain ⟨hdescription, hmark, huser, hexec, -⟩ := h
  have hnames : assigned sect key
      (user.map fun u => Directive.mk (py "Service") (py "User") u).toList = [] := by
    cases user with
    | none => rfl
    | some u => exact assigned_cons_of_ne huser []
  have hmarked : assigned sect key
      (kept description (⟨py "Unit", py "X-PwshPy", version⟩ :: betweenDirectives user settings)) =
      assigned sect key (betweenDirectives user settings) := by
    rw [kept]
    split
    · rfl
    · exact assigned_cons_of_ne hmark _
  rw [readBack, List.cons_append, assigned_cons_of_ne hdescription, assigned_append, hmarked,
    assigned_cons_of_ne hexec, betweenDirectives, assigned_append, assigned_append, hnames,
    List.append_nil]

theorem assigned_eq_nil {sect key : PyStr} {ds : List Directive} (h : ∀ d ∈ ds, d.sect ≠ sect) :
    assigned sect key ds = [] := by
  rw [assigned, List.map_eq_nil_iff, List.filter_eq_nil_iff]
  intro d hd hsame
  exact h d hd (of_decide_eq_true hsame).1

theorem mem_of_mem_kept {α : Type} {text : PyStr} {lines : List α} {a : α}
    (h : a ∈ kept text lines) : a ∈ lines := by
  rw [kept] at h
  split at h
  · exact List.mem_of_mem_tail h
  · exact h

/-- The settings of `[Unit]` and those of `[Service]` stand in their sections. -/
theorem sect_settingsDirectives (settings : Option TaskSettings) :
    (∀ d ∈ (settingsDirectives settings).1, d.sect = py "Unit") ∧
      ∀ d ∈ (settingsDirectives settings).2, d.sect = py "Service" := by
  cases settings with
  | none => exact ⟨nofun, nofun⟩
  | some settings =>
      have hif (c : Prop) [Decidable c] (e : Directive) : ∀ d ∈ (if c then [e] else []), d = e := by
        intro d hd
        split at hd
        · exact List.mem_singleton.mp hd
        · cases hd
      constructor
      · intro d hd
        rcases List.mem_append.mp hd with hd | hd <;> rw [hif _ _ d hd]
      · intro d hd
        rcases List.mem_append.mp hd with hd | hd
        · obtain ⟨limit, -, rfl⟩ := Option.map_eq_some_iff.mp (Option.mem_toList.mp hd)
          rfl
        · rw [hif _ _ d hd]

section

variable (described executed arguments description : PyStr) (user : Option PyStr)
  (settings : TaskSettings)

theorem service_keys_apart (key : PyStr) :
    assigned (py "Service") key (settingsDirectives (some settings)).1 = [] := by
  apply assigned_eq_nil
  intro d hd
  rw [(sect_settingsDirectives _).1 d hd]
  decide

theorem unit_keys_apart (key : PyStr) :
    assigned (py "Unit") key (kept arguments (settingsDirectives (some settings)).2) = [] := by
  apply assigned_eq_nil
  intro d hd
  rw [(sect_settingsDirectives _).2 d (mem_of_mem_kept hd)]
  decide

theorem type_readBack : assigned (py "Service") (py "Type")
    (readBack described executed arguments description user (some settings)) = [py "oneshot"] := by
  have hnone : assigned (py "Service") (py "Type")
      (kept arguments (settingsDirectives (some settings)).2) = [] := by
    simp only [settingsDirectives, kept]
    cases settings.execution_time_limit <;> split <;> split <;> rfl
  rw [assigned_readBack (by decide), service_keys_apart, hnone]
  rfl

theorem conditions_readBack : assigned (py "Unit") (py "ConditionACPower")
    (readBack described executed arguments description user (some settings)) =
      if settings.allow_start_if_on_batteries = some false then [py "true"] else [] := by
  rw [assigned_readBack (by decide), unit_keys_apart, settingsDirectives, assigned_append]
  split <;> split <;> rfl

theorem refuseManualStart_readBack : assigned (py "Unit") (py "RefuseManualStart")
    (readBack described executed arguments description user (some settings)) =
      if settings.allow_demand_start = some false then [py "yes"] else [] := by
  rw [assigned_readBack (by decide), unit_keys_apart, settingsDirectives, assigned_append]
  split <;> split <;> rfl

theorem timeoutStartSec_readBack : assigned (py "Service") (py "TimeoutStartSec")
    (readBack described executed arguments description user (some settings)) =
      if endsInBackslash arguments then []
      else (settings.execution_time_limit.map fun limit => timeoutText limit.val).toList := by
  rw [assigned_readBack (by decide), service_keys_apart]
  simp only [settingsDirectives, kept]
  cases settings.execution_time_limit <;> split <;> split <;> rfl

theorem sendSIGKILL_readBack : assigned (py "Service") (py "SendSIGKILL")
    (readBack described executed arguments description user (some settings)) =
      if settings.allow_hard_terminate = some false ∧
        ¬ (endsInBackslash arguments ∧ settings.execution_time_limit = none) then [py "no"]
      else [] := by
  rw [assigned_readBack (by decide), service_keys_apart]
  simp only [settingsDirectives, kept]
  by_cases hkill : settings.allow_hard_terminate = some false <;>
    by_cases hlast : endsInBackslash arguments <;>
      cases settings.execution_time_limit <;>
        simp only [hkill, hlast, if_true, if_false, reduceCtorEq, and_true, and_false, not_true,
          not_false_iff, Bool.false_eq_true] <;> rfl

end

/-! ## What is read of the loaded unit -/

/-- Every field that was set reads as it was given; the policy for a second start apart, which is
no property of the unit. -/
structure ReadsBack (settings : TaskSettings) (effective : EffectiveSettings) : Prop where
  allow_start_if_on_batteries : ∀ v ∈ settings.allow_start_if_on_batteries,
    effective.allow_start_if_on_batteries = some v
  stop_if_going_on_batteries : ∀ v ∈ settings.stop_if_going_on_batteries,
    effective.stop_if_going_on_batteries = some v
  execution_time_limit : ∀ v ∈ settings.execution_time_limit,
    effective.execution_time_limit = some (v.val * 1000000)
  allow_hard_terminate : ∀ v ∈ settings.allow_hard_terminate,
    effective.allow_hard_terminate = some v
  allow_demand_start : ∀ v ∈ settings.allow_demand_start, effective.allow_demand_start = some v

/-- The first key below `ExecStart=` changes what systemd does. -/
def FirstKeyMatters (settings : TaskSettings) : Prop :=
  match settings.execution_time_limit with
  | some limit => limit.val ≠ 0
  | none => settings.allow_hard_terminate = some false

/-- What a unit whose file was read answers. -/
def effectiveSettings (arguments : PyStr) (settings : TaskSettings) : EffectiveSettings where
  allow_start_if_on_batteries := some (settings.allow_start_if_on_batteries ≠ some false)
  stop_if_going_on_batteries := some false
  execution_time_limit := some <|
    if endsInBackslash arguments then 0
    else (settings.execution_time_limit.map (·.val * 1000000)).getD 0
  multiple_instances := none
  allow_hard_terminate := some (¬ (settings.allow_hard_terminate = some false ∧
    ¬ (endsInBackslash arguments ∧ settings.execution_time_limit = none)))
  allow_demand_start := some (settings.allow_demand_start ≠ some false)

theorem batteryStartAllowed_written (conditions : List Condition) :
    batteryStartAllowed (some conditions) =
      some (!(conditions.map writtenCondition).any fun c =>
        c.1 = py "ConditionACPower" && !c.2.1 && !c.2.2.1 && isSystemdTrue c.2.2.2) := by
  rw [List.any_map]
  rfl

theorem startTimeLimit_oneshot (usec : Nat) :
    startTimeLimit (some (py "oneshot")) (some usec) =
      some (if usec = usecInfinity then 0 else usec) := by
  rw [startTimeLimit, if_neg (not_not.mpr rfl)]
  rfl

section

variable {described executed arguments description path : PyStr} {user : Option PyStr}
  {settings : TaskSettings} {u : UnitObject}

theorem loaded_type
    (h : Loaded (readBack described executed arguments description user (some settings)) u) :
    u .type = py "oneshot" := by
  rw [h.type, type_readBack]
  rfl

theorem loaded_conditions
    (h : Loaded (readBack described executed arguments description user (some settings)) u) :
    batteryStartAllowed (some (u .conditions)) =
      (effectiveSettings arguments settings).allow_start_if_on_batteries := by
  rw [batteryStartAllowed_written, h.conditions, conditions_readBack, effectiveSettings]
  by_cases hset : settings.allow_start_if_on_batteries = some false
  · rw [if_pos hset, hset]
    rfl
  · rw [if_neg hset, decide_eq_true hset]
    rfl

theorem loaded_refuseManualStart
    (h : Loaded (readBack described executed arguments description user (some settings)) u) :
    some (!u .refuseManualStart) = (effectiveSettings arguments settings).allow_demand_start := by
  rw [h.refuseManualStart, refuseManualStart_readBack, effectiveSettings]
  by_cases hset : settings.allow_demand_start = some false
  · rw [if_pos hset, hset]
    rfl
  · rw [if_neg hset, decide_eq_true hset]
    rfl

theorem loaded_sendSIGKILL
    (h : Loaded (readBack described executed arguments description user (some settings)) u) :
    some (u .sendSIGKILL) = (effectiveSettings arguments settings).allow_hard_terminate := by
  rw [h.sendSIGKILL, sendSIGKILL_readBack, effectiveSettings]
  split
  · rename_i hset
    rw [decide_eq_false (not_not.mpr hset)]
    rfl
  · rename_i hset
    rw [decide_eq_true hset]
    rfl

theorem loaded_timeout
    (h : Loaded (readBack described executed arguments description user (some settings)) u) :
    startTimeLimit (some (u .type)) (some (u .timeoutStartUSec)) =
      (effectiveSettings arguments settings).execution_time_limit := by
  rw [h.timeoutStartUSec (loaded_type h), timeoutStartSec_readBack, loaded_type h,
    startTimeLimit_oneshot, effectiveSettings]
  by_cases hlast : endsInBackslash arguments
  · rw [if_pos hlast, if_pos hlast]
    rfl
  rw [if_neg hlast, if_neg hlast]
  cases settings.execution_time_limit with
  | none => rfl
  | some limit =>
      have hparse := parseTimeout_timeoutText limit.property
      have hbound := limit.property
      have hlast (n : Nat) : [n].getLastD usecInfinity = n := rfl
      rw [Option.map_some, Option.toList_some, List.filterMap_cons_some hparse, List.filterMap_nil,
        hlast, Option.map_some, Option.getD_some]
      simp only [usecInfinity]
      split <;> split <;> simp <;> omega

theorem result_serviceSettings
    (h : Loaded (readBack described executed arguments description user (some settings)) u)
    {replies : ∀ read : Read, read.Reply}
    (hreplies : ∀ property, replies (.get path property) = .ok (u property)) :
    (serviceSettings (some path)).result replies = .ok (effectiveSettings arguments settings) := by
  have hread (property : Property) :
      (pathProperty (some path) property).result replies = .ok (some (u property)) := by
    rw [pathProperty, readOr, Asking.result_ask, hreplies]
    rfl
  have htimeout : (oneshotTimeout (some path) (some (u .type))).result replies =
      .ok (some (u .timeoutStartUSec)) := by
    rw [oneshotTimeout, if_pos (congrArg some (loaded_type h)), hread]
  have hresult : (serviceSettings (some path)).result replies = .ok {
      allow_start_if_on_batteries := batteryStartAllowed (some (u .conditions))
      stop_if_going_on_batteries := some false
      execution_time_limit := startTimeLimit (some (u .type)) (some (u .timeoutStartUSec))
      multiple_instances := none
      allow_hard_terminate := some (u .sendSIGKILL)
      allow_demand_start := some (!u .refuseManualStart) } := by
    simp only [serviceSettings, Asking.result_bind, hread, htimeout]
    rfl
  rw [hresult, loaded_conditions h, loaded_timeout h, loaded_sendSIGKILL h,
    loaded_refuseManualStart h]
  rfl

end

/-! ## The round trip -/

theorem checkSettings_stop {settings : TaskSettings} {triggers : List TaskTrigger}
    (h : checkSettings (some settings) triggers = .ok ()) :
    settings.stop_if_going_on_batteries ≠ some true := by
  intro hstop
  simp [checkSettings, hstop] at h

theorem readsBack_effectiveSettings_iff {arguments : PyStr} {settings : TaskSettings}
    (hstop : settings.stop_if_going_on_batteries ≠ some true) :
    ReadsBack settings (effectiveSettings arguments settings) ↔
      ¬ (endsInBackslash arguments ∧ FirstKeyMatters settings) := by
  constructor
  · rintro h ⟨hlast, hfirst⟩
    rw [FirstKeyMatters] at hfirst
    cases hlimit : settings.execution_time_limit with
    | none =>
        rw [hlimit] at hfirst
        have hkill := h.allow_hard_terminate false hfirst
        simp [effectiveSettings, hfirst, hlast, hlimit] at hkill
    | some limit =>
        rw [hlimit] at hfirst
        have hread := h.execution_time_limit limit hlimit
        rw [effectiveSettings, if_pos hlast] at hread
        have hzero : 0 = limit.val * 1000000 := Option.some.inj hread
        omega
  · intro h
    constructor
    · intro v hv
      rw [effectiveSettings, Option.mem_def.mp hv]
      cases v <;> rfl
    · intro v hv
      cases v with
      | false => rfl
      | true => exact absurd hv hstop
    · intro limit hlimit
      rw [effectiveSettings, Option.mem_def.mp hlimit]
      by_cases hlast : endsInBackslash arguments
      · have hzero : limit.val = 0 := by
          by_contra hne
          exact h ⟨hlast, by rw [FirstKeyMatters, Option.mem_def.mp hlimit]; exact hne⟩
        rw [if_pos hlast, hzero]
      · rw [if_neg hlast]
        rfl
    · intro v hv
      rw [effectiveSettings, Option.mem_def.mp hv]
      cases v with
      | true => rfl
      | false =>
          have hkept : ¬ (endsInBackslash arguments ∧ settings.execution_time_limit = none) := by
            rintro ⟨hlast, hlimit⟩
            exact h ⟨hlast, by rw [FirstKeyMatters, hlimit]; exact hv⟩
          simp [hkept]
    · intro v hv
      rw [effectiveSettings, Option.mem_def.mp hv]
      cases v <;> rfl

/-- The settings of a service read back as they were given exactly when its arguments do not end in
a backslash that takes a key along which makes a difference. -/
theorem settings_written_are_read_iff (program arguments description : PyStr)
    (user : Option PyStr) (huser : ∀ u ∈ user, isUid u) (settings : TaskSettings)
    (triggers : List TaskTrigger) (haccepted : checkSettings (some settings) triggers = .ok ())
    (text : PyStr)
    (htext : serviceUnit program arguments description user (some settings) = .ok text) :
    ∃ ds, parse text = some ds ∧
      ∀ (u : UnitObject) (path : PyStr) (replies : ∀ read : Read, read.Reply), Loaded ds u →
        (∀ property, replies (.get path property) = .ok (u property)) →
          ∃ effective, (serviceSettings (some path)).result replies = .ok effective ∧
            (ReadsBack settings effective ↔
              ¬ (endsInBackslash arguments ∧ FirstKeyMatters settings)) := by
  obtain ⟨described, executed, hparse⟩ := parse_serviceUnit huser htext
  refine ⟨_, hparse, ?_⟩
  intro u path replies hloaded hreplies
  exact ⟨_, result_serviceSettings hloaded hreplies,
    readsBack_effectiveSettings_iff (checkSettings_stop haccepted)⟩

/-- A bus that knows one unit. -/
def oneUnit (u : UnitObject) : ∀ read : Read, read.Reply
  | .loadUnit name => .ok name
  | .getUnitFileState _ => .ok []
  | .get _ property => .ok (u property)

def nightlySettings : TaskSettings where
  allow_start_if_on_batteries := some false
  execution_time_limit := some ⟨7200, by decide⟩
  allow_hard_terminate := some false

theorem settings_written_are_read_nightly : ∃ text,
    serviceUnit (py "/bin/sync") [] [] (some (py "1000")) (some nightlySettings) = .ok text ∧
      ∃ ds, parse text = some ds ∧ ∃ effective,
        (serviceSettings (some (py "/sync"))).result (oneUnit (loadedUnit ds)) = .ok effective ∧
          ReadsBack nightlySettings effective := by
  obtain ⟨text, htext⟩ : ∃ text, serviceUnit (py "/bin/sync") [] [] (some (py "1000"))
    (some nightlySettings) = .ok text := ⟨_, rfl⟩
  obtain ⟨ds, hds, hread⟩ := settings_written_are_read_iff (py "/bin/sync") [] [] (some (py "1000"))
    (by decide) nightlySettings [.boot 0] rfl text htext
  obtain ⟨effective, hresult, hiff⟩ := hread (loadedUnit ds) (py "/sync") (oneUnit (loadedUnit ds))
    (loaded_loadedUnit ds) (fun _ => rfl)
  exact ⟨text, htext, ds, hds, effective, hresult, hiff.mpr (fun h => absurd h.1 (by decide))⟩

def minuteSettings : TaskSettings where
  execution_time_limit := some ⟨60, by decide⟩

/-- Arguments that end in a backslash: the time limit is part of the command line, and the task that
was to end after a minute reads as one without a limit. -/
theorem backslash_arguments_drop_time_limit :
    checkSettings (some minuteSettings) [] = .ok () ∧ ∃ text ds,
      serviceUnit (py "/bin/a") (py "D:\\") [] none (some minuteSettings) = .ok text ∧
        parse text = some ds ∧ ∃ effective,
          (serviceSettings (some (py "/a"))).result (oneUnit (loadedUnit ds)) = .ok effective ∧
            effective.execution_time_limit = some 0 ∧ ¬ ReadsBack minuteSettings effective :=
  ⟨rfl, _, _, rfl, rfl, _, rfl, rfl, fun h => absurd (h.execution_time_limit _ rfl) (by decide)⟩

end PwshPy.Systemd
