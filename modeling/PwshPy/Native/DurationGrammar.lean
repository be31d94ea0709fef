import PwshPy.Native.TaskDurations
import PwshPy.Text.Runs

/-! # The grammar of task durations

The texts that are read are those of the day-time form `PnDTnHnMnS`. Each has one reading, and what
is written is read back.
-/

namespace PwshPy.TaskDurations

open Regex

/-! ## The grammar -/

/-- One to `most` digits. -/
structure Number (most : Nat) (digits : PyStr) : Prop where
  least : 1 ≤ digits.length
  most : digits.length ≤ most
  all_digits : ∀ c ∈ digits, isDigit c = true

def Within (most : Nat) (value : Option PyStr) : Prop := ∀ digits, value = some digits → Number most digits

/-- The digits of each part that is there. -/
@[ext]
structure Parts where
  days : Option PyStr
  hours : Option PyStr
  minutes : Option PyStr
  seconds : Option PyStr

def written (unit : Nat) : Option PyStr → PyStr
  | none => []
  | some digits => digits ++ [unit]

/-- `nHnMnS` -/
def Parts.time (parts : Parts) : PyStr :=
  written 0x48 parts.hours ++ (written 0x4d parts.minutes ++ written 0x53 parts.seconds)

/-- A `T` only in front of a time part. -/
def Parts.text (parts : Parts) : PyStr :=
  py "P" ++ (written 0x44 parts.days ++ if parts.time = [] then [] else py "T" ++ parts.time)

structure Parts.Bounded (parts : Parts) : Prop where
  days : Within 10 parts.days
  hours : Within 12 parts.hours
  minutes : Within 14 parts.minutes
  seconds : Within 16 parts.seconds

def Parts.some_part (parts : Parts) : Prop :=
  parts.days.isSome ∨ parts.hours.isSome ∨ parts.minutes.isSome ∨ parts.seconds.isSome

/-- The number that digits spell, 0 for a part that is not there. -/
def amount (value : Option PyStr) : Nat :=
  (value.getD []).foldl (fun n c => 10 * n + (c - 0x30)) 0

def Parts.total (parts : Parts) : Nat :=
  amount parts.days * 86400 + amount parts.hours * 3600 + amount parts.minutes * 60 +
    amount parts.seconds

/-! ## One field -/

def captured (part : Part) : Option PyStr → List (Part × PyStr)
  | none => []
  | some digits => [(part, digits)]

theorem within_none (most : Nat) : Within most none := by
  intro digits h
  cases h

theorem written_append (unit : Nat) (digits rest : PyStr) :
    written unit (some digits) ++ rest = digits ++ unit :: rest := by
  rw [written, List.append_assoc]
  rfl

theorem mem_field {part : Part} {most unit : Nat} {text : PyStr} {way : Way Part} :
    way ∈ (field part most unit).ways text ↔ ∃ value, Within most value ∧
      text = written unit value ++ way.2 ∧ way.1 = captured part value := by
  rw [field, Pattern.mem_optional, Pattern.mem_seq]
  constructor
  · intro h
    cases h with
    | inl h =>
        obtain ⟨one, hone, more, hmore, rfl⟩ := h
        obtain ⟨first, hfirst, rfl⟩ := Pattern.mem_group.mp hone
        obtain ⟨digits, rest, rfl, hdigits, hleast, hmost, rfl⟩ := Pattern.mem_run.mp hfirst
        obtain ⟨c, later, hrest, hc, rfl⟩ := Pattern.mem_char.mp hmore
        have hunit : c = unit := by simpa [is] using hc
        subst hunit
        have htaken : (digits ++ rest).take ((digits ++ rest).length - rest.length) = digits := by
          rw [List.length_append, Nat.add_sub_cancel, List.take_left]
        refine ⟨some digits, ?_, ?_, ?_⟩
        · intro _ heq
          cases heq
          exact ⟨hleast, hmost, hdigits⟩
        · rw [show rest = c :: later from hrest, written]
          simp
        · simp only [htaken, captured, List.append_nil]
    | inr h =>
        subst h
        exact ⟨none, within_none most, rfl, rfl⟩
  · intro h
    obtain ⟨value, hvalue, htext, hcaptured⟩ := h
    cases value with
    | none => exact Or.inr (Prod.ext hcaptured htext.symm)
    | some digits =>
        have hnumber := hvalue digits rfl
        have hsplit : text = digits ++ unit :: way.2 := by rw [htext, written_append]
        refine Or.inl ⟨([(part, digits)], unit :: way.2), ?_, ([], way.2), ?_, ?_⟩
        · refine Pattern.mem_group.mpr ⟨([], unit :: way.2), ?_, ?_⟩
          · exact Pattern.mem_run.mpr ⟨digits, _, hsplit, hnumber.all_digits, hnumber.least,
              hnumber.most, rfl⟩
          · rw [hsplit, List.length_append, Nat.add_sub_cancel, List.take_left]
        · exact Pattern.mem_char.mpr ⟨unit, way.2, rfl, by simp [is], rfl⟩
        · exact Prod.ext hcaptured rfl

/-! ## The whole pattern -/

def Parts.captured (parts : Parts) : List (Part × PyStr) :=
  TaskDurations.captured .days parts.days ++ (TaskDurations.captured .hours parts.hours ++
    (TaskDurations.captured .minutes parts.minutes ++ TaskDurations.captured .seconds parts.seconds))

theorem written_head {most unit : Nat} {value : Option PyStr} (hvalue : Within most value)
    {c : Nat} {rest : PyStr} (h : written unit value = c :: rest) : isDigit c = true := by
  cases value with
  | none => cases h
  | some digits =>
      have hnumber := hvalue digits rfl
      cases digits with
      | nil => exact absurd hnumber.least (by simp)
      | cons d digits =>
          cases h
          exact hnumber.all_digits _ List.mem_cons_self

theorem written_eq_nil {unit : Nat} {value : Option PyStr} : written unit value = [] ↔ value = none := by
  cases value with
  | none => simp [written]
  | some digits => simp [written]

theorem time_eq_nil {parts : Parts} :
    parts.time = [] ↔ parts.hours = none ∧ parts.minutes = none ∧ parts.seconds = none := by
  simp only [Parts.time, List.append_eq_nil_iff, written_eq_nil]

/-- A time part begins with a digit. -/
theorem time_head {parts : Parts} (hparts : parts.Bounded) {c : Nat} {rest : PyStr}
    (h : parts.time = c :: rest) : isDigit c = true := by
  rw [Parts.time] at h
  cases hhours : written 0x48 parts.hours with
  | cons d hours =>
      rw [hhours] at h
      cases h
      exact written_head hparts.hours hhours
  | nil =>
      rw [hhours, List.nil_append] at h
      cases hminutes : written 0x4d parts.minutes with
      | cons d minutes =>
          rw [hminutes] at h
          cases h
          exact written_head hparts.minutes hminutes
      | nil =>
          rw [hminutes, List.nil_append] at h
          exact written_head hparts.seconds h

theorem mem_field_seq {part : Part} {most unit : Nat} {next : Pattern Part} {text : PyStr}
    {way : Way Part} : way ∈ (Pattern.seq (field part most unit) next).ways text ↔
      ∃ value rest captures, Within most value ∧ text = written unit value ++ rest ∧
        (captures, way.2) ∈ next.ways rest ∧ way.1 = captured part value ++ captures := by
  rw [Pattern.mem_seq]
  constructor
  · intro h
    obtain ⟨one, hone, more, hmore, rfl⟩ := h
    obtain ⟨value, hvalue, htext, hcaptured⟩ := mem_field.mp hone
    exact ⟨value, one.2, more.1, hvalue, htext, hmore, congrArg (· ++ more.1) hcaptured⟩
  · intro h
    obtain ⟨value, rest, captures, hvalue, htext, hmore, hcaptured⟩ := h
    exact ⟨(captured part value, rest), mem_field.mpr ⟨value, hvalue, htext, rfl⟩,
      (captures, way.2), hmore, Prod.ext hcaptured rfl⟩

/-- The ways through the time part. -/
theorem mem_time {text : PyStr} {captures : List (Part × PyStr)} :
    (captures, []) ∈ (Pattern.seq (field .hours 12 0x48)
      (.seq (field .minutes 14 0x4d) (field .seconds 16 0x53))).ways text ↔
    ∃ hours minutes seconds, Within 12 hours ∧ Within 14 minutes ∧ Within 16 seconds ∧
      text = written 0x48 hours ++ (written 0x4d minutes ++ written 0x53 seconds) ∧
      captures = captured .hours hours ++
        (captured .minutes minutes ++ captured .seconds seconds) := by
  simp only [mem_field_seq, mem_field]
  constructor
  · intro h
    obtain ⟨hours, _, _, hh, rfl, ⟨minutes, _, _, hm, rfl, ⟨seconds, hs, rfl, rfl⟩, rfl⟩, rfl⟩ := h
    exact ⟨hours, minutes, seconds, hh, hm, hs, by rw [List.append_nil], rfl⟩
  · intro h
    obtain ⟨hours, minutes, seconds, hh, hm, hs, rfl, rfl⟩ := h
    exact ⟨hours, _, _, hh, rfl, ⟨minutes, _, _, hm, rfl,
      ⟨seconds, hs, (List.append_nil _).symm, rfl⟩, rfl⟩, rfl⟩

theorem is_iff {c d : Nat} : is c d = true ↔ d = c := by
  rw [is, beq_iff_eq]

/-- The pattern reads a text whole just where the text is one of the grammar. -/
theorem mem_task_duration {text : PyStr} {captures : List (Part × PyStr)} :
    (captures, []) ∈ TASK_DURATION.ways text ↔
      ∃ parts : Parts, parts.Bounded ∧ text = parts.text ∧ captures = parts.captured := by
  rw [TASK_DURATION, Pattern.mem_char_seq]
  simp only [@mem_field_seq .days, Pattern.mem_optional, Pattern.mem_char_seq,
    Pattern.mem_ahead_seq, mem_time, is_iff]
  constructor
  · intro h
    obtain ⟨_, _, rfl, rfl, days, rest, later, hd, rfl, hrest, rfl⟩ := h
    cases hrest with
    | inr hend =>
        obtain ⟨rfl, rfl⟩ := Prod.mk.inj hend
        refine ⟨⟨days, none, none, none⟩, ⟨hd, within_none _, within_none _, within_none _⟩, ?_, rfl⟩
        rw [Parts.text, if_pos (time_eq_nil.mpr ⟨rfl, rfl, rfl⟩)]
        rfl
    | inl htime =>
        obtain ⟨_, _, rfl, rfl, ⟨c, more, hc, -⟩, hours, minutes, seconds, hh, hm, hs, rfl, rfl⟩ :=
          htime
        refine ⟨⟨days, hours, minutes, seconds⟩, ⟨hd, hh, hm, hs⟩, ?_, rfl⟩
        have hne : (⟨days, hours, minutes, seconds⟩ : Parts).time ≠ [] := by
          rw [Parts.time, hc]
          exact List.cons_ne_nil c more
        rw [Parts.text, if_neg hne]
        rfl
  · intro h
    obtain ⟨parts, hparts, rfl, rfl⟩ := h
    refine ⟨0x50, _, rfl, rfl, parts.days, _, _, hparts.days, rfl, ?_, rfl⟩
    by_cases hnone : parts.time = []
    · obtain ⟨hh, hm, hs⟩ := time_eq_nil.mp hnone
      right
      rw [if_pos hnone, hh, hm, hs]
      rfl
    · left
      rw [if_neg hnone]
      refine ⟨0x54, parts.time, rfl, rfl, ?_, parts.hours, parts.minutes, parts.seconds,
        hparts.hours, hparts.minutes, hparts.seconds, rfl, rfl⟩
      cases htime : parts.time with
      | nil => exact absurd htime hnone
      | cons c rest => exact ⟨c, rest, rfl, time_head hparts htime⟩

/-! ## One reading of each text -/

/-- The first character that is no digit. -/
def stop (text : PyStr) : Option Nat := (text.dropWhile isDigit).head?

theorem stop_written {most unit : Nat} {value : Option PyStr} (hvalue : Within most value)
    (hunit : isDigit unit = false) (rest : PyStr) :
    stop (written unit value ++ rest) = if value.isSome then some unit else stop rest := by
  cases value with
  | none => rfl
  | some digits =>
      have hdigits := (hvalue digits rfl).all_digits
      rw [written_append, stop, Runs.dropWhile_run hdigits (Runs.stops_cons.mpr hunit)]
      rfl

theorem written_cancel {most unit : Nat} {value value' : Option PyStr} {rest rest' : PyStr}
    (hvalue : Within most value) (hvalue' : Within most value') (hunit : isDigit unit = false)
    (hrest : stop rest ≠ some unit) (hrest' : stop rest' ≠ some unit)
    (h : written unit value ++ rest = written unit value' ++ rest') :
    value = value' ∧ rest = rest' := by
  have hstop := congrArg stop h
  rw [stop_written hvalue hunit, stop_written hvalue' hunit] at hstop
  cases value with
  | none =>
      cases value' with
      | none => exact ⟨rfl, h⟩
      | some digits' => exact absurd hstop hrest
  | some digits =>
      cases value' with
      | none => exact absurd hstop.symm hrest'
      | some digits' =>
          have htaken := congrArg (List.takeWhile isDigit) h
          rw [written_append, written_append, Runs.takeWhile_run (hvalue digits rfl).all_digits (Runs.stops_cons.mpr hunit),
            Runs.takeWhile_run (hvalue' digits' rfl).all_digits (Runs.stops_cons.mpr hunit)] at htaken
          subst htaken
          exact ⟨rfl, List.append_cancel_left h⟩

theorem time_injective {parts parts' : Parts} (hparts : parts.Bounded) (hparts' : parts'.Bounded)
    (h : parts.time = parts'.time) : parts.hours = parts'.hours ∧
      parts.minutes = parts'.minutes ∧ parts.seconds = parts'.seconds := by
  have hseconds : ∀ parts : Parts, parts.Bounded →
      stop (written 0x53 parts.seconds) ≠ some 0x4d := by
    intro parts hparts
    rw [← List.append_nil (written _ _), stop_written hparts.seconds (by decide)]
    cases parts.seconds with
    | none => decide
    | some _ => simp
  have hminutes : ∀ parts : Parts, parts.Bounded →
      stop (written 0x4d parts.minutes ++ written 0x53 parts.seconds) ≠ some 0x48 := by
    intro parts hparts
    rw [stop_written hparts.minutes (by decide), ← List.append_nil (written 0x53 _),
      stop_written hparts.seconds (by decide)]
    cases parts.minutes with
    | some _ => simp
    | none =>
        cases parts.seconds with
        | none => decide
        | some _ => simp
  obtain ⟨hhours, hrest⟩ := written_cancel hparts.hours hparts'.hours (by decide)
    (hminutes parts hparts) (hminutes parts' hparts') h
  obtain ⟨hmin, hsec⟩ := written_cancel hparts.minutes hparts'.minutes (by decide)
    (hseconds parts hparts) (hseconds parts' hparts') hrest
  rw [← List.append_nil (written _ _), ← List.append_nil (written 0x53 parts'.seconds)] at hsec
  exact ⟨hhours, hmin, (written_cancel hparts.seconds hparts'.seconds (by decide)
    (by decide) (by decide) hsec).1⟩

/-- No text has two readings. -/
theorem text_injective {parts parts' : Parts} (hparts : parts.Bounded) (hparts' : parts'.Bounded)
    (h : parts.text = parts'.text) : parts = parts' := by
  have hmark : ∀ parts : Parts,
      stop (if parts.time = [] then [] else py "T" ++ parts.time) ≠ some 0x44 := by
    intro parts
    split
    · decide
    · exact fun h => absurd (Option.some.inj h) (by decide)
  obtain ⟨hdays, hrest⟩ := written_cancel hparts.days hparts'.days (by decide) (hmark parts)
    (hmark parts') (List.append_cancel_left h)
  have htime : parts.time = parts'.time := by
    by_cases hnone : parts.time = []
    · by_cases hnone' : parts'.time = []
      · rw [hnone, hnone']
      · rw [if_pos hnone, if_neg hnone'] at hrest
        cases hrest
    · by_cases hnone' : parts'.time = []
      · rw [if_neg hnone, if_pos hnone'] at hrest
        cases hrest
      · rw [if_neg hnone, if_neg hnone'] at hrest
        exact List.append_cancel_left hrest
  obtain ⟨hhours, hminutes, hseconds⟩ := time_injective hparts hparts' htime
  exact Parts.ext hdays hhours hminutes hseconds

theorem fullmatch_text {parts : Parts} (hparts : parts.Bounded) :
    TASK_DURATION.fullmatch parts.text = some parts.captured := by
  have hway : (parts.captured, []) ∈ TASK_DURATION.ways parts.text :=
    mem_task_duration.mpr ⟨parts, hparts, rfl, rfl⟩
  obtain ⟨captures, hmatch⟩ := Option.isSome_iff_exists.mp (Pattern.fullmatch_isSome hway)
  obtain ⟨parts', hparts', htext, rfl⟩ := mem_task_duration.mp (Pattern.mem_of_fullmatch hmatch)
  rw [hmatch, text_injective hparts hparts' htext]

/-! ## The reader -/

theorem lookup_captured (part part' : Part) (value : Option PyStr) :
    (captured part value).lookup part' = if part' = part then value else none := by
  cases value with
  | none => simp [captured]
  | some digits =>
      by_cases h : part' = part
      · simp [captured, h]
      · simp [captured, h, List.lookup_cons, beq_false_of_ne]

theorem int_of_number {most : Nat} {digits : PyStr} (h : Number most digits) (hmost : most ≤ 16) :
    int digits = .ok (amount (some digits)) := by
  have hleast := h.least
  have hlength := h.most
  have hne : digits ≠ [] := by
    intro hnil
    rw [hnil] at hleast
    simp at hleast
  rw [int, if_pos ⟨hne, List.all_eq_true.mpr h.all_digits, by omega⟩]
  rfl

theorem part_of_eq {most : Nat} {groups : List (Part × PyStr)} {part : Part}
    {value : Option PyStr} (hlookup : groups.lookup part = value) (hvalue : Within most value)
    (hmost : most ≤ 16) : part_of groups part = .ok (amount value) := by
  rw [part_of, hlookup]
  cases value with
  | none => rfl
  | some digits => exact int_of_number (hvalue digits rfl) hmost

theorem any_captured {parts : Parts} (hparts : parts.Bounded) :
    parts.captured.any (fun group => !group.2.isEmpty) = true ↔ parts.some_part := by
  have hfield : ∀ (most : Nat) (part : Part) (value : Option PyStr), Within most value →
      (captured part value).any (fun group => !group.2.isEmpty) = value.isSome := by
    intro most part value hvalue
    cases value with
    | none => rfl
    | some digits =>
        have hleast := (hvalue digits rfl).least
        cases digits with
        | nil => exact absurd hleast (by simp)
        | cons c digits => rfl
  simp only [Parts.captured, List.any_append, hfield 10 .days _ hparts.days,
    hfield 12 .hours _ hparts.hours, hfield 14 .minutes _ hparts.minutes,
    hfield 16 .seconds _ hparts.seconds, Bool.or_eq_true, Parts.some_part]

theorem of_within {microseconds : Int} (h : LEAST ≤ microseconds ∧ microseconds < LIMIT) :
    TimeDelta.of microseconds = .ok ⟨microseconds, h.1, h.2⟩ := by
  rw [TimeDelta.of, dif_pos h]

theorem of_beyond {microseconds : Int} (h : LIMIT ≤ microseconds) :
    TimeDelta.of microseconds = .error .overflow_error := by
  rw [TimeDelta.of, dif_neg fun within => absurd within.2 (Int.not_lt.mpr h)]

theorem timedelta_eq {days hours minutes seconds total : Nat}
    (htotal : total = days * 86400 + hours * 3600 + minutes * 60 + seconds) :
    (total < 86400000000000 → ∃ delay : TimeDelta, delay.microseconds = total * 1000000 ∧
      timedelta days hours minutes seconds = .ok delay) ∧
    (86400000000000 ≤ total → timedelta days hours minutes seconds = .error .overflow_error) := by
  have hsum : ((days * 24 + hours) * 60 + minutes) * 60 + seconds = total := by omega
  have hmicroseconds : timedelta days hours minutes seconds = TimeDelta.of (total * 1000000) := by
    rw [timedelta, hsum]
  rw [hmicroseconds]
  constructor
  · intro hfits
    have hbounds : LEAST ≤ (total : Int) * 1000000 ∧ (total : Int) * 1000000 < LIMIT := by
      simp only [LEAST, LIMIT, MICROSECONDS_A_DAY]
      omega
    exact ⟨⟨total * 1000000, hbounds.1, hbounds.2⟩, rfl, of_within hbounds⟩
  · intro hover
    apply of_beyond
    simp only [LIMIT, MICROSECONDS_A_DAY]
    omega

theorem to_task_duration_parts {parts : Parts} (hparts : parts.Bounded) (hsome : parts.some_part) :
    to_task_duration parts.text = or_unknown (timedelta (amount parts.days) (amount parts.hours)
      (amount parts.minutes) (amount parts.seconds)) := by
  have hany : ¬parts.captured.any (fun group => !group.2.isEmpty) = false := by
    rw [(any_captured hparts).mpr hsome]
    exact Bool.noConfusion
  have hdays : part_of parts.captured .days = .ok (amount parts.days) :=
    part_of_eq (by simp [Parts.captured, List.lookup_append, lookup_captured]) hparts.days (by omega)
  have hhours : part_of parts.captured .hours = .ok (amount parts.hours) :=
    part_of_eq (by simp [Parts.captured, List.lookup_append, lookup_captured]) hparts.hours
      (by omega)
  have hminutes : part_of parts.captured .minutes = .ok (amount parts.minutes) :=
    part_of_eq (by simp [Parts.captured, List.lookup_append, lookup_captured]) hparts.minutes
      (by omega)
  have hseconds : part_of parts.captured .seconds = .ok (amount parts.seconds) :=
    part_of_eq (by simp [Parts.captured, List.lookup_append, lookup_captured]) hparts.seconds
      (by omega)
  rw [to_task_duration, fullmatch_text hparts]
  simp only [if_neg hany, hdays, hhours, hminutes, hseconds, Bind.bind, Except.bind]

/-- A text of the grammar is read as its sum. -/
theorem to_task_duration_text {parts : Parts} (hparts : parts.Bounded) (hsome : parts.some_part) :
    (parts.total < 86400000000000 → ∃ delay : TimeDelta,
      delay.microseconds = parts.total * 1000000 ∧
        to_task_duration parts.text = .ok (some delay)) ∧
    (86400000000000 ≤ parts.total → to_task_duration parts.text = .ok none) := by
  have htotal : parts.total = amount parts.days * 86400 + amount parts.hours * 3600 +
    amount parts.minutes * 60 + amount parts.seconds := rfl
  obtain ⟨hfits, hover⟩ := timedelta_eq htotal
  constructor
  · intro hlt
    obtain ⟨delay, hdelay, heq⟩ := hfits hlt
    exact ⟨delay, hdelay, by rw [to_task_duration_parts hparts hsome, heq, or_unknown]⟩
  · intro hle
    rw [to_task_duration_parts hparts hsome, hover hle, or_unknown]

theorem to_task_duration_other {text : PyStr}
    (h : ∀ parts : Parts, parts.Bounded → parts.some_part → text ≠ parts.text) :
    to_task_duration text = .ok none := by
  rw [to_task_duration]
  cases hmatch : TASK_DURATION.fullmatch text with
  | none => rfl
  | some captures =>
      obtain ⟨parts, hparts, htext, rfl⟩ := mem_task_duration.mp (Pattern.mem_of_fullmatch hmatch)
      have hnone : parts.captured.any (fun group => !group.2.isEmpty) = false := by
        by_contra hany
        rw [Bool.not_eq_false, any_captured hparts] at hany
        exact h parts hparts hany htext
      simp only [if_pos hnone]

/-! ## The writer -/

theorem number_decimal {most n : Nat} (hmost : 0 < most) (h : n < 10 ^ most) :
    Number most (decimal n) := by
  refine ⟨?_, ?_, fun c hc => isDigit_of_mem_decimal hc⟩
  · rw [decimal, List.length_map]
    exact Nat.length_toDigits_pos
  · rw [decimal, List.length_map]
    exact (Nat.length_toDigits_le_iff (by omega) hmost).mpr h

theorem amount_decimal (n : Nat) : amount (some (decimal n)) = n := by
  rw [amount, Option.getD_some, decimal, List.foldl_map]
  exact Nat.ofDigitChars_ten_toDigits

/-- Whole seconds are written as they are. -/
theorem iso_duration_seconds {delay : TimeDelta} {s : Nat} (hs : s ≤ 2147483647)
    (hdelay : delay.microseconds = s * 1000000) :
    iso_duration delay = py "PT" ++ decimal s ++ py "S" := by
  have hquotient : (delay.microseconds : ℚ) / 1000000 = ((s : ℤ) : ℚ) := by
    rw [hdelay]
    push_cast
    exact mul_div_cancel_right₀ _ (by norm_num)
  have hsmall : |(s : ℤ)| < 2 ^ 53 := by
    rw [abs_of_nonneg (by omega)]
    omega
  have htruncated : truncated delay.total_seconds = s := by
    rw [TimeDelta.total_seconds, hquotient, Double.ofRat_intCast hsmall, truncated]
    simp
  rw [iso_duration, htruncated, str_int, if_neg (by omega)]
  rfl

/-- Task durations: the texts of the grammar are read as their sums, all others as unknown, and
whole seconds are written and read back. -/
theorem task_durations_read :
    (∀ parts : Parts, parts.Bounded → parts.some_part →
      (parts.total < 86400000000000 → ∃ delay : TimeDelta,
        delay.microseconds = parts.total * 1000000 ∧
          to_task_duration parts.text = .ok (some delay)) ∧
      (86400000000000 ≤ parts.total → to_task_duration parts.text = .ok none)) ∧
    (∀ text, (∀ parts : Parts, parts.Bounded → parts.some_part → text ≠ parts.text) →
      to_task_duration text = .ok none) ∧
    ∀ (delay : TimeDelta) (s : Nat), s ≤ 2147483647 → delay.microseconds = s * 1000000 →
      to_task_duration (iso_duration delay) = .ok (some delay) := by
  refine ⟨fun parts => to_task_duration_text, fun text => to_task_duration_other, ?_⟩
  intro delay s hs hdelay
  let parts : Parts := ⟨none, none, none, some (decimal s)⟩
  have hnumber : Number 16 (decimal s) := number_decimal (by omega) (by omega)
  have hparts : parts.Bounded := by
    refine ⟨within_none _, within_none _, within_none _, ?_⟩
    intro digits hdigits
    cases hdigits
    exact hnumber
  have htotal : parts.total = s := by
    simp only [parts, Parts.total, amount_decimal]
    simp [amount]
  have htext : iso_duration delay = parts.text := by
    have hne : parts.time ≠ [] := by
      rw [Ne, time_eq_nil]
      exact fun h => Option.some_ne_none _ h.2.2
    rw [iso_duration_seconds hs hdelay, Parts.text, if_neg hne, List.append_assoc]
    rfl
  obtain ⟨delay', hdelay', hread⟩ :=
    (to_task_duration_text hparts (Or.inr (Or.inr (Or.inr rfl)))).1 (by rw [htotal]; omega)
  have hsame : delay' = delay := by
    cases delay
    cases delay'
    simp_all
  rw [htext, hread, hsame]

end PwshPy.TaskDurations
