import PwshPy.Numbers.Double
import PwshPy.Text.Regex

/-! # Task durations

Task Scheduler keeps a duration as an ISO 8601 text. It is written as a number of seconds, and
read back in days, hours, minutes and seconds, each with a bound on its digits.
-/

namespace PwshPy.TaskDurations

open Regex

/-! ## `timedelta` -/

def MICROSECONDS_A_DAY : Int := 86400 * 1000000

/-- `timedelta.min` -/
def LEAST : Int := -999999999 * MICROSECONDS_A_DAY

/-- Just above `timedelta.max`. -/
def LIMIT : Int := 1000000000 * MICROSECONDS_A_DAY

/-- Up to 999999999 days either way, in microseconds. -/
structure TimeDelta where
  microseconds : Int
  least : LEAST ≤ microseconds
  limit : microseconds < LIMIT
  deriving DecidableEq

inductive Raised where
  | value_error
  | overflow_error
  deriving DecidableEq

@[irreducible] def TimeDelta.of (microseconds : Int) : Except Raised TimeDelta :=
  if h : LEAST ≤ microseconds ∧ microseconds < LIMIT then .ok ⟨microseconds, h.1, h.2⟩
  else .error .overflow_error

/-- `timedelta(days=…, hours=…, minutes=…, seconds=…)` -/
def timedelta (days hours minutes seconds : Nat) : Except Raised TimeDelta :=
  TimeDelta.of ((((days * 24 + hours) * 60 + minutes) * 60 + seconds : Nat) * 1000000)

def TimeDelta.total_seconds (delay : TimeDelta) : ℚ := Double.ofRat (delay.microseconds / 1000000)

/-! ## The writer -/

/-- `int(x)` of a float -/
def truncated (x : ℚ) : Int := if x < 0 then ⌈x⌉ else ⌊x⌋

/-- `str(n)` -/
def str_int (n : Int) : PyStr := if n < 0 then py "-" ++ decimal n.natAbs else decimal n.natAbs

/-- `_iso_duration` -/
def iso_duration (delay : TimeDelta) : PyStr :=
  py "PT" ++ str_int (truncated delay.total_seconds) ++ py "S"

/-! ## The reader -/

inductive Part where
  | days
  | hours
  | minutes
  | seconds
  deriving DecidableEq

def is (c : Nat) (d : Nat) : Bool := d == c

/-- `(?:(?P<part>[0-9]{1,most})unit)?` -/
def field (part : Part) (most : Nat) (unit : Nat) : Pattern Part :=
  .optional (.seq (.group part (.run isDigit 1 most)) (.char (is unit)))

/-- `_TASK_DURATION` -/
def TASK_DURATION : Pattern Part :=
  .seq (.char (is 0x50))
    (.seq (field .days 10 0x44)
      (.optional (.seq (.char (is 0x54)) (.seq (.ahead isDigit)
        (.seq (field .hours 12 0x48) (.seq (field .minutes 14 0x4d) (field .seconds 16 0x53)))))))

/-- `int(digits)`, of at most 4300 ASCII digits -/
def int (digits : PyStr) : Except Raised Nat :=
  if digits ≠ [] ∧ digits.all isDigit ∧ digits.length ≤ 4300 then
    .ok (digits.foldl (fun n c => 10 * n + (c - 0x30)) 0)
  else .error .value_error

/-- `int(digits)` where the group took part, else nothing is passed -/
def part_of (groups : List (Part × PyStr)) (part : Part) : Except Raised Nat :=
  match groups.lookup part with
  | some digits => int digits
  | none => .ok 0

/-- `try: return duration except OverflowError: return None` -/
def or_unknown : Except Raised TimeDelta → Except Raised (Option TimeDelta)
  | .ok duration => .ok (some duration)
  | .error .overflow_error => .ok none
  | .error e => .error e

def to_task_duration (value : PyStr) : Except Raised (Option TimeDelta) :=
  match TASK_DURATION.fullmatch value with
  | none => .ok none
  | some groups =>
      if groups.any (fun group => !group.2.isEmpty) = false then .ok none
      else do
        let days ← part_of groups .days
        let hours ← part_of groups .hours
        let minutes ← part_of groups .minutes
        let seconds ← part_of groups .seconds
        or_unknown (timedelta days hours minutes seconds)

end PwshPy.TaskDurations
