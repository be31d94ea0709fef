import PwshPy.Shell.Fields
import PwshPy.Systemd.Scheduling
import PwshPy.Text.Lines

/-! # The git an elevated run may use

Both runners ask git for its version and go on from 2.32. The `.sh` cuts the
first line apart with parameter expansions and refuses a long number; the `.ps1`
matches it against a regular expression that reads at most six digits of each.
-/

namespace PwshPy.Packing.GitVersion

open Shell (captured)
open Systemd (intOfDigits)

def GIT_VERSION : PyStr := py "git version "
def DOT : Nat := 0x2e
def COLON : Nat := 0x3a

/-- `-gt 2`, or `-eq 2` and `-ge 32` -/
def IsRecent (major minor : PyStr) : Prop :=
  2 < intOfDigits major ∨ (intOfDigits major = 2 ∧ 32 ≤ intOfDigits minor)

instance (major minor : PyStr) : Decidable (IsRecent major minor) :=
  inferInstanceAs (Decidable (_ ∨ _))

/-! ## The `.sh` -/

/-- `${…%%"$_gc_nl"*}` -/
def first_line (text : PyStr) : PyStr := text.takeWhile (· != LF)

def holds_colon_digit : PyStr → Bool
  | [] => false
  | [_] => false
  | c :: d :: rest => (c == COLON && isDigit d) || holds_colon_digit (d :: rest)

/-- The pattern `[0-9]*:[0-9]*` -/
def is_digits_colon_digits (text : PyStr) : Bool :=
  match text with
  | [] => false
  | c :: rest => isDigit c && holds_colon_digit rest

def WHY : PyStr :=
  py "as root it would read the caller's git configuration (a script with a git source needs git 2.32 or later as root): upgrade git, or run the script without root"

/-- `${value%%.*}` -/
def before_dot (value : PyStr) : PyStr := value.takeWhile (· != DOT)

/-- `${value#*.}` -/
def behind_dot (value : PyStr) : PyStr :=
  if DOT ∈ value then (value.dropWhile (· != DOT)).tail else value

/-- `pwshpy_require_git_config_global`, for the text and the exit code of
`git --version`: the text of the exit 127 or none. -/
def require_git_config_global (git : PyStr) (exit : Nat) (text : PyStr) : Option PyStr :=
  let out := first_line (if exit = 0 then captured text else [])
  let version := if GIT_VERSION <+: out ∧ DOT ∈ out.drop GIT_VERSION.length then
    out.drop GIT_VERSION.length else []
  let major := before_dot version
  let minor := (behind_dot version).takeWhile isDigit
  let version := if is_digits_colon_digits (major ++ COLON :: minor) then version else []
  let version := if major.any (!isDigit ·) ∨ 7 ≤ major.length then [] else version
  let version := if 7 ≤ minor.length then [] else version
  if version = [] then
    some (py "refusing git at " ++ git ++ py ": git --version names no version this runner can read, and a git older than 2.32 ignores GIT_CONFIG_GLOBAL, so " ++ WHY)
  else if IsRecent major minor then none
  else
    some (py "refusing git " ++ version.takeWhile (· != 0x20) ++ py " at " ++ git ++
      py ": it ignores GIT_CONFIG_GLOBAL, so " ++ WHY)

/-! ## The `.ps1` -/

/-- The first of the lines PowerShell reads from a program. -/
def first_output_line (text : PyStr) : PyStr := text.takeWhile fun c => c != LF && c != CR

/-- `^git version ([0-9]{1,6})\.([0-9]{1,6})`: a shorter first number would end in
front of a digit. -/
def match_version (line : PyStr) : Option (PyStr × PyStr) :=
  if GIT_VERSION <+: line then
    let rest := line.drop GIT_VERSION.length
    let major := (rest.takeWhile isDigit).take 6
    match rest.drop major.length with
    | [] => none
    | c :: rest =>
        let minor := (rest.takeWhile isDigit).take 6
        if major ≠ [] ∧ c = DOT ∧ minor ≠ [] then some (major, minor) else none
  else none

def ELEVATED_WHY : PyStr :=
  py "elevated it would read the caller's git configuration (a script with a git source needs git 2.32 or later elevated): upgrade git, or run the script without elevation"

/-- `Get-PwshPyGitVersionDistrust` -/
def get_git_version_distrust (exit : Nat) (text : PyStr) : PyStr :=
  let first := if exit = 0 then first_output_line text else []
  match match_version first with
  | none =>
      py "git --version names no version this runner can read, and a git older than 2.32 ignores GIT_CONFIG_GLOBAL, so " ++ ELEVATED_WHY
  | some (major, minor) =>
      if IsRecent major minor then []
      else
        py "git " ++ (first.drop GIT_VERSION.length).takeWhile (· != 0x20) ++
          py " ignores GIT_CONFIG_GLOBAL, so " ++ ELEVATED_WHY

/-! ## What both read -/

/-- `git version M.m`, with all the digits of each number. -/
structure Reads (line major minor : PyStr) : Prop where
  major_ne_nil : major ≠ []
  minor_ne_nil : minor ≠ []
  major_digits : major.all isDigit = true
  whole : ∃ rest, line = GIT_VERSION ++ (major ++ DOT :: rest) ∧ minor = rest.takeWhile isDigit

theorem takeWhile_stop {p : Nat → Bool} {c : Nat} (hc : p c = false) (a tail : PyStr) :
    (a ++ c :: tail).takeWhile p = a.takeWhile p := by
  induction a with
  | nil => exact List.takeWhile_cons_of_neg (by simp [hc])
  | cons d a ih =>
      by_cases hd : p d = true
      · rw [List.cons_append, List.takeWhile_cons_of_pos hd, List.takeWhile_cons_of_pos hd, ih]
      · rw [List.cons_append, List.takeWhile_cons_of_neg hd, List.takeWhile_cons_of_neg hd]

theorem takeWhile_self {p : Nat → Bool} {a : PyStr} (h : a.all p = true) : a.takeWhile p = a := by
  rw [List.all_eq_true] at h
  have hall := @List.takeWhile_append_of_pos _ p a [] h
  rw [List.append_nil, List.takeWhile_nil, List.append_nil] at hall
  exact hall

theorem all_ne_of_digits {major : PyStr} (h : major.all isDigit = true) {c : Nat}
    (hc : isDigit c = false) : major.all (· != c) = true := by
  rw [List.all_eq_true] at h ⊢
  intro d hd
  rw [bne_iff_ne]
  intro heq
  rw [heq] at hd
  rw [h c hd] at hc
  cases hc

/-- What is behind a CR is not read. -/
theorem reads_cr (line major minor : PyStr) :
    Reads (line.takeWhile (· != CR)) major minor ↔ Reads line major minor := by
  have hsplit : line = line.takeWhile (· != CR) ∨
      ∃ tail, line = line.takeWhile (· != CR) ++ CR :: tail := by
    have hwhole := List.takeWhile_append_dropWhile (p := (· != CR)) (l := line)
    cases hdrop : line.dropWhile (· != CR) with
    | nil =>
        rw [hdrop, List.append_nil] at hwhole
        exact Or.inl hwhole.symm
    | cons c tail =>
        have hhead : c = CR := by
          have hnot := List.head_dropWhile_not (· != CR) (l := line) (by rw [hdrop]; simp)
          simpa [hdrop] using hnot
        rw [hdrop, hhead] at hwhole
        exact Or.inr ⟨tail, hwhole.symm⟩
  cases hsplit with
  | inl hsame => rw [← hsame]
  | inr hcut =>
      obtain ⟨tail, hcut⟩ := hcut
      constructor
      · intro h
        obtain ⟨rest, hline, hminor⟩ := h.whole
        refine ⟨h.major_ne_nil, h.minor_ne_nil, h.major_digits, rest ++ CR :: tail, ?_, ?_⟩
        · rw [hcut, hline]
          simp
        · rw [hminor, takeWhile_stop (by decide)]
      · intro h
        obtain ⟨rest, hline, hminor⟩ := h.whole
        have hmajor := all_ne_of_digits h.major_digits (show isDigit CR = false by decide)
        refine ⟨h.major_ne_nil, h.minor_ne_nil, h.major_digits, rest.takeWhile (· != CR), ?_, ?_⟩
        · have hgit : GIT_VERSION.all (· != CR) = true := by decide
          rw [hline, List.takeWhile_append_of_pos (List.all_eq_true.mp hgit),
            List.takeWhile_append_of_pos (List.all_eq_true.mp hmajor)]
          rfl
        · rw [hminor, List.takeWhile_takeWhile]
          congr 1
          funext c
          by_cases hc : c = CR
          · rw [hc]
            decide
          · simp [hc]

/-- The two first lines differ behind a CR only. -/
theorem first_output_line_eq (text : PyStr) :
    first_output_line text = (first_line text).takeWhile (· != CR) := by
  rw [first_output_line, first_line, List.takeWhile_takeWhile]
  congr 1
  funext c
  by_cases hcr : c = CR
  · simp [hcr]
  · by_cases hlf : c = LF
    · simp [hlf]
    · simp [hcr, hlf]

theorem first_line_captured (text : PyStr) : first_line (captured text) = first_line text := by
  unfold captured
  induction text using List.reverseRecOn with
  | nil => rfl
  | append_singleton text c ih =>
      by_cases hc : (c == LF) = true
      · have hlf : c = LF := by simpa using hc
        have hdrop := List.rdropWhile_concat_pos (· == LF) text c hc
        rw [hdrop, ih, hlf, first_line, first_line, takeWhile_stop (by decide)]
      · have hkeep := List.rdropWhile_concat_neg (· == LF) text c hc
        rw [hkeep]

/-! ## What each makes of it -/

theorem holds_colon_digit_digits {major minor : PyStr} (hmajor : major.all isDigit = true)
    (hminor : minor.all isDigit = true) :
    holds_colon_digit (major ++ COLON :: minor) = true ↔ minor ≠ [] := by
  induction major with
  | nil =>
      cases minor with
      | nil => simp [holds_colon_digit]
      | cons d rest =>
          rw [List.all_cons, Bool.and_eq_true] at hminor
          simp [holds_colon_digit, hminor.1]
  | cons c major ih =>
      rw [List.all_cons, Bool.and_eq_true] at hmajor
      have hcolon : (c == COLON) = false := by
        rw [beq_eq_false_iff_ne]
        intro heq
        rw [heq] at hmajor
        exact absurd hmajor.1 (by decide)
      rw [← ih hmajor.2]
      cases major with
      | nil => simp [holds_colon_digit, hcolon]
      | cons d rest => simp [holds_colon_digit, hcolon]

theorem is_digits_colon_digits_digits {major minor : PyStr} (hmajor : major.all isDigit = true)
    (hminor : minor.all isDigit = true) :
    is_digits_colon_digits (major ++ COLON :: minor) = true ↔ major ≠ [] ∧ minor ≠ [] := by
  cases major with
  | nil => simp [is_digits_colon_digits, COLON, isDigit]
  | cons c major =>
      rw [List.all_cons, Bool.and_eq_true] at hmajor
      have hrest := holds_colon_digit_digits hmajor.2 hminor
      simp only [List.cons_append, is_digits_colon_digits, hmajor.1, Bool.true_and, hrest]
      simp

/-- The tests of the `.sh` on what is behind `git version `. -/
structure Passes (version : PyStr) : Prop where
  dotted : DOT ∈ version
  digits : is_digits_colon_digits
    (before_dot version ++ COLON :: (behind_dot version).takeWhile isDigit) = true
  major : ¬((before_dot version).any (!isDigit ·) = true ∨ 7 ≤ (before_dot version).length)
  minor : ¬7 ≤ ((behind_dot version).takeWhile isDigit).length
  recent : IsRecent (before_dot version) ((behind_dot version).takeWhile isDigit)

theorem require_git_config_global_passes {git : PyStr} {exit : Nat} {text : PyStr} :
    require_git_config_global git exit text = none ↔
      ∃ version, first_line (if exit = 0 then captured text else []) = GIT_VERSION ++ version ∧
        Passes version := by
  unfold require_git_config_global
  generalize first_line (if exit = 0 then captured text else []) = out
  by_cases hbegin : GIT_VERSION <+: out
  · obtain ⟨version, rfl⟩ := hbegin
    simp only [List.drop_left, List.prefix_append, true_and]
    have hwhole : ∀ {v : PyStr}, GIT_VERSION ++ version = GIT_VERSION ++ v → v = version :=
      fun h => (List.append_cancel_left h).symm
    constructor
    · intro h
      by_cases hdot : DOT ∈ version
      · simp only [if_pos hdot] at h
        by_cases hminor : 7 ≤ ((behind_dot version).takeWhile isDigit).length
        · simp only [if_pos hminor, if_true] at h
          cases h
        by_cases hmajor :
            (before_dot version).any (!isDigit ·) = true ∨ 7 ≤ (before_dot version).length
        · simp only [if_neg hminor, if_pos hmajor, if_true] at h
          cases h
        by_cases hdigits : is_digits_colon_digits
            (before_dot version ++ COLON :: (behind_dot version).takeWhile isDigit) = true
        · have hne : version ≠ [] := List.ne_nil_of_mem hdot
          simp only [if_neg hminor, if_neg hmajor, if_pos hdigits, if_neg hne] at h
          by_cases hrecent : IsRecent (before_dot version) ((behind_dot version).takeWhile isDigit)
          · exact ⟨version, rfl, hdot, hdigits, hmajor, hminor, hrecent⟩
          · rw [if_neg hrecent] at h
            cases h
        · simp only [if_neg hminor, if_neg hmajor, if_neg hdigits, if_true] at h
          cases h
      · simp [hdot] at h
    · rintro ⟨v, hv, hpasses⟩
      rw [hwhole hv] at hpasses
      have hne : version ≠ [] := List.ne_nil_of_mem hpasses.dotted
      simp only [if_pos hpasses.dotted, if_pos hpasses.digits, if_neg hpasses.major,
        if_neg hpasses.minor, if_neg hne, if_pos hpasses.recent]
  · constructor
    · intro h
      simp [hbegin] at h
    · rintro ⟨v, rfl, -⟩
      exact absurd (List.prefix_append _ _) hbegin

theorem dot_split {major rest : PyStr} (h : major.all isDigit = true) :
    before_dot (major ++ DOT :: rest) = major ∧ behind_dot (major ++ DOT :: rest) = rest := by
  have hne := all_ne_of_digits h (show isDigit DOT = false by decide)
  rw [List.all_eq_true] at hne
  have hmem : DOT ∈ major ++ DOT :: rest := by simp
  constructor
  · rw [before_dot, List.takeWhile_append_of_pos hne, List.takeWhile_cons_of_neg (by simp),
      List.append_nil]
  · rw [behind_dot, if_pos hmem, List.dropWhile_append_of_pos hne,
      List.dropWhile_cons_of_neg (by simp), List.tail_cons]

theorem split_dot {version : PyStr} (h : DOT ∈ version) :
    version = before_dot version ++ DOT :: behind_dot version := by
  have hwhole := List.takeWhile_append_dropWhile (p := (· != DOT)) (l := version)
  rw [behind_dot, if_pos h]
  cases hdrop : version.dropWhile (· != DOT) with
  | nil =>
      have hall := List.dropWhile_eq_nil_iff.mp hdrop DOT h
      exact absurd hall (by decide)
  | cons c tail =>
      have hhead : c = DOT := by
        have hnot := List.head_dropWhile_not (· != DOT) (l := version) (by rw [hdrop]; simp)
        simpa [hdrop] using hnot
      rw [hdrop, hhead] at hwhole
      exact hwhole.symm

/-- The `.sh` goes on with both numbers read whole, neither longer than six digits. -/
theorem require_git_config_global_none {git : PyStr} {exit : Nat} {text : PyStr} :
    require_git_config_global git exit text = none ↔ exit = 0 ∧ ∃ major minor,
      Reads (first_line text) major minor ∧ major.length ≤ 6 ∧ minor.length ≤ 6 ∧
        IsRecent major minor := by
  rw [require_git_config_global_passes]
  have hminor : ∀ rest : PyStr, (rest.takeWhile isDigit).all isDigit = true :=
    fun _ => List.all_takeWhile
  constructor
  · rintro ⟨version, hline, hpasses⟩
    by_cases hexit : exit = 0
    · rw [if_pos hexit, first_line_captured] at hline
      have hmajor := hpasses.major
      rw [not_or, List.any_eq_true] at hmajor
      have hdigits : (before_dot version).all isDigit = true := by
        rw [List.all_eq_true]
        intro c hc
        by_contra hnot
        exact hmajor.1 ⟨c, hc, by simpa using hnot⟩
      obtain ⟨hmajorNe, hminorNe⟩ :=
        (is_digits_colon_digits_digits hdigits (hminor _)).mp hpasses.digits
      have hlength := hpasses.minor
      refine ⟨hexit, before_dot version, (behind_dot version).takeWhile isDigit,
        ⟨hmajorNe, hminorNe, hdigits, behind_dot version, ?_, rfl⟩, by omega, by omega,
        hpasses.recent⟩
      rw [hline]
      exact congrArg (GIT_VERSION ++ ·) (split_dot hpasses.dotted)
    · rw [if_neg hexit] at hline
      exact absurd hline (by simp [first_line, GIT_VERSION, py])
  · rintro ⟨hexit, major, minor, hreads, hmajor, hlength, hrecent⟩
    obtain ⟨rest, hline, rfl⟩ := hreads.whole
    obtain ⟨hbefore, hbehind⟩ := @dot_split _ rest hreads.major_digits
    refine ⟨major ++ DOT :: rest, by rw [if_pos hexit, first_line_captured, hline], ?_⟩
    constructor
    · simp
    · rw [hbefore, hbehind]
      exact (is_digits_colon_digits_digits hreads.major_digits (hminor _)).mpr
        ⟨hreads.major_ne_nil, hreads.minor_ne_nil⟩
    · rw [hbefore, not_or]
      refine ⟨?_, by omega⟩
      rw [List.any_eq_true]
      rintro ⟨c, hc, hnot⟩
      rw [List.all_eq_true.mp hreads.major_digits c hc] at hnot
      cases hnot
    · rw [hbehind]
      omega
    · rw [hbefore, hbehind]
      exact hrecent

theorem takeWhile_major {major rest : PyStr} (h : major.all isDigit = true) :
    (major ++ DOT :: rest).takeWhile isDigit = major := by
  rw [takeWhile_stop (by decide), takeWhile_self h]

/-- Behind fewer than all its digits the first number is no number in front of a dot. -/
theorem match_version_some {line a b : PyStr} : match_version line = some (a, b) ↔
    ∃ minor, Reads line a minor ∧ a.length ≤ 6 ∧ b = minor.take 6 := by
  constructor
  · intro h
    unfold match_version at h
    split at h
    · rename_i hbegin
      obtain ⟨version, rfl⟩ := hbegin
      rw [List.drop_left] at h
      simp only at h
      split at h
      · cases h
      · rename_i c rest hdrop
        split at h
        · rename_i hfound
          obtain ⟨hmajorNe, hdot, hminorNe⟩ := hfound
          obtain ⟨ha, hb⟩ := Prod.mk.inj (Option.some.inj h)
          have hbeginning : version.take ((version.takeWhile isDigit).take 6).length =
              (version.takeWhile isDigit).take 6 :=
            (List.prefix_iff_eq_take.mp
              ((List.take_prefix _ _).trans (List.takeWhile_prefix _))).symm
          have hwhole : version = a ++ DOT :: rest := by
            rw [← ha, ← hdot, ← hdrop]
            exact ((congrArg (· ++ _) hbeginning).symm.trans (List.take_append_drop _ _)).symm
          have hdigits : a.all isDigit = true := by
            rw [← ha, List.all_eq_true]
            intro d hd
            exact List.mem_takeWhile_imp (List.mem_of_mem_take hd)
          have hlength : a.length ≤ 6 := by
            rw [← ha, List.length_take]
            exact Nat.min_le_left _ _
          refine ⟨rest.takeWhile isDigit, ⟨by rw [← ha]; exact hmajorNe, ?_, hdigits, rest,
            congrArg (GIT_VERSION ++ ·) hwhole, rfl⟩, hlength, hb.symm⟩
          intro hnil
          exact hminorNe (by rw [hnil, List.take_nil])
        · cases h
    · cases h
  · rintro ⟨minor, hreads, hlength, rfl⟩
    obtain ⟨rest, rfl, rfl⟩ := hreads.whole
    have hmajor := @takeWhile_major _ rest hreads.major_digits
    have hsix : a.take 6 = a := List.take_of_length_le hlength
    have hminor : (rest.takeWhile isDigit).take 6 ≠ [] := by
      rw [ne_eq, List.take_eq_nil_iff]
      rintro (hzero | hnil)
      · cases hzero
      · exact hreads.minor_ne_nil hnil
    unfold match_version
    rw [if_pos (List.prefix_append _ _), List.drop_left]
    simp only [hmajor, hsix, List.drop_left]
    simp [hreads.major_ne_nil, hminor]

/-- The `.ps1` goes on with the first six digits of the second number. -/
theorem get_git_version_distrust_nil {exit : Nat} {text : PyStr} :
    get_git_version_distrust exit text = [] ↔ exit = 0 ∧ ∃ major minor,
      Reads (first_line text) major minor ∧ major.length ≤ 6 ∧ IsRecent major (minor.take 6) := by
  have hempty : match_version [] = none := by decide
  unfold get_git_version_distrust
  by_cases hexit : exit = 0
  · simp only [if_pos hexit]
    constructor
    · intro h
      split at h
      · simp [py] at h
      · rename_i major minor hmatch
        obtain ⟨whole, hreads, hlength, rfl⟩ := match_version_some.mp hmatch
        rw [first_output_line_eq, reads_cr] at hreads
        split at h
        · exact ⟨hexit, major, whole, hreads, hlength, ‹_›⟩
        · simp [py] at h
    · rintro ⟨-, major, minor, hreads, hlength, hrecent⟩
      rw [← reads_cr, ← first_output_line_eq] at hreads
      have hmatch := match_version_some.mpr ⟨minor, hreads, hlength, rfl⟩
      simp only [hmatch, if_pos hrecent]
  · simp [hempty, hexit, py]

/-! ## Where they agree -/

/-- The line begins with `git version M.m`, decimal numbers of at least 2.32. -/
def NamesRecent (line : PyStr) : Prop := ∃ major minor : PyStr,
  major ≠ [] ∧ minor ≠ [] ∧ major.all isDigit = true ∧ minor.all isDigit = true ∧
    GIT_VERSION ++ (major ++ DOT :: minor) <+: line ∧ IsRecent major minor

/-- The second number is longer than six digits, and its first six are enough. -/
def LongMinor (exit : Nat) (text : PyStr) : Prop := exit = 0 ∧ ∃ major minor,
  Reads (first_line text) major minor ∧ major.length ≤ 6 ∧ 6 < minor.length ∧
    IsRecent major (minor.take 6)

/-- The digits of a line stand at its front, all of them or the first few. -/
theorem namesRecent_of_reads {line major minor : PyStr} (h : Reads line major minor) {n : Nat}
    (hn : 0 < n) (hrecent : IsRecent major (minor.take n)) : NamesRecent line := by
  obtain ⟨rest, hline, hminor⟩ := h.whole
  refine ⟨major, minor.take n, h.major_ne_nil, ?_, h.major_digits, ?_, ?_, hrecent⟩
  · rw [ne_eq, List.take_eq_nil_iff]
    rintro (hzero | hnil)
    · omega
    · exact h.minor_ne_nil hnil
  · rw [List.all_eq_true]
    intro c hc
    have hmem := List.mem_of_mem_take hc
    rw [hminor] at hmem
    exact List.mem_takeWhile_imp hmem
  · have htake : minor.take n <+: rest := by
      rw [hminor]
      exact (List.take_prefix _ _).trans (List.takeWhile_prefix _)
    obtain ⟨tail, htail⟩ := htake
    refine ⟨tail, ?_⟩
    rw [hline, ← htail]
    simp

theorem Reads.unique {line major minor major' minor' : PyStr} (h : Reads line major minor)
    (h' : Reads line major' minor') : major' = major ∧ minor' = minor := by
  obtain ⟨rest, hline, hminor⟩ := h.whole
  obtain ⟨rest', hline', hminor'⟩ := h'.whole
  rw [hline] at hline'
  have hwhole := List.append_cancel_left hline'
  have hmajor : major' = major := by
    have hread := @takeWhile_major _ rest' h'.major_digits
    rw [← hwhole, takeWhile_major h.major_digits] at hread
    exact hread.symm
  subst hmajor
  have hrest := (List.cons.inj (List.append_cancel_left hwhole)).2
  rw [hminor, hminor', hrest]
  exact ⟨rfl, rfl⟩

/-- The runners agree exactly where the second number is not too long for the
one and long enough for the other; neither goes on without a recent version. -/
theorem runners_gate_git_alike (git : PyStr) (exit : Nat) (text : PyStr) :
    ((require_git_config_global git exit text = none ↔
        get_git_version_distrust exit text = []) ∧
      (require_git_config_global git exit text = none → NamesRecent (first_line text)) ∧
      (get_git_version_distrust exit text = [] → NamesRecent (first_line text))) ↔
    ¬LongMinor exit text := by
  rw [require_git_config_global_none, get_git_version_distrust_nil]
  constructor
  · rintro ⟨hagree, -, -⟩ ⟨hexit, major, minor, hreads, hmajor, hlong, hrecent⟩
    obtain ⟨-, major', minor', hreads', -, hshort, -⟩ :=
      hagree.mpr ⟨hexit, major, minor, hreads, hmajor, hrecent⟩
    rw [(hreads.unique hreads').2] at hshort
    omega
  · intro hlong
    refine ⟨⟨?_, ?_⟩, ?_, ?_⟩
    · rintro ⟨hexit, major, minor, hreads, hmajor, hminor, hrecent⟩
      refine ⟨hexit, major, minor, hreads, hmajor, ?_⟩
      rw [List.take_of_length_le hminor]
      exact hrecent
    · rintro ⟨hexit, major, minor, hreads, hmajor, hrecent⟩
      have hminor : minor.length ≤ 6 := by
        by_contra hlonger
        exact hlong ⟨hexit, major, minor, hreads, hmajor, by omega, hrecent⟩
      rw [List.take_of_length_le hminor] at hrecent
      exact ⟨hexit, major, minor, hreads, hmajor, hminor, hrecent⟩
    · rintro ⟨-, major, minor, hreads, -, hminor, hrecent⟩
      rw [← List.take_of_length_le hminor] at hrecent
      exact namesRecent_of_reads hreads (by decide) hrecent
    · rintro ⟨-, major, minor, hreads, -, hrecent⟩
      exact namesRecent_of_reads hreads (by decide) hrecent

/-- A second number of seven digits: the `.sh` refuses what the `.ps1` lets go on. -/
theorem long_minor_is_read_apart :
    require_git_config_global (py "git") 0 (py "git version 2.1234567") ≠ none ∧
      get_git_version_distrust 0 (py "git version 2.1234567") = [] := by
  decide

example : get_git_version_distrust 0 (py "git version 2.40.1 (Apple Git-145)") = [] := by decide

end PwshPy.Packing.GitVersion
