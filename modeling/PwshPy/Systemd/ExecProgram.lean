import PwshPy.Systemd.UnitText

/-! # The program of `ExecStart=`

systemd takes the first word of the value apart in three steps: quotes and C
escapes, the prefix characters in front of what is left, then the specifiers. The
text pwshpy writes for a program went through the inverse of two of them in
another order.
-/

namespace PwshPy.Systemd

/-! ## The first word -/

def BACKSLASH : Nat := 0x5c
def DOUBLE_QUOTE : Nat := 0x22
def PERCENT : Nat := 0x25

/-- `WHITESPACE` -/
def isSeparator (c : Nat) : Bool := c == 0x20 || c == 0x09 || c == LF || c == 0x0d

/-- The escapes of one letter. -/
def escapeValue (c : Nat) : Option Nat :=
  if c = 0x61 then some 0x07
  else if c = 0x62 then some 0x08
  else if c = 0x66 then some 0x0c
  else if c = 0x6e then some LF
  else if c = 0x72 then some 0x0d
  else if c = 0x74 then some 0x09
  else if c = 0x76 then some 0x0b
  else if c = 0x73 then some 0x20
  else if c = BACKSLASH ∨ c = DOUBLE_QUOTE ∨ c = 0x27 then some c
  else none

/-- How far an escape has been read. -/
inductive Escape where
  | outside
  /-- behind the backslash -/
  | begun
  /-- `left` digits are missing of a number in that base -/
  | number (base left value : Nat)

/-- The letter in front of a number, or its first octal digit. -/
def beginNumber (c : Nat) : Option Escape :=
  if c = 0x78 then some (.number 16 2 0)
  else if c = 0x75 then some (.number 16 4 0)
  else if c = 0x55 then some (.number 16 8 0)
  else if 0x30 ≤ c ∧ c ≤ 0x37 then some (.number 8 2 (c - 0x30))
  else none

def digitValue (base c : Nat) : Option Nat :=
  let value :=
    if 0x30 ≤ c ∧ c ≤ 0x39 then some (c - 0x30)
    else if 0x61 ≤ c ∧ c ≤ 0x66 then some (c - 0x61 + 10)
    else if 0x41 ≤ c ∧ c ≤ 0x46 then some (c - 0x41 + 10)
    else none
  value.filter (· < base)

/-- `extract_first_word` with `EXTRACT_UNQUOTE | EXTRACT_CUNESCAPE`, inside the
quote `quote` if any: the word, and the text behind the separators that end it. -/
def extractWord (quote : Option Nat) (escape : Escape) (word : PyStr) :
    PyStr → Option (PyStr × PyStr)
  | [] =>
      match quote, escape with
      | none, .outside => some (word, [])
      | _, _ => none
  | c :: rest =>
      match escape with
      | .begun =>
          match escapeValue c with
          | some d => extractWord quote .outside (word ++ [d]) rest
          | none => (beginNumber c).bind fun escape => extractWord quote escape word rest
      | .number base left value =>
          (digitValue base c).bind fun d =>
            if left ≤ 1 then
              if value * base + d = 0 then none
              else extractWord quote .outside (word ++ [value * base + d]) rest
            else extractWord quote (.number base (left - 1) (value * base + d)) word rest
      | .outside =>
          if c = BACKSLASH then extractWord quote .begun word rest
          else
            match quote with
            | none =>
                if isSeparator c then some (word, rest.dropWhile isSeparator)
                else if c = 0x27 ∨ c = DOUBLE_QUOTE then extractWord (some c) .outside word rest
                else extractWord none .outside (word ++ [c]) rest
            | some mark =>
                if c = mark then extractWord none .outside word rest
                else extractWord (some mark) .outside (word ++ [c]) rest

/-! ## Specifiers -/

/-- `unit_path_printf`, for what each letter but `%` stands for. -/
def expandSpecifiers (specifier : Nat → Option PyStr) : PyStr → Option PyStr
  | [] => some []
  | [c] => some [c]
  | c :: d :: rest =>
      if c = PERCENT then
        if d = PERCENT then (expandSpecifiers specifier rest).map (PERCENT :: ·)
        else
          match specifier d with
          | some value => (expandSpecifiers specifier rest).map (value ++ ·)
          | none => (expandSpecifiers specifier rest).map (c :: d :: ·)
      else (expandSpecifiers specifier (d :: rest)).map (c :: ·)

/-- The prefixes, the program and the rest of an `ExecStart=` value. -/
def readProgram (specifier : Nat → Option PyStr) (value : PyStr) :
    Option (PyStr × PyStr × PyStr) :=
  (extractWord none .outside [] (value.dropWhile isSeparator)).bind fun (word, rest) =>
    (expandSpecifiers specifier (word.dropWhile (execPrefixes.contains ·))).map fun program =>
      (word.takeWhile (execPrefixes.contains ·), program, rest)

/-! ## What pwshpy writes -/

/-- The text of a value with every `%` doubled. -/
def specified (text : PyStr) : PyStr := replaceChar PERCENT (py "%%") text

/-- Inside double quotes, a backslash and a quote are escaped. -/
def quotedText (text : PyStr) : PyStr :=
  replaceChar DOUBLE_QUOTE (py "\\\"") (replaceChar BACKSLASH (py "\\\\") text)

theorem quotedText_cons (c : Nat) (text : PyStr) : quotedText (c :: text) =
    (if c = BACKSLASH ∨ c = DOUBLE_QUOTE then [BACKSLASH, c] else [c]) ++ quotedText text := by
  unfold quotedText replaceChar
  by_cases hslash : c = BACKSLASH
  · subst hslash
    rfl
  · by_cases hquote : c = DOUBLE_QUOTE
    · subst hquote
      rfl
    · simp [hslash, hquote]

/-- Inside the quotes a text is read back up to the closing one. -/
theorem extractWord_quotedText (text word tail : PyStr) :
    extractWord (some DOUBLE_QUOTE) .outside word (quotedText text ++ DOUBLE_QUOTE :: tail) =
      extractWord none .outside (word ++ text) tail := by
  induction text generalizing word with
  | nil =>
      rw [List.append_nil]
      rfl
  | cons c text ih =>
      rw [quotedText_cons]
      have hlater := ih (word ++ [c])
      rw [List.append_assoc, List.singleton_append] at hlater
      by_cases hescaped : c = BACKSLASH ∨ c = DOUBLE_QUOTE
      · have hvalue : escapeValue c = some c := by
          cases hescaped with
          | inl h => subst h; rfl
          | inr h => subst h; rfl
        rw [if_pos hescaped, List.append_assoc, List.cons_append, List.singleton_append, extractWord]
        simp only [if_true]
        rw [extractWord]
        simp only [hvalue]
        exact hlater
      · rw [not_or] at hescaped
        rw [if_neg (not_or.mpr hescaped), List.append_assoc, List.singleton_append, extractWord]
        simp only [if_neg hescaped.1, if_neg hescaped.2]
        exact hlater

theorem expandSpecifiers_cons {c : Nat} (h : c ≠ PERCENT) (specifier : Nat → Option PyStr)
    (text : PyStr) : expandSpecifiers specifier (c :: text) =
      (expandSpecifiers specifier text).map (c :: ·) := by
  cases text with
  | nil => rfl
  | cons d rest => rw [expandSpecifiers, if_neg h]

theorem expandSpecifiers_specified (specifier : Nat → Option PyStr) (text : PyStr) :
    expandSpecifiers specifier (specified text) = some text := by
  induction text with
  | nil => rfl
  | cons c text ih =>
      by_cases hc : c = PERCENT
      · subst hc
        have hpair : specified (PERCENT :: text) = PERCENT :: PERCENT :: specified text := rfl
        rw [hpair, expandSpecifiers, if_pos rfl, if_pos rfl, ih]
        rfl
      · have hsame : specified (c :: text) = c :: specified text := by
          simp [specified, replaceChar, hc]
        rw [hsame, expandSpecifiers_cons hc, ih]
        rfl

/-! ## What `_exec_program` accepts -/

/-- An accepted program begins with a character that is no prefix, and so does
its text with each `%` doubled. -/
theorem first_specified {program word : PyStr} (h : execProgram program = .ok word) :
    ∃ c rest, specified program = c :: rest ∧ execPrefixes.contains c = false := by
  obtain ⟨value, hvalue, h⟩ := Raises.bind_eq_ok.mp h
  obtain ⟨rfl, -⟩ := unitValue_ok hvalue
  change (match specified program with | [] => _ | first :: _ => _) = _ at h
  cases hspecified : specified program with
  | nil =>
      rw [hspecified] at h
      cases h
  | cons first rest =>
      rw [hspecified] at h
      simp only [Raises.ite_error_eq_ok] at h
      refine ⟨first, rest, rfl, ?_⟩
      simpa using h.2.1

theorem readProgram_execWord (specifier : Nat → Option PyStr) {program : PyStr} {c : Nat}
    {rest : PyStr} (hfirst : specified program = c :: rest)
    (hc : execPrefixes.contains c = false) {tail after : PyStr}
    (htail : extractWord none .outside (specified program) tail =
      some (specified program, after)) :
    readProgram specifier (execWord program ++ tail) = some ([], program, after) := by
  have hquoted : execWord program ++ tail =
      DOUBLE_QUOTE :: (quotedText (specified program) ++ DOUBLE_QUOTE :: tail) := by
    show (DOUBLE_QUOTE :: quotedText (specified program) ++ [DOUBLE_QUOTE]) ++ tail = _
    simp
  have hword : extractWord none .outside [] ((execWord program ++ tail).dropWhile isSeparator) =
      some (specified program, after) := by
    rw [hquoted, List.dropWhile_cons_of_neg (by decide)]
    show extractWord (some DOUBLE_QUOTE) .outside [] _ = _
    rw [extractWord_quotedText, List.nil_append, htail]
  have hdrop : (specified program).dropWhile (execPrefixes.contains ·) = specified program := by
    rw [hfirst, List.dropWhile_cons_of_neg (by simpa using hc)]
  have htake : (specified program).takeWhile (execPrefixes.contains ·) = [] := by
    rw [hfirst, List.takeWhile_cons_of_neg (by simpa using hc)]
  rw [readProgram, hword]
  simp only [Option.bind_some, hdrop, htake, expandSpecifiers_specified, Option.map_some]

/-- The first word of the value is the program: no prefix, nothing expanded, with
arguments behind it and without. -/
theorem exec_start_names_the_program (specifier : Nat → Option PyStr) {program word : PyStr}
    (h : execProgram program = .ok word) :
    (∀ arguments : PyStr, readProgram specifier (word ++ 0x20 :: arguments) =
      some ([], program, arguments.dropWhile isSeparator)) ∧
    readProgram specifier word = some ([], program, []) := by
  obtain ⟨c, rest, hfirst, hc⟩ := first_specified h
  obtain ⟨rfl, -⟩ := execProgram_ok h
  constructor
  · intro arguments
    exact readProgram_execWord specifier hfirst hc rfl
  · have hread := readProgram_execWord specifier hfirst hc
      (show extractWord none .outside (specified program) [] = some (specified program, []) from rfl)
    rw [List.append_nil] at hread
    exact hread

theorem exec_start_names_the_program_at :
    readProgram (fun _ => none) (py "\"/opt/my app/a%%b\\\\\\\"\" +%%Y") =
      some ([], py "/opt/my app/a%b\\\"", py "+%%Y") := by
  have hword : execProgram (py "/opt/my app/a%b\\\"") =
      .ok (py "\"/opt/my app/a%%b\\\\\\\"\"") := by decide
  exact (exec_start_names_the_program (fun _ => none) hword).1 (py "+%%Y")

end PwshPy.Systemd
