import PwshPy.Text.Errors

/-! # Task paths and unit names

`base_name`, `unit_base` and `existing_unit_base`: how a task path becomes the base
name of its two units, and which names are refused before anything is done.
-/

namespace PwshPy.Systemd

/-! ## The base name -/

def isHexDigit (c : Nat) : Bool :=
  isDigit c || (0x41 ≤ c && c ≤ 0x46) || (0x61 ≤ c && c ≤ 0x66)

/-- `\\x[0-9A-Fa-f]{2}` at the start of a text. -/
def startsWithEscape : PyStr → Bool
  | b :: x :: hi :: lo :: _ => b == 0x5c && x == 0x78 && isHexDigit hi && isHexDigit lo
  | _ => false

/-- A separator at the start of a text: in the Windows form every backslash is one. -/
def startsWithSeparator (windows : Bool) : PyStr → Bool
  | [] => false
  | c :: s => c == 0x2f || (c == 0x5c && (windows || !startsWithEscape (c :: s)))

/-- `separator.split(path)[-1]`, with the piece read so far. -/
def lastPiece (windows : Bool) : PyStr → PyStr → PyStr
  | piece, [] => piece
  | piece, c :: s =>
    if startsWithSeparator windows (c :: s) then lastPiece windows [] s
    else lastPiece windows (piece ++ [c]) s

def timerSuffix : PyStr := py ".timer"
def serviceSuffix : PyStr := py ".service"

/-- The task path without its folder and its `.timer` or `.service`. -/
def baseName (task_path : PyStr) : PyStr :=
  let path := strip task_path
  let name := lastPiece (path.head? == some 0x5c) [] path
  if timerSuffix.isSuffixOf name then name.take (name.length - timerSuffix.length)
  else if serviceSuffix.isSuffixOf name then name.take (name.length - serviceSuffix.length)
  else name

/-! ## Names pwshpy registers -/

/-- `[A-Za-z0-9:_.\-]` -/
def isUnitNameChar (c : Nat) : Bool :=
  isDigit c || (0x41 ≤ c && c ≤ 0x5a) || (0x61 ≤ c && c ≤ 0x7a) || c == 0x3a || c == 0x5f ||
    c == 0x2e || c == 0x2d

/-- `[A-Za-z0-9:_.\-]+` -/
def isUnitNamePrefix (name : PyStr) : Bool := !name.isEmpty && name.all isUnitNameChar

def unitNameMax : Nat := 255

/-- How a backslash in the task path was read, for a refusal that names `base`. -/
def backslashHint (task_path base : PyStr) : PyStr :=
  if (strip task_path).head? = some 0x5c then
    py " A path starting with a backslash is read as \\Folder\\Name: every backslash ends a folder."
  else if 0x5c ∈ base then
    py " Here a backslash starts a systemd \\xNN escape, which pwshpy does not register."
  else []

def withinUnitNameMax (base : PyStr) : Except PyError PyStr :=
  if base.length + serviceSuffix.length > unitNameMax then
    .error <| configurationError
      [.repr (base.take 40), .text (py ("... is too long for a systemd unit name: at most " ++
        "247 characters (systemd allows 255 with the suffix)."))]
  else .ok base

/-- The base name of a task to register or unregister. -/
def unitBase (task_path : PyStr) : Except PyError PyStr :=
  let base := baseName task_path
  if isUnitNamePrefix base then withinUnitNameMax base
  else
    .error <| configurationError
      [.repr base, .text (py (" is not a systemd unit name: use ASCII letters, digits, ':', '-', '_' " ++
        "and '.' only ('@' would make a template or instance unit).") ++ backslashHint task_path base)]

/-! ## Names of units that exist -/

/-- `(?:[…]|\\x[0-9A-Fa-f]{2})*` for a class of characters without a backslash. -/
def isEscapedRest (isChar : Nat → Bool) : PyStr → Bool
  | [] => true
  | b :: x :: hi :: lo :: rest =>
    if isChar b then isEscapedRest isChar (x :: hi :: lo :: rest)
    else startsWithEscape [b, x, hi, lo] && isEscapedRest isChar rest
  | c :: rest => isChar c && isEscapedRest isChar rest

def isEscapedName (isChar : Nat → Bool) (name : PyStr) : Bool :=
  !name.isEmpty && isEscapedRest isChar name

/-- The base name of a task to act on, in systemd's full grammar. -/
def existingUnitBase (task_path : PyStr) : Except PyError PyStr :=
  let base := baseName task_path
  let before := base.takeWhile (· != 0x40)
  let instance_ := (base.dropWhile (· != 0x40)).tail
  if ¬ isEscapedName isUnitNameChar before then
    .error <| configurationError
      [.repr base, .text (py (" is not a systemd unit name: the part before any '@' must be " ++
        "non-empty ASCII letters, digits, ':', '-', '_', '.' and \\xNN escapes."))]
  else if 0x40 ∉ base then withinUnitNameMax base
  else if instance_.isEmpty then
    .error <| configurationError
      [.repr base, .text (py " is a template, not a unit: name one of its instances (" ++ before ++
        py "@<instance>).")]
  else if ¬ isEscapedName (fun c => isUnitNameChar c || c == 0x40) instance_ then
    .error <| configurationError
      [.repr base, .text (py (" is not a systemd unit name: the instance after '@' may hold ASCII " ++
        "letters, digits, ':', '-', '_', '.', '@' and \\xNN escapes only."))]
  else withinUnitNameMax base

/-! ## Accepted names -/

theorem withinUnitNameMax_ok {base name : PyStr} (h : withinUnitNameMax base = .ok name) :
    name = base ∧ base.length + serviceSuffix.length ≤ unitNameMax := by
  simp only [withinUnitNameMax, Raises.ite_error_eq_ok, Except.ok.injEq] at h
  exact ⟨h.2.symm, by omega⟩

theorem unitBase_ok {task_path base : PyStr} (h : unitBase task_path = .ok base) :
    base = baseName task_path ∧ base.all isUnitNameChar = true := by
  simp only [unitBase] at h
  split at h
  · rename_i hname
    obtain ⟨rfl, -⟩ := withinUnitNameMax_ok h
    simp only [isUnitNamePrefix, Bool.and_eq_true] at hname
    exact ⟨rfl, hname.2⟩
  · cases h

end PwshPy.Systemd
