import PwshPy.Text.Runs
import PwshPy.Text.PyStr

/-! # Lines of `user-dirs.dirs`

The cursor that reads `KEY="$HOME/…"` as .NET does, with .NET's length guards. An index outside the
line is an outcome of its own.
-/

namespace PwshPy.UserDirs

inductive Raised where
  | index_error
  deriving DecidableEq

def QUOTE : Nat := 0x22

def EQUALS : Nat := 0x3d

def SLASH : Nat := 0x2f

def HOME_PREFIX : PyStr := py "$HOME/"

def LATIN1_WHITESPACE : List Nat := [0x09, 0x0a, 0x0b, 0x0c, 0x0d, 0x20, 0x85, 0xa0]

section Reader

-- whether a character is of the category `Zs`, `Zl` or `Zp`
variable (separator : Nat → Bool)

/-- `_is_dotnet_whitespace` -/
def is_dotnet_whitespace (char : Nat) : Bool :=
  if char ≤ 0xff then LATIN1_WHITESPACE.contains char else separator char

/-- `_skip_whitespace`, of what stands at the position and behind -/
def skip_run (pos : Nat) : PyStr → Nat
  | [] => pos
  | char :: rest => if is_dotnet_whitespace separator char then skip_run (pos + 1) rest else pos

/-- `_skip_whitespace` -/
def skip_whitespace (line : PyStr) (pos : Nat) : Nat := skip_run separator pos (line.drop pos)

/-- `line[pos]` -/
def char_at (line : PyStr) (pos : Nat) : Except Raised Nat :=
  match (line)[pos]? with
  | some char => .ok char
  | none => .error .index_error

/-- `line.startswith(start, pos)` -/
def startswith (line start : PyStr) (pos : Nat) : Bool := start.isPrefixOf (line.drop pos)

/-- `line.find(char, pos)` -/
def find (line : PyStr) (char : Nat) (pos : Nat) : Int :=
  match (line.drop pos).idxOf? char with
  | some offset => pos + offset
  | none => -1

/-- `line[pos:stop]` -/
def slice (line : PyStr) (pos stop : Nat) : PyStr := (line.take stop).drop pos

/-- `if short or line[pos] != mark: return None`, else on behind the mark -/
def past (line : PyStr) (short : Bool) (mark pos : Nat) : Except Raised (Option Nat) := do
  if short then return none
  if (← char_at line pos) ≠ mark then return none
  return some (pos + 1)

/-- `pos >= len(line) - margin` -/
def nearer (margin : Nat) (line : PyStr) (pos : Nat) : Bool := (pos : Int) ≥ line.length - margin

/-- `_value_start`; the first guard is a parameter. -/
def value_start_by (guard : PyStr → Nat → Bool) (line key : PyStr) : Except Raised (Option Nat) := do
  let pos := skip_whitespace separator line 0
  if startswith line key pos = false then return none
  let pos := skip_whitespace separator line (pos + key.length)
  match ← past line (guard line pos) EQUALS pos with
  | none => return none
  | some pos =>
      let pos := skip_whitespace separator line pos
      past line (nearer 3 line pos) QUOTE pos

/-- `_join` -/
def join (first second : PyStr) : PyStr :=
  if first = [] then second
  else if second = [] then first
  else if first.getLast? = some SLASH ∨ second.head? = some SLASH then first ++ second
  else first ++ [SLASH] ++ second

/-- The end of `_user_dirs_value`, from where the value is read; `made` is `_join` with the home
directory, or nothing. -/
def quoted (line : PyStr) (pos : Nat) (made : PyStr → PyStr) : Option PyStr :=
  let stop := find line QUOTE pos
  if stop ≤ pos then none else some (made (slice line pos stop.toNat))

/-- `_user_dirs_value`, with the first guard of `_value_start` -/
def user_dirs_value_by (guard : PyStr → Nat → Bool) (line home key : PyStr) :
    Except Raised (Option PyStr) := do
  match ← value_start_by separator guard line key with
  | none => return none
  | some pos =>
      if startswith line HOME_PREFIX pos then
        return quoted line (pos + HOME_PREFIX.length) (join home)
      else if (← char_at line pos) ≠ SLASH then return none
      else return quoted line pos id

/-- The position is not in the line. -/
def outside (line : PyStr) (pos : Nat) : Bool := pos ≥ line.length

/-- `_user_dirs_value` -/
def user_dirs_value (line home key : PyStr) : Except Raised (Option PyStr) :=
  user_dirs_value_by separator (nearer 4) line home key

end Reader

end PwshPy.UserDirs
