import PwshPy.Packing.Runner
import PwshPy.Shell.Words

/-! # The uv arguments of a runner

Both runners carry the arguments of `uv run` as data. The `.sh` holds them as
one quoted word, a list of quoted words that an `eval` expands at the run; a
root run expands a second list, in which the caller's directory stands in front
of each relative `--with` path.
-/

namespace PwshPy.Packing

open Shell (AT isLetter joined)

/-! ## Relative requirements -/

def isAlphanumeric (c : Nat) : Bool := isLetter c || isDigit c

/-- `[A-Za-z0-9._-]` -/
def isReferenceChar (c : Nat) : Bool := isAlphanumeric c || c == 0x2e || c == 0x5f || c == 0x2d

/-- `(?:\[[^\]]*\])?\s*` -/
def skip_extras : PyStr → PyStr
  | [] => []
  | c :: rest =>
      if c = 0x5b then
        match rest.dropWhile (· != 0x5d) with
        | [] => c :: rest
        | _ :: rest => rest.dropWhile isSpace
      else c :: rest

/-- `@\s*` -/
def skip_at : PyStr → Option PyStr
  | [] => none
  | c :: rest => if c = AT then some (rest.dropWhile isSpace) else none

/-- What `_NAMED_REFERENCE` leaves of a text. No two parts of it can divide a
run of characters differently: what may follow the name is no character of one,
so the name is the whole run. -/
def after_named_reference (spec : PyStr) : Option PyStr :=
  let text := spec.dropWhile isSpace
  let name := text.takeWhile isReferenceChar
  if name.head?.any isAlphanumeric ∧ name.getLast?.any isAlphanumeric then
    skip_at (skip_extras ((text.dropWhile isReferenceChar).dropWhile isSpace))
  else none

/-- `_NAMED_REFERENCE.match(spec).group(0)` -/
def named_reference (spec : PyStr) : Option PyStr :=
  (after_named_reference spec).map fun rest => spec.take (spec.length - rest.length)

def DISTRIBUTION_SUFFIXES : List PyStr :=
  [py ".whl", py ".tar.gz", py ".zip", py ".tar.bz2", py ".tar.xz", py ".tgz"]

/-- `_is_relative_location` -/
def is_relative_location (location : PyStr) : Bool :=
  let token := (strip location).takeWhile fun c => !(isSpace c || c == 0x3b)
  match token with
  | [] => false
  | first :: rest =>
      if py "://" <:+: token ∨ py "file:" <+: asciiLower token then false
      else if first ∈ py "/\\~$" ∨ (isLetter first = true ∧ rest.head? = some 0x3a) then false
      else
        decide (0x2f ∈ token ∨ BACKSLASH ∈ token ∨ token ∈ [py ".", py ".."] ∨
          ∃ suffix ∈ DISTRIBUTION_SUFFIXES, suffix <:+ asciiLower token)

/-- The `name @ ` in front of a direct reference, nothing in front of a path. -/
def requirement_head (spec : PyStr) : PyStr :=
  match named_reference spec with
  | some text => if py "." <+: spec.dropWhile isSpace then [] else text
  | none => []

def split_relative_requirement (spec : PyStr) : Option (PyStr × PyStr) :=
  let head := requirement_head spec
  let location := spec.drop head.length
  if is_relative_location location then some (head, location) else none

theorem named_reference_begins {spec text : PyStr} (h : named_reference spec = some text) :
    text <+: spec := by
  obtain ⟨rest, -, rfl⟩ := Option.map_eq_some_iff.mp h
  exact List.take_prefix _ _

theorem requirement_head_begins (spec : PyStr) : requirement_head spec <+: spec := by
  unfold requirement_head
  split
  · split
    · exact List.nil_prefix
    · exact named_reference_begins ‹_›
  · exact List.nil_prefix

theorem is_relative_location_ne_nil {location : PyStr} (h : is_relative_location location = true) :
    location ≠ [] := by
  intro hnil
  subst hnil
  exact absurd h (by decide)

/-- A split takes nothing from the value and leaves a path in its tail. -/
theorem split_relative_requirement_spec {spec head location : PyStr}
    (h : split_relative_requirement spec = some (head, location)) :
    head ++ location = spec ∧ location ≠ [] := by
  by_cases hrelative : is_relative_location (spec.drop (requirement_head spec).length) = true
  · rw [split_relative_requirement, if_pos hrelative] at h
    obtain ⟨rfl, rfl⟩ := Prod.mk.inj (Option.some.inj h)
    exact ⟨List.prefix_iff_eq_append.mp (requirement_head_begins spec),
      is_relative_location_ne_nil hrelative⟩
  · rw [split_relative_requirement, if_neg hrelative] at h
    cases h

/-! ## What the lists stand for -/

/-- A value as it is meant in the caller's directory, given the value before it. -/
def anchor (front previous value : PyStr) : PyStr :=
  if previous = py "--with" then
    match split_relative_requirement value with
    | some (head, location) => head ++ front ++ location
    | none => value
  else value

/-- Every value as it is meant in the caller's directory. -/
def anchored (front : PyStr) (values : List PyStr) : List PyStr :=
  List.zipWith (anchor front) ([] :: values) values

/-! ## What the shell makes of the lists -/

section

variable {sh : Shell.Context} {values : List PyStr}

theorem posix_shell_args_eq : posix_shell_args values = joined (values.map posix_shell_word) := rfl

/-- One element of `_posix_anchored_args`. -/
def posix_anchored_arg : PyStr × Option (PyStr × PyStr) → PyStr
  | (value, none) => posix_shell_word value
  | (_, some (head, location)) =>
      posix_shell_word head ++ (py "\"$PWSHPY_CALLER_PREFIX\"" ++ posix_shell_word location)

theorem posix_anchored_args_eq (split : PyStr → Option (PyStr × PyStr)) :
    posix_anchored_args split values =
      joined ((anchored_values split [] values).map posix_anchored_arg) := rfl

theorem prefix_variable_renders {front : PyStr}
    (hvar : sh.vars (py "PWSHPY_CALLER_PREFIX") = some front) :
    Shell.Renders sh (py "\"$PWSHPY_CALLER_PREFIX\"") front := by
  have hname : Shell.IsName (py "PWSHPY_CALLER_PREFIX") := ⟨⟨_, _, rfl, by decide⟩, by decide⟩
  exact Shell.Renders.variable hname hvar

theorem posix_shell_args_renders (h : ∀ value ∈ values, 0 ∉ value) :
    List.Forall₂ (Shell.Renders sh) (values.map posix_shell_word) values := by
  induction values with
  | nil => exact .nil
  | cons value values ih =>
      simp only [List.mem_cons, forall_eq_or_imp] at h
      exact .cons (.word h.1) (ih h.2)

/-- A re-anchored value is its head, the caller's directory and its path. -/
theorem posix_anchored_args_renders {front : PyStr}
    (hvar : sh.vars (py "PWSHPY_CALLER_PREFIX") = some front)
    (h : ∀ value ∈ values, 0 ∉ value) (previous : PyStr) :
    List.Forall₂ (Shell.Renders sh)
      ((anchored_values split_relative_requirement previous values).map posix_anchored_arg)
      (List.zipWith (anchor front) (previous :: values) values) := by
  induction values generalizing previous with
  | nil => exact .nil
  | cons value values ih =>
      simp only [List.mem_cons, forall_eq_or_imp] at h
      refine .cons ?_ (ih h.2 value)
      unfold anchor
      split
      · cases hsplit : split_relative_requirement value with
        | none => exact .word h.1
        | some parts =>
            obtain ⟨head, location⟩ := parts
            obtain ⟨hvalue, -⟩ := split_relative_requirement_spec hsplit
            have hparts : 0 ∉ head ∧ 0 ∉ location := by
              have hzero := h.1
              rw [← hvalue, List.mem_append, not_or] at hzero
              exact hzero
            show Shell.Renders sh _ (head ++ front ++ location)
            rw [List.append_assoc]
            exact (Shell.Renders.word hparts.1).append
              ((prefix_variable_renders hvar).append (.word hparts.2))
      · exact .word h.1

end

/-- The lines of the `.sh` template that take the two lists up. -/
def RAW_LINE : TemplateLine := [.text (py "PWSHPY_UV_ARGS_RAW="), .hole .uv_args]

def ANCHORED_RAW_LINE : TemplateLine :=
  [.text (py "PWSHPY_UV_ARGS_ANCHORED_RAW="), .hole .uv_args_anchored]

/-- The lines that expand them, for an unelevated and for a root run. -/
def EXPAND_RAW : PyStr := py "eval \"set -- $PWSHPY_UV_ARGS_RAW \\\"\\$@\\\"\""

def EXPAND_ANCHORED_RAW : PyStr :=
  py "eval \"set -- $PWSHPY_UV_ARGS_ANCHORED_RAW \\\"\\$@\\\"\""

section

variable {sh : Shell.Context} {values : List PyStr}

theorem run_expand (hzero : ∀ value ∈ values, 0 ∉ value)
    (hvar : sh.vars (py "PWSHPY_UV_ARGS_RAW") = some (posix_shell_args values)) (depth : Nat) :
    Shell.run sh (depth + 2) EXPAND_RAW =
      some { sh with positional := values ++ sh.positional } := by
  have hname : Shell.IsName (py "PWSHPY_UV_ARGS_RAW") := ⟨⟨_, _, rfl, by decide⟩, by decide⟩
  have hexpand : EXPAND_RAW = Shell.setFrom (py "PWSHPY_UV_ARGS_RAW") := by decide
  rw [posix_shell_args_eq] at hvar
  rw [hexpand]
  exact Shell.run_setFrom hname hvar (posix_shell_args_renders hzero) depth

theorem run_expand_anchored {front : PyStr} (hzero : ∀ value ∈ values, 0 ∉ value)
    (hvar : sh.vars (py "PWSHPY_UV_ARGS_ANCHORED_RAW") =
      some (posix_anchored_args split_relative_requirement values))
    (hprefixed : sh.vars (py "PWSHPY_CALLER_PREFIX") = some front) (depth : Nat) :
    Shell.run sh (depth + 2) EXPAND_ANCHORED_RAW =
      some { sh with positional := anchored front values ++ sh.positional } := by
  have hname : Shell.IsName (py "PWSHPY_UV_ARGS_ANCHORED_RAW") :=
    ⟨⟨_, _, rfl, by decide⟩, by decide⟩
  have hexpand : EXPAND_ANCHORED_RAW = Shell.setFrom (py "PWSHPY_UV_ARGS_ANCHORED_RAW") := by
    decide
  rw [posix_anchored_args_eq] at hvar
  rw [hexpand]
  exact Shell.run_setFrom hname hvar (posix_anchored_args_renders hprefixed hzero []) depth

end

/-- Through both rounds of the shell's reading, the assignment and the `eval`,
the arguments come out as they went in, in front of the parameters there were;
so do the re-anchored ones, whatever the caller's directory holds. -/
theorem uv_args_pass_through_sh (content : RunnerContent)
    (hzero : ∀ value ∈ content.uv_args, 0 ∉ value) (sh : Shell.Context) (depth : Nat) :
    (∃ word raw,
      fillLine (sh_values split_relative_requirement content) RAW_LINE =
        py "PWSHPY_UV_ARGS_RAW=" ++ word ∧
      Shell.assignment sh (py "PWSHPY_UV_ARGS_RAW") word =
        some { sh with vars := sh.vars.set (py "PWSHPY_UV_ARGS_RAW") raw } ∧
      ∀ later : Shell.Context, later.vars (py "PWSHPY_UV_ARGS_RAW") = some raw →
        Shell.run later (depth + 2) EXPAND_RAW =
          some { later with positional := content.uv_args ++ later.positional }) ∧
    (∃ word raw,
      fillLine (sh_values split_relative_requirement content) ANCHORED_RAW_LINE =
        py "PWSHPY_UV_ARGS_ANCHORED_RAW=" ++ word ∧
      Shell.assignment sh (py "PWSHPY_UV_ARGS_ANCHORED_RAW") word =
        some { sh with vars := sh.vars.set (py "PWSHPY_UV_ARGS_ANCHORED_RAW") raw } ∧
      ∀ (later : Shell.Context) (front : PyStr),
        later.vars (py "PWSHPY_UV_ARGS_ANCHORED_RAW") = some raw →
        later.vars (py "PWSHPY_CALLER_PREFIX") = some front →
        Shell.run later (depth + 2) EXPAND_ANCHORED_RAW =
          some { later with
            positional := anchored front content.uv_args ++ later.positional }) ∧
    ∀ value head location, split_relative_requirement value = some (head, location) →
      head ++ location = value := by
  have hline : ∀ (label : PyStr) (p : Placeholder) (value : PyStr),
      sh_values split_relative_requirement content p = some value →
      fillLine (sh_values split_relative_requirement content) [.text label, .hole p] =
        label ++ value := by
    intro label p value hvalue
    simp [fillLine, fillSegment, hvalue]
  refine ⟨⟨_, posix_shell_args content.uv_args, hline _ _ _ rfl, ?_, ?_⟩,
    ⟨_, posix_anchored_args split_relative_requirement content.uv_args, hline _ _ _ rfl, ?_, ?_⟩,
    fun _ _ _ hsplit => (split_relative_requirement_spec hsplit).1⟩
  · exact Shell.assignment_word (Shell.zero_not_mem_joined (@posix_shell_args_renders sh _ hzero))
  · intro later hvar
    exact run_expand hzero hvar depth
  · -- the list holds no NUL, whether or not the variable is set yet
    have hset := @posix_anchored_args_renders ⟨fun _ => some [], []⟩ _ [] rfl hzero []
    exact Shell.assignment_word (Shell.zero_not_mem_joined hset)
  · intro later front hvar hprefixed
    exact run_expand_anchored hzero hvar hprefixed depth

/-- A value with a quote, a variable and a relative path behind its name. -/
def quotedContent : RunnerContent where
  payload_b64 := []
  payload_sha256 := []
  entry := py "t.py"
  uv_args := [py "it's $HOME", [], py "--with", py "tool @ ./x.whl"]
  file_hashes := []
  python_request := ⟨[], fun _ h => absurd h List.not_mem_nil⟩
  has_git_source := false

theorem uv_args_pass_through_sh_quoted : ∃ word sh,
    Shell.assignment ⟨fun _ => some (py "/home/me/"), [py "t.py"]⟩
      (py "PWSHPY_UV_ARGS_ANCHORED_RAW") word = some sh ∧
    (Shell.run sh 2 EXPAND_ANCHORED_RAW).map Shell.Context.positional =
      some [py "it's $HOME", [], py "--with", py "tool @ /home/me/./x.whl", py "t.py"] := by
  let start : Shell.Context := ⟨fun _ => some (py "/home/me/"), [py "t.py"]⟩
  obtain ⟨-, ⟨word, raw, -, hassign, hrun⟩, -⟩ :=
    uv_args_pass_through_sh quotedContent (by decide) start 0
  have hne : py "PWSHPY_CALLER_PREFIX" ≠ py "PWSHPY_UV_ARGS_ANCHORED_RAW" := by decide
  have hraw : start.vars.set (py "PWSHPY_UV_ARGS_ANCHORED_RAW") raw
      (py "PWSHPY_UV_ARGS_ANCHORED_RAW") = some raw := Storage.Variables.set_self
  have hprefixed : start.vars.set (py "PWSHPY_UV_ARGS_ANCHORED_RAW") raw
      (py "PWSHPY_CALLER_PREFIX") = some (py "/home/me/") := Storage.Variables.set_of_ne hne
  have hexpanded := hrun { start with vars := start.vars.set (py "PWSHPY_UV_ARGS_ANCHORED_RAW") raw }
    (py "/home/me/") hraw hprefixed
  refine ⟨word, _, hassign, ?_⟩
  rw [hexpanded]
  show some (anchored (py "/home/me/") quotedContent.uv_args ++ [py "t.py"]) = _
  decide

end PwshPy.Packing
