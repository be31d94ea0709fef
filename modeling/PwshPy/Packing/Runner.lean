import PwshPy.Text.Errors
import PwshPy.Text.Lines
import PwshPy.Text.Quoting
import PwshPy.Packing.EntrySearch

/-! # The runner a pack is written to

A runner is a template with its placeholders replaced in one pass. Only the
lines that carry the payload's data are fixed here, as the two templates have
them; the program around them is left open, with what reading a pack back needs
of it.
-/

namespace PwshPy.Packing

open PathFinder (Path)

inductive RunnerFormat where
  | ps1
  | sh
  deriving DecidableEq

/-! ## Placeholders -/

inductive Placeholder where
  | payload_b64
  | payload_sha256
  | entry
  | entry_name
  | uv_args
  | file_hashes
  | shim
  | argv_env
  | cwd_env
  | uv_args_relative
  | uv_args_anchored
  | python_request
  | path_env
  | uv_path_env
  | git_source
  | caller_env
  deriving DecidableEq

def Placeholder.token : Placeholder → PyStr
  | payload_b64 => py "@@PWSHPY_PAYLOAD_B64@@"
  | payload_sha256 => py "@@PWSHPY_PAYLOAD_SHA256@@"
  | entry => py "@@PWSHPY_ENTRY@@"
  | entry_name => py "@@PWSHPY_ENTRY_NAME@@"
  | uv_args => py "@@PWSHPY_UV_ARGS@@"
  | file_hashes => py "@@PWSHPY_FILE_HASHES@@"
  | shim => py "@@PWSHPY_SHIM@@"
  | argv_env => py "@@PWSHPY_ARGV_ENV@@"
  | cwd_env => py "@@PWSHPY_CWD_ENV@@"
  | uv_args_relative => py "@@PWSHPY_UV_ARGS_RELATIVE@@"
  | uv_args_anchored => py "@@PWSHPY_UV_ARGS_ANCHORED@@"
  | python_request => py "@@PWSHPY_PYTHON_REQUEST@@"
  | path_env => py "@@PWSHPY_PATH_ENV@@"
  | uv_path_env => py "@@PWSHPY_UV_PATH_ENV@@"
  | git_source => py "@@PWSHPY_GIT_SOURCE@@"
  | caller_env => py "@@PWSHPY_CALLER_ENV@@"

/-- `_PLACEHOLDERS` and `_SH_PLACEHOLDERS` -/
def RunnerFormat.placeholders : RunnerFormat → List Placeholder
  | ps1 => [.payload_b64, .payload_sha256, .entry, .uv_args, .file_hashes, .shim, .argv_env,
      .cwd_env, .uv_args_relative, .python_request, .path_env, .uv_path_env, .git_source,
      .caller_env]
  | sh => [.payload_b64, .payload_sha256, .entry, .uv_args, .file_hashes, .shim, .argv_env,
      .cwd_env, .path_env, .uv_path_env, .uv_args_anchored, .python_request, .git_source,
      .caller_env]

/-- A template's text, its placeholders apart. -/
inductive Segment where
  | text (s : PyStr)
  | hole (p : Placeholder)
  deriving DecidableEq

abbrev TemplateLine := List Segment

/-! ## Content -/

structure FileDigest where
  digest : PyStr
  path : PyStr

/-- The specifier characters `_requires_python_value` lets through. -/
def isSpecifierChar (c : Nat) : Bool :=
  isDigit c || (0x41 ≤ c && c ≤ 0x5a) || (0x61 ≤ c && c ≤ 0x7a) || (py ".,<>=!~*+ ").contains c

/-- A `requires-python` the packer accepted, or the empty text for none. -/
structure Specifiers where
  text : PyStr
  chars : ∀ c ∈ text, isSpecifierChar c = true

structure RunnerContent where
  payload_b64 : PyStr
  payload_sha256 : PyStr
  entry : PyStr
  uv_args : List PyStr
  file_hashes : List FileDigest
  python_request : Specifiers
  has_git_source : Bool

def joinWith (sep : PyStr) (texts : List PyStr) : PyStr := sep.intercalate texts

/-- `_anchored_values`, for a `split_relative_requirement`. -/
def anchored_values (split : PyStr → Option (PyStr × PyStr)) :
    PyStr → List PyStr → List (PyStr × Option (PyStr × PyStr))
  | _, [] => []
  | previous, value :: values =>
      (value, if previous = py "--with" then split value else none) ::
        anchored_values split value values

def powershell_string_array (values : List PyStr) : PyStr :=
  joinWith (py ",") (values.map powershell_literal)

def powershell_relative_suffixes (split : PyStr → Option (PyStr × PyStr)) (values : List PyStr) :
    PyStr :=
  powershell_string_array ((anchored_values split [] values).map fun v => (v.2.map Prod.snd).getD [])

def posix_shell_args (values : List PyStr) : PyStr :=
  joinWith (py " ") (values.map posix_shell_word)

def posix_anchored_args (split : PyStr → Option (PyStr × PyStr)) (values : List PyStr) : PyStr :=
  joinWith (py " ") <| (anchored_values split [] values).map fun
    | (value, none) => posix_shell_word value
    | (_, some (head, location)) =>
        posix_shell_word head ++ (py "\"$PWSHPY_CALLER_PREFIX\"" ++ posix_shell_word location)

/-- `"\n".join(...)` of the file list, with the text between digest and path. -/
def hash_lines (sep : PyStr) (content : RunnerContent) : PyStr :=
  joinWith [LF] (content.file_hashes.map fun fh => fh.digest ++ (sep ++ fh.path))

/-- What a placeholder that names a constant of the packer stands for. -/
def constant : Placeholder → Option PyStr
  | .shim => some SHIM_MODULE
  | .argv_env => some (py "PWSHPY_PACK_ARGV")
  | .cwd_env => some (py "PWSHPY_PACK_CWD")
  | .path_env => some (py "PWSHPY_PACK_PATH")
  | .uv_path_env => some (py "PWSHPY_PACK_UV_PATH")
  | .caller_env => some (py "PWSHPY_PACK_CALLER")
  | _ => none

section Render

variable (split : PyStr → Option (PyStr × PyStr)) (content : RunnerContent)

/-- The replacements of `render_runner`. -/
def ps1_values : Placeholder → Option PyStr
  | .payload_b64 => some content.payload_b64
  | .payload_sha256 => some content.payload_sha256
  | .entry => some (powershell_literal content.entry)
  | .entry_name => some content.entry
  | .uv_args => some (powershell_string_array content.uv_args)
  | .file_hashes => some (hash_lines (py " *") content)
  | .uv_args_relative => some (powershell_relative_suffixes split content.uv_args)
  | .python_request => some (powershell_literal content.python_request.text)
  | .git_source => some (if content.has_git_source then py "$true" else py "$false")
  | p => constant p

/-- The replacements of `render_posix_runner`. -/
def sh_values : Placeholder → Option PyStr
  | .payload_b64 => some content.payload_b64
  | .payload_sha256 => some content.payload_sha256
  | .entry => some (posix_shell_word content.entry)
  | .entry_name => some content.entry
  | .uv_args => some (posix_shell_word (posix_shell_args content.uv_args))
  | .file_hashes => some (posix_shell_word (hash_lines (py "  ") content))
  | .uv_args_anchored => some (posix_shell_word (posix_anchored_args split content.uv_args))
  | .python_request => some (posix_shell_word content.python_request.text)
  | .git_source => some (posix_shell_word (if content.has_git_source then py "1" else py "0"))
  | p => constant p

def RunnerFormat.values : RunnerFormat → Placeholder → Option PyStr
  | ps1 => ps1_values split content
  | sh => sh_values split content

end Render

def fillSegment (values : Placeholder → Option PyStr) : Segment → PyStr
  | .text s => s
  | .hole p => (values p).getD p.token

def fillLine (values : Placeholder → Option PyStr) (line : TemplateLine) : PyStr :=
  line.flatMap (fillSegment values)

/-- `_substitute`: every placeholder in one pass. -/
def substitute (values : Placeholder → Option PyStr) (template : List TemplateLine) : PyStr :=
  unlines (template.map (fillLine values))

/-- `_refuse_unrepresentable_names` -/
def refuse_unrepresentable_names (content : RunnerContent) : Except PyError Unit :=
  match (content.entry :: content.file_hashes.map FileDigest.path).find? fun name =>
      name.contains LF || name.contains CR with
  | some name =>
      .error (packError [.text (py "cannot pack "), .repr name,
        .text (py ": a name holding a line break cannot be written into a runner")])
  | none => .ok ()

theorem refuse_unrepresentable_names_eq_ok {content : RunnerContent} :
    refuse_unrepresentable_names content = .ok () ↔
      ∀ name ∈ content.entry :: content.file_hashes.map FileDigest.path, LF ∉ name ∧ CR ∉ name := by
  unfold refuse_unrepresentable_names
  split
  · rename_i name h
    refine iff_of_false (by simp) fun hall => ?_
    have hname := hall name (List.mem_of_find?_eq_some h)
    have hbreak := List.find?_some h
    simp [hname.1, hname.2] at hbreak
  · rename_i h
    refine iff_of_true rfl fun name hname => ?_
    simpa using List.find?_eq_none.mp h name hname

def containsText (needle s : PyStr) : Bool := s.tails.any needle.isPrefixOf

/-- `#>` in the entry name would end the help block of a `.ps1`. -/
def refuse_comment_end (fmt : RunnerFormat) (content : RunnerContent) : Except PyError Unit :=
  match fmt with
  | .sh => .ok ()
  | .ps1 =>
      if containsText (py "#>") content.entry then
        .error (packError [.text (py "cannot pack "), .repr content.entry, .text (py " to a .ps1: "),
          .repr (py "#>"), .text (py (" in the entry name would " ++
            "end the runner's help block early; rename the script"))])
      else
        .ok ()

def RunnerFormat.missing : RunnerFormat → PyStr
  | ps1 => py "runner template is missing placeholder(s): "
  | sh => py "POSIX runner template is missing placeholder(s): "

/-- `render_runner` and `render_posix_runner` -/
def render (split : PyStr → Option (PyStr × PyStr)) (fmt : RunnerFormat)
    (template : List TemplateLine) (content : RunnerContent) : Except PyError PyStr :=
  match fmt.placeholders.filter fun p => ¬ template.any (·.contains (Segment.hole p)) with
  | [] => do
      refuse_unrepresentable_names content
      refuse_comment_end fmt content
      return substitute (fmt.values split content) template
  | missing =>
      .error (packError [.text fmt.missing, .text (joinWith (py ", ") (missing.map Placeholder.token))])

/-! ## The lines of the templates -/

def PAYLOAD_OPEN : PyStr := py "$PwshPyPayload = @'"
def PAYLOAD_CLOSE : PyStr := py "'@"
def SH_HEREDOC : PyStr := py "__PWSHPY_PAYLOAD_B64__"
def ENTRY_PREFIX : PyStr := py "$PwshPyEntry = '"
def SH_ENTRY_PREFIX : PyStr := py "PWSHPY_ENTRY='"

/-- What ends the line above the payload of a `.sh`. -/
def SH_PAYLOAD_OPEN : PyStr := py "<<'" ++ (SH_HEREDOC ++ [QUOTE])

namespace RunnerFormat

def entryLine : RunnerFormat → TemplateLine
  | ps1 => [.text (py "$PwshPyEntry = "), .hole .entry]
  | sh => [.text (py "PWSHPY_ENTRY="), .hole .entry]

/-- The other lines above the payload that carry a placeholder, the list of a
`.ps1`'s files apart. -/
def dataLines : RunnerFormat → List TemplateLine
  | ps1 =>
      [[.text (py "$PwshPyShim = '"), .hole .shim, .text (py "'")],
       [.text (py "$PwshPySha = '"), .hole .payload_sha256, .text (py "'")],
       [.text (py "$PwshPyArgvEnv = '"), .hole .argv_env, .text (py "'")],
       [.text (py "$PwshPyUvArgs = @("), .hole .uv_args, .text (py ")")],
       [.text (py "$PwshPyCwdEnv = '"), .hole .cwd_env, .text (py "'")],
       [.text (py "$PwshPyPathEnv = '"), .hole .path_env, .text (py "'")],
       [.text (py "$PwshPyUvPathEnv = '"), .hole .uv_path_env, .text (py "'")],
       [.text (py "$PwshPyCallerEnv = '"), .hole .caller_env, .text (py "'")],
       [.text (py "$PwshPyUvArgsRelative = @("), .hole .uv_args_relative, .text (py ")")],
       [.text (py "$PwshPyPythonRequest = "), .hole .python_request],
       [.text (py "$PwshPyGitSource = "), .hole .git_source]]
  | sh =>
      [[.text (py "PWSHPY_SHA='"), .hole .payload_sha256, .text (py "'")],
       [.text (py "PWSHPY_UV_ARGS_RAW="), .hole .uv_args],
       [.text (py "PWSHPY_UV_ARGS_ANCHORED_RAW="), .hole .uv_args_anchored],
       [.text (py "PWSHPY_SHIM='"), .hole .shim, .text (py "'")],
       [.text (py "PWSHPY_FILE_HASHES="), .hole .file_hashes],
       [.text (py "PWSHPY_PYTHON_REQUEST="), .hole .python_request],
       [.text (py "PWSHPY_GIT_SOURCE="), .hole .git_source]]

/-- A `.ps1` keeps its file list in a here-string right above the payload. -/
def hashBlock : RunnerFormat → List TemplateLine
  | ps1 => [[.text (py "$PwshPyFileHashes = @'")], [.hole .file_hashes], [.text PAYLOAD_CLOSE], []]
  | sh => []

def payloadBlock : RunnerFormat → List TemplateLine
  | ps1 => [[.text PAYLOAD_OPEN], [.hole .payload_b64], [.text PAYLOAD_CLOSE]]
  | sh => [[.text (py "    cat " ++ SH_PAYLOAD_OPEN)], [.hole .payload_b64], [.text SH_HEREDOC]]

end RunnerFormat

/-- A piece that reading a pack back passes over. -/
def quietPiece (p : PyStr) : Bool :=
  let s := strip p
  s != PAYLOAD_OPEN && s != PAYLOAD_CLOSE && !SH_PAYLOAD_OPEN.isSuffixOf s &&
    !([QUOTE].isSuffixOf s && (ENTRY_PREFIX.isPrefixOf s || SH_ENTRY_PREFIX.isPrefixOf s))

/-- A line of program text. -/
def textLine : TemplateLine → Bool
  | [] => true
  | [.text s] => (splitlines (s ++ [LF])).all quietPiece
  | _ => false

/-- A comment that names the entry between other text. -/
def proseLine : TemplateLine → Bool
  | [.text before, .hole .entry_name, .text after] =>
      (match before.dropWhile isSpace with | [] => false | c :: _ => c != QUOTE) &&
      (match (after.rdropWhile isSpace).getLast? with | none => false | some c => c != QUOTE) &&
      (before ++ after).all fun c => !isLineBoundary c
  | _ => false

/-- A line behind the payload: its placeholders name constants. -/
def tailLine (line : TemplateLine) : Bool :=
  (line.all fun | .text _ => true | .hole p => (constant p).isSome) &&
  (splitlines (fillLine constant line ++ [LF])).all fun p => strip p != PAYLOAD_CLOSE

/-- A runner template: its fixed lines, between text that marks no payload and
no entry. -/
structure RunnerTemplate (fmt : RunnerFormat) where
  first : PyStr
  head : List TemplateLine
  data : List TemplateLine
  tail : List TemplateLine
  /-- the first line begins with no byte-order mark -/
  first_plain : first.head? = some 0x23 ∧ textLine [.text first] = true
  head_plain : ∀ l ∈ head, textLine l = true ∨ proseLine l = true
  data_known : ∀ l ∈ data, l ∈ fmt.dataLines ∨ textLine l = true
  tail_constant : ∀ l ∈ tail, tailLine l = true

def RunnerTemplate.lines {fmt : RunnerFormat} (t : RunnerTemplate fmt) : List TemplateLine :=
  [.text t.first] :: (t.head ++ (fmt.entryLine ::
    (t.data ++ (fmt.hashBlock ++ (fmt.payloadBlock ++ t.tail)))))

end PwshPy.Packing
