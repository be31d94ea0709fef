import PwshPy.Handover.Shim
import PwshPy.Packing.ScriptBlock
import PwshPy.Text.Repr

/-! # The text of the generated shim

A pack runs a generated shim in front of its entry. The entry's block travels on
top of it, and is what is read there again.
-/

namespace PwshPy.Packing

open Handover (ARGV_ENV_VAR ARGV_ENCODING_TAG CWD_ENV_VAR PATH_ENV_VAR UV_PATH_ENV_VAR
  CALLER_ENV_VAR CALLER_ENV_NAMES)

/-- What `str.format` puts into the shim beside the block, each by its `repr`. -/
inductive ShimField where
  | entry
  | env_var
  | tag
  | cwd_env
  | cwd_exit
  | path_env
  | uv_path_env
  | caller_env
  | caller_names

inductive ShimPiece where
  | text (s : String)
  | field (f : ShimField)

abbrev ShimLine := List ShimPiece

def SHIM_CWD_EXIT : Nat := 70

/-- `SHIM_SOURCE` behind its block, line by line. -/
def SHIM_SOURCE : List ShimLine :=
  [[.text "\"\"\"Generated by pwshpy pack - returns to the caller's cwd, rebuilds",
      .text " argv, runs the entry.\"\"\""],
    [],
    [.text "import base64"],
    [.text "import os"],
    [.text "import runpy"],
    [.text "import sys"],
    [],
    [.text "_HERE = os.path.dirname(os.path.abspath(__file__))"],
    [.text "_ENTRY = os.path.join(_HERE, ", .field .entry, .text ")"],
    [],
    [],
    [.text "def _return_to_the_callers_directory():"],
    [.text "    \"\"\"Change to the directory an elevated runner names: uv itself",
      .text " started elsewhere."],
    [],
    [.text "    A directory the elevated account cannot enter (an NFS export with",
      .text " root squashing) ends the"],
    [.text "    run with one line naming it, before any of the script runs."],
    [.text "    \"\"\""],
    [.text "    directory = os.environ.pop(", .field .cwd_env, .text ", None)"],
    [.text "    if directory is None:"],
    [.text "        return"],
    [.text "    try:"],
    [.text "        os.chdir(directory)"],
    [.text "    except OSError as error:"],
    [.text "        reason = error.strerror or str(error)"],
    [.text "        sys.stderr.write(\"pwshpy pack: cannot return to the working",
      .text " directory \" + directory + \": \" + reason + \"\\n\")"],
    [.text "        raise SystemExit(", .field .cwd_exit, .text ")"],
    [],
    [],
    [.text "def _restore_the_callers_path():"],
    [.text "    \"\"\"Give the script the PATH its caller had: the elevated runner",
      .text " ran uv on trusted directories only."],
    [],
    [.text "    What uv put in front of the PATH it was given stays in front, so the",
      .text " script sees what an"],
    [.text "    unelevated run sees. It is cut off the PATH the runner hands over",
      .text " beside the caller's, never"],
    [.text "    guessed as dirname(sys.executable): uv adds the script environment's",
      .text " bin for a script with"],
    [.text "    dependencies, and for one without it may spell the interpreter's",
      .text " directory differently"],
    [.text "    (cpython-3.15.0-... for a cpython-3.15-... interpreter, measured",
      .text " with uv 0.13)."],
    [.text "    \"\"\""],
    [.text "    path = os.environ.pop(", .field .path_env, .text ", None)"],
    [.text "    given = os.environ.pop(", .field .uv_path_env, .text ", None)"],
    [.text "    if path is not None:"],
    [.text "        os.environ[\"PATH\"] =",
      .text " _entries_uv_added(os.environ.get(\"PATH\", \"\"), given) + path"],
    [],
    [],
    [.text "def _entries_uv_added(current, given):"],
    [.text "    \"\"\"What precedes ``given`` in ``current``, its trailing separator",
      .text " included, else \"\"."],
    [],
    [.text "    \"\" also when the hand-over does not fit (not handed over, not a",
      .text " suffix, or one that starts inside"],
    [.text "    an entry): what uv added cannot be told apart then, and the caller's",
      .text " PATH alone is the safe answer."],
    [.text "    \"\"\""],
    [.text "    if given is None or not current.endswith(given):"],
    [.text "        return \"\""],
    [.text "    added = current[: len(current) - len(given)]"],
    [.text "    return added if added.endswith(os.pathsep) else \"\""],
    [],
    [],
    [.text "def _restore_the_callers_home():"],
    [.text "    \"\"\"Give the script the HOME, XDG directories, netrc and temporary",
      .text " directories its caller had ([159])."],
    [],
    [.text "    A root run ran uv and git with the running account's own, so neither",
      .text " read nor wrote the caller's"],
    [.text "    files; it marks the hand-over with one variable and passes each",
      .text " value the caller had in a variable"],
    [.text "    of its own, and a name the caller had not set is removed again. Only",
      .text " the fixed names below are"],
    [.text "    restored, whatever the marker lists: the environment is the caller's",
      .text " to preset (a run that hands"],
    [.text "    nothing over leaves it as it came), so a listed name could otherwise",
      .text " set any variable. Every"],
    [.text "    hand-over variable is consumed."],
    [.text "    \"\"\""],
    [.text "    handed_over = os.environ.pop(", .field .caller_env, .text ", None) is not None"],
    [.text "    prefix = ", .field .caller_env, .text " + \"_\""],
    [.text "    values = \x7b", .text "\x7d"],
    [.text "    for variable in [name for name in os.environ if",
      .text " name.startswith(prefix)]:"],
    [.text "        values[variable[len(prefix) :]] = os.environ.pop(variable)"],
    [.text "    if not handed_over:"],
    [.text "        return"],
    [.text "    for name in ", .field .caller_names, .text ":"],
    [.text "        if name in values:"],
    [.text "            os.environ[name] = values[name]"],
    [.text "        else:"],
    [.text "            os.environ.pop(name, None)"],
    [],
    [],
    [.text "def _argv_from_environment():"],
    [.text "    \"\"\"Decode the out-of-band argument vector written by the",
      .text " PowerShell runner."],
    [],
    [.text "    Each argument is UTF-8 then base64, joined with \"|\" behind a",
      .text " version tag, so an"],
    [.text "    empty-string argument survives and no separator can occur inside a",
      .text " piece. Without the"],
    [.text "    variable (the POSIX runner forwards its arguments as they are) the",
      .text " shim's own are kept."],
    [.text "    \"\"\""],
    [.text "    blob = os.environ.pop(", .field .env_var, .text ", None)"],
    [.text "    if blob is None:"],
    [.text "        return sys.argv[1:]"],
    [.text "    if not blob:"],
    [.text "        return []"],
    [.text "    tag, separator, rest = blob.partition(\"|\")"],
    [.text "    if tag != ", .field .tag, .text ":"],
    [.text "        raise SystemExit(\"pwshpy pack: unsupported argument encoding \"",
      .text " + tag)"],
    [.text "    if not separator:"],
    [.text "        return []"],
    [.text "    return [base64.b64decode(piece).decode(\"utf-8\") for piece in",
      .text " rest.split(\"|\")]"],
    [],
    [],
    [.text "_return_to_the_callers_directory()"],
    [.text "_restore_the_callers_path()"],
    [.text "_restore_the_callers_home()"],
    [.text "sys.argv = [_ENTRY] + _argv_from_environment()"],
    [.text "if _HERE not in sys.path:"],
    [.text "    sys.path.insert(0, _HERE)"],
    [.text "runpy.run_path(_ENTRY, run_name=\"__main__\")"]]

def ShimField.value (table : Nat → Bool) (entry : PyStr) : ShimField → PyStr
  | .entry => pyRepr table entry
  | .env_var => pyRepr table ARGV_ENV_VAR
  | .tag => pyRepr table ARGV_ENCODING_TAG
  | .cwd_env => pyRepr table CWD_ENV_VAR
  | .cwd_exit => decimal SHIM_CWD_EXIT
  | .path_env => pyRepr table PATH_ENV_VAR
  | .uv_path_env => pyRepr table UV_PATH_ENV_VAR
  | .caller_env => pyRepr table CALLER_ENV_VAR
  | .caller_names =>
      py "(" ++ ((py ", ").intercalate (CALLER_ENV_NAMES.map (pyRepr table)) ++ py ")")

def ShimPiece.rendered (table : Nat → Bool) (entry : PyStr) : ShimPiece → PyStr
  | .text s => py s
  | .field f => f.value table entry

def shim_line (table : Nat → Bool) (entry : PyStr) (line : ShimLine) : PyStr :=
  line.flatMap (ShimPiece.rendered table entry)

def render_shim (table : Nat → Bool) (entry metadata : PyStr) : PyStr :=
  metadata ++ unlines (SHIM_SOURCE.map (shim_line table entry))

/-! ## No line of the shim opens a block -/

/-- Neither the end of a line nor `#`. -/
def isPlain (c : Nat) : Bool := !isLineBoundary c && c != 0x23

def ShimPiece.Plain : ShimPiece → Prop
  | .text s => (py s).all isPlain = true
  | .field _ => True

/-- A literal is read by the characters it is spelled with. -/
theorem plain_literal {s : String} {spelling : List Char} (h : s = String.ofList spelling)
    (hplain : (spelling.all fun c => isPlain c.toNat) = true) : (ShimPiece.text s).Plain := by
  subst h
  rw [ShimPiece.Plain, py, String.toList_ofList, List.all_map]
  exact hplain

theorem shim_source_plain : ∀ line ∈ SHIM_SOURCE, ∀ piece ∈ line, piece.Plain := by
  unfold SHIM_SOURCE
  simp only [List.forall_mem_cons]
  repeat' apply And.intro
  all_goals
    first
    | exact plain_literal rfl (by decide +kernel)
    | exact trivial
    | exact fun _ h => absurd h List.not_mem_nil

section Rendered

variable (table : Nat → Bool) (entry : PyStr)

theorem oneLine_joined {texts : List PyStr} (h : ∀ text ∈ texts, OneLine text) :
    OneLine ((py ", ").intercalate texts) := by
  have hcomma : OneLine (py ", ") := by
    unfold OneLine
    decide
  exact (forall_mem_intercalate hcomma).mpr h

theorem oneLine_value (f : ShimField) : OneLine (f.value table entry) := by
  cases f with
  | entry => exact oneLine_pyRepr table entry
  | env_var => exact oneLine_pyRepr table _
  | tag => exact oneLine_pyRepr table _
  | cwd_env => exact oneLine_pyRepr table _
  | cwd_exit =>
      show ∀ c ∈ decimal SHIM_CWD_EXIT, isLineBoundary c = false
      decide
  | path_env => exact oneLine_pyRepr table _
  | uv_path_env => exact oneLine_pyRepr table _
  | caller_env => exact oneLine_pyRepr table _
  | caller_names =>
      have hopen : OneLine (py "(") := by unfold OneLine; decide
      have hclose : OneLine (py ")") := by unfold OneLine; decide
      have hnames : OneLine ((py ", ").intercalate (CALLER_ENV_NAMES.map (pyRepr table))) := by
        refine oneLine_joined fun text htext => ?_
        obtain ⟨name, -, rfl⟩ := List.mem_map.mp htext
        exact oneLine_pyRepr table name
      exact hopen.append (hnames.append hclose)

theorem pyRepr_head (s : PyStr) : (pyRepr table s).head? ≠ some 0x23 := by
  rw [pyRepr, List.head?_cons]
  unfold reprQuote
  split <;> decide

/-- No value the shim is given begins a comment. -/
theorem value_head (f : ShimField) :
    f.value table entry ≠ [] ∧ (f.value table entry).head? ≠ some 0x23 := by
  cases f with
  | entry => exact ⟨List.cons_ne_nil _ _, pyRepr_head table entry⟩
  | env_var => exact ⟨List.cons_ne_nil _ _, pyRepr_head table _⟩
  | tag => exact ⟨List.cons_ne_nil _ _, pyRepr_head table _⟩
  | cwd_env => exact ⟨List.cons_ne_nil _ _, pyRepr_head table _⟩
  | cwd_exit =>
      show decimal SHIM_CWD_EXIT ≠ [] ∧ (decimal SHIM_CWD_EXIT).head? ≠ some 0x23
      decide
  | path_env => exact ⟨List.cons_ne_nil _ _, pyRepr_head table _⟩
  | uv_path_env => exact ⟨List.cons_ne_nil _ _, pyRepr_head table _⟩
  | caller_env => exact ⟨List.cons_ne_nil _ _, pyRepr_head table _⟩
  | caller_names => exact ⟨List.cons_ne_nil _ _, fun h => absurd (Option.some.inj h) (by decide)⟩

/-- A line of plain pieces is one line, and does not begin with `#`. -/
theorem shim_line_spec {line : ShimLine} (h : ∀ piece ∈ line, piece.Plain) :
    OneLine (shim_line table entry line) ∧ (shim_line table entry line).head? ≠ some 0x23 := by
  induction line with
  | nil => exact ⟨fun c hc => absurd hc List.not_mem_nil, by simp [shim_line]⟩
  | cons piece line ih =>
      rw [List.forall_mem_cons] at h
      obtain ⟨hlater, hhead⟩ := ih h.2
      have hsplit : shim_line table entry (piece :: line) =
          piece.rendered table entry ++ shim_line table entry line := List.flatMap_cons
      rw [hsplit, List.head?_append]
      cases piece with
      | text s =>
          have hplain : ∀ c ∈ py s, isLineBoundary c = false ∧ c ≠ 0x23 := by
            intro c hc
            have hc := List.all_eq_true.mp h.1 c hc
            simpa [isPlain] using hc
          refine ⟨OneLine.append (fun c hc => (hplain c hc).1) hlater, ?_⟩
          show (py s).head?.or _ ≠ _
          cases hs : py s with
          | nil => exact hhead
          | cons c rest =>
              have hc := (hplain c (hs ▸ List.mem_cons_self)).2
              exact fun heq => hc (Option.some.inj heq)
      | field f =>
          obtain ⟨hne, hvalue⟩ := value_head table entry f
          refine ⟨(oneLine_value table entry f).append hlater, ?_⟩
          show (f.value table entry).head?.or _ ≠ _
          cases hf : f.value table entry with
          | nil => exact absurd hf hne
          | cons c rest =>
              rw [hf] at hvalue
              exact hvalue

end Rendered

/-! ## Reading the block back -/

theorem splitlines_oneLines {ls : List PyStr} (h : ∀ l ∈ ls, OneLine l) (text : PyStr) :
    splitlines (unlines ls ++ text) = ls ++ splitlines text := by
  induction ls with
  | nil => rfl
  | cons l ls ih =>
      rw [List.forall_mem_cons] at h
      rw [unlines_cons, List.append_assoc, List.cons_append, splitlines_append_line,
        splitlines_line h.1, ih h.2]
      rfl

/-- What `str.splitlines` returns are lines. -/
theorem oneLine_of_mem_splitOnP {s l : PyStr} (h : l ∈ s.splitOnP isLineBoundary) : OneLine l := by
  induction s generalizing l with
  | nil =>
      obtain rfl := List.mem_singleton.mp h
      exact fun c hc => absurd hc List.not_mem_nil
  | cons c s ih =>
      rw [List.splitOnP_cons_eq_if_modifyHead] at h
      split at h
      · cases List.mem_cons.mp h with
        | inl hnil =>
            subst hnil
            exact fun c hc => absurd hc List.not_mem_nil
        | inr hmem => exact ih hmem
      · rename_i hc
        cases hpieces : s.splitOnP isLineBoundary with
        | nil => exact absurd hpieces (List.splitOnP_ne_nil _ _)
        | cons first pieces =>
            rw [hpieces, List.modifyHead_cons] at h
            rw [hpieces] at ih
            cases List.mem_cons.mp h with
            | inl hfirst =>
                subst hfirst
                intro d hd
                cases List.mem_cons.mp hd with
                | inl hsame => exact hsame ▸ (Bool.not_eq_true _ ▸ hc)
                | inr hmem => exact ih List.mem_cons_self d hmem
            | inr hmem => exact ih (List.mem_cons_of_mem _ hmem)

theorem oneLine_of_mem_splitlines {s l : PyStr} (h : l ∈ splitlines s) : OneLine l := by
  unfold splitlines at h
  dsimp only at h
  split at h
  · exact oneLine_of_mem_splitOnP (List.dropLast_subset _ h)
  · exact oneLine_of_mem_splitOnP h

/-- The end of a block is read before anything that follows it. -/
theorem block_end_again {rest block : List PyStr} (h : block_end rest = some block)
    (more : List PyStr) : block_end (block ++ more) = some block ∧ ∀ l ∈ block, l ∈ rest := by
  induction rest generalizing block with
  | nil => cases h
  | cons line rest ih =>
      rw [block_end] at h
      by_cases hclose : rstrip line = PEP723_CLOSE
      · rw [if_pos hclose] at h
        cases h
        exact ⟨by rw [List.singleton_append, block_end, if_pos hclose], by simp⟩
      · rw [if_neg hclose] at h
        split at h
        · rename_i hcontent
          obtain ⟨later, hlater, rfl⟩ := Option.map_eq_some_iff.mp h
          obtain ⟨hagain, hmem⟩ := ih hlater
          refine ⟨?_, ?_⟩
          · rw [List.cons_append, block_end, if_neg hclose, if_pos hcontent, hagain]
            rfl
          · intro l hl
            cases List.mem_cons.mp hl with
            | inl hfirst => exact hfirst ▸ List.mem_cons_self
            | inr hmore => exact List.mem_cons_of_mem _ (hmem l hmore)
        · cases h

theorem first_block_ok {lines : List PyStr} {metadata : PyStr}
    (h : first_block lines = .ok metadata) :
    metadata = [] ∨ ∃ line block, metadata = unlines (line :: block) ∧
      rstrip line = PEP723_OPEN ∧ (∀ more, block_end (block ++ more) = some block) ∧
      ∀ l ∈ line :: block, l ∈ lines := by
  induction lines with
  | nil =>
      cases h
      exact Or.inl rfl
  | cons line rest ih =>
      rw [first_block] at h
      by_cases hopen : rstrip line = PEP723_OPEN
      · rw [if_neg (not_not_intro hopen)] at h
        split at h
        · rename_i block hblock
          cases h
          refine Or.inr ⟨line, block, rfl, hopen, fun more => (block_end_again hblock more).1, ?_⟩
          rw [List.forall_mem_cons]
          exact ⟨List.mem_cons_self,
            fun l hl => List.mem_cons_of_mem _ ((block_end_again hblock []).2 l hl)⟩
        · cases h
      · rw [if_pos hopen] at h
        cases ih h with
        | inl hnil => exact Or.inl hnil
        | inr hblock =>
            obtain ⟨first, block, hmetadata, hfirst, hagain, hmem⟩ := hblock
            exact Or.inr ⟨first, block, hmetadata, hfirst, hagain,
              fun l hl => List.mem_cons_of_mem _ (hmem l hl)⟩

theorem first_block_of_none {lines : List PyStr} (h : ∀ l ∈ lines, rstrip l ≠ PEP723_OPEN) :
    first_block lines = .ok [] := by
  induction lines with
  | nil => rfl
  | cons line lines ih =>
      rw [List.forall_mem_cons] at h
      rw [first_block, if_pos h.1, ih h.2]

/-- The shim carries the block of the entry, whatever the entry is called. -/
theorem extract_render_shim (table : Nat → Bool) {source metadata : PyStr} (entry : PyStr)
    (h : extract_script_metadata source = .ok metadata) :
    extract_script_metadata (render_shim table entry metadata) = .ok metadata := by
  have hshim : ∀ l ∈ SHIM_SOURCE.map (shim_line table entry),
      OneLine l ∧ rstrip l ≠ PEP723_OPEN := by
    intro l hl
    obtain ⟨line, hline, rfl⟩ := List.mem_map.mp hl
    obtain ⟨hone, hhead⟩ := shim_line_spec table entry (shim_source_plain line hline)
    refine ⟨hone, ?_⟩
    intro hopen
    obtain ⟨more, hmore⟩ := List.rdropWhile_prefix isSpace (shim_line table entry line)
    have hstarts : rstrip (shim_line table entry line) ++ more = shim_line table entry line := hmore
    rw [hopen] at hstarts
    rw [← hstarts] at hhead
    exact hhead rfl
  have htail : splitlines (unlines (SHIM_SOURCE.map (shim_line table entry))) =
      SHIM_SOURCE.map (shim_line table entry) := by
    have hlines := splitlines_oneLines (fun l hl => (hshim l hl).1) []
    rw [List.append_nil] at hlines
    rw [hlines]
    exact List.append_nil _
  cases first_block_ok h with
  | inl hnil =>
      subst hnil
      rw [extract_script_metadata, render_shim, List.nil_append, htail]
      exact first_block_of_none fun l hl => (hshim l hl).2
  | inr hblock =>
      obtain ⟨line, block, rfl, hopen, hagain, hmem⟩ := hblock
      have hones : ∀ l ∈ line :: block, OneLine l :=
        fun l hl => oneLine_of_mem_splitlines (hmem l hl)
      rw [extract_script_metadata, render_shim, splitlines_oneLines hones, List.cons_append,
        first_block, if_neg (not_not_intro hopen), hagain]

end PwshPy.Packing
