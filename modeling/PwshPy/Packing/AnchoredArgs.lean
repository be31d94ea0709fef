import PwshPy.Packing.UvArgs
import PwshPy.Shell.PowerShell

/-! # The uv arguments of the `.ps1`

The `.ps1` keeps the arguments and, beside each, the relative tail the caller's
directory goes in front of. What it builds from the two lists is what the `.sh`
expands its anchored list to.
-/

namespace PwshPy.Packing

open PowerShell (arrayValues utf16 substring trimEnd)

/-- The system a `.ps1` runs on, by the separator of its paths. -/
inductive Host where
  | windows
  | posix

/-- `[IO.Path]::DirectorySeparatorChar` -/
def Host.separator : Host → Nat
  | windows => BACKSLASH
  | posix => 0x2f

/-- The prefix of `Get-PwshPyAnchoredUvArg`, in characters or in units. -/
def prefix_of (host : Host) (directory : PyStr) : PyStr :=
  trimEnd [BACKSLASH, 0x2f] directory ++ [host.separator]

/-- `Get-PwshPyAnchoredUvArg`, on strings of UTF-16 units. An index behind the
end of the second list reads as the empty text. -/
def get_anchored_uv_args (uv_args relatives : List PyStr) (host : Host) (directory : PyStr) :
    List PyStr :=
  (List.range uv_args.length).map fun index =>
    let value := uv_args.getD index []
    let relative := relatives.getD index []
    if relative = [] then value
    else substring value (value.length - relative.length) ++ prefix_of host directory ++ relative

/-- `${PWSHPY_CALLER_CWD%/}/` -/
def posix_prefix_of (directory : PyStr) : PyStr :=
  (if directory.getLast? = some 0x2f then directory.dropLast else directory) ++ [0x2f]

/-- The tail of each value that is re-anchored, the empty text for the others. -/
def relative_tails (values : List PyStr) : List PyStr :=
  (anchored_values split_relative_requirement [] values).map fun v => (v.2.map Prod.snd).getD []

theorem utf16_prefix_of (host : Host) (directory : PyStr) :
    prefix_of host (utf16 directory) = utf16 (prefix_of host directory) := by
  have hseparator : utf16 [host.separator] = [host.separator] := by
    cases host <;> rfl
  have htrim := @PowerShell.trimEnd_utf16 [BACKSLASH, 0x2f] (by decide) directory
  rw [prefix_of, prefix_of, PowerShell.utf16_append, hseparator, htrim]

theorem range_map_getD {α : Type} (f : PyStr → PyStr → α) (values tails : List PyStr)
    (hlength : tails.length = values.length) :
    (List.range values.length).map (fun i => f (values.getD i []) (tails.getD i [])) =
      List.zipWith f values tails := by
  apply List.ext_getElem
  · simp [hlength]
  · intro i hi hi'
    simp only [List.length_map, List.length_range] at hi
    simp [hi, hlength]

/-- Cutting a value by its tail's length and joining its two parts agree. -/
theorem cut_by_tail (host : Host) (directory previous value : PyStr) :
    let tail := (((if previous = py "--with" then split_relative_requirement value
      else none).map Prod.snd).getD [] : PyStr)
    (if utf16 tail = [] then utf16 value
      else substring (utf16 value) ((utf16 value).length - (utf16 tail).length) ++
        prefix_of host (utf16 directory) ++ utf16 tail) =
      utf16 (anchor (prefix_of host directory) previous value) := by
  unfold anchor
  by_cases hwith : previous = py "--with"
  · simp only [if_pos hwith]
    cases hsplit : split_relative_requirement value with
    | none => rfl
    | some parts =>
        obtain ⟨head, location⟩ := parts
        obtain ⟨hvalue, hlocation⟩ := split_relative_requirement_spec hsplit
        have htail : utf16 location ≠ [] := fun h => hlocation (PowerShell.utf16_eq_nil.mp h)
        simp only [Option.map_some, Option.getD_some, if_neg htail]
        rw [← hvalue, PowerShell.substring_utf16, utf16_prefix_of, PowerShell.utf16_append,
          PowerShell.utf16_append]
  · simp only [if_neg hwith]
    rfl

theorem zipWith_cut (host : Host) (directory previous : PyStr) (values : List PyStr) :
    List.zipWith (fun value relative =>
        if relative = [] then value
        else substring value (value.length - relative.length) ++
          prefix_of host (utf16 directory) ++ relative)
      (values.map utf16)
      (((anchored_values split_relative_requirement previous values).map fun v =>
        (v.2.map Prod.snd).getD []).map utf16) =
      (List.zipWith (anchor (prefix_of host directory)) (previous :: values) values).map
        utf16 := by
  induction values generalizing previous with
  | nil => rfl
  | cons value values ih =>
      simp only [anchored_values, List.map_cons, List.zipWith_cons_cons]
      rw [ih value, cut_by_tail host directory previous value]

theorem length_anchored_values (split : PyStr → Option (PyStr × PyStr)) (previous : PyStr)
    (values : List PyStr) : (anchored_values split previous values).length = values.length := by
  induction values generalizing previous with
  | nil => rfl
  | cons value values ih => rw [anchored_values, List.length_cons, List.length_cons, ih]

/-- The `.ps1` gets the arguments the `.sh` means. -/
theorem get_anchored_uv_args_eq (values : List PyStr) (host : Host) (directory : PyStr) :
    get_anchored_uv_args (values.map utf16) ((relative_tails values).map utf16) host
      (utf16 directory) = (anchored (prefix_of host directory) values).map utf16 := by
  have hlength : ((relative_tails values).map utf16).length = (values.map utf16).length := by
    simp [relative_tails, length_anchored_values]
  rw [get_anchored_uv_args]
  exact (range_map_getD (fun value relative =>
    if relative = [] then value
    else substring value (value.length - relative.length) ++
      prefix_of host (utf16 directory) ++ relative) _ _ hlength).trans
    (zipWith_cut host directory [] values)

theorem arrayValues_string_array (values : List PyStr) :
    arrayValues (powershell_string_array values) = some values := by
  cases values with
  | nil => rfl
  | cons value later => exact PowerShell.read_array (Or.inl rfl) value later

theorem unquote_literal_body (value : PyStr) :
    unquote_powershell_literal (powershell_literal value).tail.dropLast = value := by
  rw [powershell_literal, List.tail_cons, List.dropLast_concat, unquote_doubled]

/-- In a directory without a separator at its end, and in `/`, both runners put
the same text in front. -/
theorem prefix_of_posix {directory : PyStr}
    (h : directory = [0x2f] ∨ ∃ before c, directory = before ++ [c] ∧ c ≠ 0x2f ∧ c ≠ BACKSLASH) :
    prefix_of .posix directory = posix_prefix_of directory := by
  cases h with
  | inl hroot =>
      subst hroot
      decide
  | inr hname =>
      obtain ⟨before, c, rfl, hslash, hback⟩ := hname
      have hkept : ¬[BACKSLASH, 0x2f].contains c = true := by
        simp [hslash, hback]
      have hlast : ¬(before ++ [c]).getLast? = some 0x2f := by
        simpa using hslash
      rw [prefix_of, posix_prefix_of, trimEnd, List.rdropWhile_concat_neg _ _ _ hkept, if_neg hlast]
      rfl

/-- PowerShell reads back what the packer writes, and the arguments it anchors
are the ones the shell expands its list to when the prefix is the same. -/
theorem runners_anchor_the_same_args (content : RunnerContent) (host : Host) (directory : PyStr) :
    (∀ values, arrayValues (powershell_string_array values) = some values) ∧
    (∀ value, unquote_powershell_literal (powershell_literal value).tail.dropLast = value) ∧
    (∃ uv_args relatives args,
      (ps1_values split_relative_requirement content .uv_args).bind arrayValues = some uv_args ∧
      (ps1_values split_relative_requirement content .uv_args_relative).bind arrayValues =
        some relatives ∧
      get_anchored_uv_args (uv_args.map utf16) (relatives.map utf16) host (utf16 directory) =
        args.map utf16 ∧
      ((∀ value ∈ content.uv_args, 0 ∉ value) → ∀ (sh : Shell.Context) (depth : Nat),
        sh.vars (py "PWSHPY_UV_ARGS_ANCHORED_RAW") =
          some (posix_anchored_args split_relative_requirement content.uv_args) →
        sh.vars (py "PWSHPY_CALLER_PREFIX") = some (prefix_of host directory) →
        Shell.run sh (depth + 2) EXPAND_ANCHORED_RAW =
          some { sh with positional := args ++ sh.positional })) ∧
    (directory = [0x2f] ∨ (∃ before c, directory = before ++ [c] ∧ c ≠ 0x2f ∧ c ≠ BACKSLASH) →
      prefix_of .posix directory = posix_prefix_of directory) := by
  refine ⟨arrayValues_string_array, unquote_literal_body,
    ⟨content.uv_args, relative_tails content.uv_args,
      anchored (prefix_of host directory) content.uv_args,
      arrayValues_string_array _, arrayValues_string_array _,
      get_anchored_uv_args_eq content.uv_args host directory, ?_⟩, prefix_of_posix⟩
  intro hzero sh depth hraw hprefixed
  exact run_expand_anchored hzero hraw hprefixed depth

theorem runners_anchor_the_same_args_at : ∃ (sh : Shell.Context) (args : List PyStr),
    sh.vars (py "PWSHPY_CALLER_PREFIX") = some (posix_prefix_of (py "/home/me")) ∧
    Shell.run sh 2 EXPAND_ANCHORED_RAW = some { sh with positional := args ++ sh.positional } ∧
    get_anchored_uv_args (quotedContent.uv_args.map utf16)
      ([[], [], [], py "./x.whl"].map utf16) .posix (utf16 (py "/home/me")) = args.map utf16 := by
  let sh : Shell.Context :=
    ⟨fun n => if n = py "PWSHPY_CALLER_PREFIX" then some (py "/home/me/") else
      some (posix_anchored_args split_relative_requirement quotedContent.uv_args), []⟩
  obtain ⟨-, -, ⟨uv_args, relatives, args, huv, hrel, hargs, hrun⟩, hsame⟩ :=
    runners_anchor_the_same_args quotedContent .posix (py "/home/me")
  have huv' : some quotedContent.uv_args = some uv_args :=
    (arrayValues_string_array _).symm.trans huv
  have hrel' : some [[], [], [], py "./x.whl"] = some relatives := by
    rw [← hrel]
    decide
  cases huv'
  cases hrel'
  have hsamePrefix := hsame (Or.inr ⟨py "/home/m", 0x65, by decide⟩)
  exact ⟨sh, args, by rw [← hsamePrefix]; decide, hrun (by decide) sh 0 (by decide) (by decide), hargs⟩

end PwshPy.Packing
