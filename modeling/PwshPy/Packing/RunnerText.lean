import PwshPy.Files.Encodable
import PwshPy.Packing.PackScript

/-! # The characters of a runner

A runner is the text of its template with the entry, the names of the packed
files and the arguments for uv written into it, quoted. So it can be encoded
exactly when each of them can.
-/

namespace PwshPy.Packing

open Files (Clean clean_py clean_append clean_cons clean_nil clean_flatMap clean_intercalate
  clean_of_lt not_surrogate_of_lt)

/-! ## The parts of a runner -/

theorem clean_joinWith {sep : PyStr} (hsep : Clean sep) {texts : List PyStr} :
    Clean (joinWith sep texts) ↔ ∀ text ∈ texts, Clean text := clean_intercalate hsep

section Parts

variable {value : PyStr} {values : List PyStr}

theorem clean_singleton {c : Nat} : Clean [c] ↔ isSurrogate c = false := by
  rw [clean_cons, and_iff_left clean_nil]

/-- A quoted text holds the value's characters and quotes. -/
theorem clean_quoted {f : Nat → PyStr} (hf : ∀ c, Clean (f c) ↔ isSurrogate c = false) :
    Clean (QUOTE :: (value.flatMap f ++ [QUOTE])) ↔ Clean value := by
  have hquote : isSurrogate QUOTE = false := by decide
  rw [clean_cons, clean_append, clean_singleton, and_iff_right hquote, and_iff_left hquote,
    clean_flatMap]
  exact forall₂_congr fun c _ => hf c

theorem clean_powershell_literal : Clean (powershell_literal value) ↔ Clean value := by
  refine clean_quoted fun c => ?_
  split
  · rw [clean_cons, clean_singleton, and_self]
  · exact clean_singleton

theorem clean_posix_shell_word : Clean (posix_shell_word value) ↔ Clean value := by
  refine clean_quoted fun c => ?_
  split
  · rename_i hquote
    rw [hquote]
    exact iff_of_true (by unfold Clean; decide) (by decide)
  · exact clean_singleton

theorem clean_powershell_string_array :
    Clean (powershell_string_array values) ↔ ∀ v ∈ values, Clean v := by
  rw [powershell_string_array, clean_joinWith (clean_py ","), List.forall_mem_map]
  exact forall₂_congr fun v _ => clean_powershell_literal

theorem clean_posix_shell_args : Clean (posix_shell_args values) ↔ ∀ v ∈ values, Clean v := by
  rw [posix_shell_args, clean_joinWith (clean_py " "), List.forall_mem_map]
  exact forall₂_congr fun v _ => clean_posix_shell_word

/-- A split value gives parts of itself. -/
theorem clean_anchored_values (h : ∀ v ∈ values, Clean v) (previous : PyStr) :
    ∀ v ∈ anchored_values split_relative_requirement previous values,
      Clean v.1 ∧ ∀ parts, v.2 = some parts → Clean parts.1 ∧ Clean parts.2 := by
  induction values generalizing previous with
  | nil => exact fun _ hv => absurd hv List.not_mem_nil
  | cons value values ih =>
      rw [List.forall_mem_cons] at h
      rw [anchored_values, List.forall_mem_cons]
      refine ⟨⟨h.1, fun parts hparts => ?_⟩, ih h.2 value⟩
      split at hparts
      · obtain ⟨hvalue, -⟩ := split_relative_requirement_spec hparts
        exact clean_append.mp (hvalue ▸ h.1)
      · cases hparts

theorem clean_powershell_relative_suffixes (h : ∀ v ∈ values, Clean v) :
    Clean (powershell_relative_suffixes split_relative_requirement values) := by
  rw [powershell_relative_suffixes, clean_powershell_string_array, List.forall_mem_map]
  intro v hv
  cases hparts : v.2 with
  | none => exact clean_nil
  | some parts => exact ((clean_anchored_values h [] v hv).2 parts hparts).2

theorem clean_posix_anchored_args (h : ∀ v ∈ values, Clean v) :
    Clean (posix_anchored_args split_relative_requirement values) := by
  have hargs : ∀ v ∈ anchored_values split_relative_requirement [] values,
      Clean (posix_anchored_arg v) := by
    intro v hv
    obtain ⟨value, parts⟩ := v
    obtain ⟨hvalue, hparts⟩ := clean_anchored_values h [] (value, parts) hv
    cases parts with
    | none => exact clean_posix_shell_word.mpr hvalue
    | some parts =>
        obtain ⟨hhead, hlocation⟩ := hparts parts rfl
        exact clean_append.mpr ⟨clean_posix_shell_word.mpr hhead,
          clean_append.mpr ⟨clean_py _, clean_posix_shell_word.mpr hlocation⟩⟩
  refine (clean_joinWith (clean_py " ")).mpr (List.forall_mem_map.mpr hargs)

theorem clean_hash_lines {sep : PyStr} (hsep : Clean sep) {content : RunnerContent}
    (hdigest : ∀ fh ∈ content.file_hashes, Clean fh.digest) :
    Clean (hash_lines sep content) ↔ ∀ fh ∈ content.file_hashes, Clean fh.path := by
  have hlf : Clean [LF] := clean_py "\n"
  rw [hash_lines, clean_joinWith hlf, List.forall_mem_map]
  refine forall₂_congr fun fh hfh => ?_
  rw [clean_append, clean_append, and_iff_right hsep, and_iff_right (hdigest fh hfh)]

end Parts

/-! ## The generated data -/

theorem clean_base64 (data : Bytes) : Clean (Bytes.base64 data) :=
  clean_of_lt fun _ => Bytes.lt_of_mem_base64

theorem mem_base64_lines {width n : Nat} {blob piece : PyStr}
    (h : piece ∈ base64_lines width n blob) : ∀ c ∈ piece, c ∈ blob := by
  induction n, blob using base64_lines.induct width with
  | case1 blob => exact absurd h List.not_mem_nil
  | case2 n => exact absurd h List.not_mem_nil
  | case3 n blob hne ih =>
      rw [base64_lines, List.mem_cons] at h
      · cases h with
        | inl hfirst => exact hfirst ▸ fun c => List.mem_of_mem_take
        | inr hlater => exact fun c hc => List.mem_of_mem_drop (ih hlater c hc)
      · exact hne

theorem clean_chunk_base64 (data : Bytes) : Clean (chunk_base64 (Bytes.base64 data)) := by
  have hlf : Clean [LF] := clean_py "\n"
  refine (clean_joinWith hlf).mpr fun piece hpiece c hc => ?_
  exact clean_base64 data c (mem_base64_lines hpiece c hc)

theorem clean_hexdigest (packer : Packer) (data : Bytes) : Clean (hexdigest packer data) := by
  refine clean_flatMap.mpr fun b _ => forall_mem_hex (P := fun c => isSurrogate c = false) ?_ 2 _
  exact fun c _ hhigh => not_surrogate_of_lt (by omega)

theorem clean_specifiers (request : Specifiers) : Clean request.text := by
  refine clean_of_lt fun c hc => ?_
  have hchar := request.chars c hc
  simp only [isSpecifierChar, isDigit, Bool.or_eq_true, Bool.and_eq_true, decide_eq_true_eq] at hchar
  obtain ((hdigit | hupper) | hlower) | hsign := hchar
  · omega
  · omega
  · omega
  · have hsigns : ∀ d ∈ py ".,<>=!~*+ ", d < 0x80 := by decide
    exact hsigns c (List.contains_iff_mem.mp hsign)

theorem clean_token (p : Placeholder) : Clean p.token := by
  cases p <;> exact clean_py _

/-! ## The rendered runner -/

/-- What a runner's content takes from its caller. -/
structure Spelled (content : RunnerContent) : Prop where
  entry : Clean content.entry
  uv_args : ∀ v ∈ content.uv_args, Clean v
  paths : ∀ fh ∈ content.file_hashes, Clean fh.path

/-- What the packer computes of a runner's content. -/
structure Computed (content : RunnerContent) : Prop where
  payload_b64 : Clean content.payload_b64
  payload_sha256 : Clean content.payload_sha256
  digests : ∀ fh ∈ content.file_hashes, Clean fh.digest

section Values

variable {content : RunnerContent} {p : Placeholder} {value : PyStr}

theorem clean_ps1_values (hcomputed : Computed content) (hspelled : Spelled content)
    (h : ps1_values split_relative_requirement content p = some value) : Clean value := by
  cases p with
  | payload_b64 => cases h; exact hcomputed.payload_b64
  | payload_sha256 => cases h; exact hcomputed.payload_sha256
  | entry => cases h; exact clean_powershell_literal.mpr hspelled.entry
  | entry_name => cases h; exact hspelled.entry
  | uv_args => cases h; exact clean_powershell_string_array.mpr hspelled.uv_args
  | file_hashes => cases h; exact (clean_hash_lines (clean_py _) hcomputed.digests).mpr hspelled.paths
  | uv_args_relative => cases h; exact clean_powershell_relative_suffixes hspelled.uv_args
  | python_request => cases h; exact clean_powershell_literal.mpr (clean_specifiers _)
  | git_source =>
      cases h
      split
      · exact clean_py _
      · exact clean_py _
  | uv_args_anchored => cases h
  | shim | argv_env | cwd_env | path_env | uv_path_env | caller_env =>
      cases h
      exact clean_py _

theorem clean_sh_values (hcomputed : Computed content) (hspelled : Spelled content)
    (h : sh_values split_relative_requirement content p = some value) : Clean value := by
  cases p with
  | payload_b64 => cases h; exact hcomputed.payload_b64
  | payload_sha256 => cases h; exact hcomputed.payload_sha256
  | entry => cases h; exact clean_posix_shell_word.mpr hspelled.entry
  | entry_name => cases h; exact hspelled.entry
  | uv_args =>
      cases h
      exact clean_posix_shell_word.mpr (clean_posix_shell_args.mpr hspelled.uv_args)
  | file_hashes =>
      cases h
      exact clean_posix_shell_word.mpr
        ((clean_hash_lines (clean_py _) hcomputed.digests).mpr hspelled.paths)
  | uv_args_anchored =>
      cases h
      exact clean_posix_shell_word.mpr (clean_posix_anchored_args hspelled.uv_args)
  | python_request => cases h; exact clean_posix_shell_word.mpr (clean_specifiers _)
  | git_source =>
      cases h
      refine clean_posix_shell_word.mpr ?_
      split
      · exact clean_py _
      · exact clean_py _
  | uv_args_relative => cases h
  | shim | argv_env | cwd_env | path_env | uv_path_env | caller_env =>
      cases h
      exact clean_py _

theorem clean_fillSegment {fmt : RunnerFormat} {segment : Segment} (hcomputed : Computed content)
    (hspelled : Spelled content) (htext : ∀ s, segment = .text s → Clean s) :
    Clean (fillSegment (fmt.values split_relative_requirement content) segment) := by
  cases segment with
  | text s => exact htext s rfl
  | hole p =>
      rw [fillSegment]
      cases hvalue : fmt.values split_relative_requirement content p with
      | none => exact clean_token p
      | some value =>
          cases fmt with
          | ps1 => exact clean_ps1_values hcomputed hspelled hvalue
          | sh => exact clean_sh_values hcomputed hspelled hvalue

/-- The values that are written for the entry, the arguments and the names spell
what the content has for these. -/
theorem spelled_of_values (fmt : RunnerFormat) (hcomputed : Computed content)
    (h : ∀ p ∈ [Placeholder.entry, .uv_args, .file_hashes],
      Clean (fillSegment (fmt.values split_relative_requirement content) (.hole p))) :
    Spelled content := by
  have hentry := h .entry (by simp)
  have hargs := h .uv_args (by simp)
  have hhashes := h .file_hashes (by simp)
  cases fmt with
  | ps1 =>
      exact ⟨clean_powershell_literal.mp hentry, clean_powershell_string_array.mp hargs,
        (clean_hash_lines (clean_py _) hcomputed.digests).mp hhashes⟩
  | sh =>
      exact ⟨clean_posix_shell_word.mp hentry,
        clean_posix_shell_args.mp (clean_posix_shell_word.mp hargs),
        (clean_hash_lines (clean_py _) hcomputed.digests).mp (clean_posix_shell_word.mp hhashes)⟩

end Values

theorem clean_substitute {values : Placeholder → Option PyStr} {template : List TemplateLine} :
    Clean (substitute values template) ↔
      ∀ line ∈ template, ∀ segment ∈ line, Clean (fillSegment values segment) := by
  have hlf : Clean [LF] := clean_py "\n"
  rw [substitute, unlines, clean_flatMap, List.forall_mem_map]
  refine forall₂_congr fun line _ => ?_
  rw [clean_append, and_iff_left hlf, fillLine, clean_flatMap]

section Rendered

variable {fmt : RunnerFormat} {template : List TemplateLine} {content : RunnerContent}
  {runner : PyStr}

/-- A runner is rendered where the template has every placeholder, no name holds
a line break and the entry does not end the help block. -/
theorem render_eq_ok :
    render split_relative_requirement fmt template content = .ok runner ↔
      (∀ p ∈ fmt.placeholders, template.any (·.contains (Segment.hole p)) = true) ∧
      refuse_unrepresentable_names content = .ok () ∧ refuse_comment_end fmt content = .ok () ∧
      runner = substitute (fmt.values split_relative_requirement content) template := by
  unfold render
  split
  · rename_i hnone
    have hall : ∀ p ∈ fmt.placeholders, template.any (·.contains (Segment.hole p)) = true := by
      intro p hp
      have hnot := List.filter_eq_nil_iff.mp hnone p hp
      simpa using hnot
    rw [and_iff_right hall, Raises.bind_eq_ok]
    constructor
    · intro h
      obtain ⟨⟨⟩, hnames, h⟩ := h
      obtain ⟨⟨⟩, hend, h⟩ := Raises.bind_eq_ok.mp h
      cases h
      exact ⟨hnames, hend, rfl⟩
    · intro h
      obtain ⟨hnames, hend, rfl⟩ := h
      exact ⟨(), hnames, Raises.bind_eq_ok.mpr ⟨(), hend, rfl⟩⟩
  · rename_i hsome
    constructor
    · intro h
      cases h
    · intro h
      refine absurd (List.filter_eq_nil_iff.mpr fun p hp => ?_) hsome
      simpa using h.1 p hp

/-- A rendered runner can be encoded exactly when what its caller gave can. -/
theorem clean_render (htemplate : ∀ line ∈ template, ∀ s, Segment.text s ∈ line → Clean s)
    (hcomputed : Computed content)
    (h : render split_relative_requirement fmt template content = .ok runner) :
    Clean runner ↔ Spelled content := by
  obtain ⟨hall, -, -, rfl⟩ := render_eq_ok.mp h
  rw [clean_substitute]
  constructor
  · intro hclean
    refine spelled_of_values fmt hcomputed fun p hp => ?_
    have hknown : p ∈ fmt.placeholders := by
      revert p
      cases fmt <;> decide
    obtain ⟨line, hline, hhole⟩ := List.any_eq_true.mp (hall p hknown)
    exact hclean line hline _ (List.contains_iff_mem.mp hhole)
  · intro hspelled line hline segment hsegment
    refine clean_fillSegment hcomputed hspelled fun s hs => ?_
    exact htemplate line hline s (hs ▸ hsegment)

end Rendered

end PwshPy.Packing
