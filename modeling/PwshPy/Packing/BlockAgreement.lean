import PwshPy.Packing.ReferenceBlock
import PwshPy.Packing.ShimSource

/-! # The lifted block and the one PEP 723 reads

The packer reads a source with `str.splitlines` and does not count white space
at the end of a marker line. Read so, the block it lifts is the reference's,
where that one closes at the first line that can close it.
-/

namespace PwshPy.Packing

open Reference (isContent script_block blocks text_lines)

/-- A line as a marker: white space at the end of `# /// script`, `# ///` and
`#` does not count. -/
def marker (line : PyStr) : PyStr :=
  if rstrip line ∈ [PEP723_OPEN, PEP723_CLOSE, py "#"] then rstrip line else line

/-- The lines of a text that ends them with LF or CR LF. -/
def source_lines (source : PyStr) : List PyStr := (joinCrLf source).splitOn LF

/-- Nothing but LF and CR LF ends a line. -/
def LineEnds (source : PyStr) : Prop := ∀ c ∈ joinCrLf source, isLineBoundary c = true → c = LF

/-! ## Lines -/

theorem splitOnP_congr {p q : Nat → Bool} {s : PyStr} (h : ∀ c ∈ s, p c = q c) :
    s.splitOnP p = s.splitOnP q := by
  induction s with
  | nil => rfl
  | cons c s ih =>
      simp only [List.mem_cons, forall_eq_or_imp] at h
      rw [List.splitOnP_cons_eq_if_modifyHead, List.splitOnP_cons_eq_if_modifyHead, h.1, ih h.2]

theorem block_end_nil_line (lines : List PyStr) : block_end (lines ++ [[]]) = block_end lines := by
  induction lines with
  | nil => decide
  | cons line lines ih =>
      rw [List.cons_append, block_end, block_end, ih]

theorem first_block_nil_line (lines : List PyStr) :
    first_block (lines ++ [[]]) = first_block lines := by
  induction lines with
  | nil => rfl
  | cons line lines ih => rw [List.cons_append, first_block, first_block, block_end_nil_line, ih]

theorem extract_eq {source : PyStr} (h : LineEnds source) :
    extract_script_metadata source = first_block (source_lines source) := by
  have hpieces : (joinCrLf source).splitOnP isLineBoundary = source_lines source := by
    refine splitOnP_congr fun c hc => ?_
    by_cases hlf : c = LF
    · subst hlf
      rfl
    · have hboundary : isLineBoundary c = false := by
        rw [← Bool.not_eq_true]
        exact fun htrue => hlf (h c hc htrue)
      rw [hboundary]
      exact (beq_eq_false_iff_ne.mpr hlf).symm
  have hsplit : splitlines source = if (source_lines source).getLast? = some [] then
      (source_lines source).dropLast else source_lines source := by
    rw [← hpieces]
    rfl
  rw [extract_script_metadata, hsplit]
  split
  · rename_i hlast
    obtain ⟨lines, hlines⟩ := List.getLast?_eq_some_iff.mp hlast
    rw [hlines, List.dropLast_concat, first_block_nil_line]
  · rfl

/-! ## Markers -/

theorem rstrip_begins (line : PyStr) : rstrip line <+: line := List.rdropWhile_prefix _ _

theorem rstrip_append (a b : PyStr) :
    rstrip (a ++ b) = if rstrip b = [] then rstrip a else a ++ rstrip b := by
  unfold rstrip
  induction b using List.reverseRecOn with
  | nil => rw [List.append_nil, List.rdropWhile_nil, if_pos rfl]
  | append_singleton b c ih =>
      by_cases hc : isSpace c = true
      · rw [← List.append_assoc, List.rdropWhile_concat_pos _ _ _ hc,
          List.rdropWhile_concat_pos _ _ _ hc, ih]
      · rw [← List.append_assoc, List.rdropWhile_concat_neg _ _ _ hc,
          List.rdropWhile_concat_neg _ _ _ hc, if_neg (by simp), List.append_assoc]

theorem marker_eq_iff {line m : PyStr} (hm : m ∈ [PEP723_OPEN, PEP723_CLOSE, py "#"])
    (hself : rstrip m = m) : marker line = m ↔ rstrip line = m := by
  unfold marker
  by_cases hset : rstrip line ∈ [PEP723_OPEN, PEP723_CLOSE, py "#"]
  · rw [if_pos hset]
  · rw [if_neg hset]
    constructor
    · intro hline
      subst hline
      exact hself
    · intro hline
      exact absurd (hline ▸ hm) hset

theorem marker_open {line : PyStr} : marker line = PEP723_OPEN ↔ rstrip line = PEP723_OPEN :=
  marker_eq_iff (by decide) (by decide)

theorem marker_close {line : PyStr} : marker line = PEP723_CLOSE ↔ rstrip line = PEP723_CLOSE :=
  marker_eq_iff (by decide) (by decide)

/-- White space at the end of a line leaves it a content line, or none. -/
theorem isContent_marker (line : PyStr) : isContent (marker line) = true ↔
    rstrip line = py "#" ∨ (py "# ").isPrefixOf (rstrip line) = true := by
  unfold marker
  by_cases hset : rstrip line ∈ [PEP723_OPEN, PEP723_CLOSE, py "#"]
  · rw [if_pos hset]
    simp [isContent]
  · rw [if_neg hset]
    have hhash : rstrip line ≠ py "#" := fun h => hset (by rw [h]; decide)
    have hline : line ≠ py "#" := by
      intro h
      subst h
      exact hhash (by decide)
    simp only [isContent, Bool.or_eq_true, beq_iff_eq, hline, hhash, false_or,
      List.isPrefixOf_iff_prefix]
    constructor
    · intro h
      obtain ⟨rest, rfl⟩ := h
      rw [rstrip_append] at hhash ⊢
      -- what follows `# ` is not all white space, or the line would be `#`
      split
      · rename_i hblank
        rw [if_pos hblank] at hhash
        exact absurd (by decide) hhash
      · exact List.prefix_append _ _
    · intro h
      exact h.trans (rstrip_begins line)

/-! ## Where the packer ends a block -/

theorem block_end_eq_none {lines : List PyStr}
    (h : PEP723_CLOSE ∉ (lines.map marker).takeWhile isContent) : block_end lines = none := by
  induction lines with
  | nil => rfl
  | cons line lines ih =>
      rw [List.map_cons] at h
      have hcontent := isContent_marker line
      by_cases hline : isContent (marker line) = true
      · rw [List.takeWhile_cons_of_pos hline, List.mem_cons, not_or] at h
        have hclose : ¬rstrip line = PEP723_CLOSE := fun heq => h.1 (marker_close.mpr heq).symm
        rw [block_end, if_neg hclose, if_pos (hcontent.mp hline), ih h.2]
        rfl
      · have hclose : ¬rstrip line = PEP723_CLOSE := by
          intro heq
          rw [marker_close.mpr heq] at hline
          exact hline (by decide)
        rw [block_end, if_neg hclose, if_neg fun hstripped => hline (hcontent.mpr hstripped)]

theorem block_end_append {inner after : List PyStr} {close : PyStr}
    (hinner : ∀ line ∈ inner, isContent (marker line) = true)
    (hopen : PEP723_CLOSE ∉ inner.map marker) (hclose : marker close = PEP723_CLOSE) :
    block_end (inner ++ close :: after) = some (inner ++ [close]) := by
  induction inner with
  | nil => rw [List.nil_append, block_end, if_pos (marker_close.mp hclose), List.nil_append]
  | cons line inner ih =>
      simp only [List.mem_cons, forall_eq_or_imp] at hinner
      rw [List.map_cons, List.mem_cons, not_or] at hopen
      have hline : ¬rstrip line = PEP723_CLOSE := fun heq => hopen.1 (marker_close.mpr heq).symm
      rw [List.cons_append, block_end, if_neg hline,
        if_pos ((isContent_marker line).mp hinner.1), ih hinner.2 hopen.2]
      rfl

/-- A source without an opening line carries no block. -/
theorem first_block_eq_nil {lines : List PyStr} (h : PEP723_OPEN ∉ lines.map marker) :
    first_block lines = .ok [] := by
  refine first_block_of_none fun line hline hopen => ?_
  exact h (List.mem_map.mpr ⟨line, hline, marker_open.mpr hopen⟩)

/-- The `PackError` of a block that is not closed. -/
def UNCLOSED : PyError :=
  packError [.text (py "the entry's PEP 723 script block is not closed by a "),
    .repr PEP723_CLOSE, .text (py " line")]

theorem first_block_append {before rest : List PyStr} {line : PyStr}
    (hbefore : PEP723_OPEN ∉ before.map marker) (hline : marker line = PEP723_OPEN) :
    first_block (before ++ line :: rest) =
      match block_end rest with
      | some block => .ok (unlines (line :: block))
      | none => .error UNCLOSED := by
  induction before with
  | nil =>
      have hopen : ¬rstrip line ≠ PEP723_OPEN := fun hne => hne (marker_open.mp hline)
      rw [List.nil_append, first_block, if_neg hopen]
      rfl
  | cons first before ih =>
      rw [List.map_cons, List.mem_cons, not_or] at hbefore
      have hfirst : rstrip first ≠ PEP723_OPEN := fun heq => hbefore.1 (marker_open.mpr heq).symm
      rw [List.cons_append, first_block, if_pos hfirst, ih hbefore.2]

/-! ## Runs that close once -/

/-- The run of content lines holds one closing line, and not at its top. -/
def ClosesOnce (lines : List PyStr) : Prop :=
  (lines.takeWhile isContent).count PEP723_CLOSE = 1 ∧ lines.head? ≠ some PEP723_CLOSE

theorem ClosesOnce.split {lines : List PyStr} (h : ClosesOnce lines) :
    ∃ inner after, lines = inner ++ PEP723_CLOSE :: after ∧ inner ≠ [] ∧
      (∀ line ∈ inner, isContent line = true) ∧ PEP723_CLOSE ∉ inner ∧
      PEP723_CLOSE ∉ after.takeWhile isContent := by
  obtain ⟨hcount, hhead⟩ := h
  have hmem : PEP723_CLOSE ∈ lines.takeWhile isContent := by
    rw [← List.count_pos_iff, hcount]
    exact Nat.one_pos
  obtain ⟨inner, more, hrun, hfree⟩ := List.eq_append_cons_of_mem hmem
  have hlines : lines = inner ++ PEP723_CLOSE :: (more ++ lines.dropWhile isContent) := by
    conv_lhs => rw [← @List.takeWhile_append_dropWhile _ isContent lines, hrun]
    rw [List.append_assoc, List.cons_append]
  have hinner : ∀ line ∈ inner, isContent line = true := by
    intro line hline
    have hin : line ∈ lines.takeWhile isContent := by
      rw [hrun]
      exact List.mem_append_left _ hline
    exact List.mem_takeWhile_imp hin
  have hmore : (more ++ lines.dropWhile isContent).takeWhile isContent = more := by
    have hwhole := hrun
    rw [hlines, List.takeWhile_append_of_pos hinner,
      List.takeWhile_cons_of_pos Reference.isContent_close] at hwhole
    exact (List.cons.inj (List.append_cancel_left hwhole)).2
  refine ⟨inner, _, hlines, ?_, hinner, hfree, ?_⟩
  · intro hnil
    rw [hlines, hnil] at hhead
    exact hhead rfl
  · rw [hmore]
    intro hagain
    have hfew : inner.count PEP723_CLOSE = 0 := List.count_eq_zero.mpr hfree
    rw [hrun, List.count_append, hfew, List.count_cons_self] at hcount
    have hpos := List.count_pos_iff.mpr hagain
    omega

theorem joinCrLf_of_not_mem {s : PyStr} (h : CR ∉ s) : joinCrLf s = s := by
  have hjoin := joinCrLf_append h []
  rwa [List.append_nil, show joinCrLf [] = [] from rfl, List.append_nil] at hjoin

theorem first_block_agrees {before rest : List PyStr} {line : PyStr}
    (hbefore : PEP723_OPEN ∉ before.map marker) (hline : marker line = PEP723_OPEN)
    (honce : ClosesOnce (rest.map marker))
    (hothers : ∀ found ∈ blocks 0 ((before ++ line :: rest).map marker),
      found.1 ≠ py "script" → PEP723_OPEN ∉ found.2) :
    ∃ block after, rest = block ++ after ∧
      first_block (before ++ line :: rest) = .ok (unlines (line :: block)) ∧
      script_block ((before ++ line :: rest).map marker) = some ((line :: block).map marker) := by
  obtain ⟨inner, after, hsplit, hne, hcontent, hfree, hafter⟩ := honce.split
  obtain ⟨inner', rest', rfl, rfl, hrest⟩ := List.map_eq_append_iff.mp hsplit
  obtain ⟨close, after', rfl, hclose, rfl⟩ := List.map_eq_cons_iff.mp hrest
  have hmarked : ∀ l ∈ inner', isContent (marker l) = true :=
    fun l hl => hcontent _ (List.mem_map_of_mem hl)
  refine ⟨inner' ++ [close], after', by simp, ?_, ?_⟩
  · rw [first_block_append hbefore hline, block_end_append hmarked hfree hclose]
  · have hblock := Reference.content_block_append hne hcontent hafter
    have hmap : (before ++ line :: (inner' ++ close :: after')).map marker =
        before.map marker ++ PEP723_OPEN ::
          (inner'.map marker ++ PEP723_CLOSE :: after'.map marker) := by
      simp [hline, hclose]
    rw [hmap] at hothers ⊢
    have hfound := Reference.find_first hblock (Nat.zero_le _) hbefore hothers
    rw [script_block, hfound]
    simp [hline, hclose]

/-- The packer lifts the block PEP 723 reads, lines and white space counted as
above, where its run closes once and no block of another type takes its opening
line; a block that is not closed is refused, and the shim carries what was
lifted. -/
theorem lifted_block_agrees (table : Nat → Bool) (source : PyStr) :
    (LineEnds source →
      (PEP723_OPEN ∉ (source_lines source).map marker →
        extract_script_metadata source = .ok [] ∧
        script_block ((source_lines source).map marker) = none) ∧
      ∀ before line rest, source_lines source = before ++ line :: rest →
        PEP723_OPEN ∉ before.map marker → marker line = PEP723_OPEN →
        (PEP723_CLOSE ∉ (rest.map marker).takeWhile isContent →
          extract_script_metadata source = .error UNCLOSED) ∧
        (ClosesOnce (rest.map marker) →
          (∀ found ∈ blocks 0 ((source_lines source).map marker),
            found.1 ≠ py "script" → PEP723_OPEN ∉ found.2) →
          ∃ block after, rest = block ++ after ∧
            extract_script_metadata source = .ok (unlines (line :: block)) ∧
            script_block ((source_lines source).map marker) = some ((line :: block).map marker))) ∧
    (CR ∉ source → (∀ line ∈ text_lines source, marker line = line) →
      (source_lines source).map marker = text_lines source) ∧
    ∀ entry metadata, extract_script_metadata source = .ok metadata →
      extract_script_metadata (render_shim table entry metadata) = .ok metadata := by
  refine ⟨?_, ?_, fun entry metadata h => extract_render_shim table entry h⟩
  · intro hends
    rw [extract_eq hends]
    refine ⟨fun h => ⟨first_block_eq_nil h, Reference.script_block_eq_none h⟩, ?_⟩
    intro before line rest hlines hbefore hline
    rw [hlines]
    refine ⟨?_, first_block_agrees hbefore hline⟩
    intro hopen
    rw [first_block_append hbefore hline, block_end_eq_none hopen]
  · intro hcr hmarkers
    rw [source_lines, joinCrLf_of_not_mem hcr]
    exact (List.map_congr_left hmarkers).trans (List.map_id _)

/-- A block with CR LF ends and a blank behind its opening line. -/
def crlfSource : PyStr :=
  unlines [PEP723_OPEN ++ [0x20, CR], py "# a = 1" ++ [CR], PEP723_CLOSE ++ [CR], py "import a"]

theorem lifted_block_agrees_crlf : ∃ metadata,
    extract_script_metadata crlfSource = .ok metadata ∧
    script_block ((source_lines crlfSource).map marker) =
      some [PEP723_OPEN, py "# a = 1", PEP723_CLOSE] ∧
    extract_script_metadata (render_shim (fun _ => true) (py "it's.py") metadata) =
      .ok metadata := by
  have hends : LineEnds crlfSource := by
    unfold LineEnds
    decide
  have honce : ClosesOnce (([py "# a = 1", PEP723_CLOSE, py "import a", []]).map marker) := by
    unfold ClosesOnce
    decide
  obtain ⟨hread, -, hshim⟩ := lifted_block_agrees (fun _ => true) crlfSource
  obtain ⟨-, hagrees⟩ := (hread hends).2 [] (PEP723_OPEN ++ [0x20])
    [py "# a = 1", PEP723_CLOSE, py "import a", []] (by decide) (by decide) (by decide)
  obtain ⟨block, after, hsplit, hlifted, hblock⟩ := hagrees honce (by decide)
  refine ⟨_, hlifted, ?_, hshim _ _ hlifted⟩
  decide

/-- A block that is not closed: `PackError`, where the reference finds none. -/
def unclosedSource : PyStr := unlines [PEP723_OPEN, py "# a = 1", py "import a"]

theorem unclosed_block_is_refused :
    ¬∀ source, extract_script_metadata source =
      .ok (((script_block (text_lines source)).map unlines).getD []) := by
  intro h
  have hraises : extract_script_metadata unclosedSource = .error UNCLOSED := rfl
  have hclaimed := h unclosedSource
  rw [hraises] at hclaimed
  cases hclaimed

end PwshPy.Packing
