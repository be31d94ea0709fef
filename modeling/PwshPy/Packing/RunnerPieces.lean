import PwshPy.Packing.RunnerLines
import PwshPy.Packing.RunnerText

/-! # The pieces of a runner

What `str.splitlines` makes of a whole runner, up to its payload, and of the two
blocks that hold the packed files' names and the payload's text.
-/

namespace PwshPy.Packing

open Files (normalize_newlines replace_char)

/-! ## Line ends -/

/-- A CR that is read as an LF splits a text where it did before. -/
theorem splitOnP_replace_cr (text : PyStr) :
    (replace_char CR [LF] text).splitOnP isLineBoundary = text.splitOnP isLineBoundary := by
  induction text with
  | nil => rfl
  | cons c text ih =>
      have hcons : replace_char CR [LF] (c :: text) =
          (if c = CR then LF else c) :: replace_char CR [LF] text := by
        simp only [replace_char, List.flatMap_cons]
        split <;> rfl
      have hsame : isLineBoundary (if c = CR then LF else c) = isLineBoundary c := by
        split
        · rename_i h
          rw [h]
          decide
        · rfl
      rw [hcons, List.splitOnP_cons_eq_if_modifyHead, List.splitOnP_cons_eq_if_modifyHead, ih, hsame]
      split
      · rfl
      · rename_i hclean
        have hne : c ≠ CR := by
          rintro rfl
          exact hclean (by decide)
        rw [if_neg hne]

theorem splitlines_normalize_newlines (text : PyStr) :
    splitlines (normalize_newlines text [LF]) = splitlines text := by
  have hclean : 0x0d ∉ replace_char CR [LF] (joinCrLf text) := by
    intro hmem
    obtain ⟨c, -, hc⟩ := List.mem_flatMap.mp hmem
    split at hc
    · exact absurd (List.mem_singleton.mp hc) (by decide)
    · rename_i hne
      exact hne (List.mem_singleton.mp hc).symm
  have hjoined : joinCrLf (replace_char CR [LF] (joinCrLf text)) =
      replace_char CR [LF] (joinCrLf text) := by
    simpa [joinCrLf] using joinCrLf_append hclean []
  rw [normalize_newlines, if_pos rfl]
  simp only [splitlines, hjoined, splitOnP_replace_cr]

/-! ## The file list -/

/-- What stands in front of a line's first boundary belongs to its first piece. -/
theorem linePieces_append_clean {begun : PyStr} (h : ∀ c ∈ begun, isLineBoundary c = false)
    (line : PyStr) :
    linePieces (begun ++ line) = (linePieces line).modifyHead (begun ++ ·) := by
  have hcr : 0x0d ∉ begun := fun hmem => absurd (h _ hmem) (by decide)
  have hsplit : ∀ text, (begun ++ text).splitOnP isLineBoundary =
      (text.splitOnP isLineBoundary).modifyHead (begun ++ ·) := by
    intro text
    induction begun with
    | nil =>
        rw [List.nil_append]
        cases text.splitOnP isLineBoundary with
        | nil => rfl
        | cons piece pieces => rfl
    | cons c begun ih =>
        rw [List.forall_mem_cons] at h
        rw [List.cons_append, List.splitOnP_cons_eq_if_modifyHead, h.1, ih h.2
          fun hmem => hcr (List.mem_cons_of_mem _ hmem)]
        cases text.splitOnP isLineBoundary with
        | nil => rfl
        | cons piece pieces => rfl
  obtain ⟨x, hx, -⟩ := joinCrLf_append_lf line []
  have hbegun : joinCrLf (begun ++ line ++ [LF]) = begun ++ x ++ [LF] := by
    rw [List.append_assoc, joinCrLf_append hcr, hx, List.append_assoc]
  rw [linePieces, linePieces, splitlines_of_joined hbegun, splitlines_of_joined hx, hsplit]

theorem linePieces_ne_nil (line : PyStr) : linePieces line ≠ [] := by
  obtain ⟨x, hx, -⟩ := joinCrLf_append_lf line []
  rw [linePieces, splitlines_of_joined hx]
  exact List.splitOnP_ne_nil _ _

theorem unlines_eq_joinWith {texts : List PyStr} (h : texts ≠ []) :
    joinWith [LF] texts ++ [LF] = unlines texts := by
  induction texts with
  | nil => exact absurd rfl h
  | cons text texts ih =>
      cases texts with
      | nil => simp [joinWith]
      | cons next later =>
          have hrest := ih (List.cons_ne_nil _ _)
          rw [unlines_cons, ← hrest]
          simp [joinWith, List.intercalate_cons_cons]

theorem linePieces_joinWith {texts : List PyStr} (h : texts ≠ []) :
    linePieces (joinWith [LF] texts) = texts.flatMap linePieces := by
  rw [linePieces, unlines_eq_joinWith h, splitlines_unlines_lines]
  rfl

/-! ## The payload -/

theorem flatten_base64_lines {width n : Nat} {blob : PyStr} (hwidth : 0 < width)
    (h : blob.length ≤ n) : (base64_lines width n blob).flatten = blob := by
  induction n generalizing blob with
  | zero =>
      obtain rfl := List.length_eq_zero_iff.mp (Nat.le_zero.mp h)
      rfl
  | succ n ih =>
      cases blob with
      | nil => rfl
      | cons c blob =>
          have hrest : ((c :: blob).drop width).length ≤ n := by
            rw [List.length_drop]
            omega
          rw [base64_lines, List.flatten_cons, ih hrest, List.take_append_drop]
          exact List.cons_ne_nil c blob

theorem base64_char {data : Bytes} {c : Nat} (h : c ∈ Bytes.base64 data) :
    isSpace c = false ∧ isLineBoundary c = false ∧ c ≠ QUOTE ∧ c ≠ 0x5f := by
  have hrange : (0x41 ≤ c ∧ c ≤ 0x5a) ∨ (0x61 ≤ c ∧ c ≤ 0x7a) ∨ (0x30 ≤ c ∧ c ≤ 0x39) ∨ c = 0x2b ∨
      c = 0x2f ∨ c = 0x3d := by
    rcases Bytes.mem_base64 h with rfl | ⟨v, rfl⟩
    · exact Or.inr (Or.inr (Or.inr (Or.inr (Or.inr rfl))))
    · have hsymbol := Bytes.symbol_range v
      tauto
  have hquote : QUOTE = 0x27 := rfl
  refine ⟨?_, ?_, by omega, by omega⟩
  · simp only [isSpace, Bool.or_eq_false_iff, Bool.and_eq_false_iff, decide_eq_false_iff_not,
      beq_eq_false_iff_ne]
    omega
  · simp only [isLineBoundary, Bool.or_eq_false_iff, Bool.and_eq_false_iff, decide_eq_false_iff_not,
      beq_eq_false_iff_ne]
    omega

/-- The lines of a payload are cut out of its text. -/
theorem payload_pieces (data : Bytes) :
    (linePieces (chunk_base64 (Bytes.base64 data))).flatMap strip = Bytes.base64 data ∧
      ∀ p ∈ linePieces (chunk_base64 (Bytes.base64 data)), ∀ c ∈ p, c ∈ Bytes.base64 data := by
  have hflat : (base64_lines 120 (Bytes.base64 data).length (Bytes.base64 data)).flatten =
      Bytes.base64 data := flatten_base64_lines (by decide) le_rfl
  unfold chunk_base64
  generalize hlines : base64_lines 120 (Bytes.base64 data).length (Bytes.base64 data) = ls at hflat
  have hmem : ∀ l ∈ ls, ∀ c ∈ l, c ∈ Bytes.base64 data := by
    rw [← hlines]
    exact fun l hl => mem_base64_lines hl
  by_cases hnil : ls = []
  · subst hnil
    have hpieces : linePieces (joinWith [LF] []) = [[]] := by decide
    rw [hpieces, ← hflat]
    refine ⟨rfl, fun p hp c hc => ?_⟩
    rw [List.mem_singleton.mp hp] at hc
    cases hc
  · have hclean : ∀ l ∈ ls, linePieces l = [l] := fun l hl =>
      linePieces_clean fun c hc => (base64_char (hmem l hl c hc)).2.1
    have hstrip : ∀ l ∈ ls, strip l = l := fun l hl =>
      strip_of_no_space fun c hc => (base64_char (hmem l hl c hc)).1
    have hpieces : linePieces (joinWith [LF] ls) = ls := by
      rw [linePieces_joinWith hnil, List.flatMap_congr hclean, List.flatMap_singleton']
    rw [hpieces]
    refine ⟨?_, hmem⟩
    rw [List.flatMap_congr hstrip, ← hflat]
    exact List.flatMap_id'

/-! ## A whole runner -/

section Whole

variable (split : PyStr → Option (PyStr × PyStr)) (content : RunnerContent)

/-- The entry's line, as long as its name holds no boundary, is one piece. -/
def entryPiece (entry : PyStr) : RunnerFormat → PyStr
  | .ps1 => py "$PwshPyEntry = " ++ powershell_literal entry
  | .sh => py "PWSHPY_ENTRY=" ++ posix_shell_word entry

theorem clean_doubled {value : PyStr} (h : ∀ c ∈ value, isLineBoundary c = false) :
    ∀ c ∈ doubled value, isLineBoundary c = false := by
  intro c hc
  obtain ⟨d, hd, hc⟩ := List.mem_flatMap.mp hc
  have hsame : c = d := by
    split at hc
    · simpa using hc
    · simpa using hc
  exact hsame ▸ h d hd

theorem clean_escaped {value : PyStr} (h : ∀ c ∈ value, isLineBoundary c = false) :
    ∀ c ∈ escaped value, isLineBoundary c = false := by
  intro c hc
  obtain ⟨d, hd, hc⟩ := List.mem_flatMap.mp hc
  split at hc
  · have hwritten : ∀ e ∈ [QUOTE, BACKSLASH, QUOTE, QUOTE], isLineBoundary e = false := by decide
    exact hwritten c hc
  · exact List.mem_singleton.mp hc ▸ h d hd

theorem clean_entryPiece {entry : PyStr} (fmt : RunnerFormat)
    (h : ∀ c ∈ entry, isLineBoundary c = false) :
    ∀ c ∈ entryPiece entry fmt, isLineBoundary c = false := by
  have hquote : ∀ c ∈ [QUOTE], isLineBoundary c = false := by decide
  cases fmt with
  | ps1 =>
      have hbegun : ∀ c ∈ py "$PwshPyEntry = ", isLineBoundary c = false := by decide
      exact List.forall_mem_append.mpr ⟨hbegun, List.forall_mem_cons.mpr
        ⟨by decide, List.forall_mem_append.mpr ⟨clean_doubled h, hquote⟩⟩⟩
  | sh =>
      have hbegun : ∀ c ∈ py "PWSHPY_ENTRY=", isLineBoundary c = false := by decide
      exact List.forall_mem_append.mpr ⟨hbegun, List.forall_mem_cons.mpr
        ⟨by decide, List.forall_mem_append.mpr ⟨clean_escaped h, hquote⟩⟩⟩

theorem linePieces_entryLine (fmt : RunnerFormat)
    (h : ∀ c ∈ content.entry, isLineBoundary c = false) :
    linePieces (fillLine (fmt.values split content) fmt.entryLine) =
      [entryPiece content.entry fmt] := by
  have hfill : fillLine (fmt.values split content) fmt.entryLine = entryPiece content.entry fmt := by
    cases fmt with
    | ps1 =>
        simp [fillLine, fillSegment, RunnerFormat.entryLine, RunnerFormat.values, ps1_values, entryPiece]
    | sh =>
        simp [fillLine, fillSegment, RunnerFormat.entryLine, RunnerFormat.values, sh_values, entryPiece]
  rw [hfill, linePieces_clean (clean_entryPiece fmt h)]

variable {split content}

theorem linePieces_text (values : Placeholder → Option PyStr) (s : PyStr)
    (h : ∀ c ∈ s, isLineBoundary c = false) : linePieces (fillLine values [.text s]) = [s] := by
  have hfill : fillLine values [.text s] = s := List.append_nil s
  rw [hfill, linePieces_clean h]

theorem linePieces_empty (values : Placeholder → Option PyStr) :
    linePieces (fillLine values []) = [[]] := by
  have hempty : linePieces [] = [[]] := by decide
  exact hempty

/-- The pieces of a `.ps1`: nothing above the file list marks the payload, and
nothing above the entry an entry. -/
theorem splitlines_ps1 (t : RunnerTemplate .ps1)
    (hentry : ∀ c ∈ content.entry, isLineBoundary c = false)
    (hsha : 0x40 ∉ content.payload_sha256) : ∃ head data tail,
      splitlines (substitute (RunnerFormat.ps1.values split content) t.lines) =
        head ++ entryPiece content.entry .ps1 ::
          (data ++ (linePieces (hash_lines (py " *") content) ++
            PAYLOAD_CLOSE :: [] :: PAYLOAD_OPEN ::
              (linePieces content.payload_b64 ++ PAYLOAD_CLOSE :: tail))) ∧
      (∀ p ∈ head, quietPiece p = true) ∧ ∀ p ∈ data, strip p ≠ PAYLOAD_OPEN := by
  have htext := linePieces_text (RunnerFormat.ps1.values split content)
  have hhole : ∀ p value, ps1_values split content p = some value →
      fillLine (RunnerFormat.ps1.values split content) [.hole p] = value := by
    intro p value h
    simp [fillLine, fillSegment, RunnerFormat.values, h]
  refine ⟨templatePieces (RunnerFormat.ps1.values split content) ([.text t.first] :: t.head),
    templatePieces (RunnerFormat.ps1.values split content) t.data ++ [py "$PwshPyFileHashes = @'"],
    templatePieces (RunnerFormat.ps1.values split content) t.tail, ?_, ?_, ?_⟩
  · rw [splitlines_substitute]
    simp only [templatePieces, RunnerTemplate.lines, RunnerFormat.hashBlock,
      RunnerFormat.payloadBlock, List.flatMap_cons, List.flatMap_append, List.flatMap_nil,
    linePieces_entryLine split content _ hentry,
      hhole .file_hashes _ rfl, hhole .payload_b64 _ rfl,
      htext (py "$PwshPyFileHashes = @'") (by decide), htext PAYLOAD_CLOSE (by decide),
      htext PAYLOAD_OPEN (by decide), linePieces_empty]
    simp only [List.append_assoc, List.cons_append, List.nil_append]
  · intro p hp
    obtain ⟨line, hline, hp⟩ := List.mem_flatMap.mp hp
    refine quietPiece_head hentry ?_ hp
    rcases List.mem_cons.mp hline with rfl | hline
    · exact Or.inl t.first_plain.2
    · exact t.head_plain line hline
  · intro p hp
    rcases List.mem_append.mp hp with hp | hp
    · obtain ⟨line, hline, hp⟩ := List.mem_flatMap.mp hp
      rcases t.data_known line hline with hknown | hplain
      · exact no_payload_open_dataLines hsha hknown hp
      · exact (quietPiece_iff.mp (quietPiece_head hentry (Or.inl hplain) hp)).1.1
    · rw [List.mem_singleton.mp hp]
      decide

/-- The pieces of a `.sh`: nothing above the payload marks one, and nothing
anywhere ends one of a `.ps1`. -/
theorem splitlines_sh (t : RunnerTemplate .sh)
    (hentry : ∀ c ∈ content.entry, isLineBoundary c = false)
    (hsha : 0x40 ∉ content.payload_sha256 ∧ 0x3c ∉ content.payload_sha256) : ∃ head data tail,
      splitlines (substitute (RunnerFormat.sh.values split content) t.lines) =
        head ++ entryPiece content.entry .sh ::
          (data ++ (py "    cat " ++ SH_PAYLOAD_OPEN) ::
            (linePieces content.payload_b64 ++ SH_HEREDOC :: tail)) ∧
      (∀ p ∈ head, quietPiece p = true) ∧ (∀ p ∈ data, Unmarked p) ∧
        ∀ p ∈ tail, strip p ≠ PAYLOAD_CLOSE := by
  have htext := linePieces_text (RunnerFormat.sh.values split content)
  have hhole : fillLine (RunnerFormat.sh.values split content) [.hole .payload_b64] =
      content.payload_b64 := by
    simp [fillLine, fillSegment, RunnerFormat.values, sh_values]
  refine ⟨templatePieces (RunnerFormat.sh.values split content) ([.text t.first] :: t.head),
    templatePieces (RunnerFormat.sh.values split content) t.data,
    templatePieces (RunnerFormat.sh.values split content) t.tail, ?_, ?_, ?_, ?_⟩
  · rw [splitlines_substitute]
    simp only [templatePieces, RunnerTemplate.lines, RunnerFormat.hashBlock,
      RunnerFormat.payloadBlock, List.flatMap_cons, List.flatMap_append, List.flatMap_nil,
      linePieces_entryLine split content _ hentry, hhole,
      htext (py "    cat " ++ SH_PAYLOAD_OPEN) (by decide), htext SH_HEREDOC (by decide)]
    simp only [List.append_assoc, List.cons_append, List.nil_append]
  · intro p hp
    obtain ⟨line, hline, hp⟩ := List.mem_flatMap.mp hp
    refine quietPiece_head hentry ?_ hp
    rcases List.mem_cons.mp hline with rfl | hline
    · exact Or.inl t.first_plain.2
    · exact t.head_plain line hline
  · intro p hp
    obtain ⟨line, hline, hp⟩ := List.mem_flatMap.mp hp
    rcases t.data_known line hline with hknown | hplain
    · exact unmarked_dataLines hsha hknown hp
    · exact (quietPiece_iff.mp (quietPiece_head hentry (Or.inl hplain) hp)).1.2
  · intro p hp
    obtain ⟨line, hline, hp⟩ := List.mem_flatMap.mp hp
    have htail := t.tail_constant line hline
    simp only [tailLine, Bool.and_eq_true, List.all_eq_true, bne_iff_ne] at htail
    rw [fillLine_constant fun q hq => htail.1 _ hq] at hp
    exact htail.2 p hp

end Whole

end PwshPy.Packing
