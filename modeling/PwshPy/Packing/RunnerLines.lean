import PwshPy.Packing.PackScript

/-! # What a caller's names can spell in a runner

Reading a pack back looks for its markers in each piece that `str.splitlines`
makes of the runner. A name or an argument of the caller stands in quotes there,
and what its quotes can begin or end follows from how it is quoted.
-/

namespace PwshPy.Packing

/-- The pieces of one line. -/
def linePieces (line : PyStr) : List PyStr := splitlines (line ++ [LF])

/-- The pieces of the filled lines of a template. -/
def templatePieces (values : Placeholder → Option PyStr) (template : List TemplateLine) :
    List PyStr :=
  template.flatMap fun line => linePieces (fillLine values line)

theorem splitlines_substitute (values : Placeholder → Option PyStr) (template : List TemplateLine) :
    splitlines (substitute values template) = templatePieces values template := by
  rw [substitute, splitlines_unlines_lines, List.flatMap_map]
  rfl

theorem linePieces_clean {line : PyStr} (h : ∀ c ∈ line, isLineBoundary c = false) :
    linePieces line = [line] := splitlines_line h

theorem mem_of_mem_linePieces {p line : PyStr} (h : p ∈ linePieces line) {c : Nat} (hc : c ∈ p)
    (hlf : c ≠ LF) : c ∈ line := by
  have hmem := mem_of_mem_splitlines h hc
  rcases List.mem_append.mp hmem with hline | hend
  · exact hline
  · exact absurd (List.mem_singleton.mp hend) hlf

/-! ## Markers -/

/-- A piece that marks no end of a `.ps1`'s payload and no beginning of a `.sh`'s. -/
def Unmarked (p : PyStr) : Prop := strip p ≠ PAYLOAD_CLOSE ∧ ¬SH_PAYLOAD_OPEN <:+ strip p

theorem unmarked_of_absent {p line : PyStr} (hat : 0x40 ∉ line) (hless : 0x3c ∉ line)
    (h : p ∈ linePieces line) : Unmarked p := by
  constructor
  · intro hclose
    have hmem : 0x40 ∈ strip p := by
      rw [hclose]
      decide
    exact hat (mem_of_mem_linePieces h (mem_strip hmem) (by decide))
  · intro hopen
    have hmem : 0x3c ∈ strip p := hopen.subset (by decide)
    exact hless (mem_of_mem_linePieces h (mem_strip hmem) (by decide))

theorem no_payload_open_of_absent {p line : PyStr} (hat : 0x40 ∉ line) (h : p ∈ linePieces line) :
    strip p ≠ PAYLOAD_OPEN := by
  intro hopen
  have hmem : 0x40 ∈ strip p := by
    rw [hopen]
    decide
  exact hat (mem_of_mem_linePieces h (mem_strip hmem) (by decide))

/-- A quoted word marks nothing: a quote of its value is followed by a backslash. -/
theorem unmarked_posix_shell_word {begun value p : PyStr} (hne : begun ≠ [])
    (hbegun : ∀ c ∈ begun, isSpace c = false ∧ c ≠ 0x3c ∧ c ≠ QUOTE)
    (h : p ∈ linePieces (begun ++ posix_shell_word value)) : Unmarked p := by
  have havoids : ∀ first second : Nat → Prop, ¬first QUOTE → ¬first BACKSLASH → ¬second BACKSLASH →
      (∀ c ∈ begun, ¬first c) →
        Avoids (QuoteAfter first second) (begun ++ posix_shell_word value) := by
    intro first second hquote hback hback' hfirst
    refine avoids_append_left hfirst ?_
    have hinside := escaped_avoids hquote hback hback' value avoids_nil (by simp)
    have hopens : ∀ c ∈ [QUOTE], ¬first c := fun c hc => List.mem_singleton.mp hc ▸ hquote
    exact avoids_append_left hopens hinside
  constructor
  · intro hclose
    have hne' : strip p ≠ [] := by
      rw [hclose]
      decide
    obtain ⟨a, b, hline, ha, -⟩ := stands_strip hne' h
    rw [hclose] at hline
    rcases List.eq_nil_or_concat a with rfl | ⟨a, c, rfl⟩
    · -- the line would begin with the quote
      obtain ⟨c, begun, rfl⟩ := List.exists_cons_of_ne_nil hne
      have hc : c = QUOTE := (List.cons.inj hline).1
      exact (hbegun c List.mem_cons_self).2.2 hc
    · rw [List.concat_eq_append] at hline ha
      have hspace : isSpace c = true := ha c List.getLast?_concat
      have hsuffix : c :: QUOTE :: 0x40 :: b <:+ begun ++ posix_shell_word value :=
        ⟨a, by rw [hline, List.append_assoc]; rfl⟩
      refine havoids (isSpace · = true) (· = 0x40) (by decide) (by decide) (by decide) ?_ _ hsuffix
        ⟨c, 0x40, b, rfl, hspace, rfl⟩
      intro d hd hspace'
      rw [(hbegun d hd).1] at hspace'
      cases hspace'
  · rintro ⟨x, hopen⟩
    have hne' : strip p ≠ [] := by
      rw [← hopen]
      exact List.append_ne_nil_of_right_ne_nil _ (by decide)
    obtain ⟨a, b, hline, -⟩ := stands_strip hne' h
    rw [← hopen] at hline
    have hsuffix : 0x3c :: QUOTE :: 0x5f :: (SH_PAYLOAD_OPEN.drop 4 ++ b) <:+
        begun ++ posix_shell_word value := by
      refine ⟨a ++ (x ++ [0x3c]), ?_⟩
      have hmarker : SH_PAYLOAD_OPEN = 0x3c :: 0x3c :: QUOTE :: 0x5f :: SH_PAYLOAD_OPEN.drop 4 := by
        decide
      rw [hline]
      conv => rhs; rw [hmarker]
      simp
    exact havoids (· = 0x3c) (· = 0x5f) (by decide) (by decide) (by decide)
      (fun c hc => (hbegun c hc).2.1) _ hsuffix ⟨0x3c, 0x5f, _, rfl, rfl, rfl⟩

/-! ## A list of PowerShell literals -/

/-- In a list of literals no quote stands between an at sign and a space. -/
theorem avoids_powershell_string_array (values : List PyStr) {rest : PyStr}
    (hrest : Avoids (QuoteAfter (· = 0x40) (isSpace · = true)) rest)
    (hhead : ∀ d, rest.head? = some d → ¬isSpace d = true) :
    Avoids (QuoteAfter (· = 0x40) (isSpace · = true)) (powershell_string_array values ++ rest) := by
  have hquotes : ∀ c, isPowerShellQuote c = true → ¬c = 0x40 := by
    rintro c hc rfl
    revert hc
    decide
  have hliteral : ∀ value more, Avoids (QuoteAfter (· = 0x40) (isSpace · = true)) more →
      (∀ d, more.head? = some d → ¬isSpace d = true) →
        Avoids (QuoteAfter (· = 0x40) (isSpace · = true)) (powershell_literal value ++ more) := by
    intro value more hmore hnext
    have hinside := doubled_avoids hquotes (by decide) value hmore hnext
    have hopens : ∀ c ∈ [QUOTE], ¬c = 0x40 := by decide
    simpa [powershell_literal] using avoids_append_left hopens hinside
  induction values with
  | nil => exact hrest
  | cons value values ih =>
      cases values with
      | nil =>
          have hone : powershell_string_array [value] = powershell_literal value := by
            simp [powershell_string_array, joinWith]
          rw [hone]
          exact hliteral value rest hrest hhead
      | cons next later =>
          have hjoin : powershell_string_array (value :: next :: later) ++ rest =
              powershell_literal value ++
                (py "," ++ (powershell_string_array (next :: later) ++ rest)) := by
            simp [powershell_string_array, joinWith, List.intercalate_cons_cons]
          rw [hjoin]
          have hcomma : ∀ c ∈ py ",", ¬c = 0x40 := by decide
          refine hliteral value _ (avoids_append_left hcomma ih) ?_
          intro d hd
          obtain rfl : 0x2c = d := Option.some.inj hd
          decide

/-- The line of a list of literals marks no payload. -/
theorem no_payload_open_string_array {begun p : PyStr} {values : List PyStr} (hat : 0x40 ∉ begun)
    (h : p ∈ linePieces (begun ++ py "@(" ++ (powershell_string_array values ++ py ")"))) :
    strip p ≠ PAYLOAD_OPEN := by
  rw [List.append_assoc] at h
  intro hopen
  have hne : strip p ≠ [] := by
    rw [hopen]
    decide
  have hbracket : ∀ c ∈ py ")", ¬c = 0x40 := by decide
  have harray : Avoids (QuoteAfter (· = 0x40) (isSpace · = true))
      (powershell_string_array values ++ py ")") :=
    avoids_powershell_string_array values
      (List.append_nil (py ")") ▸ avoids_append_left hbracket avoids_nil) (by decide)
  have hline : Avoids (QuoteAfter (· = 0x40) (isSpace · = true))
      (begun ++ (py "@(" ++ (powershell_string_array values ++ py ")"))) := by
    refine avoids_append_left (fun c hc heq => hat (heq ▸ hc)) ?_
    have hbracket' : ∀ c ∈ [0x28], ¬c = 0x40 := by decide
    exact avoids_cons_of_ne (by decide) (avoids_append_left hbracket' harray)
  obtain ⟨a, b, heq, -, hb⟩ := stands_strip hne h
  have hmarker : PAYLOAD_OPEN = py "$PwshPyPayload = " ++ [0x40, QUOTE] := by decide
  rw [hopen, hmarker] at heq
  cases b with
  | nil =>
      -- the line ends with its bracket
      have hlast := congrArg List.getLast? heq
      simp only [← List.append_assoc, List.append_nil] at hlast
      rw [List.getLast?_append_of_ne_nil _ (by decide),
        List.getLast?_append_of_ne_nil _ (by decide)] at hlast
      revert hlast
      decide
  | cons d b =>
      refine hline (0x40 :: QUOTE :: d :: b) ⟨a ++ py "$PwshPyPayload = ", ?_⟩
        ⟨0x40, d, b, rfl, rfl, hb d rfl⟩
      rw [heq]
      simp

/-! ## The lines of the templates -/

/-- A line whose placeholders name constants is the same in every runner. -/
theorem fillLine_constant {fmt : RunnerFormat} {split : PyStr → Option (PyStr × PyStr)}
    {content : RunnerContent} {line : TemplateLine}
    (h : ∀ p, Segment.hole p ∈ line → (constant p).isSome = true) :
    fillLine (fmt.values split content) line = fillLine constant line := by
  have hsegment : ∀ segment ∈ line,
      fillSegment (fmt.values split content) segment = fillSegment constant segment := by
    intro segment hsegment
    cases segment with
    | text s => rfl
    | hole p =>
        have hvalue : fmt.values split content p = constant p := by
          have hp := h p hsegment
          cases fmt with
          | ps1 => cases p <;> first | rfl | cases hp
          | sh => cases p <;> first | rfl | cases hp
        rw [fillSegment, fillSegment, hvalue]
  unfold fillLine
  exact List.flatMap_congr hsegment

section DataLines

variable {split : PyStr → Option (PyStr × PyStr)} {content : RunnerContent} {line : TemplateLine}
  {p : PyStr}

theorem isSpecifierChar_ne_at {c : Nat} (h : isSpecifierChar c = true) : c ≠ 0x40 := by
  rintro rfl
  revert h
  decide

theorem at_notMem_powershell_literal {value : PyStr} (h : 0x40 ∉ value) :
    0x40 ∉ powershell_literal value := by
  intro hat
  rcases List.mem_cons.mp hat with hquote | hat
  · exact absurd hquote (by decide)
  rcases List.mem_append.mp hat with hdoubled | hquote
  · obtain ⟨c, hc, hat⟩ := List.mem_flatMap.mp hdoubled
    have hsame : 0x40 = c := by
      split at hat
      · simpa using hat
      · simpa using hat
    exact h (hsame ▸ hc)
  · exact absurd (List.mem_singleton.mp hquote) (by decide)

/-- No line of data above the file list of a `.ps1` marks the payload. -/
theorem no_payload_open_dataLines (hsha : 0x40 ∉ content.payload_sha256)
    (hline : line ∈ RunnerFormat.ps1.dataLines)
    (h : p ∈ linePieces (fillLine (RunnerFormat.ps1.values split content) line)) :
    strip p ≠ PAYLOAD_OPEN := by
  have harray : ∀ (begun opened : PyStr) (hole : Placeholder) (values : List PyStr),
      opened = begun ++ py "@(" → 0x40 ∉ begun →
      ps1_values split content hole = some (powershell_string_array values) →
      p ∈ linePieces (fillLine (RunnerFormat.ps1.values split content)
        [.text opened, .hole hole, .text (py ")")]) → strip p ≠ PAYLOAD_OPEN := by
    intro begun opened hole values hopened hat hvalue hp
    have hfill : fillLine (RunnerFormat.ps1.values split content)
        [.text opened, .hole hole, .text (py ")")] =
          begun ++ py "@(" ++ (powershell_string_array values ++ py ")") := by
      simp [fillLine, fillSegment, RunnerFormat.values, hvalue, hopened]
    rw [hfill] at hp
    exact no_payload_open_string_array hat hp
  have hconstant : ∀ l : TemplateLine, (∀ q, Segment.hole q ∈ l → (constant q).isSome = true) →
      0x40 ∉ fillLine constant l →
      p ∈ linePieces (fillLine (RunnerFormat.ps1.values split content) l) →
        strip p ≠ PAYLOAD_OPEN := by
    intro l hholes hat hp
    rw [fillLine_constant hholes] at hp
    exact no_payload_open_of_absent hat hp
  simp only [RunnerFormat.dataLines, List.mem_cons, List.not_mem_nil, or_false] at hline
  rcases hline with rfl | rfl | rfl | rfl | rfl | rfl | rfl | rfl | rfl | rfl | rfl
  · exact hconstant _ (by simp [constant]) (by decide) h
  · refine no_payload_open_of_absent ?_ h
    have hends : 0x40 ∉ py "$PwshPySha = '" ∧ 0x40 ∉ py "'" := by decide
    simpa [fillLine, fillSegment, RunnerFormat.values, ps1_values, hends.1, hends.2] using hsha
  · exact hconstant _ (by simp [constant]) (by decide) h
  · exact harray (py "$PwshPyUvArgs = ") _ _ content.uv_args (by decide) (by decide) rfl h
  · exact hconstant _ (by simp [constant]) (by decide) h
  · exact hconstant _ (by simp [constant]) (by decide) h
  · exact hconstant _ (by simp [constant]) (by decide) h
  · exact hconstant _ (by simp [constant]) (by decide) h
  · exact harray (py "$PwshPyUvArgsRelative = ") _ _ _ (by decide) (by decide) rfl h
  · refine no_payload_open_of_absent ?_ h
    have hbegun : 0x40 ∉ py "$PwshPyPythonRequest = " := by decide
    simpa [fillLine, fillSegment, RunnerFormat.values, ps1_values, hbegun] using
      at_notMem_powershell_literal fun hat =>
        isSpecifierChar_ne_at (content.python_request.chars _ hat) rfl
  · refine no_payload_open_of_absent ?_ h
    have hbegun : 0x40 ∉ py "$PwshPyGitSource = " := by decide
    have hvalue : 0x40 ∉ (if content.has_git_source then py "$true" else py "$false") := by
      split
      · decide
      · decide
    simpa [fillLine, fillSegment, RunnerFormat.values, ps1_values, hbegun] using hvalue

/-- No line of data above the payload of a `.sh` marks one. -/
theorem unmarked_dataLines (hsha : 0x40 ∉ content.payload_sha256 ∧ 0x3c ∉ content.payload_sha256)
    (hline : line ∈ RunnerFormat.sh.dataLines)
    (h : p ∈ linePieces (fillLine (RunnerFormat.sh.values split content) line)) : Unmarked p := by
  have hword : ∀ (begun : PyStr) (hole : Placeholder) (value : PyStr), begun ≠ [] →
      (∀ c ∈ begun, isSpace c = false ∧ c ≠ 0x3c ∧ c ≠ QUOTE) →
      sh_values split content hole = some (posix_shell_word value) →
      p ∈ linePieces (fillLine (RunnerFormat.sh.values split content) [.text begun, .hole hole]) →
        Unmarked p := by
    intro begun hole value hne hbegun hvalue hp
    refine @unmarked_posix_shell_word begun value p hne hbegun ?_
    simpa [fillLine, fillSegment, RunnerFormat.values, hvalue] using hp
  simp only [RunnerFormat.dataLines, List.mem_cons, List.not_mem_nil, or_false] at hline
  rcases hline with rfl | rfl | rfl | rfl | rfl | rfl | rfl
  · have hends : (0x40 ∉ py "PWSHPY_SHA='" ∧ 0x40 ∉ py "'") ∧
        0x3c ∉ py "PWSHPY_SHA='" ∧ 0x3c ∉ py "'" := by decide
    refine unmarked_of_absent ?_ ?_ h
    · simpa [fillLine, fillSegment, RunnerFormat.values, sh_values, hends.1.1, hends.1.2] using hsha.1
    · simpa [fillLine, fillSegment, RunnerFormat.values, sh_values, hends.2.1, hends.2.2] using hsha.2
  · exact hword _ _ _ (by decide) (by decide) rfl h
  · exact hword _ _ _ (by decide) (by decide) rfl h
  · rw [fillLine_constant (by simp [constant])] at h
    exact unmarked_of_absent (by decide) (by decide) h
  · exact hword _ _ _ (by decide) (by decide) rfl h
  · exact hword _ _ _ (by decide) (by decide) rfl h
  · exact hword _ _ _ (by decide) (by decide) rfl h

end DataLines

/-! ## Quiet pieces -/

theorem quietPiece_iff {p : PyStr} : quietPiece p = true ↔
    (strip p ≠ PAYLOAD_OPEN ∧ Unmarked p) ∧
      ¬([QUOTE] <:+ strip p ∧ (ENTRY_PREFIX <+: strip p ∨ SH_ENTRY_PREFIX <+: strip p)) := by
  simp only [quietPiece, Unmarked, Bool.and_eq_true, Bool.not_eq_true', bne_iff_ne, ne_eq,
    ← Bool.not_eq_true, Bool.or_eq_true, List.isSuffixOf_iff_suffix, List.isPrefixOf_iff_prefix,
    and_assoc]

/-- A piece that neither begins nor ends with a quote is quiet. -/
theorem quietPiece_of_ends {p : PyStr} {c d : Nat} (hfirst : (strip p).head? = some c)
    (hc : c ≠ QUOTE) (hlast : (strip p).getLast? = some d) (hd : d ≠ QUOTE) :
    quietPiece p = true := by
  have hquote : ¬[QUOTE] <:+ strip p := by
    rintro ⟨x, hx⟩
    rw [← hx, List.getLast?_concat] at hlast
    exact hd (Option.some.inj hlast).symm
  refine quietPiece_iff.mpr ⟨⟨?_, ?_, ?_⟩, fun h => hquote h.1⟩
  · intro hopen
    refine hquote ?_
    rw [hopen]
    decide
  · intro hclose
    rw [hclose] at hfirst
    exact hc (Option.some.inj hfirst).symm
  · intro hopen
    exact hquote (List.IsSuffix.trans (by decide) hopen)

/-- The lines above the entry of a runner are quiet. -/
theorem quietPiece_head {fmt : RunnerFormat} {split : PyStr → Option (PyStr × PyStr)}
    {content : RunnerContent} {line : TemplateLine} {p : PyStr}
    (hentry : ∀ c ∈ content.entry, isLineBoundary c = false)
    (hline : textLine line = true ∨ proseLine line = true)
    (h : p ∈ linePieces (fillLine (fmt.values split content) line)) : quietPiece p = true := by
  rcases hline with htext | hprose
  · unfold textLine at htext
    split at htext
    · have hempty : linePieces [] = [[]] := by decide
      change p ∈ linePieces [] at h
      rw [hempty] at h
      obtain rfl := List.mem_singleton.mp h
      decide
    · refine List.all_eq_true.mp htext p ?_
      simpa [fillLine, fillSegment, linePieces] using h
    · cases htext
  · unfold proseLine at hprose
    split at hprose
    · rename_i before after
      have hfill : fillLine (fmt.values split content) [.text before, .hole .entry_name, .text after] =
          before ++ (content.entry ++ after) := by
        cases fmt with
        | ps1 => simp [fillLine, fillSegment, RunnerFormat.values, ps1_values]
        | sh => simp [fillLine, fillSegment, RunnerFormat.values, sh_values]
      simp only [Bool.and_eq_true, List.all_eq_true, Bool.not_eq_true', List.forall_mem_append]
        at hprose
      obtain ⟨⟨hbegins, hends⟩, hbefore, hafter⟩ := hprose
      rw [hfill, linePieces_clean] at h
      · obtain rfl := List.mem_singleton.mp h
        split at hbegins
        · cases hbegins
        · rename_i c rest hdrop
          split at hends
          · cases hends
          · rename_i d hlast
            have hkept := @strip_between before content.entry after _ _
              (congrArg List.head? hdrop) hlast
            exact quietPiece_of_ends hkept.1 (bne_iff_ne.mp hbegins) hkept.2 (bne_iff_ne.mp hends)
      · exact List.forall_mem_append.mpr ⟨hbefore, List.forall_mem_append.mpr ⟨hentry, hafter⟩⟩
    · cases hprose

end PwshPy.Packing
