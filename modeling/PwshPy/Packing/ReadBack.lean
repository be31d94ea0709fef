import PwshPy.Packing.RunnerPieces

/-! # What reading finds in a runner

The payload is what stands between the first opening marker and the first closing
one behind it, and the entry is what the first line that assigns one holds.
-/

namespace PwshPy.Packing

/-! ## The payload -/

section Slice

variable {is_open is_close : PyStr → Bool} {above inside below : List PyStr} {opened closed : PyStr}

theorem slice_payload_opened (habove : ∀ p ∈ above, is_open (strip p) = false)
    (hopened : is_open (strip opened) = true) (hclosed : is_close (strip closed) = true) :
    slice_payload (above ++ opened :: (inside ++ closed :: below)) is_open is_close =
      some (inside.takeWhile fun line => !is_close (strip line)) := by
  have hdrop : (above ++ opened :: (inside ++ closed :: below)).dropWhile
      (fun line => !is_open (strip line)) = opened :: (inside ++ closed :: below) := by
    rw [List.dropWhile_append_of_pos fun p hp => by rw [habove p hp]; rfl]
    exact List.dropWhile_cons_of_neg (by rw [hopened]; decide)
  have hany : (inside ++ closed :: below).any (fun line => is_close (strip line)) = true :=
    List.any_eq_true.mpr ⟨closed, by simp, hclosed⟩
  have htake : (inside ++ closed :: below).takeWhile (fun line => !is_close (strip line)) =
      inside.takeWhile fun line => !is_close (strip line) := by
    rw [List.takeWhile_append, List.takeWhile_cons_of_neg (by rw [hclosed]; decide), List.append_nil]
    split
    · rename_i hall
      exact ((List.takeWhile_prefix _).eq_of_length hall).symm
    · rfl
  rw [slice_payload, hdrop]
  simp only [hany, if_true, htake]

theorem slice_payload_block (habove : ∀ p ∈ above, is_open (strip p) = false)
    (hopened : is_open (strip opened) = true) (hinside : ∀ p ∈ inside, is_close (strip p) = false)
    (hclosed : is_close (strip closed) = true) :
    slice_payload (above ++ opened :: (inside ++ closed :: below)) is_open is_close = some inside := by
  rw [slice_payload_opened habove hopened hclosed,
    List.takeWhile_eq_self_iff.mpr fun p hp => by rw [hinside p hp]; rfl]

theorem slice_payload_unclosed {lines : List PyStr} (h : ∀ p ∈ lines, is_close (strip p) = false) :
    slice_payload lines is_open is_close = none := by
  unfold slice_payload
  split
  · rfl
  · rename_i opened rest hdrop
    have hsuffix := List.dropWhile_suffix (fun line => !is_open (strip line)) (l := lines)
    rw [hdrop] at hsuffix
    have hnot : rest.any (fun line => is_close (strip line)) = false := by
      rw [List.any_eq_false]
      intro p hp
      rw [h p (hsuffix.subset (List.mem_cons_of_mem _ hp))]
      exact Bool.false_ne_true
    rw [hnot]
    rfl

end Slice

section Payload

variable {lib : Library} {text source : PyStr} {above inside below : List PyStr} {payload : Bytes}

theorem extract_payload_ps1
    (hlines : splitlines text = above ++ PAYLOAD_OPEN :: (inside ++ PAYLOAD_CLOSE :: below))
    (habove : ∀ p ∈ above, strip p ≠ PAYLOAD_OPEN) (hinside : ∀ p ∈ inside, strip p ≠ PAYLOAD_CLOSE)
    (hdecode : lib.b64decode (inside.flatMap strip) = some payload) :
    extract_payload lib text source = .ok (payload, .ps1) := by
  have hslice : slice_payload (splitlines text) (· == PAYLOAD_OPEN) (· == PAYLOAD_CLOSE) =
      some inside := by
    rw [hlines]
    exact slice_payload_block (fun p hp => beq_false_of_ne (habove p hp)) (by decide)
      (fun p hp => beq_false_of_ne (hinside p hp)) (by decide)
  simp only [extract_payload, hslice, decode_payload, hdecode]
  rfl

theorem extract_payload_sh {opened closed : PyStr}
    (hlines : splitlines text = above ++ opened :: (inside ++ closed :: below))
    (hunclosed : ∀ p ∈ splitlines text, strip p ≠ PAYLOAD_CLOSE)
    (habove : ∀ p ∈ above, ¬SH_PAYLOAD_OPEN <:+ strip p) (hopened : SH_PAYLOAD_OPEN <:+ strip opened)
    (hinside : ∀ p ∈ inside, strip p ≠ SH_HEREDOC) (hclosed : strip closed = SH_HEREDOC)
    (hdecode : lib.b64decode (inside.flatMap strip) = some payload) :
    extract_payload lib text source = .ok (payload, .sh) := by
  have hps1 : slice_payload (splitlines text) (· == PAYLOAD_OPEN) (· == PAYLOAD_CLOSE) = none :=
    slice_payload_unclosed fun p hp => beq_false_of_ne (hunclosed p hp)
  have hslice : slice_payload (splitlines text) SH_PAYLOAD_OPEN.isSuffixOf (· == SH_HEREDOC) =
      some inside := by
    rw [hlines]
    refine slice_payload_block (fun p hp => ?_) (List.isSuffixOf_iff_suffix.mpr hopened)
      (fun p hp => beq_false_of_ne (hinside p hp)) (beq_iff_eq.mpr hclosed)
    exact Bool.eq_false_iff.mpr fun h => habove p hp (List.isSuffixOf_iff_suffix.mp h)
  simp only [extract_payload, hps1, hslice, decode_payload, hdecode]
  rfl

end Payload

/-! ## The entry -/

theorem extract_entry_name_append {head : List PyStr} (h : ∀ p ∈ head, quietPiece p = true)
    (rest : List PyStr) : extract_entry_name (head ++ rest) = extract_entry_name rest := by
  induction head with
  | nil => rfl
  | cons p head ih =>
      rw [List.forall_mem_cons] at h
      have hquiet := (quietPiece_iff.mp h.1).2
      have hps1 : ¬(ENTRY_PREFIX <+: strip p ∧ [QUOTE] <:+ strip p) := fun hp =>
        hquiet ⟨hp.2, Or.inl hp.1⟩
      have hsh : ¬(SH_ENTRY_PREFIX <+: strip p ∧ [QUOTE] <:+ strip p) := fun hp =>
        hquiet ⟨hp.2, Or.inr hp.1⟩
      rw [List.cons_append, extract_entry_name]
      simp only [hps1, hsh, if_false]
      exact ih h.2

/-- A text between two characters that are no spaces is stripped of nothing. -/
theorem strip_ends {c d : Nat} (hc : isSpace c = false) (hd : isSpace d = false) (text : PyStr) :
    strip (c :: (text ++ [d])) = c :: (text ++ [d]) := by
  rw [strip, stripBy, List.dropWhile_cons_of_neg (by simp [hc]), ← List.cons_append,
    List.rdropWhile_concat_neg _ _ _ (by simp [hd])]

theorem entryPiece_ps1 (entry : PyStr) :
    entryPiece entry .ps1 = ENTRY_PREFIX ++ (doubled entry ++ [QUOTE]) := by
  simp [entryPiece, powershell_literal, ENTRY_PREFIX, py, QUOTE]

theorem entryPiece_sh (entry : PyStr) :
    entryPiece entry .sh = SH_ENTRY_PREFIX ++ (escaped entry ++ [QUOTE]) := by
  simp [entryPiece, posix_shell_word, SH_ENTRY_PREFIX, py, QUOTE]

theorem strip_entryPiece (entry : PyStr) (fmt : RunnerFormat) :
    strip (entryPiece entry fmt) = entryPiece entry fmt := by
  cases fmt with
  | ps1 =>
      rw [entryPiece_ps1, ← List.append_assoc]
      exact strip_ends (c := 0x24) (by decide) (by decide) (ENTRY_PREFIX.tail ++ doubled entry)
  | sh =>
      rw [entryPiece_sh, ← List.append_assoc]
      exact strip_ends (c := 0x50) (by decide) (by decide) (SH_ENTRY_PREFIX.tail ++ escaped entry)

theorem extract_entry_name_entryPiece (entry : PyStr) (fmt : RunnerFormat) (rest : List PyStr) :
    extract_entry_name (entryPiece entry fmt :: rest) = entry := by
  cases fmt with
  | ps1 =>
      have hends : ENTRY_PREFIX <+: ENTRY_PREFIX ++ (doubled entry ++ [QUOTE]) ∧
          [QUOTE] <:+ ENTRY_PREFIX ++ (doubled entry ++ [QUOTE]) :=
        ⟨List.prefix_append _ _, ⟨ENTRY_PREFIX ++ doubled entry, List.append_assoc ..⟩⟩
      rw [extract_entry_name, strip_entryPiece]
      simp only [entryPiece_ps1, if_pos hends, List.drop_left, List.dropLast_concat, unquote_doubled]
  | sh =>
      have hends : SH_ENTRY_PREFIX <+: SH_ENTRY_PREFIX ++ (escaped entry ++ [QUOTE]) ∧
          [QUOTE] <:+ SH_ENTRY_PREFIX ++ (escaped entry ++ [QUOTE]) :=
        ⟨List.prefix_append _ _, ⟨SH_ENTRY_PREFIX ++ escaped entry, List.append_assoc ..⟩⟩
      have hother : ¬(ENTRY_PREFIX <+: SH_ENTRY_PREFIX ++ (escaped entry ++ [QUOTE]) ∧
          [QUOTE] <:+ SH_ENTRY_PREFIX ++ (escaped entry ++ [QUOTE])) := by
        rintro ⟨⟨rest, hrest⟩, -⟩
        have hhead := congrArg List.head? hrest
        cases hhead
      have hword : (SH_ENTRY_PREFIX ++ (escaped entry ++ [QUOTE])).drop (SH_ENTRY_PREFIX.length - 1) =
          posix_shell_word entry := by
        have hbegun : SH_ENTRY_PREFIX = py "PWSHPY_ENTRY=" ++ [QUOTE] := by decide
        have hlength : SH_ENTRY_PREFIX.length - 1 = (py "PWSHPY_ENTRY=").length := by decide
        rw [hlength, hbegun, List.append_assoc]
        exact List.drop_left
      rw [extract_entry_name, strip_entryPiece]
      simp only [entryPiece_sh, if_neg hother, if_pos hends, hword, shlex_split_word]

/-- The entry that is read holds no boundary. -/
theorem clean_extract_entry_name {lines : List PyStr}
    (h : ∀ p ∈ lines, ∀ c ∈ p, isLineBoundary c = false) :
    ∀ c ∈ extract_entry_name lines, isLineBoundary c = false := by
  induction lines with
  | nil => exact fun c hc => absurd hc List.not_mem_nil
  | cons p lines ih =>
      rw [List.forall_mem_cons] at h
      have hstrip : ∀ c ∈ strip p, isLineBoundary c = false := fun c hc => h.1 c (mem_strip hc)
      rw [extract_entry_name]
      split_ifs
      · intro c hc
        exact hstrip c (List.mem_of_mem_drop (List.mem_of_mem_dropLast (mem_of_mem_unquote hc)))
      · split
        · rename_i word hwords
          exact shlex_split_subset (by decide) hwords
            (fun c hc => hstrip c (List.mem_of_mem_drop hc)) word (List.mem_singleton_self word)
        · exact fun c hc => absurd hc List.not_mem_nil
      · exact ih h.2

end PwshPy.Packing
