import PwshPy.Packing.ScriptBlock

/-! # The blocks PEP 723 reads

The reference regular expression on the lines of a text. Its `^`, `$` and `\s`
meet at every LF, so each of its parts takes whole lines: an opening line, one
or more content lines, and a closing line as far down as the run of content
lines has one.
-/

namespace PwshPy.Packing.Reference

/-- `[a-zA-Z0-9-]` -/
def isTypeChar (c : Nat) : Bool :=
  (0x61 ≤ c && c ≤ 0x7a) || (0x41 ≤ c && c ≤ 0x5a) || isDigit c || c == 0x2d

/-- `^# /// (?P<type>[a-zA-Z0-9-]+)$` -/
def opening_type (line : PyStr) : Option PyStr :=
  let type := line.drop 6
  if (py "# /// ").isPrefixOf line ∧ type ≠ [] ∧ type.all isTypeChar = true then some type else none

/-- `^#(| .*)$` -/
def isContent (line : PyStr) : Bool := line == py "#" || (py "# ").isPrefixOf line

/-- `(^#(| .*)$\s)*^# ///$`: the last closing line of the run, and the lines to it. -/
def last_close : List PyStr → Option (List PyStr)
  | [] => none
  | line :: rest =>
      if isContent line then
        match last_close rest with
        | some block => some (line :: block)
        | none => if line = PEP723_CLOSE then some [line] else none
      else none

/-- `(^#(| .*)$\s)+^# ///$` -/
def content_block : List PyStr → Option (List PyStr)
  | [] => none
  | line :: rest => if isContent line then (last_close rest).map (line :: ·) else none

/-- `re.finditer`: the types of the blocks and their lines. So many lines are
part of the match before. -/
def blocks : Nat → List PyStr → List (PyStr × List PyStr)
  | _, [] => []
  | taken + 1, _ :: rest => blocks taken rest
  | 0, line :: rest =>
      match opening_type line, content_block rest with
      | some type, some block => (type, line :: block) :: blocks block.length rest
      | _, _ => blocks 0 rest

/-- The first match whose type is `script`. -/
def script_block (lines : List PyStr) : Option (List PyStr) :=
  ((blocks 0 lines).find? fun block => block.1 == py "script").map Prod.snd

/-- The lines of a text. -/
def text_lines (source : PyStr) : List PyStr := source.splitOn LF

/-! ## Where a block ends -/

theorem isContent_close : isContent PEP723_CLOSE = true := by decide

theorem last_close_eq_none {lines : List PyStr}
    (h : PEP723_CLOSE ∉ lines.takeWhile isContent) : last_close lines = none := by
  induction lines with
  | nil => rfl
  | cons line rest ih =>
      unfold last_close
      by_cases hline : isContent line = true
      · rw [List.takeWhile_cons_of_pos hline, List.mem_cons, not_or] at h
        rw [if_pos hline, ih h.2]
        exact if_neg (Ne.symm h.1)
      · rw [if_neg hline]

theorem last_close_append {inner after : List PyStr} (hinner : ∀ line ∈ inner, isContent line = true)
    (hafter : PEP723_CLOSE ∉ after.takeWhile isContent) :
    last_close (inner ++ PEP723_CLOSE :: after) = some (inner ++ [PEP723_CLOSE]) := by
  induction inner with
  | nil =>
      rw [List.nil_append, last_close, if_pos isContent_close, last_close_eq_none hafter]
      rfl
  | cons line inner ih =>
      simp only [List.mem_cons, forall_eq_or_imp] at hinner
      rw [List.cons_append, last_close, if_pos hinner.1, ih hinner.2]
      rfl

theorem content_block_append {inner after : List PyStr} (hne : inner ≠ [])
    (hinner : ∀ line ∈ inner, isContent line = true)
    (hafter : PEP723_CLOSE ∉ after.takeWhile isContent) :
    content_block (inner ++ PEP723_CLOSE :: after) = some (inner ++ [PEP723_CLOSE]) := by
  cases inner with
  | nil => exact absurd rfl hne
  | cons line inner =>
      simp only [List.mem_cons, forall_eq_or_imp] at hinner
      rw [List.cons_append, content_block, if_pos hinner.1, last_close_append hinner.2 hafter]
      rfl

theorem last_close_begins {lines block : List PyStr} (h : last_close lines = some block) :
    block <+: lines := by
  induction lines generalizing block with
  | nil => cases h
  | cons line rest ih =>
      unfold last_close at h
      split at h
      · split at h
        · rename_i longer hlonger
          cases h
          exact List.cons_prefix_cons.mpr ⟨rfl, ih hlonger⟩
        · split at h
          · cases h
            exact List.cons_prefix_cons.mpr ⟨rfl, List.nil_prefix⟩
          · cases h
      · cases h

theorem content_block_begins {lines block : List PyStr} (h : content_block lines = some block) :
    block <+: lines := by
  cases lines with
  | nil => cases h
  | cons line rest =>
      rw [content_block] at h
      split at h
      · obtain ⟨longer, hlonger, rfl⟩ := Option.map_eq_some_iff.mp h
        exact List.cons_prefix_cons.mpr ⟨rfl, last_close_begins hlonger⟩
      · cases h

/-! ## The first block of the type `script` -/

theorem opening_type_open : opening_type PEP723_OPEN = some (py "script") := by decide

theorem eq_open_of_opening_type {line : PyStr} (h : opening_type line = some (py "script")) :
    line = PEP723_OPEN := by
  unfold opening_type at h
  dsimp only at h
  split at h
  · rename_i hline
    obtain ⟨rest, rfl⟩ := List.isPrefixOf_iff_prefix.mp hline.1
    have hrest : rest = py "script" := Option.some.inj h
    rw [hrest]
    decide
  · cases h

/-- A block begins with a line that opens one of its type. -/
theorem opens_of_mem_blocks {taken : Nat} {lines : List PyStr} {found : PyStr × List PyStr}
    (h : found ∈ blocks taken lines) :
    ∃ line ∈ lines, opening_type line = some found.1 := by
  induction lines generalizing taken with
  | nil =>
      rw [blocks.eq_def] at h
      cases h
  | cons line rest ih =>
      have hlater : ∀ {taken}, found ∈ blocks taken rest →
          ∃ line' ∈ line :: rest, opening_type line' = some found.1 := by
        intro taken hmem
        obtain ⟨line', hline', htype⟩ := ih hmem
        exact ⟨line', List.mem_cons_of_mem _ hline', htype⟩
      cases taken with
      | succ taken => exact hlater h
      | zero =>
          unfold blocks at h
          split at h
          · rename_i type block htype hblock
            cases List.mem_cons.mp h with
            | inl hfound =>
                subst hfound
                exact ⟨line, List.mem_cons_self, htype⟩
            | inr hmem => exact hlater hmem
          · exact hlater h

theorem script_block_eq_none {lines : List PyStr} (h : PEP723_OPEN ∉ lines) :
    script_block lines = none := by
  have hnone : (blocks 0 lines).find? (fun block => block.1 == py "script") = none := by
    rw [List.find?_eq_none]
    intro found hfound htype
    obtain ⟨line, hline, hopens⟩ := opens_of_mem_blocks hfound
    have hscript : found.1 = py "script" := eq_of_beq htype
    rw [hscript] at hopens
    exact h (eq_open_of_opening_type hopens ▸ hline)
  rw [script_block, hnone]
  rfl

/-- The first opening line is reached when no block of another type takes it. -/
theorem find_first {before rest block : List PyStr} (hblock : content_block rest = some block)
    {taken : Nat} (htaken : taken ≤ before.length) (hbefore : PEP723_OPEN ∉ before)
    (hothers : ∀ found ∈ blocks taken (before ++ PEP723_OPEN :: rest),
      found.1 ≠ py "script" → PEP723_OPEN ∉ found.2) :
    (blocks taken (before ++ PEP723_OPEN :: rest)).find? (fun found => found.1 == py "script") =
      some (py "script", PEP723_OPEN :: block) := by
  induction before generalizing taken with
  | nil =>
      obtain rfl : taken = 0 := Nat.le_zero.mp htaken
      rw [List.nil_append, blocks, opening_type_open, hblock]
      rfl
  | cons line before ih =>
      rw [List.mem_cons, not_or] at hbefore
      cases taken with
      | succ taken => exact ih (Nat.le_of_succ_le_succ htaken) hbefore.2 hothers
      | zero =>
          rw [List.cons_append] at hothers ⊢
          unfold blocks at hothers ⊢
          split at hothers
          · rename_i type inner htype hinner
            have hscript : type ≠ py "script" := by
              intro heq
              subst heq
              exact hbefore.1 (eq_open_of_opening_type htype).symm
            have hfree := hothers _ List.mem_cons_self hscript
            -- a block that reached the opening line would hold it
            have hshort : inner.length ≤ before.length := by
              by_contra hlong
              obtain ⟨more, hmore⟩ := content_block_begins hinner
              have hmem : PEP723_OPEN ∈ inner := by
                have hle : before.length < inner.length := Nat.lt_of_not_le hlong
                have hget : (inner ++ more)[before.length]? = inner[before.length]? :=
                  List.getElem?_append_left hle
                rw [hmore, List.getElem?_append_right (Nat.le_refl _), Nat.sub_self] at hget
                exact List.mem_of_getElem? hget.symm
              exact hfree (List.mem_cons_of_mem _ hmem)
            have hlater := ih hshort hbefore.2 fun found hfound =>
              hothers found (List.mem_cons_of_mem _ hfound)
            rw [List.find?_cons_of_neg (by simpa using hscript)]
            exact hlater
          · exact ih (Nat.zero_le _) hbefore.2 hothers

end PwshPy.Packing.Reference
