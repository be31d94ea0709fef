import PwshPy.Packing.Scanner

/-! # What the scanner finds in a document

Every construct of the grammar is read from where it begins, given that what
follows it is read from there. A string needs one thing more of what follows:
no quotation mark, as the scanner takes a run of them together. In a document a
string is followed by a blank, a bracket, a comma or the like, so the lines of
every document are read as the grammar has them.
-/

namespace PwshPy.Packing

open Toml (Quote Mark Line Role lines code quoted commented)

/-- The text does not begin with this quotation mark. -/
def Apart (mark : Quote) (m : List Mark) : Prop := ∀ role, m.head? ≠ some (.char role mark.char)

/-- The text does not begin with a quotation mark. -/
def Unquoted (m : List Mark) : Prop := ∀ mark, Apart mark m

theorem Apart.line {mark : Quote} {m : List Mark} (h : Apart mark m) {l : Line} {ls : List Line}
    (hl : lines m = l :: ls) : l.text.head? ≠ some mark.char := by
  cases m with
  | nil => simp at hl
  | cons first m =>
      cases first with
      | newline w =>
          obtain rfl : ⟨[], w⟩ = l := (List.cons.inj hl).1
          simp [Line.text]
      | char role c =>
          have hc : c ≠ mark.char := fun hc => h role (by rw [hc]; rfl)
          cases hm : lines m with
          | nil =>
              simp only [Toml.lines, hm] at hl
              obtain rfl := (List.cons.inj hl).1
              simpa [Line.text] using hc
          | cons k ks =>
              rw [Toml.lines_char hm] at hl
              obtain rfl := (List.cons.inj hl).1
              simpa using hc

/-! ## One step from the left -/

theorem Reads.newline {quote : Option Delimiter} {within : Option Quote} {m : List Mark}
    (h : ReadsLines (within.map delimiter) m)
    (hopen : quote.filter (·.multi_line) = within.map delimiter) :
    Reads quote (.newline within :: m) := by
  have hscan : scan_toml_characters quote [] =
      { code := [], comment := 0, open_string := within.map delimiter } := by
    rw [scan_toml_characters.eq_def, hopen]
  refine ⟨by simp, ?_⟩
  unfold ReadsLines at h ⊢
  rw [Toml.lines_newline, List.map_cons, scan_lines, List.forall₂_cons]
  simp only [Line.text, List.map_nil, hscan]
  exact ⟨⟨rfl, rfl, rfl⟩, h⟩

theorem Reads.lines {quote : Option Delimiter} {m : List Mark} (h : Reads quote m) :
    ∃ l ls, lines m = l :: ls ∧ Agrees l (scan_toml_characters quote l.text) ∧
      List.Forall₂ Agrees ls
        (scan_lines (scan_toml_characters quote l.text).open_string (ls.map (·.text))) := by
  obtain ⟨l, ls, hl⟩ := List.exists_cons_of_ne_nil (Toml.lines_ne_nil h.1)
  have hall := h.2
  unfold ReadsLines at hall
  rw [hl, List.map_cons, scan_lines, List.forall₂_cons] at hall
  exact ⟨l, ls, hl, hall⟩

private theorem lines_quoted (s : PyStr) {m : List Mark} {l : Line} {ls : List Line}
    (hl : Toml.lines m = l :: ls) :
    Toml.lines (quoted s ++ m) = ⟨s.map (Prod.mk .quoted) ++ l.chars, l.within⟩ :: ls := by
  induction s with
  | nil => exact hl
  | cons c s ih => rw [Toml.quoted_cons, List.cons_append, Toml.lines_char ih]; rfl

/-- A piece of a string that the scanner passes over. -/
theorem Reads.quoted {quote quote' : Option Delimiter} {s : PyStr} {m : List Mark}
    (h : Reads quote' m)
    (hscan : ∀ l ls, Toml.lines m = l :: ls →
      scan_toml_characters quote (s ++ l.text) =
        (scan_toml_characters quote' l.text).behind s.length) :
    Reads quote (Toml.quoted s ++ m) := by
  obtain ⟨l, ls, hl, hagrees, hrest⟩ := h.lines
  have hline := hscan l ls hl
  have htext : (⟨s.map (Prod.mk .quoted) ++ l.chars, l.within⟩ : Line).text = s ++ l.text := by
    simp [Line.text, Function.comp_def]
  have hcode : (⟨s.map (Prod.mk .quoted) ++ l.chars, l.within⟩ : Line).code = l.code := by
    simp [Line.code, List.filter_map, Function.comp_def]
  have huncommented : (⟨s.map (Prod.mk .quoted) ++ l.chars, l.within⟩ : Line).uncommented =
      s ++ l.uncommented := by
    simp [Line.uncommented, List.filter_map, Function.comp_def]
  refine ⟨by simp [h.1], ?_⟩
  unfold ReadsLines
  rw [lines_quoted s hl, List.map_cons, scan_lines, List.forall₂_cons, htext, hline]
  refine ⟨⟨?_, ?_, hagrees.open_string⟩, hrest⟩
  · rw [hcode]
    exact hagrees.code
  · rw [htext, huncommented, ← hagrees.uncommented]
    exact List.take_length_add_append _

theorem Reads.code_char {c : Nat} {m : List Mark} (hcomment : c ≠ 0x23)
    (hmark : quotation_mark c = none) (h : Reads none m) : Reads none (.char .code c :: m) := by
  obtain ⟨l, ls, hl, hagrees, hrest⟩ := h.lines
  refine ⟨by simp, ?_⟩
  unfold ReadsLines
  rw [Toml.lines_char hl, List.map_cons, scan_lines, List.forall₂_cons, Line.push_text,
    scan_code hcomment hmark]
  refine ⟨⟨?_, ?_, hagrees.open_string⟩, hrest⟩
  · rw [Line.push_code, ← hagrees.code]
  · rw [Line.push_text, Line.push_uncommented, ← hagrees.uncommented, List.take_succ_cons]

/-- A character that is code wherever it stands outside strings and comments. -/
def isCodeChar (c : Nat) : Bool :=
  c != 0x23 && c != Quote.basic.char && c != Quote.literal.char

theorem Reads.code {s : PyStr} (hs : s.all isCodeChar = true) {m : List Mark}
    (h : Reads none m) : Reads none (Toml.code s ++ m) := by
  induction s with
  | nil => exact h
  | cons c s ih =>
      rw [List.all_cons, Bool.and_eq_true] at hs
      have hc := hs.1
      simp only [isCodeChar, Bool.and_eq_true, bne_iff_ne] at hc
      refine Reads.code_char hc.1.1 ?_ (ih hs.2)
      simp only [quotation_mark, hc.1.2, hc.2, if_false]

theorem Reads.comment (c : Toml.Comment) {m : List Mark} (h : ReadsLines none m) :
    Reads none (Toml.commentMarks c ++ .newline none :: m) := by
  cases c with
  | none => exact Reads.newline h rfl
  | some s =>
      have hl : Toml.lines (commented (0x23 :: s.1) ++ .newline none :: m) =
          ⟨(0x23 :: s.1).map (Prod.mk .comment), none⟩ :: Toml.lines m := by
        have := Toml.lines_row_newline ((0x23 :: s.1).map (Prod.mk .comment)) none m
        simpa [Toml.row, commented, Function.comp_def] using this
      have htext : (⟨(0x23 :: s.1).map (Prod.mk .comment), none⟩ : Line).text = 0x23 :: s.1 := by
        simp [Line.text, Function.comp_def]
      refine ⟨by simp, ?_⟩
      unfold ReadsLines
      rw [Toml.commentMarks, hl, List.map_cons (f := Line.text), scan_lines, List.forall₂_cons,
        htext, scan_comment]
      refine ⟨⟨?_, ?_, rfl⟩, h⟩
      · simp [Line.code]
      · simp [Line.uncommented]

/-! ## Strings -/

theorem isBasicChar_apart {c : Nat} (h : Toml.isBasicChar c = true) :
    c ≠ Quote.basic.char ∧ c ≠ 0x5c := by
  simp only [Toml.isBasicChar, Bool.and_eq_true, bne_iff_ne] at h
  exact ⟨h.1.2, h.2⟩

theorem isLiteralChar_apart {c : Nat} (h : Toml.isLiteralChar c = true) :
    c ≠ Quote.literal.char := by
  simp only [Toml.isLiteralChar, Bool.and_eq_true, bne_iff_ne] at h
  exact h.2

/-- Characters that mean nothing to the scanner inside a string. -/
theorem scan_string_chars {quote : Delimiter} {s : PyStr}
    (hs : ∀ c ∈ s, c ≠ quote.mark.char ∧ ¬(quote.mark = .basic ∧ c = 0x5c)) (rest : PyStr) :
    scan_toml_characters (some quote) (s ++ rest) =
      (scan_toml_characters (some quote) rest).behind s.length := by
  induction s with
  | nil => simp [TomlLineScan.behind]
  | cons c s ih =>
      rw [List.forall_mem_cons] at hs
      rw [List.cons_append, scan_string_char hs.1.1 hs.1.2, ih hs.2, behind_behind,
        List.length_cons]

theorem isHexDigit_apart {c : Nat} (h : Toml.isHexDigit c = true) :
    c ≠ Quote.basic.char ∧ c ≠ 0x5c := by
  simp only [Toml.isHexDigit, Bool.or_eq_true, Bool.and_eq_true, decide_eq_true_eq] at h
  simp only [Quote.char]
  omega

theorem isBlank_apart {c : Nat} (h : Toml.isBlank c = true) : c = 0x20 ∨ c = 0x09 := by
  simpa [Toml.isBlank] using h

theorem scan_basic_item (multi_line : Bool) (i : Toml.BasicItem) (rest : PyStr) :
    scan_toml_characters (some ⟨.basic, multi_line⟩) (i.text ++ rest) =
      (scan_toml_characters (some ⟨.basic, multi_line⟩) rest).behind i.text.length := by
  cases i with
  | char c h =>
      have hc := isBasicChar_apart h
      exact scan_string_char hc.1 (by simp [hc.2]) rest
  | escape e => exact scan_string_escape multi_line e.letter rest
  | unicode u =>
      have hdigits : ∀ d ∈ u.digits.1, d ≠ Quote.basic.char ∧ ¬(Quote.basic = .basic ∧ d = 0x5c) := by
        intro d hd
        have := isHexDigit_apart (List.all_eq_true.mp u.digits.2 d hd)
        simpa using this
      simp only [Toml.BasicItem.text, List.cons_append, List.length_cons]
      rw [scan_string_escape, scan_string_chars hdigits, behind_behind]

theorem scan_basic_items (multi_line : Bool) (items : List Toml.BasicItem) (rest : PyStr) :
    scan_toml_characters (some ⟨.basic, multi_line⟩) (items.flatMap (·.text) ++ rest) =
      (scan_toml_characters (some ⟨.basic, multi_line⟩) rest).behind
        (items.flatMap (·.text)).length := by
  induction items with
  | nil => simp [TomlLineScan.behind]
  | cons i items ih =>
      rw [List.flatMap_cons, List.append_assoc, scan_basic_item, ih, behind_behind,
        List.length_append, Nat.add_comm]

/-- An opening quotation mark that no second and third follow. -/
theorem reads_opening (mark : Quote) {m : List Mark}
    (hm : ∀ l ls, Toml.lines m = l :: ls → (l.text.take 2 == [mark.char, mark.char]) = false)
    (h : Reads (some ⟨mark, false⟩) m) : Reads none (mark.run 1 ++ m) := by
  refine Reads.quoted h ?_
  intro l ls hl
  have hopen := @scan_opening mark.char mark (by cases mark <;> decide)
    (by cases mark <;> decide) l.text
  simp only [hm l ls hl] at hopen
  exact hopen

theorem reads_triple_opening (mark : Quote) {m : List Mark}
    (h : Reads (some (delimiter mark)) m) : Reads none (mark.run 3 ++ m) := by
  refine Reads.quoted h ?_
  intro l ls hl
  have hopen := @scan_opening mark.char mark (by cases mark <;> decide)
    (by cases mark <;> decide) (mark.char :: mark.char :: l.text)
  simpa [Delimiter.length, delimiter] using hopen

theorem reads_closing (mark : Quote) {m : List Mark} (h : Reads none m) :
    Reads (some ⟨mark, false⟩) (mark.run 1 ++ m) :=
  Reads.quoted h fun l _ _ => scan_string_close mark l.text

/-- A string of one line, its body between two quotation marks. -/
theorem reads_single (mark : Quote) {body : PyStr} (hbody : body.head? ≠ some mark.char)
    (hscan : ∀ rest, scan_toml_characters (some ⟨mark, false⟩) (body ++ rest) =
      (scan_toml_characters (some ⟨mark, false⟩) rest).behind body.length)
    {m : List Mark} (h : Reads none m) (hm : Apart mark m) :
    Reads none (mark.run 1 ++ (quoted body ++ (mark.run 1 ++ m))) := by
  refine reads_opening mark ?_ (Reads.quoted (reads_closing mark h) fun l _ _ => hscan l.text)
  intro l ls hl
  obtain ⟨k, ks, hk, -⟩ := h.lines
  have hhead := hm.line hk
  have hline := lines_quoted body (lines_quoted [mark.char] hk)
  obtain rfl := (List.cons.inj (hline.symm.trans hl)).1
  cases body with
  | nil =>
      cases hrest : k.text with
      | nil => simp [Line.text] at hrest; simp [Line.text, hrest]
      | cons c rest =>
          have hc : c ≠ mark.char := fun hc => hhead (by rw [hrest, hc]; rfl)
          rw [Line.text] at hrest
          simp [Line.text, hrest, hc]
  | cons c body =>
      have hc : c ≠ mark.char := fun hc => hbody (by rw [hc]; rfl)
      simp [Line.text, hc]

/-- One or two quotation marks before an item of a multi-line string. -/
theorem reads_quotes (mark : Quote) (quotes : Fin 3) {m : List Mark}
    (h : Reads (some (delimiter mark)) m) (hm : Apart mark m) :
    Reads (some (delimiter mark)) (mark.run quotes ++ m) := by
  refine Reads.quoted h ?_
  intro l ls hl
  rw [scan_string_quotes mark (hm.line hl) quotes.isLt, List.length_replicate]

theorem reads_triple_closing (mark : Quote) (quotes : Fin 3) {m : List Mark} (h : Reads none m)
    (hm : Apart mark m) : Reads (some (delimiter mark)) (mark.run (quotes + 3) ++ m) := by
  refine Reads.quoted h ?_
  intro l ls hl
  have hlt := quotes.isLt
  have hn : MULTI_LINE_DELIMITER ≤ quotes.val + 3 := by
    unfold MULTI_LINE_DELIMITER
    omega
  have hlong : quotes.val + 3 ≤ LONGEST_CLOSING_RUN := by
    unfold LONGEST_CLOSING_RUN
    omega
  rw [scan_string_closing_run mark (hm.line hl) hn hlong, List.length_replicate]

theorem basic_text_head (i : Toml.BasicItem) (rest : PyStr) :
    (i.text ++ rest).head? ≠ some Quote.basic.char := by
  cases i with
  | char c h => simpa [Toml.BasicItem.text] using (isBasicChar_apart h).1
  | escape e => simp [Toml.BasicItem.text, Quote.char]
  | unicode u => simp [Toml.BasicItem.text, Quote.char]

theorem reads_folded_part (p : Fin 3 × Toml.FoldedItem) {m : List Mark}
    (h : Reads (some (delimiter .basic)) m) :
    Reads (some (delimiter .basic)) (Quote.basic.run p.1 ++ p.2.marks ++ m) := by
  rw [List.append_assoc]
  cases hp : p.2 with
  | item i =>
      refine reads_quotes .basic p.1 (Reads.quoted h fun l _ _ => scan_basic_item true i l.text) ?_
      intro role hrole
      have hhead := basic_text_head i []
      rw [List.append_nil] at hhead
      cases hi : i.text with
      | nil => cases i <;> simp [Toml.BasicItem.text] at hi
      | cons c s =>
          rw [Toml.FoldedItem.marks, hi] at hrole
          rw [hi] at hhead
          simp at hrole hhead
          exact hhead hrole.2
  | newline =>
      refine reads_quotes .basic p.1 (Reads.newline h.2 rfl) ?_
      intro role hrole
      simp [Toml.FoldedItem.marks] at hrole
  | fold blanks =>
      have hline : Reads (some (delimiter .basic)) (.newline (some .basic) :: m) :=
        Reads.newline h.2 rfl
      have hblanks : ∀ c ∈ blanks.1, c ≠ Quote.basic.char ∧ ¬(Quote.basic = .basic ∧ c = 0x5c) := by
        intro c hc
        have := isBlank_apart (List.all_eq_true.mp blanks.2 c hc)
        simp only [Quote.char, true_and]
        omega
      rw [Toml.FoldedItem.marks, List.append_assoc]
      refine reads_quotes .basic p.1 (Reads.quoted hline ?_) ?_
      · intro l ls hl
        obtain rfl : (⟨[], some .basic⟩ : Line) = l := (List.cons.inj hl).1
        cases hb : blanks.1 with
        | nil => exact scan_string_backslash true
        | cons b bs =>
            rw [hb, List.forall_mem_cons] at hblanks
            have hbs := @scan_string_chars (delimiter .basic) bs hblanks.2 []
            simp only [List.cons_append, List.length_cons, delimiter, Line.text, List.map_nil] at hbs ⊢
            rw [scan_string_escape, hbs, behind_behind]
      · intro role hrole
        simp [Quote.char] at hrole

theorem reads_raw_part (p : Fin 3 × Toml.RawItem) {m : List Mark}
    (h : Reads (some (delimiter .literal)) m) :
    Reads (some (delimiter .literal)) (Quote.literal.run p.1 ++ p.2.marks ++ m) := by
  rw [List.append_assoc]
  cases hp : p.2 with
  | char c hc =>
      have hmark := isLiteralChar_apart hc
      refine reads_quotes .literal p.1 (Reads.quoted h fun l _ _ => ?_) ?_
      · exact @scan_string_char (delimiter .literal) c hmark (by simp [delimiter]) l.text
      · intro role hrole
        simp [Toml.RawItem.marks] at hrole
        exact hmark hrole.2
  | newline =>
      refine reads_quotes .literal p.1 (Reads.newline h.2 rfl) ?_
      intro role hrole
      simp [Toml.RawItem.marks] at hrole

theorem reads_parts {ι : Type} {quote : Option Delimiter} {part : ι → List Mark}
    (hpart : ∀ (p : ι) {m : List Mark}, Reads quote m → Reads quote (part p ++ m)) (ps : List ι)
    {m : List Mark} (h : Reads quote m) : Reads quote (ps.flatMap part ++ m) := by
  induction ps with
  | nil => exact h
  | cons p ps ih =>
      rw [List.flatMap_cons, List.append_assoc]
      exact hpart p ih

theorem reads_str (s : Toml.Str) {m : List Mark} (h : Reads none m) (hm : Unquoted m) :
    Reads none (s.marks ++ m) := by
  cases s with
  | basic items =>
      have hbody : (items.flatMap (·.text)).head? ≠ some Quote.basic.char := by
        cases items with
        | nil => simp
        | cons i items => exact basic_text_head i _
      simp only [Toml.Str.marks, List.append_assoc]
      exact reads_single .basic hbody (scan_basic_items false items) h (hm .basic)
  | literal chars =>
      have hapart : ∀ c ∈ chars.1, c ≠ Quote.literal.char := fun c hc =>
        isLiteralChar_apart (List.all_eq_true.mp chars.2 c hc)
      have hbody : chars.1.head? ≠ some Quote.literal.char := by
        intro hhead
        exact hapart _ (List.mem_of_mem_head? hhead) rfl
      simp only [Toml.Str.marks, List.append_assoc]
      exact reads_single .literal hbody
        (scan_string_chars fun c hc => ⟨hapart c hc, by simp⟩) h (hm .literal)
  | folded parts quotes =>
      simp only [Toml.Str.marks, List.append_assoc]
      apply reads_triple_opening .basic
      apply reads_parts reads_folded_part parts
      exact reads_triple_closing .basic quotes h (hm .basic)
  | raw parts quotes =>
      simp only [Toml.Str.marks, List.append_assoc]
      apply reads_triple_opening .literal
      apply reads_parts reads_raw_part parts
      exact reads_triple_closing .literal quotes h (hm .literal)

/-! ## Keys and values -/

/-- What may follow a string: it is read, and begins with no quotation mark. -/
structure Follows (m : List Mark) : Prop where
  reads : Reads none m
  unquoted : Unquoted m

theorem all_isCodeChar {p : Nat → Bool} (hp : ∀ c, p c = true → isCodeChar c = true)
    (s : Toml.Chars p) : s.1.all isCodeChar = true :=
  List.all_eq_true.mpr fun c hc => hp c (List.all_eq_true.mp s.2 c hc)

theorem isCodeChar_of_plain (c : Nat) (h : Toml.isPlainChar c = true) : isCodeChar c = true := by
  simp only [Toml.isPlainChar, Toml.isBareKeyChar, Toml.isAlnum, Bool.or_eq_true, Bool.and_eq_true,
    decide_eq_true_eq, beq_iff_eq] at h
  simp only [isCodeChar, Quote.char, Bool.and_eq_true, bne_iff_ne]
  omega

theorem isCodeChar_of_bare (c : Nat) (h : Toml.isBareKeyChar c = true) : isCodeChar c = true :=
  isCodeChar_of_plain c (by simp [Toml.isPlainChar, h])

theorem isCodeChar_of_blank (c : Nat) (h : Toml.isBlank c = true) : isCodeChar c = true := by
  rcases isBlank_apart h with rfl | rfl <;> decide

theorem blanks_code (blanks : Toml.Blanks) : blanks.1.all isCodeChar = true :=
  all_isCodeChar isCodeChar_of_blank blanks

theorem Follows.code {s : PyStr} (hs : s.all isCodeChar = true) {m : List Mark} (h : Follows m) :
    Follows (Toml.code s ++ m) := by
  refine ⟨h.reads.code hs, ?_⟩
  cases s with
  | nil => exact h.unquoted
  | cons c s =>
      rw [List.all_cons, Bool.and_eq_true] at hs
      simp only [isCodeChar, Bool.and_eq_true, bne_iff_ne] at hs
      intro mark role hrole
      simp only [Toml.code_cons, List.cons_append, List.head?_cons, Option.some.injEq,
        Mark.char.injEq] at hrole
      cases mark with
      | basic => exact hs.1.1.2 hrole.2
      | literal => exact hs.1.2 hrole.2

theorem Follows.comment (c : Toml.Comment) {m : List Mark} (h : ReadsLines none m) :
    Follows (Toml.commentMarks c ++ .newline none :: m) := by
  refine ⟨Reads.comment c h, ?_⟩
  intro mark role hrole
  cases c with
  | none => simp [Toml.commentMarks] at hrole
  | some s => cases mark <;> simp [Toml.commentMarks, Quote.char] at hrole

theorem reads_gap_line (l : Toml.Blanks × Toml.Comment) {m : List Mark} (h : Follows m) :
    Follows (code l.1.1 ++ Toml.commentMarks l.2 ++ [.newline none] ++ m) := by
  simp only [List.append_assoc, List.singleton_append]
  exact (Follows.comment l.2 h.reads.2).code (blanks_code l.1)

theorem Follows.gap (g : Toml.Gap) {m : List Mark} (h : Follows m) : Follows (g.marks ++ m) := by
  rw [Toml.Gap.marks, List.append_assoc]
  have hblanks := h.code (blanks_code g.blanks)
  generalize Toml.code g.blanks.1 ++ m = rest at hblanks
  induction g.lines with
  | nil => exact hblanks
  | cons l ls ih =>
      rw [List.flatMap_cons, List.append_assoc]
      exact reads_gap_line l ih

/-- Before an element the gap may itself be followed by a quotation mark. -/
theorem reads_gap (g : Toml.Gap) {m : List Mark} (h : Reads none m) :
    Reads none (g.marks ++ m) := by
  rw [Toml.Gap.marks, List.append_assoc]
  have hblanks := h.code (blanks_code g.blanks)
  generalize code g.blanks.1 ++ m = rest at hblanks
  induction g.lines with
  | nil => exact hblanks
  | cons l ls ih =>
      rw [List.flatMap_cons, List.append_assoc, List.append_assoc, List.append_assoc]
      exact (Reads.comment l.2 ih.2).code (blanks_code l.1)

theorem follows_comma {m : List Mark} (h : Reads none m) : Follows (code [0x2c] ++ m) := by
  refine ⟨h.code (by decide), ?_⟩
  intro mark role hrole
  cases mark <;> simp [Quote.char] at hrole

theorem reads_simple_key (k : Toml.SimpleKey) {m : List Mark} (h : Follows m) :
    Reads none (k.marks ++ m) := by
  cases k with
  | bare s _ => exact h.reads.code (all_isCodeChar isCodeChar_of_bare s)
  | basic items => exact reads_str (.basic items) h.reads h.unquoted
  | literal chars => exact reads_str (.literal chars) h.reads h.unquoted

theorem Follows.dotted_part (p : Toml.DottedPart) {m : List Mark} (h : Follows m) :
    Follows (p.marks ++ m) := by
  have hkey : Reads none (Toml.code p.after.1 ++ (p.key.marks ++ m)) :=
    (reads_simple_key p.key h).code (blanks_code p.after)
  have hdot : Follows (Toml.code [0x2e] ++ (Toml.code p.after.1 ++ (p.key.marks ++ m))) := by
    refine ⟨hkey.code (by decide), ?_⟩
    intro mark role hrole
    cases mark <;> simp [Quote.char] at hrole
  simp only [Toml.DottedPart.marks, List.append_assoc]
  exact hdot.code (blanks_code p.before)

theorem reads_key (k : Toml.Key) {m : List Mark} (h : Follows m) : Reads none (k.marks ++ m) := by
  rw [Toml.Key.marks, List.append_assoc]
  apply reads_simple_key
  induction k.rest with
  | nil => exact h
  | cons p ps ih =>
      rw [List.flatMap_cons, List.append_assoc]
      exact ih.dotted_part p

/-- A key, its `=` and the blanks around it, before a value. -/
theorem reads_key_equals (key : Toml.Key) (left right : Toml.Blanks) {m : List Mark}
    (h : Reads none m) :
    Reads none (key.marks ++ (code left.1 ++ (code [0x3d] ++ (code right.1 ++ m)))) := by
  have hequals : Follows (code [0x3d] ++ (code right.1 ++ m)) := by
    refine ⟨(h.code (blanks_code right)).code (by decide), ?_⟩
    intro mark role hrole
    cases mark <;> simp [Quote.char] at hrole
  exact reads_key key (hequals.code (blanks_code left))

theorem plain_code (p : Toml.Plain) : p.text.all isCodeChar = true := by
  have hword := all_isCodeChar isCodeChar_of_plain p.word
  cases ht : p.time with
  | none => simpa [Toml.Plain.text, ht] using hword
  | some t =>
      have htime := all_isCodeChar isCodeChar_of_plain t
      have hspace : isCodeChar 0x20 = true := by decide
      rw [Toml.Plain.text, ht, List.all_append, List.all_cons, hword, hspace, htime]
      rfl

mutual

theorem reads_value (v : Toml.Value) {m : List Mark} (h : Follows m) :
    Reads none (v.marks ++ m) := by
  cases v with
  | str s => exact reads_str s h.reads h.unquoted
  | plain p => exact h.reads.code (plain_code p)
  | array elements =>
      simp only [Toml.Value.marks, List.append_assoc]
      exact (reads_elements elements (h.code (by decide))).code (by decide)
  | emptyTable blanks =>
      simp only [Toml.Value.marks, List.append_assoc]
      exact ((h.reads.code (by decide)).code (blanks_code blanks)).code (by decide)
  | table pairs =>
      simp only [Toml.Value.marks, List.append_assoc]
      exact (reads_pairs pairs (h.code (by decide))).code (by decide)

theorem reads_elements (e : Toml.Elements) {m : List Mark} (h : Follows m) :
    Reads none (e.marks ++ m) := by
  cases e with
  | done gap => exact (h.gap gap).reads
  | last before v after =>
      simp only [Toml.Elements.marks, List.append_assoc]
      exact reads_gap before (reads_value v (h.gap after))
  | more before v after rest =>
      simp only [Toml.Elements.marks, List.append_assoc]
      have hcomma := follows_comma (reads_elements rest h)
      exact reads_gap before (reads_value v (hcomma.gap after))

theorem reads_pairs (p : Toml.Pairs) {m : List Mark} (h : Follows m) :
    Reads none (p.marks ++ m) := by
  cases p with
  | last before key left right v after =>
      simp only [Toml.Pairs.marks, List.append_assoc]
      have hvalue := reads_value v (h.code (blanks_code after))
      exact (reads_key_equals key left right hvalue).code (blanks_code before)
  | more before key left right v after rest =>
      simp only [Toml.Pairs.marks, List.append_assoc]
      have hcomma := follows_comma (reads_pairs rest h)
      have hvalue := reads_value v (hcomma.code (blanks_code after))
      exact (reads_key_equals key left right hvalue).code (blanks_code before)

end

/-! ## Documents -/

theorem reads_expression (e : Toml.Expression) {m : List Mark} (h : ReadsLines none m) :
    Reads none (e.marks ++ .newline none :: m) := by
  cases e with
  | blank before comment =>
      simp only [Toml.Expression.marks, List.append_assoc]
      exact (Reads.comment comment h).code (blanks_code before)
  | pair before p after comment =>
      simp only [Toml.Expression.marks, Toml.Pair.marks, List.append_assoc]
      have hafter := (Follows.comment comment h).code (blanks_code after)
      have hvalue := reads_value p.value hafter
      exact (reads_key_equals p.key p.left p.right hvalue).code (blanks_code before)
  | header before double left key right after comment =>
      simp only [Toml.Expression.marks, Toml.Expression.bracket, List.append_assoc]
      have hafter := (Follows.comment comment h).code (blanks_code after)
      have hclose := hafter.code (s := if double then [0x5d, 0x5d] else [0x5d])
        (by cases double <;> decide)
      have hkey := (reads_key key (hclose.code (blanks_code right))).code (blanks_code left)
      exact (hkey.code (by cases double <;> decide)).code (blanks_code before)

/-- The scanner reads every document as the grammar has it. -/
theorem reads_document (doc : Toml.Document) : ReadsLines none (Toml.Document.marks doc) := by
  induction doc with
  | nil => exact List.Forall₂.nil
  | cons e doc ih =>
      have hdoc : Toml.Document.marks (e :: doc) =
          e.marks ++ .newline none :: Toml.Document.marks doc := by
        simp [Toml.Document.marks]
      rw [hdoc]
      exact (reads_expression e ih).2

end PwshPy.Packing
