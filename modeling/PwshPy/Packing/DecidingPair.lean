import PwshPy.Packing.TopLevelKey
import PwshPy.Toml.Places

/-! # What the `requires-python` of a document is read as

The search ends at the first pair above every header whose key is spelled
`requires-python` bare or in plain quotes, and its value is read from that one
line. A key spelled with escapes is passed over, and so are the dotted keys and
headers that make a table of the name.
-/

namespace PwshPy.Packing

open Toml (Quote Mark Line Role Document Definition lines code quoted commented)

/-! ## Keys -/

/-- The pair's key is spelled as the search knows it. -/
def spells_key (p : Toml.Pair) : Bool :=
  p.key.rest.isEmpty && (p.key.first.name == REQUIRES_PYTHON && p.key.first.unescaped)

theorem text_of_unescaped {items : List Toml.BasicItem}
    (h : items.all (fun i => i.text == [i.value]) = true) :
    items.flatMap (·.text) = items.map (·.value) := by
  induction items with
  | nil => rfl
  | cons i items ih =>
      rw [List.all_cons, Bool.and_eq_true, beq_iff_eq] at h
      rw [List.flatMap_cons, h.1, ih h.2]
      rfl

theorem unescaped_of_text {items : List Toml.BasicItem}
    (h : 0x5c ∉ items.flatMap (·.text)) : items.all (fun i => i.text == [i.value]) = true := by
  rw [List.all_eq_true]
  intro i hi
  cases i with
  | char c _ => exact beq_self_eq_true _
  | escape e => exact absurd (List.mem_flatMap.mpr ⟨_, hi, List.mem_cons_self⟩) h
  | unicode u => exact absurd (List.mem_flatMap.mpr ⟨_, hi, List.mem_cons_self⟩) h

theorem key_text_of_spells {p : Toml.Pair} (h : spells_key p = true) :
    ∃ k ∈ KEY_SPELLINGS, ∀ m, head_text (p.key.marks ++ m) = k ++ head_text m := by
  simp only [spells_key, Bool.and_eq_true, beq_iff_eq, List.isEmpty_iff] at h
  obtain ⟨hrest, hname, hunescaped⟩ := h
  rw [Toml.Key.marks, hrest, List.flatMap_nil, List.append_nil]
  cases hfirst : p.key.first with
  | bare s hne =>
      rw [hfirst] at hname
      refine ⟨py "requires-python", by decide, ?_⟩
      intro m
      rw [Toml.SimpleKey.marks, head_text_code, show s.1 = py "requires-python" from hname]
  | basic items =>
      rw [hfirst] at hname hunescaped
      have htext : items.flatMap (·.text) = REQUIRES_PYTHON :=
        (text_of_unescaped hunescaped).trans hname
      refine ⟨py "\"requires-python\"", by decide, ?_⟩
      intro m
      simp only [Toml.SimpleKey.marks, Toml.Str.marks, Quote.run, List.append_assoc,
        head_text_quoted, htext]
      rfl
  | literal chars =>
      rw [hfirst] at hname
      refine ⟨py "'requires-python'", by decide, ?_⟩
      intro m
      simp only [Toml.SimpleKey.marks, Toml.Str.marks, Quote.run, List.append_assoc,
        head_text_quoted, show chars.1 = REQUIRES_PYTHON from hname]
      rfl

/-- Behind the first part of a key stands a dot, or the pair's `=`. -/
theorem key_tail (rest : List Toml.DottedPart) (left : Toml.Blanks) (m : List Mark) :
    ∃ (blanks : Toml.Blanks) (text : PyStr),
      head_text (rest.flatMap (·.marks) ++ (code left.1 ++ (code [0x3d] ++ m))) =
        blanks.1 ++ (if rest.isEmpty then 0x3d else 0x2e) :: text := by
  cases rest with
  | nil =>
      refine ⟨left, head_text m, ?_⟩
      simp only [List.flatMap_nil, List.nil_append, head_text_code, List.isEmpty_nil, if_true]
      rfl
  | cons p rest =>
      refine ⟨p.before, head_text (code p.after.1 ++ p.key.marks ++ rest.flatMap (·.marks) ++
        (code left.1 ++ (code [0x3d] ++ m))), ?_⟩
      simp only [List.flatMap_cons, Toml.DottedPart.marks, List.append_assoc, head_text_code]
      rfl

theorem not_bare_of_tail (blanks : Toml.Blanks) (dotted : Bool) (text : PyStr) :
    ∀ c, (blanks.1 ++ (if dotted then 0x3d else 0x2e) :: text).head? = some c →
      Toml.isBareKeyChar c = false := by
  intro c hc
  cases hb : blanks.1 with
  | nil =>
      rw [hb] at hc
      obtain rfl := Option.some.inj hc
      cases dotted <;> decide
  | cons b bs =>
      rw [hb] at hc
      obtain rfl := Option.some.inj hc
      have hblank := List.all_eq_true.mp blanks.2 b (by simp [hb])
      rcases isBlank_apart hblank with rfl | rfl <;> decide

/-- A dotted key assigns to another name than its first part. -/
theorem isEmpty_of_assigned {rest : List Toml.DottedPart} {blanks : Toml.Blanks}
    {space text tail : PyStr} (hspace : space.all isSpace = true)
    (h : blanks.1 ++ (if rest.isEmpty then 0x3d else 0x2e) :: text = space ++ 0x3d :: tail) :
    rest.isEmpty = true := by
  have hdrop := congrArg (fun s => (List.dropWhile isSpace s).head?) h
  simp only [List.dropWhile_append_of_pos (blanks_space blanks),
    List.dropWhile_append_of_pos fun c hc => List.all_eq_true.mp hspace c hc] at hdrop
  cases hrest : rest.isEmpty with
  | true => rfl
  | false =>
      rw [hrest] at hdrop
      rw [if_neg Bool.false_ne_true, List.dropWhile_cons_of_neg (by decide),
        List.dropWhile_cons_of_neg (by decide)] at hdrop
      exact absurd (Option.some.inj hdrop) (by decide)

theorem isBareKeyChar_apart (c : Nat) (h : Toml.isBareKeyChar c = true) :
    c ≠ 0x22 ∧ c ≠ 0x27 ∧ c ≠ 0x3d ∧ isSpace c = false :=
  isPlainChar_apart c (by simp [Toml.isPlainChar, h])

/-- A pair whose key is spelled in another way, or dotted, is not read as the key. -/
theorem KeyFree.pair {p : Toml.Pair} (hp : spells_key p = false) (m : List Mark) :
    KeyFree (p.key.marks ++ (code p.left.1 ++ (code [0x3d] ++ m))) := by
  obtain ⟨blanks, text, htail⟩ := key_tail p.key.rest p.left m
  rw [Toml.Key.marks, List.append_assoc]
  have hspells : p.key.rest.isEmpty = true → p.key.first.name = REQUIRES_PYTHON →
      p.key.first.unescaped = true → False := by
    intro hrest hname hunescaped
    rw [spells_key, hrest, hname, hunescaped] at hp
    exact absurd hp (by decide)
  cases hfirst : p.key.first with
  | bare s hne =>
      rw [hfirst] at hspells
      obtain ⟨c, word, hword⟩ := List.exists_cons_of_ne_nil hne
      have hbare := List.all_eq_true.mp s.2 c (by simp [hword])
      have hhead : head_text ((Toml.SimpleKey.bare s hne).marks ++
          (p.key.rest.flatMap (·.marks) ++ (code p.left.1 ++ (code [0x3d] ++ m)))) =
          c :: (word ++ (blanks.1 ++ (if p.key.rest.isEmpty then 0x3d else 0x2e) :: text)) := by
        rw [Toml.SimpleKey.marks, head_text_code, htail, hword, List.cons_append]
      refine KeyFree.of_head hhead (isBareKeyChar_apart c hbare).2.2.2 ?_
      intro k hk space tail hspace heq
      rw [← List.cons_append, ← hword] at heq
      obtain ⟨hname, hassigned⟩ := spelled_by_word (by decide) isBareKeyChar_apart s.2 hne
        (not_bare_of_tail blanks p.key.rest.isEmpty text) hk hspace heq
      exact hspells (isEmpty_of_assigned hspace hassigned) hname rfl
  | basic items =>
      rw [hfirst] at hspells
      have hhead : head_text ((Toml.SimpleKey.basic items).marks ++
          (p.key.rest.flatMap (·.marks) ++ (code p.left.1 ++ (code [0x3d] ++ m)))) =
          0x22 :: (items.flatMap (·.text) ++
            0x22 :: (blanks.1 ++ (if p.key.rest.isEmpty then 0x3d else 0x2e) :: text)) := by
        simp only [Toml.SimpleKey.marks, Toml.Str.marks, Quote.run, List.append_assoc,
          head_text_quoted, htail]
        rfl
      refine KeyFree.of_head hhead (by decide) ?_
      intro k hk space tail hspace heq
      obtain ⟨htext, hassigned⟩ := spelled_by_basic hk heq
      have hplain : 0x5c ∉ items.flatMap (·.text) := by
        rw [htext]
        decide
      have hunescaped := unescaped_of_text hplain
      refine hspells (isEmpty_of_assigned hspace hassigned) ?_ hunescaped
      rw [← htext, text_of_unescaped hunescaped]
      rfl
  | literal chars =>
      rw [hfirst] at hspells
      have hhead : head_text ((Toml.SimpleKey.literal chars).marks ++
          (p.key.rest.flatMap (·.marks) ++ (code p.left.1 ++ (code [0x3d] ++ m)))) =
          0x27 :: (chars.1 ++
            0x27 :: (blanks.1 ++ (if p.key.rest.isEmpty then 0x3d else 0x2e) :: text)) := by
        simp only [Toml.SimpleKey.marks, Toml.Str.marks, Quote.run, List.append_assoc,
          head_text_quoted, htail]
        rfl
      refine KeyFree.of_head hhead (by decide) ?_
      intro k hk space tail hspace heq
      obtain ⟨hname, hassigned⟩ := spelled_by_literal hk heq
      exact hspells (isEmpty_of_assigned hspace hassigned) hname rfl

/-! ## Values -/

/-- The text of a single-line string without escapes. -/
def unescaped_text : Toml.Value → Option PyStr
  | .str (.basic items) =>
      if items.all fun i => i.text == [i.value] then some (items.map (·.value)) else none
  | .str (.literal chars) => some chars.1
  | _ => none

/-- The same for a text of specifier characters. -/
def specifiers (v : Toml.Value) : Option PyStr :=
  (unescaped_text v).filter (·.all isSpecifierChar)

def Refused (result : Except PyError PyStr) : Prop := ∃ message, result = .error (packError message)

/-- The result is the value's specifiers, or an error where it has none. -/
def ReadAs (v : Toml.Value) (result : Except PyError PyStr) : Prop :=
  match specifiers v with
  | some s => result = .ok (strip s)
  | none => Refused result

/-- What may follow a value on its line: blanks and a comment. -/
def line_end (after : Toml.Blanks) (comment : Toml.Comment) : PyStr :=
  after.1 ++ (comment.map fun s => 0x23 :: s.1).getD []

theorem head_text_line_end (after : Toml.Blanks) (comment : Toml.Comment) (m : List Mark) :
    head_text (code after.1 ++ (Toml.commentMarks comment ++ .newline none :: m)) =
      line_end after comment := by
  rw [head_text_code, line_end]
  cases comment with
  | none => rfl
  | some s =>
      rw [Toml.commentMarks, head_text_commented, head_text_newline, List.append_nil]
      rfl

theorem ends_line_rdropWhile (after : Toml.Blanks) (comment : Toml.Comment) :
    ends_line ((line_end after comment).rdropWhile isSpace) = true := by
  cases comment with
  | none =>
      have hempty : (line_end after none).rdropWhile isSpace = [] := by
        rw [List.rdropWhile_eq_nil_iff]
        simpa [line_end] using blanks_space after
      rw [hempty]
      rfl
  | some s =>
      have hcut : (line_end after (some s)).rdropWhile isSpace =
          after.1 ++ 0x23 :: s.1.rdropWhile isSpace := rdropWhile_append (by decide) after.1 s.1
      have hlf : LF ∉ s.1.rdropWhile isSpace := by
        intro hmem
        have hprintable := List.all_eq_true.mp s.2 LF ((List.rdropWhile_prefix _ _).mem hmem)
        exact absurd hprintable (by decide)
      rw [hcut, ends_line, List.dropWhile_append_of_pos (blanks_space after),
        List.dropWhile_cons_of_neg (by decide)]
      simpa using hlf

theorem takeWhile_cut {p : Nat → Bool} {inner : PyStr} (hinner : inner.all p = true) {c : Nat}
    (hc : p c = false) (tail : PyStr) : (inner ++ c :: tail).takeWhile p = inner := by
  rw [List.takeWhile_append_of_pos fun d hd => List.all_eq_true.mp hinner d hd,
    List.takeWhile_cons_of_neg (by simp [hc]), List.append_nil]

/-- A basic string's text is cut at its first escape, or at its end. -/
theorem exists_inner (items : List Toml.BasicItem) (after : PyStr) :
    ∃ inner behind : PyStr, items.flatMap (·.text) ++ 0x22 :: after = inner ++ behind ∧
      inner.all (fun c => c != 0x22 && c != 0x5c) = true ∧
      (items.all (fun i => i.text == [i.value]) = true ∧ inner = items.map (·.value) ∧
          behind = 0x22 :: after ∨
        items.all (fun i => i.text == [i.value]) = false ∧ ∃ tail, behind = 0x5c :: tail) := by
  induction items with
  | nil => exact ⟨[], 0x22 :: after, rfl, rfl, Or.inl ⟨rfl, rfl, rfl⟩⟩
  | cons i items ih =>
      cases i with
      | char c hc =>
          have hbasic : c ≠ 0x22 := (isBasicChar_apart hc).1
          have hescape := (isBasicChar_apart hc).2
          obtain ⟨inner, behind, htext, hinner, hends⟩ := ih
          refine ⟨c :: inner, behind, ?_, ?_, ?_⟩
          · rw [List.flatMap_cons, List.append_assoc, htext]
            rfl
          · rw [List.all_cons, hinner]
            simp [hbasic, hescape]
          · have hitems : ((Toml.BasicItem.char c hc :: items).all fun i => i.text == [i.value]) =
                items.all fun i => i.text == [i.value] := by
              rw [List.all_cons]
              exact (congrArg (· && _) (beq_self_eq_true [c])).trans (Bool.true_and _)
            rw [hitems]
            rcases hends with ⟨hall, rfl, hbehind⟩ | hcut
            · exact Or.inl ⟨hall, rfl, hbehind⟩
            · exact Or.inr hcut
      | escape e =>
          have hitem : ((Toml.BasicItem.escape e).text == [(Toml.BasicItem.escape e).value]) =
              false := by simp [Toml.BasicItem.text]
          exact ⟨[], _, rfl, rfl, Or.inr ⟨by rw [List.all_cons, hitem, Bool.false_and], _, rfl⟩⟩
      | unicode u =>
          have hitem : ((Toml.BasicItem.unicode u).text == [(Toml.BasicItem.unicode u).value]) =
              false := by simp [Toml.BasicItem.text]
          exact ⟨[], _, rfl, rfl, Or.inr ⟨by rw [List.all_cons, hitem, Bool.false_and], _, rfl⟩⟩

/-- The quoted value of a basic string's text. -/
theorem quoted_value_basic (items : List Toml.BasicItem) (after : PyStr) :
    quoted_value (0x22 :: (items.flatMap (·.text) ++ 0x22 :: after)) =
      if items.all fun i => i.text == [i.value] then some (items.map (·.value), after) else none := by
  obtain ⟨inner, behind, htext, hinner, hends⟩ := exists_inner items after
  rw [htext]
  rcases hends with ⟨hall, rfl, rfl⟩ | ⟨hall, tail, rfl⟩
  · have hcut := takeWhile_cut hinner (c := 0x22) rfl after
    simp only [quoted_value, hcut, List.drop_left, hall, if_true]
  · have hcut := takeWhile_cut hinner (c := 0x5c) rfl tail
    simp only [quoted_value, hcut, List.drop_left, hall, Bool.false_eq_true, if_false]

theorem quoted_value_literal (chars : Toml.Chars Toml.isLiteralChar) (after : PyStr) :
    quoted_value (0x27 :: (chars.1 ++ 0x27 :: after)) = some (chars.1, after) := by
  have hinner : chars.1.all (· != 0x27) = true := by
    rw [List.all_eq_true]
    intro c hc
    have hapart : c ≠ 0x27 := isLiteralChar_apart (List.all_eq_true.mp chars.2 c hc)
    simpa using hapart
  have hcut := takeWhile_cut hinner (c := 0x27) rfl after
  simp only [quoted_value, hcut, List.drop_left]

theorem quoted_value_other {c : Nat} (hbasic : c ≠ 0x22) (hliteral : c ≠ 0x27) (text : PyStr) :
    quoted_value (c :: text) = none := by
  unfold quoted_value
  split
  · rename_i h
    exact absurd (List.cons.inj h).1 hbasic
  · rename_i h
    exact absurd (List.cons.inj h).1 hliteral
  · rfl

/-- What the line of a pair is read as, from behind its key. -/
def value_text (v : Toml.Value) (after : Toml.Blanks) (comment : Toml.Comment) (m : List Mark) :
    PyStr :=
  head_text (v.marks ++ (code after.1 ++ (Toml.commentMarks comment ++ .newline none :: m)))

theorem value_text_head (v : Toml.Value) (after : Toml.Blanks) (comment : Toml.Comment)
    (m : List Mark) :
    ∃ c text, value_text v after comment m = c :: text ∧ isSpace c = false ∧
      ((∃ s, v = .str s) ∨ c ≠ 0x22 ∧ c ≠ 0x27) := by
  unfold value_text
  generalize code after.1 ++ (Toml.commentMarks comment ++ .newline none :: m) = tail
  cases v with
  | str s =>
      obtain ⟨q, rest, hs⟩ := s.marks_head
      refine ⟨q.char, head_text (rest ++ tail), ?_, isSpace_mark q, Or.inl ⟨s, rfl⟩⟩
      rw [Toml.Value.marks, hs, List.append_assoc, head_text_quoted]
      rfl
  | plain p =>
      obtain ⟨c, word, hword⟩ := List.exists_cons_of_ne_nil p.nonempty
      have hhead := isPlainChar_apart c (List.all_eq_true.mp p.word.2 c (by simp [hword]))
      rw [Toml.Value.marks, head_text_code, Toml.Plain.text, hword]
      exact ⟨c, _, rfl, hhead.2.2.2, Or.inr ⟨hhead.1, hhead.2.1⟩⟩
  | array elements =>
      refine ⟨0x5b, head_text (elements.marks ++ (code [0x5d] ++ tail)), ?_, rfl,
        Or.inr (by decide)⟩
      rw [Toml.Value.marks, List.append_assoc, List.append_assoc, head_text_code]
      rfl
  | emptyTable blanks =>
      refine ⟨0x7b, head_text (code blanks.1 ++ (code [0x7d] ++ tail)), ?_, rfl,
        Or.inr (by decide)⟩
      rw [Toml.Value.marks, List.append_assoc, List.append_assoc, head_text_code]
      rfl
  | table pairs =>
      refine ⟨0x7b, head_text (pairs.marks ++ (code [0x7d] ++ tail)), ?_, rfl, Or.inr (by decide)⟩
      rw [Toml.Value.marks, List.append_assoc, List.append_assoc, head_text_code]
      rfl

/-- The quoted value of a line and that nothing but a comment follows it. -/
def read_value (text : PyStr) : Option PyStr :=
  match quoted_value text with
  | some (value, rest) => if ends_line rest then some value else none
  | none => none

theorem read_value_other {c : Nat} (hbasic : c ≠ 0x22) (hliteral : c ≠ 0x27) (text : PyStr) :
    read_value (c :: text) = none := by
  rw [read_value, quoted_value_other hbasic hliteral]

/-- What opens a multi-line string is an empty string and something behind it. -/
theorem read_value_triple (mark : Quote) (text : PyStr) :
    read_value (mark.char :: mark.char :: mark.char :: text) = none := by
  cases mark <;>
    simp [read_value, quoted_value, ends_line, isSpace, Quote.char]

theorem read_value_str (s : Toml.Str) (after : Toml.Blanks) (comment : Toml.Comment)
    (m : List Mark) :
    read_value ((value_text (.str s) after comment m).rdropWhile isSpace) =
      unescaped_text (.str s) := by
  have hends := ends_line_rdropWhile after comment
  have htail := head_text_line_end after comment m
  unfold value_text
  rw [Toml.Value.marks]
  cases s with
  | basic items =>
      have htext : head_text ((Toml.Str.basic items).marks ++ (code after.1 ++
          (Toml.commentMarks comment ++ .newline none :: m))) =
          (0x22 :: items.flatMap (·.text)) ++ 0x22 :: line_end after comment := by
        simp only [Toml.Str.marks, Quote.run, List.append_assoc, head_text_quoted, htail]
        rfl
      rw [htext, rdropWhile_append (by decide), List.cons_append, read_value, quoted_value_basic,
        unescaped_text]
      by_cases hall : items.all (fun i => i.text == [i.value]) = true
      · simp only [hall, if_true, hends]
      · simp only [hall, Bool.false_eq_true, if_false]
  | literal chars =>
      have htext : head_text ((Toml.Str.literal chars).marks ++ (code after.1 ++
          (Toml.commentMarks comment ++ .newline none :: m))) =
          (0x27 :: chars.1) ++ 0x27 :: line_end after comment := by
        simp only [Toml.Str.marks, Quote.run, List.append_assoc, head_text_quoted, htail]
        rfl
      rw [htext, rdropWhile_append (by decide), List.cons_append, read_value,
        quoted_value_literal]
      simp only [hends, if_true, unescaped_text]
  | folded parts quotes =>
      obtain ⟨text, htext⟩ : ∃ text, head_text ((Toml.Str.folded parts quotes).marks ++
          (code after.1 ++ (Toml.commentMarks comment ++ .newline none :: m))) =
          [0x22, 0x22] ++ 0x22 :: text := by
        simp only [Toml.Str.marks, Quote.run, List.append_assoc, head_text_quoted]
        exact ⟨_, rfl⟩
      rw [htext, rdropWhile_append (by decide)]
      exact read_value_triple .basic _
  | raw parts quotes =>
      obtain ⟨text, htext⟩ : ∃ text, head_text ((Toml.Str.raw parts quotes).marks ++
          (code after.1 ++ (Toml.commentMarks comment ++ .newline none :: m))) =
          [0x27, 0x27] ++ 0x27 :: text := by
        simp only [Toml.Str.marks, Quote.run, List.append_assoc, head_text_quoted]
        exact ⟨_, rfl⟩
      rw [htext, rdropWhile_append (by decide)]
      exact read_value_triple .literal _

theorem rdropWhile_cons_of_neg {c : Nat} (hc : isSpace c = false) (text : PyStr) :
    (c :: text).rdropWhile isSpace = c :: text.rdropWhile isSpace := rdropWhile_append hc [] text

/-- A value is read as its text where it is a string of one line without escapes. -/
theorem read_value_eq (v : Toml.Value) (after : Toml.Blanks) (comment : Toml.Comment)
    (m : List Mark) :
    read_value ((value_text v after comment m).rdropWhile isSpace) = unescaped_text v := by
  obtain ⟨c, text, htext, hspace, hhead⟩ := value_text_head v after comment m
  by_cases hstr : ∃ s, v = .str s
  · obtain ⟨s, rfl⟩ := hstr
    exact read_value_str s after comment m
  · have hother := hhead.resolve_left hstr
    have hnone : unescaped_text v = none := by
      cases v with
      | str s => exact absurd ⟨s, rfl⟩ hstr
      | plain p => rfl
      | array elements => rfl
      | emptyTable blanks => rfl
      | table pairs => rfl
    rw [htext, rdropWhile_cons_of_neg hspace, read_value_other hother.1 hother.2, hnone]

theorem spelling_head {c : Nat} {k : PyStr} (hk : c :: k ∈ KEY_SPELLINGS) : isSpace c = false := by
  rcases spelling_cases hk with h | h | h <;>
  · rw [(List.cons.inj h).1]
    decide

/-- A pair whose key the search knows is read as its value. -/
theorem requires_python_value_of_pair {p : Toml.Pair} (hp : spells_key p = true)
    (before after : Toml.Blanks) (comment : Toml.Comment) (m : List Mark) :
    let text := head_text ((Toml.Expression.pair before p after comment).marks ++ .newline none :: m)
    requires_python_key (strip text) = true ∧
      ReadAs p.value (requires_python_value (strip text)) := by
  obtain ⟨k, hk, hkey⟩ := key_text_of_spells hp
  obtain ⟨c, rest, hrest, hspace, -⟩ := value_text_head p.value after comment m
  have hread := read_value_eq p.value after comment m
  rw [hrest, rdropWhile_cons_of_neg hspace] at hread
  intro text
  have htext : text = before.1 ++ (k ++ (p.left.1 ++ (0x3d :: (p.right.1 ++ c :: rest)))) := by
    have hvalue : head_text (p.value.marks ++ (code after.1 ++
        (Toml.commentMarks comment ++ .newline none :: m))) = c :: rest := hrest
    simp only [text, Toml.Expression.marks, Toml.Pair.marks, List.append_assoc, head_text_code,
      hkey, hvalue]
    rfl
  have hstrip : strip text =
      k ++ (p.left.1 ++ (0x3d :: (p.right.1 ++ c :: rest.rdropWhile isSpace))) := by
    have hcut := rdropWhile_append hspace (k ++ (p.left.1 ++ 0x3d :: p.right.1)) rest
    simp only [List.append_assoc, List.cons_append] at hcut
    rw [htext, strip_append (blanks_space before), ← hcut]
    cases k with
    | nil => exact absurd hk (by decide)
    | cons d k => exact strip_eq_rdropWhile (spelling_head hk) _
  rw [hstrip]
  refine ⟨?_, ?_⟩
  · exact requires_python_key_iff.mpr ⟨k, hk, p.left.1, _,
      List.all_eq_true.mpr (blanks_space p.left), rfl⟩
  · have hline : requires_python_line
        (k ++ (p.left.1 ++ (0x3d :: (p.right.1 ++ c :: rest.rdropWhile isSpace)))) =
        unescaped_text p.value := by
      rw [requires_python_line, find_spelling hk, Option.bind_some, List.drop_left, assigned_value,
        List.dropWhile_append_of_pos (blanks_space p.left), List.dropWhile_cons_of_neg (by decide)]
      simp only [List.dropWhile_append_of_pos (blanks_space p.right)]
      rw [List.dropWhile_cons_of_neg (by simp [hspace])]
      exact hread
    unfold requires_python_value
    rw [hline, ReadAs, specifiers]
    cases hvalue : unescaped_text p.value with
    | none => exact ⟨_, rfl⟩
    | some value =>
        rw [Option.filter_some]
        by_cases hall : value.all isSpecifierChar = true
        · simp only [if_pos hall]
        · simp only [if_neg hall]
          exact ⟨_, rfl⟩

/-! ## Expressions -/

theorem strip_cons {c : Nat} (hc : isSpace c = false) (text : PyStr) :
    strip (c :: text) = c :: text.rdropWhile isSpace := by
  rw [strip_eq_rdropWhile hc, rdropWhile_cons_of_neg hc]

theorem search_lines_top {m : List Mark} (hm : m ≠ []) :
    search_lines 0 none (lines m) =
      if (py "[").isPrefixOf (strip (head_text m)) then .ok []
      else if requires_python_key (strip (head_text m)) then
        requires_python_value (strip (head_text m))
      else search_rest 0 m := by
  obtain ⟨l, ls, hl⟩ := List.exists_cons_of_ne_nil (Toml.lines_ne_nil hm)
  simp [search_rest, head_text, hl, search_lines]

/-- Whether a line is taken for a header is seen at its first character. -/
theorem header_iff (blanks : Toml.Blanks) {c : Nat} (hspace : isSpace c = false) (text : PyStr) :
    (py "[").isPrefixOf (strip (blanks.1 ++ c :: text)) = (0x5b == c) := by
  rw [strip_append (blanks_space blanks), strip_cons hspace]
  exact Bool.and_true _

theorem strip_blanks (blanks : Toml.Blanks) : strip blanks.1 = [] := by
  have hstrip := strip_append (blanks_space blanks) []
  rwa [List.append_nil] at hstrip

theorem search_blank (before : Toml.Blanks) (comment : Toml.Comment) (m : List Mark) :
    search_lines 0 none (lines ((Toml.Expression.blank before comment).marks ++ .newline none :: m)) =
      search_lines 0 none (lines m) := by
  rw [Toml.Expression.marks, List.append_assoc]
  have hkey := (KeyFree.comment comment m).blanks before
  have hheader : (py "[").isPrefixOf (strip (head_text (code before.1 ++
      (Toml.commentMarks comment ++ .newline none :: m)))) = false := by
    rw [head_text_line_end]
    cases comment with
    | none =>
        rw [line_end, Option.map_none, Option.getD_none, List.append_nil, strip_blanks]
        rfl
    | some s => exact header_iff before (by decide) s.1
  rw [search_lines_passes hkey (Or.inr hheader), search_rest_blanks, search_rest_comment,
    search_rest_newline]
  rfl

theorem search_header (before : Toml.Blanks) (double : Bool) (left : Toml.Blanks) (key : Toml.Key)
    (right after : Toml.Blanks) (comment : Toml.Comment) (m : List Mark) :
    search_lines 0 none (lines ((Toml.Expression.header before double left key right after
      comment).marks ++ .newline none :: m)) = .ok [] := by
  obtain ⟨text, htext⟩ : ∃ text, head_text ((Toml.Expression.header before double left key right
      after comment).marks ++ .newline none :: m) = before.1 ++ 0x5b :: text := by
    simp only [Toml.Expression.marks, List.append_assoc, head_text_code, Toml.Expression.bracket]
    cases double <;> exact ⟨_, rfl⟩
  rw [search_lines_top (by simp), htext, header_iff before (by decide)]
  rfl

/-- The first character of a key. -/
theorem key_head (k : Toml.Key) (m : List Mark) :
    ∃ c text, head_text (k.marks ++ m) = c :: text ∧ isSpace c = false ∧ c ≠ 0x5b := by
  rw [Toml.Key.marks, List.append_assoc]
  generalize k.rest.flatMap (·.marks) ++ m = tail
  cases k.first with
  | bare s hne =>
      obtain ⟨c, word, hword⟩ := List.exists_cons_of_ne_nil hne
      have hbare := List.all_eq_true.mp s.2 c (by simp [hword])
      refine ⟨c, word ++ head_text tail, ?_, (isBareKeyChar_apart c hbare).2.2.2, ?_⟩
      · rw [Toml.SimpleKey.marks, head_text_code, hword, List.cons_append]
      · intro hc
        rw [hc] at hbare
        exact absurd hbare (by decide)
  | basic items =>
      obtain ⟨q, rest, hq⟩ := (Toml.Str.basic items).marks_head
      refine ⟨q.char, head_text (rest ++ tail), ?_, isSpace_mark q, by cases q <;> decide⟩
      rw [Toml.SimpleKey.marks, hq, List.append_assoc, head_text_quoted]
      rfl
  | literal chars =>
      obtain ⟨q, rest, hq⟩ := (Toml.Str.literal chars).marks_head
      refine ⟨q.char, head_text (rest ++ tail), ?_, isSpace_mark q, by cases q <;> decide⟩
      rw [Toml.SimpleKey.marks, hq, List.append_assoc, head_text_quoted]
      rfl

theorem pair_not_header (p : Toml.Pair) (before after : Toml.Blanks) (comment : Toml.Comment)
    (m : List Mark) :
    (py "[").isPrefixOf (strip (head_text ((Toml.Expression.pair before p after comment).marks ++
      .newline none :: m))) = false := by
  simp only [Toml.Expression.marks, Toml.Pair.marks, List.append_assoc, head_text_code]
  obtain ⟨c, text, htext, hspace, hopen⟩ := key_head p.key (code p.left.1 ++ (code [0x3d] ++
    (code p.right.1 ++ (p.value.marks ++ (code after.1 ++
      (Toml.commentMarks comment ++ .newline none :: m))))))
  rw [htext, header_iff before hspace]
  simpa using hopen.symm

theorem search_pair {p : Toml.Pair} (hp : spells_key p = false) (before after : Toml.Blanks)
    (comment : Toml.Comment) (m : List Mark) :
    search_lines 0 none
        (lines ((Toml.Expression.pair before p after comment).marks ++ .newline none :: m)) =
      search_lines 0 none (lines m) := by
  have hheader := pair_not_header p before after comment m
  simp only [Toml.Expression.marks, Toml.Pair.marks, List.append_assoc] at hheader ⊢
  have hkey := (KeyFree.pair hp (code p.right.1 ++ (p.value.marks ++ (code after.1 ++
    (Toml.commentMarks comment ++ .newline none :: m))))).blanks before
  rw [search_lines_passes hkey (Or.inr hheader), search_rest_blanks,
    search_rest_key_equals (Int.le_refl 0), search_rest_value (Int.le_refl 0), search_rest_blanks,
    search_rest_comment, search_rest_newline]
  rfl

theorem search_spelled_pair {p : Toml.Pair} (hp : spells_key p = true) (before after : Toml.Blanks)
    (comment : Toml.Comment) (m : List Mark) :
    ReadAs p.value (search_lines 0 none
      (lines ((Toml.Expression.pair before p after comment).marks ++ .newline none :: m))) := by
  obtain ⟨hkey, hread⟩ := requires_python_value_of_pair hp before after comment m
  rw [search_lines_top (by simp), pair_not_header, if_neg Bool.false_ne_true, if_pos hkey]
  exact hread

/-! ## Documents -/

/-- The first pair above every header whose key the search knows gives the result. -/
theorem search_document (doc : Document) :
    match (Document.topLevel doc).find? spells_key with
    | some p => ReadAs p.value (search_lines 0 none (lines (Document.marks doc)))
    | none => search_lines 0 none (lines (Document.marks doc)) = .ok [] := by
  induction doc with
  | nil => rfl
  | cons e doc ih =>
      have hdoc : Document.marks (e :: doc) = e.marks ++ .newline none :: Document.marks doc := by
        simp [Document.marks]
      rw [hdoc]
      cases e with
      | blank before comment =>
          rw [search_blank]
          exact ih
      | header before double left key right after comment => exact search_header ..
      | pair before p after comment =>
          rw [Document.topLevel]
          by_cases hp : spells_key p = true
          · rw [List.find?_cons_of_pos hp]
            exact search_spelled_pair hp before after comment _
          · rw [List.find?_cons_of_neg hp, search_pair (Bool.eq_false_iff.mpr hp)]
            exact ih

theorem extract_requires_python_eq {metadata : PyStr} {doc : Document}
    (hcarried : Carries metadata (Document.text doc)) (hunbroken : Unbroken (Document.text doc)) :
    extract_requires_python metadata = search_lines 0 none (lines (Document.marks doc)) :=
  @find_requires_python_eq _ _ (uncomment_block_lines hcarried hunbroken) none
    (reads_document doc) 0

/-- The result is what TOML gives the key: the specifiers of its value, the
empty text where nothing defines it, and else an error. -/
def ReadAsToml (doc : Document) (result : Except PyError PyStr) : Prop :=
  match Document.definition doc REQUIRES_PYTHON with
  | none => result = .ok []
  | some (.pair p) => ReadAs p.value result
  | some .table => Refused result

/-- The key is defined by a pair, and it is spelled without escapes or its value
is a string of blanks. -/
def PlainlyDefined : Definition → Prop
  | .pair p => p.key.first.unescaped = true ∨ ∃ s, specifiers p.value = some s ∧ strip s = []
  | .table => False

theorem mem_namedPairs_of_spells {doc : Document} {p : Toml.Pair}
    (h : (Document.topLevel doc).find? spells_key = some p) :
    p ∈ Document.namedPairs doc REQUIRES_PYTHON ∧ p.key.rest = [] ∧
      p.key.first.unescaped = true := by
  have hp := List.find?_some h
  simp only [spells_key, Bool.and_eq_true, List.isEmpty_iff] at hp
  exact ⟨List.mem_filter.mpr ⟨List.mem_of_find?_eq_some h, hp.2.1⟩, hp.1, hp.2.2⟩

theorem escaped_of_passed {doc : Document}
    (h : (Document.topLevel doc).find? spells_key = none) {p : Toml.Pair}
    (hp : p ∈ Document.namedPairs doc REQUIRES_PYTHON) (hrest : p.key.rest = []) :
    p.key.first.unescaped = false := by
  obtain ⟨hmem, hname⟩ := List.mem_filter.mp hp
  have hnot := List.find?_eq_none.mp h p hmem
  rw [Bool.eq_false_iff]
  intro hunescaped
  exact hnot (by rw [spells_key, hrest, hname, hunescaped]; rfl)

theorem mem_of_definition {doc : Document} {name : PyStr} {p : Toml.Pair}
    (h : Document.definition doc name = some (.pair p)) :
    p ∈ Document.namedPairs doc name ∧ p.key.rest = [] := by
  unfold Document.definition at h
  cases hnamed : Document.namedPairs doc name with
  | nil =>
      simp only [hnamed] at h
      split at h <;> cases h
  | cons q ps =>
      simp only [hnamed, Option.some.injEq] at h
      split at h
      · rename_i hrest
        cases h
        exact ⟨List.mem_cons_self, List.isEmpty_iff.mp hrest⟩
      · cases h

theorem readAs_ok_nil {v : Toml.Value} :
    ReadAs v (.ok []) ↔ ∃ s, specifiers v = some s ∧ strip s = [] := by
  unfold ReadAs
  cases specifiers v with
  | none =>
      constructor
      · intro hrefused
        obtain ⟨message, herror⟩ := hrefused
        cases herror
      · intro hsome
        obtain ⟨s, hs, -⟩ := hsome
        cases hs
  | some s =>
      constructor
      · intro hread
        exact ⟨s, rfl, (Except.ok.inj hread).symm⟩
      · intro hblank
        obtain ⟨t, ht, hstrip⟩ := hblank
        rw [Option.some.inj ht]
        exact congrArg Except.ok hstrip.symm

/-- The result is decided by the first top-level pair whose key is spelled
without escapes; for a document without the characters at which
`str.splitlines` ends a line and TOML does not, it is what TOML gives the key
exactly where a pair so spelled defines it, or nothing does. -/
theorem requires_python_is_read {metadata : PyStr} {doc : Document}
    (hcarried : Carries metadata (Document.text doc)) (hunbroken : Unbroken (Document.text doc))
    (honce : Document.DefinedOnce doc REQUIRES_PYTHON) :
    (match (Document.topLevel doc).find? spells_key with
      | some p => ReadAs p.value (extract_requires_python metadata)
      | none => extract_requires_python metadata = .ok []) ∧
    (ReadAsToml doc (extract_requires_python metadata) ↔
      ∀ d, Document.definition doc REQUIRES_PYTHON = some d → PlainlyDefined d) := by
  have hresult := search_document doc
  rw [← extract_requires_python_eq hcarried hunbroken] at hresult
  refine ⟨hresult, ?_⟩
  unfold ReadAsToml
  cases hfound : (Document.topLevel doc).find? spells_key with
  | some p =>
      obtain ⟨hmem, hrest, hunescaped⟩ := mem_namedPairs_of_spells hfound
      have hdefinition : Document.definition doc REQUIRES_PYTHON = some (.pair p) := by
        rw [Document.definition, honce p hmem hrest]
        simp only [hrest, List.isEmpty_nil, if_true]
      rw [hfound] at hresult
      rw [hdefinition]
      refine iff_of_true hresult ?_
      intro d hd
      rw [← Option.some.inj hd]
      exact Or.inl hunescaped
  | none =>
      rw [hfound] at hresult
      rw [hresult]
      cases hdefinition : Document.definition doc REQUIRES_PYTHON with
      | none => exact iff_of_true rfl (by simp)
      | some d =>
          cases d with
          | table =>
              refine iff_of_false ?_ fun h => h .table rfl
              intro hrefused
              obtain ⟨message, herror⟩ := hrefused
              cases herror
          | pair p =>
              obtain ⟨hmem, hrest⟩ := mem_of_definition hdefinition
              have hescaped := escaped_of_passed hfound hmem hrest
              constructor
              · intro hread d hd
                rw [← Option.some.inj hd]
                exact Or.inr (readAs_ok_nil.mp hread)
              · intro hplain
                rcases hplain _ rfl with hunescaped | hblank
                · rw [hescaped] at hunescaped
                  exact Bool.noConfusion hunescaped
                · exact readAs_ok_nil.mpr hblank

theorem no_blank : ([] : PyStr).all Toml.isBlank = true := rfl

theorem one_blank : ([0x20] : PyStr).all Toml.isBlank = true := rfl

/-- One pair, with blanks around its `=`. -/
def assignedPair (key : Toml.SimpleKey) (value : Toml.Value) : Toml.Pair :=
  ⟨⟨key, []⟩, ⟨[0x20], one_blank⟩, ⟨[0x20], one_blank⟩, value⟩

def assignment (key : Toml.SimpleKey) (value : Toml.Value) : Document :=
  [.pair ⟨[], no_blank⟩ (assignedPair key value) ⟨[], no_blank⟩ none]

theorem assignment_definedOnce (key : Toml.SimpleKey) (value : Toml.Value) (name : PyStr) :
    Document.DefinedOnce (assignment key value) name := by
  intro p hp _
  have hnamed : Document.namedPairs (assignment key value) name =
      [assignedPair key value].filter (·.key.first.name == name) := rfl
  rw [hnamed] at hp ⊢
  obtain ⟨hmem, hname⟩ := List.mem_filter.mp hp
  rw [List.mem_singleton.mp hmem] at hname ⊢
  exact List.filter_cons_of_pos hname

def pinned : Toml.Value := .str (.literal ⟨py ">=3.11 ", by decide⟩)

def pinnedBlock : PyStr :=
  unlines [PEP723_OPEN, py "# requires-python = '>=3.11 '", PEP723_CLOSE]

theorem requires_python_is_read_pinned :
    extract_requires_python pinnedBlock = .ok (py ">=3.11") := by
  let key : Toml.SimpleKey := .bare ⟨py "requires-python", by decide⟩ (by decide)
  have htext : Document.text (assignment key pinned) = [py "requires-python = '>=3.11 '"] := by
    decide
  have hcarried : Carries pinnedBlock (Document.text (assignment key pinned)) := by
    rw [htext]
    exact ⟨[py "# requires-python = '>=3.11 '"], .lf (.lf (.lf .nil)),
      .cons (Or.inl (by decide)) .nil⟩
  have hunbroken : Unbroken (Document.text (assignment key pinned)) := by
    rw [htext]
    unfold Unbroken
    decide
  have hread := (requires_python_is_read hcarried hunbroken
    (assignment_definedOnce key pinned REQUIRES_PYTHON)).2.mpr
  refine hread ?_
  intro d hd
  rw [← Option.some.inj hd]
  exact Or.inl rfl

/-- `"requires\u002dpython"` -/
def escapedKey : Toml.SimpleKey :=
  .basic ((py "requires").pmap .char (by decide) ++
    .unicode ⟨false, ⟨py "002d", by decide⟩, by decide, by decide⟩ ::
    (py "python").pmap .char (by decide))

def escapedBlock : PyStr :=
  unlines [PEP723_OPEN, py "# \"requires\\u002dpython\" = '>=3.11 '", PEP723_CLOSE]

theorem escaped_requires_python_is_missed :
    Carries escapedBlock (Document.text (assignment escapedKey pinned)) ∧
      Document.DefinedOnce (assignment escapedKey pinned) REQUIRES_PYTHON ∧
      ¬ReadAsToml (assignment escapedKey pinned) (extract_requires_python escapedBlock) := by
  have htext : Document.text (assignment escapedKey pinned) =
      [py "\"requires\\u002dpython\" = '>=3.11 '"] := by decide
  have hcarried : Carries escapedBlock (Document.text (assignment escapedKey pinned)) := by
    rw [htext]
    exact ⟨[py "# \"requires\\u002dpython\" = '>=3.11 '"], .lf (.lf (.lf .nil)),
      .cons (Or.inl (by decide)) .nil⟩
  have hunbroken : Unbroken (Document.text (assignment escapedKey pinned)) := by
    rw [htext]
    unfold Unbroken
    decide
  refine ⟨hcarried, assignment_definedOnce _ _ _, ?_⟩
  intro hread
  have hpassed : (Document.topLevel (assignment escapedKey pinned)).find? spells_key = none := by
    decide
  have hresult := search_document (assignment escapedKey pinned)
  rw [← extract_requires_python_eq hcarried hunbroken, hpassed] at hresult
  have hclaimed : extract_requires_python escapedBlock = .ok (py ">=3.11") := hread
  rw [hresult] at hclaimed
  exact absurd (Except.ok.inj hclaimed) (by decide)

end PwshPy.Packing
