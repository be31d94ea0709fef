import PwshPy.Packing.RequiresPython
import PwshPy.Toml.Definitions

/-! # Which line of a document gives the `requires-python`

On the lines of a document the search keeps the depth of the arrays and the
multi-line string they have open. Inside an array no line begins with a key and
its `=`: a value stands there, and what follows a value is never an `=`. So
only a pair at the top of the document decides, or the first header.
-/

namespace PwshPy.Packing

open Toml (Quote Mark Line Role Document lines code quoted commented)

/-! ## The search over lines as the grammar has them -/

def search_lines (depth : Int) (within : Option Quote) : List Line → Except PyError PyStr
  | [] => .ok []
  | l :: ls =>
      let line := strip l.text
      if within = none ∧ (py "[").isPrefixOf line ∧ depth = 0 then .ok []
      else if within = none ∧ requires_python_key line then requires_python_value line
      else search_lines (max (depth + change l.code) 0) l.within ls

theorem find_requires_python_eq {ls : List Line} {raws : List PyStr}
    (htext : raws.map uncomment = ls.map (·.text)) {within : Option Quote}
    (hreads : List.Forall₂ Agrees ls (scan_lines (within.map delimiter) (ls.map (·.text))))
    (depth : Int) :
    find_requires_python depth (within.map delimiter) raws = search_lines depth within ls := by
  induction ls generalizing raws within depth with
  | nil =>
      obtain rfl : raws = [] := by simpa using htext
      rfl
  | cons l ls ih =>
      cases raws with
      | nil => simp at htext
      | cons raw raws =>
          rw [List.map_cons, List.map_cons, List.cons.injEq] at htext
          rw [List.map_cons, scan_lines, List.forall₂_cons] at hreads
          obtain ⟨hagrees, hrest⟩ := hreads
          have hscan : scan_toml_line (strip l.text) (within.map delimiter) =
              (change l.code, l.within.map delimiter) := by
            rw [scan_toml_line_strip, scan_toml_line, hagrees.code, hagrees.open_string]
          rw [hagrees.open_string] at hrest
          simp only [find_requires_python, search_lines, htext.1, hscan, Option.map_eq_none_iff,
            ih htext.2 hrest]

/-- The search from the middle of a line on. -/
def search_rest (depth : Int) (m : List Mark) : Except PyError PyStr :=
  match lines m with
  | [] => .ok []
  | l :: ls => search_lines (max (depth + change l.code) 0) l.within ls

theorem search_rest_char (depth : Int) (role : Role) (c : Nat) (m : List Mark) :
    search_rest depth (.char role c :: m) =
      search_rest (depth + if role = .code then bracket c else 0) m := by
  unfold search_rest
  cases hm : lines m with
  | nil => simp only [lines, hm]; rfl
  | cons l ls =>
      rw [Toml.lines_char hm]
      cases role <;> simp [change, Int.add_assoc]

theorem search_rest_newline (depth : Int) (within : Option Quote) (m : List Mark) :
    search_rest depth (.newline within :: m) = search_lines (max depth 0) within (lines m) := by
  simp [search_rest, Line.code, change]

@[simp] theorem search_rest_quoted (depth : Int) (s : PyStr) (m : List Mark) :
    search_rest depth (quoted s ++ m) = search_rest depth m := by
  induction s with
  | nil => rfl
  | cons c s ih => simpa [search_rest_char] using ih

@[simp] theorem search_rest_commented (depth : Int) (s : PyStr) (m : List Mark) :
    search_rest depth (commented s ++ m) = search_rest depth m := by
  induction s with
  | nil => rfl
  | cons c s ih => simpa [search_rest_char] using ih

theorem search_rest_code {s : PyStr} (hs : ∀ c ∈ s, bracket c = 0) (depth : Int) (m : List Mark) :
    search_rest depth (code s ++ m) = search_rest depth m := by
  induction s with
  | nil => rfl
  | cons c s ih =>
      rw [List.forall_mem_cons] at hs
      rw [Toml.code_cons, List.cons_append, search_rest_char, if_pos rfl, hs.1, Int.add_zero, ih hs.2]

theorem bracket_eq_zero {c : Nat} (hopen : c ≠ 0x5b) (hclose : c ≠ 0x5d) : bracket c = 0 := by
  rw [bracket, if_neg hopen, if_neg hclose]

theorem bracket_of_plain {c : Nat} (h : Toml.isPlainChar c = true) : bracket c = 0 := by
  apply bracket_eq_zero <;>
  · intro hc
    rw [hc] at h
    exact absurd h (by decide)

theorem bracket_of_blank {c : Nat} (h : Toml.isBlank c = true) : bracket c = 0 := by
  rcases isBlank_apart h with rfl | rfl <;> decide

@[simp] theorem search_rest_blanks (depth : Int) (blanks : Toml.Blanks) (m : List Mark) :
    search_rest depth (code blanks.1 ++ m) = search_rest depth m :=
  search_rest_code (fun c hc => bracket_of_blank (List.all_eq_true.mp blanks.2 c hc)) depth m

/-! ## The line a text begins with -/

/-- What is left of the line at the beginning of the text. -/
def head_text (m : List Mark) : PyStr := ((lines m).head?.map (·.text)).getD []

@[simp] theorem head_text_char (role : Role) (c : Nat) (m : List Mark) :
    head_text (.char role c :: m) = c :: head_text m := by
  unfold head_text
  cases hm : lines m with
  | nil => simp only [lines, hm]; rfl
  | cons l ls => rw [Toml.lines_char hm]; rfl

@[simp] theorem head_text_newline (within : Option Quote) (m : List Mark) :
    head_text (.newline within :: m) = [] := rfl

@[simp] theorem head_text_code (s : PyStr) (m : List Mark) :
    head_text (code s ++ m) = s ++ head_text m := by
  induction s with
  | nil => rfl
  | cons c s ih => rw [Toml.code_cons, List.cons_append, head_text_char, ih, List.cons_append]

@[simp] theorem head_text_quoted (s : PyStr) (m : List Mark) :
    head_text (quoted s ++ m) = s ++ head_text m := by
  induction s with
  | nil => rfl
  | cons c s ih => rw [Toml.quoted_cons, List.cons_append, head_text_char, ih, List.cons_append]

@[simp] theorem head_text_commented (s : PyStr) (m : List Mark) :
    head_text (commented s ++ m) = s ++ head_text m := by
  induction s with
  | nil => rfl
  | cons c s ih => rw [Toml.commented_cons, List.cons_append, head_text_char, ih, List.cons_append]

/-- A line that begins inside a string does not decide. -/
theorem search_lines_within (depth : Int) (mark : Quote) (m : List Mark) :
    search_lines depth (some mark) (lines m) = search_rest depth m := by
  unfold search_rest
  cases hm : lines m with
  | nil => rfl
  | cons l ls => simp [search_lines]

/-- The line does not begin with the key and its `=`. -/
def KeyFree (m : List Mark) : Prop := requires_python_key (strip (head_text m)) = false

theorem search_lines_passes {depth : Int} {m : List Mark} (hkey : KeyFree m)
    (hheader : depth ≠ 0 ∨ (py "[").isPrefixOf (strip (head_text m)) = false) :
    search_lines depth none (lines m) = search_rest depth m := by
  unfold KeyFree head_text at hkey
  unfold head_text at hheader
  unfold search_rest
  cases hm : lines m with
  | nil => rfl
  | cons l ls =>
      rw [hm] at hkey hheader
      simp only [List.head?_cons, Option.map_some, Option.getD_some] at hkey hheader
      have hnot : ¬((py "[").isPrefixOf (strip l.text) = true ∧ depth = 0) := by
        intro h
        rcases hheader with hdepth | hfalse
        · exact hdepth h.2
        · rw [hfalse] at h
          exact Bool.noConfusion h.1
      simp only [search_lines, true_and, hkey, Bool.false_eq_true, and_false, if_false, if_neg hnot]

/-! ## Strings -/

theorem search_rest_string_line {depth : Int} (hdepth : 0 ≤ depth) (mark : Quote) (m : List Mark) :
    search_rest depth (.newline (some mark) :: m) = search_rest depth m := by
  rw [search_rest_newline, Int.max_eq_left hdepth, search_lines_within]

theorem search_rest_parts {ι : Type} {part : ι → List Mark} {depth : Int}
    (hpart : ∀ p m, search_rest depth (part p ++ m) = search_rest depth m) (ps : List ι)
    (m : List Mark) : search_rest depth (ps.flatMap part ++ m) = search_rest depth m := by
  induction ps with
  | nil => rfl
  | cons p ps ih => rw [List.flatMap_cons, List.append_assoc, hpart, ih]

theorem search_rest_str {depth : Int} (hdepth : 0 ≤ depth) (s : Toml.Str) (m : List Mark) :
    search_rest depth (s.marks ++ m) = search_rest depth m := by
  cases s with
  | basic items => simp only [Toml.Str.marks, Quote.run, List.append_assoc, search_rest_quoted]
  | literal chars => simp only [Toml.Str.marks, Quote.run, List.append_assoc, search_rest_quoted]
  | folded parts quotes =>
      have hpart : ∀ (p : Fin 3 × Toml.FoldedItem) m,
          search_rest depth (Quote.basic.run p.1 ++ p.2.marks ++ m) = search_rest depth m := by
        intro p m
        cases p.2 <;>
          simp [Quote.run, Toml.FoldedItem.marks, search_rest_string_line hdepth,
            -Toml.quoted_cons]
      simp only [Toml.Str.marks, Quote.run, List.append_assoc, search_rest_quoted]
      rw [search_rest_parts (by simpa only [Quote.run, List.append_assoc] using hpart)]
      exact search_rest_quoted ..
  | raw parts quotes =>
      have hpart : ∀ (p : Fin 3 × Toml.RawItem) m,
          search_rest depth (Quote.literal.run p.1 ++ p.2.marks ++ m) = search_rest depth m := by
        intro p m
        cases p.2 <;>
          simp [Quote.run, Toml.RawItem.marks, search_rest_string_line hdepth, -Toml.quoted_cons]
      simp only [Toml.Str.marks, Quote.run, List.append_assoc, search_rest_quoted]
      rw [search_rest_parts (by simpa only [Quote.run, List.append_assoc] using hpart)]
      exact search_rest_quoted ..

/-! ## What may follow a value -/

/-- The text neither goes on with a word nor assigns to what stands before it. -/
structure Closed (m : List Mark) : Prop where
  apart : ∀ c, (head_text m).head? = some c → Toml.isPlainChar c = false
  unassigned : ((head_text m).dropWhile isSpace).head? ≠ some 0x3d

theorem Closed.of_char {c : Nat} (hplain : Toml.isPlainChar c = false) (hspace : isSpace c = false)
    (hequals : c ≠ 0x3d) (role : Role) (m : List Mark) : Closed (.char role c :: m) := by
  constructor
  · intro d hd
    rw [head_text_char, List.head?_cons] at hd
    rw [← Option.some.inj hd]
    exact hplain
  · rw [head_text_char, List.dropWhile_cons_of_neg (by simp [hspace])]
    simpa using hequals

theorem Closed.newline (within : Option Quote) (m : List Mark) : Closed (.newline within :: m) :=
  ⟨by simp, by simp⟩

theorem blanks_space (blanks : Toml.Blanks) : ∀ c ∈ blanks.1, isSpace c = true := by
  intro c hc
  rcases isBlank_apart (List.all_eq_true.mp blanks.2 c hc) with rfl | rfl <;> decide

theorem Closed.blanks (blanks : Toml.Blanks) {m : List Mark} (h : Closed m) :
    Closed (code blanks.1 ++ m) := by
  constructor
  · intro c hc
    rw [head_text_code] at hc
    cases hb : blanks.1 with
    | nil => exact h.apart c (by simpa [hb] using hc)
    | cons b bs =>
        rw [hb, List.cons_append, List.head?_cons] at hc
        obtain rfl := Option.some.inj hc
        have hblank := List.all_eq_true.mp blanks.2 b (by simp [hb])
        rcases isBlank_apart hblank with rfl | rfl <;> decide
  · rw [head_text_code, List.dropWhile_append_of_pos (blanks_space blanks)]
    exact h.unassigned

theorem Closed.comment (c : Toml.Comment) (m : List Mark) :
    Closed (Toml.commentMarks c ++ .newline none :: m) := by
  cases c with
  | none => exact Closed.newline none m
  | some s => exact Closed.of_char (by decide) (by decide) (by decide) .comment _

theorem Closed.gap (g : Toml.Gap) {m : List Mark} (h : Closed m) : Closed (g.marks ++ m) := by
  rw [Toml.Gap.marks, List.append_assoc]
  cases g.lines with
  | nil => exact h.blanks g.blanks
  | cons l ls =>
      simp only [List.flatMap_cons, List.append_assoc, List.cons_append]
      exact (Closed.comment l.2 _).blanks l.1

/-! ## Lines that do not begin with the key -/

theorem strip_append {blanks : PyStr} (hblanks : ∀ c ∈ blanks, isSpace c = true) (text : PyStr) :
    strip (blanks ++ text) = strip text := by
  rw [strip, strip, stripBy, stripBy, List.dropWhile_append_of_pos hblanks]

theorem KeyFree.blanks (blanks : Toml.Blanks) {m : List Mark} (h : KeyFree m) :
    KeyFree (code blanks.1 ++ m) := by
  rwa [KeyFree, head_text_code, strip_append (blanks_space blanks)]

/-- A text that begins with the key and its `=` shows it without being stripped. -/
theorem KeyFree.of_head {m : List Mark} {c : Nat} {text : PyStr} (htext : head_text m = c :: text)
    (hspace : isSpace c = false)
    (hfree : ∀ k ∈ KEY_SPELLINGS, ∀ blanks rest : PyStr, blanks.all isSpace = true →
      c :: text ≠ k ++ (blanks ++ 0x3d :: rest)) : KeyFree m := by
  rw [KeyFree, htext, strip_eq_rdropWhile hspace, requires_python_key_rdropWhile, Bool.eq_false_iff]
  intro hkey
  obtain ⟨k, hk, blanks, rest, hblanks, heq⟩ := requires_python_key_iff.mp hkey
  exact hfree k hk blanks rest hblanks heq

/-- No spelling of the key begins with this character. -/
def isForeign (c : Nat) : Bool :=
  !isSpace c && KEY_SPELLINGS.all fun k => k.head? != some c

theorem KeyFree.of_char {c : Nat} (hc : isForeign c = true) (role : Role) (m : List Mark) :
    KeyFree (.char role c :: m) := by
  simp only [isForeign, Bool.and_eq_true, Bool.not_eq_true'] at hc
  refine KeyFree.of_head (head_text_char role c m) hc.1 ?_
  intro k hk blanks rest _ heq
  have hhead := List.all_eq_true.mp hc.2 k hk
  cases k with
  | nil => exact absurd hk (by decide)
  | cons d k =>
      obtain ⟨rfl, -⟩ := List.cons.inj heq
      simp at hhead

theorem KeyFree.newline (within : Option Quote) (m : List Mark) :
    KeyFree (.newline within :: m) := by
  rw [KeyFree, head_text_newline]
  decide

theorem KeyFree.comment (c : Toml.Comment) (m : List Mark) :
    KeyFree (Toml.commentMarks c ++ .newline none :: m) := by
  cases c with
  | none => exact KeyFree.newline none m
  | some s => exact KeyFree.of_char (by decide) .comment _

theorem KeyFree.gap (g : Toml.Gap) {m : List Mark} (h : KeyFree m) : KeyFree (g.marks ++ m) := by
  rw [Toml.Gap.marks, List.append_assoc]
  cases g.lines with
  | nil => exact h.blanks g.blanks
  | cons l ls =>
      simp only [List.flatMap_cons, List.append_assoc, List.cons_append]
      exact (KeyFree.comment l.2 _).blanks l.1

/-- A text is cut in one way where its characters of a kind end. -/
theorem append_eq_append_of_all {p : Nat → Bool} {a b x y : PyStr} (ha : a.all p = true)
    (hx : x.all p = true) (hb : ∀ c, b.head? = some c → p c = false)
    (hy : ∀ c, y.head? = some c → p c = false) (h : a ++ b = x ++ y) : a = x ∧ b = y := by
  have hstop : ∀ s : PyStr, (∀ c, s.head? = some c → p c = false) → s.takeWhile p = [] := by
    intro s hs
    cases s with
    | nil => rfl
    | cons c s => rw [List.takeWhile_cons_of_neg (by simp [hs c rfl])]
  have htake := congrArg (List.takeWhile p) h
  rw [List.takeWhile_append_of_pos fun c hc => List.all_eq_true.mp ha c hc,
    List.takeWhile_append_of_pos fun c hc => List.all_eq_true.mp hx c hc, hstop b hb, hstop y hy,
    List.append_nil, List.append_nil] at htake
  rw [htake] at h
  exact ⟨htake, List.append_cancel_left h⟩

/-- What a basic string spells before its closing quotation mark, when it is
free of quotation marks and escapes. -/
theorem basic_text_eq {items : List Toml.BasicItem} {s rest tail : PyStr}
    (hs : ∀ c ∈ s, c ≠ 0x22 ∧ c ≠ 0x5c)
    (h : items.flatMap (·.text) ++ 0x22 :: rest = s ++ 0x22 :: tail) :
    items.flatMap (·.text) = s ∧ rest = tail := by
  induction items generalizing s with
  | nil =>
      cases s with
      | nil => exact ⟨rfl, (List.cons.inj h).2⟩
      | cons c s =>
          have hc := (List.cons.inj h).1
          exact absurd hc.symm (hs c (by simp)).1
  | cons i items ih =>
      rw [List.flatMap_cons, List.append_assoc] at h
      cases s with
      | nil =>
          have hhead := basic_text_head i (items.flatMap (·.text) ++ 0x22 :: rest)
          rw [h] at hhead
          exact absurd rfl hhead
      | cons c s =>
          rw [List.forall_mem_cons] at hs
          cases i with
          | char d hd =>
              obtain ⟨rfl, hrest⟩ := List.cons.inj h
              obtain ⟨hitems, htail⟩ := ih hs.2 hrest
              exact ⟨by rw [List.flatMap_cons, hitems]; rfl, htail⟩
          | escape e => exact absurd (List.cons.inj h).1.symm hs.1.2
          | unicode u => exact absurd (List.cons.inj h).1.symm hs.1.2

/-- `requires-python`, as the key's name -/
def REQUIRES_PYTHON : PyStr := py "requires-python"

theorem spelling_cases {k : PyStr} (hk : k ∈ KEY_SPELLINGS) :
    k = REQUIRES_PYTHON ∨ k = 0x22 :: (REQUIRES_PYTHON ++ [0x22]) ∨
      k = 0x27 :: (REQUIRES_PYTHON ++ [0x27]) := by
  simp only [KEY_SPELLINGS, List.mem_cons, List.not_mem_nil, or_false] at hk
  rcases hk with rfl | rfl | rfl
  · exact Or.inl rfl
  · exact Or.inr (Or.inl (by decide))
  · exact Or.inr (Or.inr (by decide))

/-- A line that begins with a word begins with the key if the word is the key. -/
theorem spelled_by_word {p : Nat → Bool} (hname : REQUIRES_PYTHON.all p = true)
    (hother : ∀ c, p c = true → c ≠ 0x22 ∧ c ≠ 0x27 ∧ c ≠ 0x3d ∧ isSpace c = false)
    {word u k blanks rest : PyStr} (hword : word.all p = true) (hne : word ≠ [])
    (hu : ∀ c, u.head? = some c → p c = false) (hk : k ∈ KEY_SPELLINGS)
    (hblanks : blanks.all isSpace = true) (h : word ++ u = k ++ (blanks ++ 0x3d :: rest)) :
    word = REQUIRES_PYTHON ∧ u = blanks ++ 0x3d :: rest := by
  obtain ⟨c, word', rfl⟩ := List.exists_cons_of_ne_nil hne
  have hc := hother c (List.all_eq_true.mp hword c List.mem_cons_self)
  rcases spelling_cases hk with rfl | rfl | rfl
  · refine append_eq_append_of_all hword hname hu ?_ h
    intro d hd
    rw [Bool.eq_false_iff]
    intro hp
    have hd' := hother d hp
    cases blanks with
    | nil => exact hd'.2.2.1 (Option.some.inj hd).symm
    | cons b blanks =>
        obtain rfl := Option.some.inj hd
        have hspace := List.all_eq_true.mp hblanks b List.mem_cons_self
        rw [hd'.2.2.2] at hspace
        exact Bool.noConfusion hspace
  · exact absurd (List.cons.inj h).1 hc.1
  · exact absurd (List.cons.inj h).1 hc.2.1

theorem spelled_by_basic {items : List Toml.BasicItem} {u k blanks rest : PyStr}
    (hk : k ∈ KEY_SPELLINGS)
    (h : 0x22 :: (items.flatMap (·.text) ++ 0x22 :: u) = k ++ (blanks ++ 0x3d :: rest)) :
    items.flatMap (·.text) = REQUIRES_PYTHON ∧ u = blanks ++ 0x3d :: rest := by
  rcases spelling_cases hk with rfl | rfl | rfl
  · exact absurd (List.cons.inj h).1 (by decide)
  · rw [List.cons_append, List.append_assoc] at h
    exact basic_text_eq (by decide) (List.cons.inj h).2
  · exact absurd (List.cons.inj h).1 (by decide)

theorem spelled_by_literal {chars : Toml.Chars Toml.isLiteralChar} {u k blanks rest : PyStr}
    (hk : k ∈ KEY_SPELLINGS)
    (h : 0x27 :: (chars.1 ++ 0x27 :: u) = k ++ (blanks ++ 0x3d :: rest)) :
    chars.1 = REQUIRES_PYTHON ∧ u = blanks ++ 0x3d :: rest := by
  rcases spelling_cases hk with rfl | rfl | rfl
  · exact absurd (List.cons.inj h).1 (by decide)
  · exact absurd (List.cons.inj h).1 (by decide)
  · rw [List.cons_append, List.append_assoc] at h
    have hcut := append_eq_append_of_all chars.2 (by decide) (by simp [Toml.isLiteralChar])
      (by simp [Toml.isLiteralChar]) (List.cons.inj h).2
    exact ⟨hcut.1, (List.cons.inj hcut.2).2⟩

theorem isPlainChar_apart (c : Nat) (h : Toml.isPlainChar c = true) :
    c ≠ 0x22 ∧ c ≠ 0x27 ∧ c ≠ 0x3d ∧ isSpace c = false := by
  have hrange : c = 0x2b ∨ c = 0x2d ∨ c = 0x2e ∨ c = 0x3a ∨ c = 0x5f ∨ (0x30 ≤ c ∧ c ≤ 0x39) ∨
      (0x41 ≤ c ∧ c ≤ 0x5a) ∨ (0x61 ≤ c ∧ c ≤ 0x7a) := by
    simp only [Toml.isPlainChar, Toml.isBareKeyChar, Toml.isAlnum, Bool.or_eq_true,
      Bool.and_eq_true, decide_eq_true_eq, beq_iff_eq] at h
    omega
  have hspace : isSpace c = false := by
    simp [isSpace]
    omega
  refine ⟨?_, ?_, ?_, hspace⟩ <;> omega

/-! ## Values -/

theorem head_not_plain {u : PyStr} {c : Nat} (hc : isSpace c = true ∨ c = 0x22 ∨ c = 0x27) :
    ∀ d, (c :: u).head? = some d → Toml.isPlainChar d = false := by
  intro d hd
  obtain rfl := Option.some.inj hd
  rw [Bool.eq_false_iff]
  intro hplain
  have hapart := isPlainChar_apart c hplain
  rcases hc with hc | hc | hc
  · rw [hapart.2.2.2] at hc
    exact Bool.noConfusion hc
  · exact hapart.1 hc
  · exact hapart.2.1 hc

theorem Closed.not_assigned {m : List Mark} (h : Closed m) {blanks rest : PyStr}
    (hblanks : blanks.all isSpace = true) : head_text m ≠ blanks ++ 0x3d :: rest := by
  intro heq
  have hnot := h.unassigned
  rw [heq, List.dropWhile_append_of_pos fun c hc => List.all_eq_true.mp hblanks c hc] at hnot
  exact hnot rfl

/-- A number, a boolean or a date is not read as the key. -/
theorem KeyFree.plain (p : Toml.Plain) {m : List Mark} (h : Closed m) :
    KeyFree (code p.text ++ m) := by
  obtain ⟨c, word, hword⟩ := List.exists_cons_of_ne_nil p.nonempty
  have hhead := List.all_eq_true.mp p.word.2 c (by simp [hword])
  obtain ⟨u, hu, hplain, hunassigned⟩ : ∃ u, p.text ++ head_text m = p.word.1 ++ u ∧
      (∀ d, u.head? = some d → Toml.isPlainChar d = false) ∧
      ∀ blanks rest : PyStr, blanks.all isSpace = true → u ≠ blanks ++ 0x3d :: rest := by
    cases ht : p.time with
    | none =>
        exact ⟨head_text m, by simp [Toml.Plain.text, ht], h.apart, fun _ _ => h.not_assigned⟩
    | some t =>
        refine ⟨0x20 :: (t.1 ++ head_text m), by simp [Toml.Plain.text, ht],
          head_not_plain (Or.inl rfl), ?_⟩
        intro blanks rest hblanks heq
        have hdrop := congrArg (fun s => (List.dropWhile isSpace s).head?) heq
        simp only [List.dropWhile_append_of_pos fun c hc => List.all_eq_true.mp hblanks c hc] at hdrop
        rw [List.dropWhile_cons_of_pos rfl] at hdrop
        cases htime : t.1 with
        | nil =>
            rw [htime, List.nil_append] at hdrop
            exact h.unassigned hdrop
        | cons d t' =>
            have hd := isPlainChar_apart d (List.all_eq_true.mp t.2 d (by simp [htime]))
            rw [htime, List.cons_append, List.dropWhile_cons_of_neg (by simp [hd.2.2.2])] at hdrop
            exact hd.2.2.1 (Option.some.inj hdrop)
  have htext : head_text (code p.text ++ m) = c :: (word ++ u) := by
    rw [head_text_code, hu, hword, List.cons_append]
  refine KeyFree.of_head htext (isPlainChar_apart c hhead).2.2.2 ?_
  intro k hk blanks rest hblanks heq
  rw [← List.cons_append, ← hword] at heq
  have hspelled := spelled_by_word (by decide) isPlainChar_apart p.word.2 p.nonempty hplain hk
    hblanks heq
  exact hunassigned blanks rest hblanks hspelled.2

/-- No spelling of the key begins with one character twice. -/
theorem spelling_ne_twice {k : PyStr} (hk : k ∈ KEY_SPELLINGS) (c : Nat) (text tail : PyStr) :
    c :: c :: text ≠ k ++ tail := by
  intro h
  rcases spelling_cases hk with rfl | rfl | rfl
  all_goals
    obtain ⟨rfl, hrest⟩ := List.cons.inj h
    exact absurd (List.cons.inj hrest).1 (by decide)

theorem KeyFree.str (s : Toml.Str) {m : List Mark} (h : Closed m) : KeyFree (s.marks ++ m) := by
  cases s with
  | basic items =>
      have htext : head_text ((Toml.Str.basic items).marks ++ m) =
          0x22 :: (items.flatMap (·.text) ++ 0x22 :: head_text m) := by
        simp only [Toml.Str.marks, Quote.run, List.append_assoc, head_text_quoted]
        rfl
      refine KeyFree.of_head htext (by decide) ?_
      intro k hk blanks rest hblanks heq
      exact h.not_assigned hblanks (spelled_by_basic hk heq).2
  | literal chars =>
      have htext : head_text ((Toml.Str.literal chars).marks ++ m) =
          0x27 :: (chars.1 ++ 0x27 :: head_text m) := by
        simp only [Toml.Str.marks, Quote.run, List.append_assoc, head_text_quoted]
        rfl
      refine KeyFree.of_head htext (by decide) ?_
      intro k hk blanks rest hblanks heq
      exact h.not_assigned hblanks (spelled_by_literal hk heq).2
  | folded parts quotes =>
      have htext : ∃ text, head_text ((Toml.Str.folded parts quotes).marks ++ m) =
          0x22 :: 0x22 :: text := by
        simp only [Toml.Str.marks, Quote.run, List.append_assoc, head_text_quoted]
        exact ⟨_, rfl⟩
      obtain ⟨text, htext⟩ := htext
      exact KeyFree.of_head htext (by decide) fun k hk _ _ _ => spelling_ne_twice hk _ _ _
  | raw parts quotes =>
      have htext : ∃ text, head_text ((Toml.Str.raw parts quotes).marks ++ m) =
          0x27 :: 0x27 :: text := by
        simp only [Toml.Str.marks, Quote.run, List.append_assoc, head_text_quoted]
        exact ⟨_, rfl⟩
      obtain ⟨text, htext⟩ := htext
      exact KeyFree.of_head htext (by decide) fun k hk _ _ _ => spelling_ne_twice hk _ _ _

/-- Where a value stands, no key does. -/
theorem KeyFree.value (v : Toml.Value) {m : List Mark} (h : Closed m) :
    KeyFree (v.marks ++ m) := by
  cases v with
  | str s => exact KeyFree.str s h
  | plain p => exact KeyFree.plain p h
  | array elements => exact KeyFree.of_char (by decide) .code _
  | emptyTable blanks => exact KeyFree.of_char (by decide) .code _
  | table pairs => exact KeyFree.of_char (by decide) .code _

/-! ## Reading on behind a value -/

theorem search_rest_array_line {depth : Int} (hdepth : 1 ≤ depth) {m : List Mark}
    (hkey : KeyFree m) : search_rest depth (.newline none :: m) = search_rest depth m := by
  have hinside : depth ≠ 0 := by omega
  have hmax : max depth 0 = depth := by omega
  rw [search_rest_newline, hmax]
  exact search_lines_passes hkey (Or.inl hinside)

theorem search_rest_comment (depth : Int) (c : Toml.Comment) (m : List Mark) :
    search_rest depth (Toml.commentMarks c ++ m) = search_rest depth m := by
  cases c with
  | none => rfl
  | some s => exact search_rest_commented depth _ m

theorem search_rest_gap {depth : Int} (hdepth : 1 ≤ depth) (g : Toml.Gap) {m : List Mark}
    (hkey : KeyFree m) : search_rest depth (g.marks ++ m) = search_rest depth m := by
  obtain ⟨ls, blanks⟩ := g
  induction ls with
  | nil => exact search_rest_blanks depth blanks m
  | cons l ls ih =>
      have hmarks : (Toml.Gap.mk (l :: ls) blanks).marks ++ m =
          code l.1.1 ++ (Toml.commentMarks l.2 ++
            .newline none :: ((Toml.Gap.mk ls blanks).marks ++ m)) := by
        simp [Toml.Gap.marks]
      rw [hmarks, search_rest_blanks, search_rest_comment,
        search_rest_array_line hdepth (hkey.gap ⟨ls, blanks⟩), ih]

theorem search_rest_simple_key {depth : Int} (hdepth : 0 ≤ depth) (k : Toml.SimpleKey)
    (m : List Mark) : search_rest depth (k.marks ++ m) = search_rest depth m := by
  cases k with
  | bare s _ =>
      apply search_rest_code
      intro c hc
      have hbare := List.all_eq_true.mp s.2 c hc
      exact bracket_of_plain (by simp [Toml.isPlainChar, hbare])
  | basic items => exact search_rest_str hdepth (.basic items) m
  | literal chars => exact search_rest_str hdepth (.literal chars) m

theorem search_rest_key {depth : Int} (hdepth : 0 ≤ depth) (k : Toml.Key) (m : List Mark) :
    search_rest depth (k.marks ++ m) = search_rest depth m := by
  rw [Toml.Key.marks, List.append_assoc, search_rest_simple_key hdepth]
  apply search_rest_parts
  intro p m
  simp only [Toml.DottedPart.marks, List.append_assoc, search_rest_blanks]
  rw [search_rest_code (by decide), search_rest_blanks, search_rest_simple_key hdepth]

/-- A key, its `=` and the blanks around it. -/
theorem search_rest_key_equals {depth : Int} (hdepth : 0 ≤ depth) (key : Toml.Key)
    (left right : Toml.Blanks) (m : List Mark) :
    search_rest depth (key.marks ++ (code left.1 ++ (code [0x3d] ++ (code right.1 ++ m)))) =
      search_rest depth m := by
  rw [search_rest_key hdepth, search_rest_blanks, search_rest_code (by decide), search_rest_blanks]

theorem closed_code {c : Nat} (hplain : Toml.isPlainChar c = false) (hspace : isSpace c = false)
    (hequals : c ≠ 0x3d) (m : List Mark) : Closed (code [c] ++ m) :=
  Closed.of_char hplain hspace hequals .code m

theorem keyFree_code {c : Nat} (hc : isForeign c = true) (m : List Mark) :
    KeyFree (code [c] ++ m) := KeyFree.of_char hc .code m

theorem search_rest_open (depth : Int) (m : List Mark) :
    search_rest depth (code [0x5b] ++ m) = search_rest (depth + 1) m := search_rest_char ..

theorem search_rest_close (depth : Int) (m : List Mark) :
    search_rest (depth + 1) (code [0x5d] ++ m) = search_rest depth m := by
  have hchar := search_rest_char (depth + 1) .code 0x5d m
  rwa [if_pos rfl, show bracket 0x5d = -1 from rfl, Int.add_neg_cancel_right] at hchar

theorem bracket_of_mem_plain (p : Toml.Plain) : ∀ c ∈ p.text, bracket c = 0 := by
  intro c hc
  rw [Toml.Plain.text, List.mem_append] at hc
  rcases hc with hc | hc
  · exact bracket_of_plain (List.all_eq_true.mp p.word.2 c hc)
  · cases ht : p.time with
    | none => simp [ht] at hc
    | some t =>
        simp only [ht, List.mem_cons] at hc
        rcases hc with rfl | hc
        · rfl
        · exact bracket_of_plain (List.all_eq_true.mp t.2 c hc)

mutual

theorem search_rest_value {depth : Int} (hdepth : 0 ≤ depth) (v : Toml.Value) (m : List Mark) :
    search_rest depth (v.marks ++ m) = search_rest depth m := by
  cases v with
  | str s => exact search_rest_str hdepth s m
  | plain p => exact search_rest_code (bracket_of_mem_plain p) depth m
  | array elements =>
      have hinside : 1 ≤ depth + 1 := by omega
      have hclose : Closed (code [0x5d] ++ m) :=
        closed_code (by decide) (by decide) (by decide) m
      simp only [Toml.Value.marks, List.append_assoc]
      rw [search_rest_open, search_rest_elements hinside elements hclose
        (keyFree_code (by decide) m), search_rest_close]
  | emptyTable blanks =>
      simp only [Toml.Value.marks, List.append_assoc]
      rw [search_rest_code (by decide), search_rest_blanks, search_rest_code (by decide)]
  | table pairs =>
      simp only [Toml.Value.marks, List.append_assoc]
      rw [search_rest_code (by decide), search_rest_pairs hdepth pairs,
        search_rest_code (by decide)]

theorem search_rest_elements {depth : Int} (hdepth : 1 ≤ depth) (e : Toml.Elements)
    {m : List Mark} (h : Closed m) (hkey : KeyFree m) :
    search_rest depth (e.marks ++ m) = search_rest depth m := by
  have hpos : 0 ≤ depth := by omega
  cases e with
  | done gap => exact search_rest_gap hdepth gap hkey
  | last before v after =>
      simp only [Toml.Elements.marks, List.append_assoc]
      have hafter : Closed (after.marks ++ m) := h.gap after
      rw [search_rest_gap hdepth before (KeyFree.value v hafter), search_rest_value hpos v,
        search_rest_gap hdepth after hkey]
  | more before v after rest =>
      simp only [Toml.Elements.marks, List.append_assoc]
      have hcomma : Closed (code [0x2c] ++ (rest.marks ++ m)) :=
        closed_code (by decide) (by decide) (by decide) _
      have hafter := hcomma.gap after
      rw [search_rest_gap hdepth before (KeyFree.value v hafter), search_rest_value hpos v,
        search_rest_gap hdepth after (keyFree_code (by decide) _), search_rest_code (by decide),
        search_rest_elements hdepth rest h hkey]

theorem search_rest_pairs {depth : Int} (hdepth : 0 ≤ depth) (p : Toml.Pairs) (m : List Mark) :
    search_rest depth (p.marks ++ m) = search_rest depth m := by
  cases p with
  | last before key left right v after =>
      simp only [Toml.Pairs.marks, List.append_assoc]
      rw [search_rest_blanks, search_rest_key_equals hdepth,
        search_rest_value hdepth v, search_rest_blanks]
  | more before key left right v after rest =>
      simp only [Toml.Pairs.marks, List.append_assoc]
      rw [search_rest_blanks, search_rest_key_equals hdepth, search_rest_value hdepth v,
        search_rest_blanks, search_rest_code (by decide), search_rest_pairs hdepth rest]

end

end PwshPy.Packing
