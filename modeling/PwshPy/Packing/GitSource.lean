import Mathlib.Data.List.Infix
import PwshPy.Packing.ScriptBlock
import PwshPy.Packing.ScannedDocument
import PwshPy.Toml.Places

/-! # Whether a script has a git source

The block's lines are searched, without their comments, for what a git source
could be spelled with. A document that declares one shows it on one of its
lines: the letters themselves, a key named `git` before its `=`, or an escape
that could spell either. The lines searched are the document's lines as long as
the text has no other character at which `str.splitlines` ends a line.
-/

namespace PwshPy.Packing

open Toml (Mark Line Role lines row code quoted Document)

/-! ## The search of a line -/

/-- `_GIT_REQUIREMENT` -/
def GIT_REQUIREMENT : PyStr := py "git+"

/-- The spellings of a key named `git` that `_GIT_KEY` knows. -/
def git_spellings : List PyStr := [py "git", py "\"git\"", py "'git'"]

/-- `\s*=(?!=)` -/
def assigns (s : PyStr) : Bool :=
  match s.dropWhile isSpace with
  | 0x3d :: rest => rest.head? != some 0x3d
  | _ => false

def git_key_here (s : PyStr) : Bool :=
  git_spellings.any fun k => k.isPrefixOf s && assigns (s.drop k.length)

/-- `_GIT_KEY.search(toml)` -/
def git_key (toml : PyStr) : Bool :=
  git_key_here toml ||
    toml.tails.any fun
      | [] => false
      | c :: rest => (isSpace c || c == 0x7b || c == 0x2c || c == 0x2e) && git_key_here rest

/-- `_SPELLING_ESCAPE.search(toml)` -/
def spelling_escape (toml : PyStr) : Bool :=
  toml.tails.any fun
    | 0x5c :: rest =>
        (py "uUx").any (fun c => rest.head? == some c) || rest.all isSpace
    | _ => false

def may_name_a_git_source (toml : PyStr) : Bool :=
  decide (GIT_REQUIREMENT <:+: asciiLower toml) || (git_key toml || spelling_escape toml)

/-- The loop of `has_git_source` over the lines of the block. -/
def any_line_names_git (open_string : Option Delimiter) : List PyStr → Bool
  | [] => false
  | raw :: rest =>
      let line := uncomment raw
      let scan := scan_toml_characters open_string line
      if may_name_a_git_source (line.take scan.comment) then true
      else any_line_names_git scan.open_string rest

def has_git_source (metadata : PyStr) (with_packages : List PyStr) : Bool :=
  if with_packages.any fun package => decide (GIT_REQUIREMENT <:+: asciiLower package) then true
  else any_line_names_git none (block_lines metadata)

/-! ## What the search finds -/

theorem finds_requirement {w : PyStr} (hw : asciiLower w = GIT_REQUIREMENT) (x y : PyStr) :
    may_name_a_git_source (x ++ w ++ y) = true := by
  have hfound : GIT_REQUIREMENT <:+: asciiLower (x ++ w ++ y) := by
    rw [asciiLower_append, asciiLower_append, hw]
    exact ⟨_, _, rfl⟩
  rw [may_name_a_git_source, decide_eq_true hfound, Bool.true_or]

theorem finds_unicode_escape {letter : Nat} (hletter : letter ∈ py "uUx") (x y : PyStr) :
    may_name_a_git_source (x ++ [0x5c, letter] ++ y) = true := by
  have hescape : spelling_escape (x ++ [0x5c, letter] ++ y) = true := by
    refine List.any_eq_true.mpr ⟨0x5c :: letter :: y, ?_, ?_⟩
    · rw [List.mem_tails, List.append_assoc]
      exact List.suffix_append _ _
    · have : (py "uUx").any (fun c => (letter :: y).head? == some c) = true :=
        List.any_eq_true.mpr ⟨letter, hletter, by simp⟩
      simp only [this, Bool.true_or]
  rw [may_name_a_git_source, hescape, Bool.or_true, Bool.or_true]

theorem finds_line_ending_escape {blanks : PyStr} (hblanks : blanks.all isSpace = true)
    (x : PyStr) : may_name_a_git_source (x ++ 0x5c :: blanks) = true := by
  have hescape : spelling_escape (x ++ 0x5c :: blanks) = true := by
    refine List.any_eq_true.mpr ⟨0x5c :: blanks, ?_, ?_⟩
    · rw [List.mem_tails]
      exact List.suffix_append _ _
    · simp only [hblanks, Bool.or_true]
  rw [may_name_a_git_source, hescape, Bool.or_true, Bool.or_true]

theorem git_key_here_of_spelling {k : PyStr} (hk : k ∈ git_spellings) {blanks : PyStr}
    (hblanks : blanks.all isSpace = true) {rest : PyStr} (hrest : rest.head? ≠ some 0x3d) :
    git_key_here (k ++ (blanks ++ 0x3d :: rest)) = true := by
  have hskip : (blanks ++ 0x3d :: rest).dropWhile isSpace = 0x3d :: rest := by
    rw [List.dropWhile_append_of_pos fun c hc => List.all_eq_true.mp hblanks c hc]
    rfl
  have hassigns : assigns (blanks ++ 0x3d :: rest) = true := by
    simpa [assigns, hskip] using hrest
  refine List.any_eq_true.mpr ⟨k, hk, ?_⟩
  simp [hassigns]

/-- A key is found at the beginning of a line, or behind what may open one. -/
theorem finds_key {x s : PyStr} (hs : git_key_here s = true)
    (hx : x = [] ∨ ∃ x' c, x = x' ++ [c] ∧ Toml.isKeyOpener c = true) :
    may_name_a_git_source (x ++ s) = true := by
  have hkey : git_key (x ++ s) = true := by
    rcases hx with rfl | ⟨x', c, rfl, hc⟩
    · simp [git_key, hs]
    · have hopener : (isSpace c || c == 0x7b || c == 0x2c || c == 0x2e) = true := by
        have hblank : Toml.isBlank c = true → isSpace c = true := fun h => by
          rcases isBlank_apart h with rfl | rfl <;> decide
        simp only [Toml.isKeyOpener, Bool.or_eq_true] at hc ⊢
        tauto
      have hany : ((x' ++ [c] ++ s).tails.any fun
          | [] => false
          | c :: rest => (isSpace c || c == 0x7b || c == 0x2c || c == 0x2e) && git_key_here rest) =
          true := by
        refine List.any_eq_true.mpr ⟨c :: s, ?_, ?_⟩
        · rw [List.mem_tails, List.append_assoc]
          exact List.suffix_append _ _
        · simp only [hopener, hs, Bool.and_self]
      unfold git_key
      rw [hany, Bool.or_true]
  rw [may_name_a_git_source, hkey, Bool.true_or, Bool.or_true]

/-! ## What a text shows -/

/-- A line of the text, without its comment, is taken for a git source. -/
def Shows (m : List Mark) : Prop := ∃ l ∈ lines m, may_name_a_git_source l.uncommented = true

private theorem uncommented_around {l : Line} {p xs q : List (Role × Nat)}
    (hl : l.chars = p ++ xs ++ q) (hxs : ∀ x ∈ xs, x.1 ≠ .comment) :
    ∃ a b, l.uncommented = a ++ xs.map Prod.snd ++ b ∧ (p = [] → a = []) ∧ (q = [] → b = []) := by
  have hfilter : xs.filter (·.1 != .comment) = xs := by
    rw [List.filter_eq_self]
    intro x hx
    simpa using hxs x hx
  refine ⟨(p.filter (·.1 != .comment)).map Prod.snd, (q.filter (·.1 != .comment)).map Prod.snd,
    ?_, ?_, ?_⟩
  · rw [Line.uncommented, hl, List.filter_append, List.filter_append, hfilter, List.map_append,
      List.map_append]
  · rintro rfl
    rfl
  · rintro rfl
    rfl

private theorem quoted_eq_row (w : PyStr) : quoted w = row (w.map (Prod.mk .quoted)) := by
  simp [quoted, row]

/-- A piece of a string that is found on whatever line it stands. -/
theorem shows_piece {w : PyStr} (hw : w ≠ [])
    (hfinds : ∀ x y, may_name_a_git_source (x ++ w ++ y) = true) (a b : List Mark) :
    Shows (a ++ (quoted w ++ b)) := by
  have hne : w.map (Prod.mk Role.quoted) ≠ [] := by simpa using hw
  obtain ⟨l, hl, p, q, hchars, -, -⟩ := Toml.exists_line_of_piece a hne b
  obtain ⟨x, y, huncommented, -, -⟩ := uncommented_around hchars (by simp)
  rw [← quoted_eq_row] at hl
  refine ⟨l, hl, ?_⟩
  rw [huncommented, List.map_map]
  simpa [Function.comp_def] using hfinds x y

/-- A backslash before the end of its line. -/
theorem shows_fold {blanks : PyStr} (hblanks : blanks.all isSpace = true) (a : List Mark)
    (w : Option Toml.Quote) (b : List Mark) :
    Shows (a ++ (quoted (0x5c :: blanks) ++ .newline w :: b)) := by
  have hne : (0x5c :: blanks).map (Prod.mk Role.quoted) ≠ [] := by simp
  obtain ⟨l, hl, p, q, hchars, -, hq⟩ := Toml.exists_line_of_piece a hne (.newline w :: b)
  obtain ⟨x, y, huncommented, -, hy⟩ := uncommented_around hchars (by simp)
  rw [← quoted_eq_row] at hl
  refine ⟨l, hl, ?_⟩
  rw [huncommented, hy (Toml.row_prefix_newline hq), List.append_nil, List.map_map]
  simpa [Function.comp_def] using finds_line_ending_escape hblanks x

/-! ## Strings -/

/-- The text spells `git+`, in any letter case. -/
def SpellsGit (s : PyStr) : Prop := ∃ w, w <:+: s ∧ asciiLower w = GIT_REQUIREMENT

/-- A piece that is found on any line, or a folded line end. -/
inductive Telling : List Mark → Prop where
  | piece {w : PyStr} (hw : w ≠ [])
      (hfinds : ∀ x y, may_name_a_git_source (x ++ w ++ y) = true) : Telling (quoted w)
  | fold (blanks : Toml.Blanks) (w : Option Toml.Quote) :
      Telling (quoted (0x5c :: blanks.1) ++ [.newline w])

theorem Telling.shows {t m : List Mark} (ht : Telling t) (h : t <:+: m) : Shows m := by
  obtain ⟨a, b, rfl⟩ := h
  rw [List.append_assoc]
  cases ht with
  | piece hw hfinds => exact shows_piece hw hfinds a b
  | fold blanks w =>
      have hblanks : blanks.1.all isSpace = true := by
        rw [List.all_eq_true]
        intro c hc
        rcases isBlank_apart (List.all_eq_true.mp blanks.2 c hc) with rfl | rfl <;> decide
      rw [List.append_assoc]
      exact shows_fold hblanks a w b

theorem telling_unicode (u : Toml.UnicodeEscape) :
    ∃ t, Telling t ∧ t <:+: quoted (Toml.BasicItem.unicode u).text := by
  have hletter : (if u.long then 0x55 else 0x75) ∈ py "uUx" := by cases u.long <;> decide
  refine ⟨quoted [0x5c, if u.long then 0x55 else 0x75],
    .piece (by simp) (finds_unicode_escape hletter), ?_⟩
  rw [Toml.BasicItem.text, Toml.quoted_cons, Toml.quoted_cons]
  exact (List.prefix_append [_, _] _).isInfix

def isGitChar (c : Nat) : Bool := (py "gGiItT+").contains c

theorem isGitChar_of_requirement {w : PyStr} (h : asciiLower w = GIT_REQUIREMENT) :
    ∀ c ∈ w, isGitChar c = true := by
  intro c hc
  have hmem : (if 0x41 ≤ c ∧ c ≤ 0x5a then c + 0x20 else c) ∈ GIT_REQUIREMENT := by
    rw [← h]
    exact List.mem_map_of_mem hc
  have hvalues : GIT_REQUIREMENT = [0x67, 0x69, 0x74, 0x2b] := by decide
  have hgit : py "gGiItT+" = [0x67, 0x47, 0x69, 0x49, 0x74, 0x54, 0x2b] := by decide
  simp only [hvalues, List.mem_cons, List.not_mem_nil, or_false] at hmem
  simp only [isGitChar, hgit, List.contains_cons, List.contains_nil, Bool.or_false,
    Bool.or_eq_true, beq_iff_eq]
  split at hmem <;> omega

/-- A text made of units, each a character of the value: what the value spells
is spelled by units in a row. -/
theorem telling_of_units {α : Type} {value : α → Nat} {marks : α → List Mark} {units : List α}
    (hplain : ∀ x ∈ units, isGitChar (value x) = true → marks x = quoted [value x])
    (h : SpellsGit (units.map value)) :
    ∃ t, Telling t ∧ t <:+: units.flatMap marks := by
  obtain ⟨w, ⟨a, b, hw⟩, hgit⟩ := h
  obtain ⟨front, back, rfl, hfront, hback⟩ := List.map_eq_append_iff.mp hw.symm
  obtain ⟨left, mid, rfl, -, hmid⟩ := List.map_eq_append_iff.mp hfront
  have hspelled : mid.flatMap marks = quoted w := by
    rw [← hmid]
    have hall : ∀ x ∈ mid, isGitChar (value x) = true := fun x hx =>
      isGitChar_of_requirement hgit _ (by rw [← hmid]; exact List.mem_map_of_mem hx)
    clear hmid hfront hw hback
    induction mid with
    | nil => rfl
    | cons x mid ih =>
        have hx := hplain x (by simp) (hall x (by simp))
        have hrest := ih (fun y hy => hplain y (by
          simp only [List.mem_append, List.mem_cons] at hy ⊢
          tauto)) fun y hy => hall y (List.mem_cons_of_mem _ hy)
        rw [List.flatMap_cons, hx, hrest, List.map_cons]
        rfl
  have hne : w ≠ [] := by
    rintro rfl
    exact absurd hgit (by decide)
  refine ⟨quoted w, .piece hne (finds_requirement hgit), left.flatMap marks, back.flatMap marks, ?_⟩
  rw [List.flatMap_append, List.flatMap_append, hspelled]

theorem SpellsGit.mono {s t : PyStr} (hst : s <:+: t) (h : SpellsGit s) : SpellsGit t := by
  obtain ⟨w, hw, hgit⟩ := h
  exact ⟨w, hw.trans hst, hgit⟩

theorem infix_flatMap {α β : Type} (f : α → List β) {x : α} {xs : List α} (h : x ∈ xs) :
    f x <:+: xs.flatMap f := by
  obtain ⟨a, b, rfl⟩ := List.append_of_mem h
  rw [List.flatMap_append, List.flatMap_cons]
  exact (List.prefix_append _ _).isInfix.trans (List.suffix_append _ _).isInfix

private theorem quoted_flatMap {α : Type} (f : α → PyStr) (xs : List α) :
    quoted (xs.flatMap f) = xs.flatMap fun x => quoted (f x) := by
  induction xs with
  | nil => rfl
  | cons x xs ih => rw [List.flatMap_cons, Toml.quoted_append, ih, List.flatMap_cons]

/-- No short escape stands for a letter of `git+`. -/
theorem isGitChar_escape (e : Toml.Escape) : isGitChar e.value = false := by
  cases e <;> decide

theorem telling_of_items {items : List Toml.BasicItem} (h : SpellsGit (items.map (·.value))) :
    ∃ t, Telling t ∧ t <:+: quoted (items.flatMap (·.text)) := by
  rw [quoted_flatMap]
  by_cases hu : ∃ u, Toml.BasicItem.unicode u ∈ items
  · obtain ⟨u, hu⟩ := hu
    obtain ⟨t, ht, htext⟩ := telling_unicode u
    exact ⟨t, ht, htext.trans (infix_flatMap (fun i => quoted (Toml.BasicItem.text i)) hu)⟩
  · refine telling_of_units ?_ h
    intro i hi hgit
    cases i with
    | char c _ => rfl
    | escape e => exact absurd hgit (by simp [Toml.BasicItem.value, isGitChar_escape])
    | unicode u => exact absurd ⟨u, hi⟩ hu

/-- The body of a multi-line string, its quotation marks one by one (`none`). -/
def units {ι : Type} (parts : List (Fin 3 × ι)) (quotes : Fin 3) : List (Option ι) :=
  parts.flatMap (fun p => List.replicate p.1 none ++ [some p.2]) ++ List.replicate quotes none

def unitMarks {ι : Type} (mark : Toml.Quote) (marks : ι → List Mark) : Option ι → List Mark
  | none => quoted [mark.char]
  | some i => marks i

private theorem flatMap_replicate_none {ι : Type} (mark : Toml.Quote) (marks : ι → List Mark)
    (n : Nat) : (List.replicate n none).flatMap (unitMarks mark marks) = mark.run n := by
  induction n with
  | zero => rfl
  | succ n ih => rw [List.replicate_succ, List.flatMap_cons, ih]; rfl

theorem units_marks {ι : Type} (mark : Toml.Quote) (marks : ι → List Mark)
    (parts : List (Fin 3 × ι)) (quotes : Fin 3) :
    (units parts quotes).flatMap (unitMarks mark marks) =
      parts.flatMap (fun p => mark.run p.1 ++ marks p.2) ++ mark.run quotes := by
  unfold units
  rw [List.flatMap_append, flatMap_replicate_none]
  congr 1
  induction parts with
  | nil => rfl
  | cons p parts ih =>
      rw [List.flatMap_cons, List.flatMap_append, ih, List.flatMap_append, flatMap_replicate_none,
        List.flatMap_cons]
      simp [unitMarks]

theorem mem_units {ι : Type} {parts : List (Fin 3 × ι)} {quotes : Fin 3} {i : ι}
    (h : some i ∈ units parts quotes) : ∃ p ∈ parts, p.2 = i := by
  simp only [units, List.mem_append, List.mem_flatMap, List.mem_replicate, List.mem_singleton] at h
  rcases h with ⟨p, hp, h⟩ | h
  · rcases h with h | h
    · exact absurd h.2 (by simp)
    · exact ⟨p, hp, (Option.some.inj h).symm⟩
  · exact absurd h.2 (by simp)

theorem units_suffix {ι : Type} {parts rest : List (Fin 3 × ι)} (h : rest <:+ parts)
    (quotes : Fin 3) : units rest quotes <:+ units parts quotes := by
  obtain ⟨front, rfl⟩ := h
  simp only [units, List.flatMap_append, List.append_assoc]
  exact List.suffix_append _ _

def foldedUnitValue : Option Toml.FoldedItem → Nat
  | none => Toml.Quote.basic.char
  | some (.item i) => i.value
  | some .newline => LF
  | some (.fold _) => 0

/-- Without a folded line end nothing is trimmed. -/
theorem foldedValue_units {parts : List (Fin 3 × Toml.FoldedItem)}
    (hfold : ∀ p ∈ parts, ∀ blanks, p.2 ≠ .fold blanks) (quotes : Fin 3) :
    Toml.Str.foldedValue false parts ++ List.replicate quotes Toml.Quote.basic.char =
      (units parts quotes).map foldedUnitValue := by
  induction parts with
  | nil => simp [units, Toml.Str.foldedValue, foldedUnitValue]
  | cons p parts ih =>
      have hrest := ih fun q hq => hfold q (List.mem_cons_of_mem _ hq)
      obtain ⟨n, i⟩ := p
      have hunits : units ((n, i) :: parts) quotes =
          List.replicate n none ++ some i :: units parts quotes := by
        simp [units]
      rw [hunits, List.map_append, List.map_cons, ← hrest, List.map_replicate]
      cases i with
      | item i => simp [Toml.Str.foldedValue, foldedUnitValue]
      | newline => simp [Toml.Str.foldedValue, foldedUnitValue]
      | fold blanks => exact absurd rfl (hfold _ List.mem_cons_self blanks)

def rawUnitValue : Option Toml.RawItem → Nat
  | none => Toml.Quote.literal.char
  | some i => i.value

theorem rawValue_units (parts : List (Fin 3 × Toml.RawItem)) (quotes : Fin 3) :
    parts.flatMap (fun p => List.replicate p.1 Toml.Quote.literal.char ++ [p.2.value]) ++
        List.replicate quotes Toml.Quote.literal.char =
      (units parts quotes).map rawUnitValue := by
  unfold units
  rw [List.map_append, List.map_replicate, List.map_flatMap]
  simp [rawUnitValue]

/-- The value leaves out a line end right behind the opening delimiter. -/
theorem folded_value (parts : List (Fin 3 × Toml.FoldedItem)) (quotes : Fin 3) :
    ∃ body, body <:+ parts ∧ (Toml.Str.folded parts quotes).value =
      Toml.Str.foldedValue false body ++ List.replicate quotes Toml.Quote.basic.char := by
  unfold Toml.Str.value
  simp only
  split
  · exact ⟨_, List.suffix_cons _ _, rfl⟩
  · exact ⟨_, List.suffix_rfl, rfl⟩

theorem raw_value (parts : List (Fin 3 × Toml.RawItem)) (quotes : Fin 3) :
    ∃ body, body <:+ parts ∧ (Toml.Str.raw parts quotes).value =
      body.flatMap (fun p => List.replicate p.1 Toml.Quote.literal.char ++ [p.2.value]) ++
        List.replicate quotes Toml.Quote.literal.char := by
  unfold Toml.Str.value
  simp only
  split
  · exact ⟨_, List.suffix_cons _ _, rfl⟩
  · exact ⟨_, List.suffix_rfl, rfl⟩

theorem body_infix (mark : Toml.Quote) (body : List Mark) (quotes : Fin 3) :
    body ++ mark.run quotes <:+: mark.run 3 ++ body ++ mark.run (quotes + 3) := by
  have hrun : mark.run (quotes + 3) = mark.run quotes ++ mark.run 3 := by
    unfold Toml.Quote.run
    rw [List.replicate_add, Toml.quoted_append]
  exact ⟨mark.run 3, mark.run 3, by rw [hrun]; simp only [List.append_assoc]⟩

/-- A string that spells `git+` has a telling piece. -/
theorem telling_of_str {s : Toml.Str} (h : SpellsGit s.value) :
    ∃ t, Telling t ∧ t <:+: s.marks := by
  cases s with
  | basic items =>
      obtain ⟨t, ht, hin⟩ := telling_of_items h
      rw [Toml.Str.marks, List.append_assoc]
      exact ⟨t, ht, hin.trans ((List.prefix_append _ _).isInfix.trans (List.suffix_append _ _).isInfix)⟩
  | literal chars =>
      have hchars : SpellsGit (chars.1.map id) := by rwa [List.map_id]
      have hplain : ∀ c ∈ chars.1, isGitChar (id c) = true →
          (fun c => quoted [c]) c = quoted [id c] := fun _ _ _ => rfl
      obtain ⟨t, ht, hin⟩ := telling_of_units hplain hchars
      have hone : chars.1.flatMap (fun c => quoted [c]) = quoted chars.1 := by
        rw [← quoted_flatMap]
        simp
      rw [hone] at hin
      rw [Toml.Str.marks, List.append_assoc]
      exact ⟨t, ht, hin.trans ((List.prefix_append _ _).isInfix.trans (List.suffix_append _ _).isInfix)⟩
  | folded parts quotes =>
      obtain ⟨body, hbody, hvalue⟩ := folded_value parts quotes
      have hpart : ∀ p ∈ parts, p.2.marks <:+: (Toml.Str.folded parts quotes).marks := by
        intro p hp
        have hin := infix_flatMap (fun p => Toml.Quote.basic.run p.1 ++ p.2.marks) hp
        rw [Toml.Str.marks, List.append_assoc]
        exact (List.suffix_append _ _).isInfix.trans (hin.trans
          ((List.prefix_append _ _).isInfix.trans (List.suffix_append _ _).isInfix))
      by_cases hfold : ∃ p ∈ parts, ∃ blanks, p.2 = .fold blanks
      · obtain ⟨p, hp, blanks, hblanks⟩ := hfold
        exact ⟨p.2.marks, by rw [hblanks]; exact .fold blanks _, hpart p hp⟩
      by_cases hunicode : ∃ p ∈ parts, ∃ u, p.2 = .item (.unicode u)
      · obtain ⟨p, hp, u, hu⟩ := hunicode
        obtain ⟨t, ht, hin⟩ := telling_unicode u
        have htext := hpart p hp
        rw [hu] at htext
        exact ⟨t, ht, hin.trans htext⟩
      have hkept : ∀ p ∈ body, ∀ blanks, p.2 ≠ .fold blanks := fun p hp blanks hblanks =>
        hfold ⟨p, hbody.mem hp, blanks, hblanks⟩
      have hplain : ∀ x ∈ units parts quotes, isGitChar (foldedUnitValue x) = true →
          unitMarks .basic Toml.FoldedItem.marks x = quoted [foldedUnitValue x] := by
        intro x hx hgit
        cases x with
        | none => exact absurd hgit (by decide)
        | some i =>
            obtain ⟨p, hp, hi⟩ := mem_units hx
            cases i with
            | newline => exact absurd hgit (by decide)
            | fold blanks => exact absurd ⟨p, hp, blanks, hi⟩ hfold
            | item i =>
                cases i with
                | char c _ => rfl
                | escape e =>
                    exact absurd hgit (by
                      simp [foldedUnitValue, Toml.BasicItem.value, isGitChar_escape])
                | unicode u => exact absurd ⟨p, hp, u, hi⟩ hunicode
      rw [hvalue, foldedValue_units hkept] at h
      have hall := h.mono ((units_suffix hbody quotes).map foldedUnitValue).isInfix
      obtain ⟨t, ht, hin⟩ := telling_of_units hplain hall
      refine ⟨t, ht, hin.trans ?_⟩
      rw [units_marks]
      exact body_infix .basic _ quotes
  | raw parts quotes =>
      obtain ⟨body, hbody, hvalue⟩ := raw_value parts quotes
      have hplain : ∀ x ∈ units parts quotes, isGitChar (rawUnitValue x) = true →
          unitMarks .literal Toml.RawItem.marks x = quoted [rawUnitValue x] := by
        intro x _ hgit
        cases x with
        | none => exact absurd hgit (by decide)
        | some i =>
            cases i with
            | char c _ => rfl
            | newline => exact absurd hgit (by decide)
      rw [hvalue, rawValue_units] at h
      have hall := h.mono ((units_suffix hbody quotes).map rawUnitValue).isInfix
      obtain ⟨t, ht, hin⟩ := telling_of_units hplain hall
      refine ⟨t, ht, hin.trans ?_⟩
      rw [units_marks]
      exact body_infix .literal _ quotes

/-! ## Keys -/

/-- A key named `git` has a telling piece, or it is written in a spelling that
the search knows. -/
theorem spelling_of_name {k : Toml.SimpleKey} (h : k.name = py "git") :
    (∃ t, Telling t ∧ t <:+: k.marks) ∨
      ∃ xs : List (Role × Nat), k.marks = row xs ∧ xs.map Prod.snd ∈ git_spellings ∧
        ∀ x ∈ xs, x.1 ≠ .comment := by
  cases k with
  | bare s _ =>
      refine Or.inr ⟨s.1.map (Prod.mk .code), by simp [Toml.SimpleKey.marks, code, row], ?_, by simp⟩
      have hname : s.1 = py "git" := h
      rw [List.map_map, hname]
      decide
  | literal chars =>
      have hname : chars.1 = py "git" := h
      refine Or.inr ⟨(py "'git'").map (Prod.mk .quoted), ?_, by decide, by simp⟩
      rw [Toml.SimpleKey.marks, Toml.Str.marks, hname, ← quoted_eq_row]
      rfl
  | basic items =>
      by_cases hu : ∃ u, Toml.BasicItem.unicode u ∈ items
      · obtain ⟨u, hu⟩ := hu
        obtain ⟨t, ht, hin⟩ := telling_unicode u
        have htext := infix_flatMap (fun i => quoted (Toml.BasicItem.text i)) hu
        rw [← quoted_flatMap] at htext
        refine Or.inl ⟨t, ht, (hin.trans htext).trans ?_⟩
        rw [Toml.SimpleKey.marks, Toml.Str.marks]
        exact ⟨_, _, rfl⟩
      · have hname : items.map (·.value) = py "git" := h
        have hplain : ∀ i ∈ items, i.text = [i.value] := by
          intro i hi
          have hmem : i.value ∈ py "git" := by
            rw [← hname]
            exact List.mem_map_of_mem hi
          have hchar : ∀ c ∈ py "git", isGitChar c = true := by decide
          have hgit := hchar _ hmem
          cases i with
          | char c _ => rfl
          | escape e => exact absurd hgit (by simp [Toml.BasicItem.value, isGitChar_escape])
          | unicode u => exact absurd ⟨u, hi⟩ hu
        have htext : items.flatMap (·.text) = py "git" := by
          rw [← hname]
          clear hname h hu
          induction items with
          | nil => rfl
          | cons i items ih =>
              rw [List.forall_mem_cons] at hplain
              rw [List.flatMap_cons, hplain.1, ih hplain.2]
              rfl
        refine Or.inr ⟨(py "\"git\"").map (Prod.mk .quoted), ?_, by decide, by simp⟩
        rw [Toml.SimpleKey.marks, Toml.Str.marks, htext, ← quoted_eq_row]
        rfl

private theorem code_eq_row (w : PyStr) : code w = row (w.map (Prod.mk .code)) := by
  simp [code, row]

/-- A piece that begins like a key is found where a key may begin. -/
theorem shows_key {xs : List (Role × Nat)} (hne : xs ≠ []) (hxs : ∀ x ∈ xs, x.1 ≠ .comment)
    (hkey : ∀ y, git_key_here (xs.map Prod.snd ++ y) = true) {a : List Mark}
    (ha : Toml.OpensKey a) (b : List Mark) : Shows (a ++ (row xs ++ b)) := by
  rcases ha with rfl | ⟨a, w, rfl⟩ | ⟨a, c, rfl, hc⟩
  · obtain ⟨l, hl, p, q, hchars, hp, -⟩ := Toml.exists_line_of_piece [] hne b
    obtain ⟨x, y, huncommented, hx, -⟩ := uncommented_around hchars hxs
    have hp : p = [] := by simpa [row] using hp
    refine ⟨l, hl, ?_⟩
    rw [huncommented, hx hp, List.nil_append]
    exact finds_key (x := []) (hkey y) (Or.inl rfl)
  · obtain ⟨l, hl, p, q, hchars, hp, -⟩ := Toml.exists_line_of_piece (a ++ [.newline w]) hne b
    obtain ⟨x, y, huncommented, hx, -⟩ := uncommented_around hchars hxs
    refine ⟨l, hl, ?_⟩
    rw [huncommented, hx (Toml.row_suffix_newline hp), List.nil_append]
    exact finds_key (x := []) (hkey y) (Or.inl rfl)
  · have hpiece : (Role.code, c) :: xs ≠ [] := by simp
    obtain ⟨l, hl, p, q, hchars, -, -⟩ := Toml.exists_line_of_piece a hpiece b
    have hall : ∀ x ∈ (Role.code, c) :: xs, x.1 ≠ .comment := by
      rw [List.forall_mem_cons]
      exact ⟨by simp, hxs⟩
    obtain ⟨x, y, huncommented, -, -⟩ := uncommented_around hchars hall
    refine ⟨l, by simpa using hl, ?_⟩
    have hline : x ++ ((Role.code, c) :: xs).map Prod.snd ++ y =
        (x ++ [c]) ++ (xs.map Prod.snd ++ y) := by simp
    rw [huncommented, hline]
    exact finds_key (hkey y) (Or.inr ⟨x, c, rfl, hc⟩)

/-- A pair whose key ends in `git` and whose value is a string. -/
theorem shows_pair {p : Toml.Pair} (hkey : p.key.last.name = py "git") {s : Toml.Str}
    (hvalue : p.value = .str s) {m : List Mark} (h : Toml.StandsIn p m) : Shows m := by
  obtain ⟨a, b, rfl, ha⟩ := h
  obtain ⟨d, hd, hopens⟩ := p.key.last_stands
  rcases spelling_of_name hkey with ⟨t, ht, hin⟩ | ⟨xs, hxs, hspelling, hrole⟩
  · refine ht.shows (hin.trans ?_)
    have hlast : p.key.last.marks <:+: p.marks := by
      rw [Toml.Pair.marks, hd]
      simp only [List.append_assoc]
      exact (List.prefix_append _ _).isInfix.trans (List.suffix_append _ _).isInfix
    exact hlast.trans ⟨_, _, rfl⟩
  · obtain ⟨q, rest, hq⟩ := s.marks_head
    have hspace : ∀ blanks : Toml.Blanks, blanks.1.all isSpace = true := by
      intro blanks
      rw [List.all_eq_true]
      intro c hc
      rcases isBlank_apart (List.all_eq_true.mp blanks.2 c hc) with rfl | rfl <;> decide
    let ys : List (Role × Nat) := xs ++ (p.left.1.map (Prod.mk .code) ++
      ((.code, 0x3d) :: (p.right.1.map (Prod.mk .code) ++ [(.quoted, q.char)])))
    have hys : a ++ p.marks ++ b = a ++ d ++ (row ys ++ (rest ++ b)) := by
      simp only [ys, Toml.row_append, Toml.row_cons, Toml.row_nil, ← code_eq_row, ← hxs]
      rw [Toml.Pair.marks, hd, hvalue, Toml.Value.marks, hq]
      simp
    rw [hys]
    refine shows_key (by simp [ys]) ?_ ?_ (ha.append hopens) _
    · intro x hx
      simp only [ys, List.mem_append, List.mem_cons, List.mem_map, List.not_mem_nil, or_false] at hx
      rcases hx with hx | ⟨c, -, rfl⟩ | rfl | ⟨c, -, rfl⟩ | rfl
      · exact hrole x hx
      all_goals simp
    · intro y
      have htail : (p.right.1 ++ q.char :: y).head? ≠ some 0x3d := by
        cases hr : p.right.1 with
        | nil => cases q <;> simp [Toml.Quote.char]
        | cons c s =>
            have hc := isBlank_apart (List.all_eq_true.mp p.right.2 c (by rw [hr]; simp))
            simp only [List.cons_append, List.head?_cons, ne_eq, Option.some.injEq]
            omega
      have hhere := git_key_here_of_spelling hspelling (hspace p.left) htail
      simpa [ys, Function.comp_def] using hhere

/-! ## Documents -/

/-- The document declares a git source: a string that spells `git+`, or a string
under a key that ends in `git`. -/
def DeclaresGit (doc : Document) : Prop :=
  (∃ s ∈ Document.strings doc, SpellsGit s.value) ∨
    ∃ p ∈ Document.pairs doc, p.key.last.name = py "git" ∧ ∃ s, p.value = .str s

theorem DeclaresGit.shows {doc : Document} (h : DeclaresGit doc) : Shows (Document.marks doc) := by
  rcases h with ⟨s, hs, hgit⟩ | ⟨p, hp, hkey, s, hvalue⟩
  · obtain ⟨t, ht, hin⟩ := telling_of_str hgit
    exact ht.shows (hin.trans (doc.infix_of_mem_strings hs))
  · exact shows_pair hkey hvalue (doc.pair_stands hp)

/-- Lines read as the grammar has them are searched without their comments. -/
theorem any_line_names_git_of_agrees {ls : List Line} {raws : List PyStr}
    (htext : raws.map uncomment = ls.map (·.text)) {quote : Option Delimiter}
    (hreads : List.Forall₂ Agrees ls (scan_lines quote (ls.map (·.text))))
    (hshows : ∃ l ∈ ls, may_name_a_git_source l.uncommented = true) :
    any_line_names_git quote raws = true := by
  induction ls generalizing raws quote with
  | nil => simp at hshows
  | cons l ls ih =>
      cases raws with
      | nil => simp at htext
      | cons raw raws =>
          rw [List.map_cons, List.map_cons, List.cons.injEq] at htext
          rw [List.map_cons, scan_lines, List.forall₂_cons] at hreads
          simp only [any_line_names_git, htext.1, hreads.1.uncommented]
          by_cases hl : may_name_a_git_source l.uncommented = true
          · rw [if_pos hl]
          · have hrest : ∃ l ∈ ls, may_name_a_git_source l.uncommented = true := by
              obtain ⟨k, hk, hfound⟩ := hshows
              rcases List.mem_cons.mp hk with rfl | hk
              · exact absurd hfound hl
              · exact ⟨k, hk, hfound⟩
            rw [if_neg hl]
            exact ih htext.2 hreads.2 hrest

theorem has_git_source_of_package {with_packages : List PyStr} {package : PyStr}
    (hmem : package ∈ with_packages) (hgit : SpellsGit package) (metadata : PyStr) :
    has_git_source metadata with_packages = true := by
  obtain ⟨w, ⟨a, b, rfl⟩, hw⟩ := hgit
  have hfound : GIT_REQUIREMENT <:+: asciiLower (a ++ w ++ b) := by
    rw [asciiLower_append, asciiLower_append, hw]
    exact ⟨_, _, rfl⟩
  have hany : (with_packages.any fun package =>
      decide (GIT_REQUIREMENT <:+: asciiLower package)) = true :=
    List.any_eq_true.mpr ⟨_, hmem, by simpa using hfound⟩
  rw [has_git_source, if_pos hany]

/-- A git source that a document declares is seen, for a document without the
characters at which `str.splitlines` ends a line and TOML does not; one that a
`--with` value declares is seen with any block. -/
theorem git_sources_are_seen (metadata : PyStr) (with_packages : List PyStr) :
    (∀ doc, Carries metadata (Document.text doc) → Unbroken (Document.text doc) →
      DeclaresGit doc → has_git_source metadata with_packages = true) ∧
    ((∃ package ∈ with_packages, SpellsGit package) →
      has_git_source metadata with_packages = true) := by
  refine ⟨?_, ?_⟩
  · intro doc hcarried hunbroken h
    have htext := uncomment_block_lines hcarried hunbroken
    have hseen := any_line_names_git_of_agrees htext (reads_document doc) h.shows
    unfold has_git_source
    split
    · rfl
    · exact hseen
  · intro h
    obtain ⟨package, hmem, hgit⟩ := h
    exact has_git_source_of_package hmem hgit metadata

/-- A document of one pair, its value a literal string. -/
def onePair (key : Toml.SimpleKey) (value : Toml.Chars Toml.isLiteralChar) : Document :=
  [.pair ⟨[], rfl⟩ ⟨⟨key, []⟩, ⟨[0x20], rfl⟩, ⟨[0x20], rfl⟩, .str (.literal value)⟩ ⟨[], rfl⟩ none]

theorem git_sources_are_seen_at :
    has_git_source (unlines [PEP723_OPEN, py "# x = 'GIT+https://h/r'", PEP723_CLOSE]) [] = true := by
  let value : Toml.Chars Toml.isLiteralChar := ⟨py "GIT+https://h/r", by decide⟩
  have htext : Document.text (onePair (.bare ⟨py "x", by decide⟩ (by decide)) value) =
      [py "x = 'GIT+https://h/r'"] := by decide
  refine (git_sources_are_seen _ []).1
    (onePair (.bare ⟨py "x", by decide⟩ (by decide)) value) ?_ ?_ ?_
  · rw [htext]
    exact ⟨[py "# x = 'GIT+https://h/r'"], .lf (.lf (.lf .nil)), .cons (Or.inl (by decide)) .nil⟩
  · rw [htext]
    unfold Unbroken
    decide
  · refine Or.inl ⟨.literal value, List.mem_singleton_self _, ?_⟩
    exact ⟨py "GIT+", ⟨[], py "https://h/r", by decide⟩, by decide⟩

/-- `x = 'a'`, with a line separator and `# #git+https://h/r` behind the `a`. -/
def separatedDocument : Document :=
  onePair (.bare ⟨py "x", by decide⟩ (by decide))
    ⟨py "a" ++ [0x2028] ++ py "# #git+https://h/r", by decide⟩

def separatedBlock : PyStr :=
  unlines [PEP723_OPEN, py "# x = 'a" ++ [0x2028] ++ py "# #git+https://h/r'", PEP723_CLOSE]

theorem separated_git_source_is_missed :
    Carries separatedBlock (Document.text separatedDocument) ∧ DeclaresGit separatedDocument ∧
      has_git_source separatedBlock [] = false ∧
      ∃ metadata, extract_script_metadata separatedBlock = .ok metadata ∧
        has_git_source metadata [] = false := by
  have hlines : block_lines separatedBlock = [py "# x = 'a", py "# #git+https://h/r'"] := by decide
  have hcopied : block_lines
      (unlines [PEP723_OPEN, py "# x = 'a", py "# #git+https://h/r'", PEP723_CLOSE]) =
      [py "# x = 'a", py "# #git+https://h/r'"] := by decide
  have hmissed : any_line_names_git none [py "# x = 'a", py "# #git+https://h/r'"] = false := by
    have hfirst : uncomment (py "# x = 'a") = [0x78, 0x20, 0x3d, 0x20, 0x27, 0x61] := by decide
    have hsecond : uncomment (py "# #git+https://h/r'") = 0x23 :: py "git+https://h/r'" := by decide
    have hscan : scan_toml_characters none [0x78, 0x20, 0x3d, 0x20, 0x27, 0x61] =
        { code := py "x = ", comment := 6, open_string := none } := by
      have hopen := @scan_opening 0x27 .literal (by decide) (by decide) [0x61]
      have hquote : scan_toml_characters none [0x27, 0x61] =
          { code := [], comment := 2, open_string := none } := by
        rw [hopen]
        simp [Delimiter.length, string_end, scan_toml_characters, TomlLineScan.behind,
          Toml.Quote.char]
      rw [scan_code (by decide) (by decide), scan_code (by decide) (by decide),
        scan_code (by decide) (by decide), scan_code (by decide) (by decide), hquote]
      decide
    have hquiet : may_name_a_git_source [0x78, 0x20, 0x3d, 0x20, 0x27, 0x61] = false := by decide
    have hempty : may_name_a_git_source [] = false := by decide
    simp only [any_line_names_git, hfirst, hsecond, hscan, scan_comment, List.take_zero]
    simp [hquiet, hempty]
  refine ⟨⟨[py "# x = 'a" ++ [0x2028] ++ py "# #git+https://h/r'"], ?_, ?_⟩, ?_, ?_, ?_⟩
  · exact .lf (.lf (.lf .nil))
  · have htext : Document.text separatedDocument =
        [py "x = 'a" ++ [0x2028] ++ py "# #git+https://h/r'"] := by decide
    rw [htext]
    exact .cons (Or.inl (by decide)) .nil
  · refine Or.inl ⟨.literal ⟨py "a" ++ [0x2028] ++ py "# #git+https://h/r", by decide⟩,
      List.mem_singleton_self _, ?_⟩
    exact ⟨py "git+", ⟨py "a" ++ [0x2028] ++ py "# #", py "https://h/r", by decide⟩, by decide⟩
  · rw [has_git_source, if_neg (by simp), hlines]
    exact hmissed
  · refine ⟨unlines [PEP723_OPEN, py "# x = 'a", py "# #git+https://h/r'", PEP723_CLOSE],
      by decide, ?_⟩
    rw [has_git_source, if_neg (by simp), hcopied]
    exact hmissed

end PwshPy.Packing
