import PwshPy.Text.PyStr

/-! # The unit-file syntax of systemd

The line rules of systemd.syntax(7): physical lines end at LF, a line ending in
a backslash is joined with the following one that is no comment (the backslash
read as a space), blank lines and comments are passed over, a header in brackets
opens a section and every other line assigns the text behind its first equals
sign, without the white space around it. `Line` is the abstract document; `parse_render` says that
parsing the text of a document gives back its directives as long as no value
ends in a backslash or holds a line feed.
-/

namespace PwshPy.UnitFile

structure Directive where
  sect : PyStr
  key : PyStr
  value : PyStr
  deriving DecidableEq

/-! ## The parser -/

/-- systemd's WHITESPACE: blank, tab, LF, CR. -/
def isBlank (c : Nat) : Bool := c == 0x20 || c == 0x09 || c == LF || c == 0x0d

def trim (s : PyStr) : PyStr := stripBy isBlank s

def endsInBackslash (l : PyStr) : Bool := l.getLast? == some 0x5c

def equalsSign : Nat := 0x3d

/-- A comment is no part of any logical line. -/
def isComment (l : PyStr) : Bool :=
  match l.dropWhile isBlank with
  | [] => false
  | c :: _ => c == 0x23 || c == 0x3b

/-- The logical lines; `pending` is what earlier lines ending in a backslash left. -/
def joinContinued : Option PyStr → List PyStr → List PyStr
  | pending, [] => pending.toList
  | pending, l :: ls =>
    if isComment l then joinContinued pending ls
    else
      let whole := pending.getD [] ++ l
      if endsInBackslash whole then joinContinued (some (whole.dropLast ++ [0x20])) ls
      else whole :: joinContinued none ls

/-- The directives of the logical lines below the section `sect`; `none` for a
line that opens a bracket and does not close it. A line that is neither a header
nor an assignment is passed over. -/
def readDirectives : PyStr → List PyStr → Option (List Directive)
  | _, [] => some []
  | sect, l :: ls =>
    let l := trim l
    if l.head? = some 0x5b then
      if l.getLast? = some 0x5d then readDirectives l.tail.dropLast ls else none
    else if equalsSign ∈ l then
      (⟨sect, trim (l.takeWhile (· != equalsSign)), trim (l.dropWhile (· != equalsSign)).tail⟩ :: ·) <$>
        readDirectives sect ls
    else readDirectives sect ls

def parse (text : PyStr) : Option (List Directive) :=
  readDirectives [] (joinContinued none (text.splitOn LF))

/-! ## Documents -/

def isNameChar (c : Nat) : Bool :=
  isDigit c || (0x41 ≤ c && c ≤ 0x5a) || (0x61 ≤ c && c ≤ 0x7a) || c == 0x2d

/-- A section name or a key: letters, digits and dashes, at least one. -/
structure Name where
  text : PyStr
  ok : text ≠ [] ∧ text.all isNameChar = true
  deriving DecidableEq

inductive Line where
  | header (name : Name)
  | assign (key : Name) (value : PyStr)
  | blank
  deriving DecidableEq

def Line.render : Line → PyStr
  | .header name => 0x5b :: name.text ++ [0x5d]
  | .assign key value => key.text ++ equalsSign :: value
  | .blank => []

def render (doc : List Line) : PyStr := unlines (doc.map Line.render)

/-- What a document says: its assignments in order, each with its section. -/
def directives : PyStr → List Line → List Directive
  | _, [] => []
  | _, .header name :: ls => directives name.text ls
  | sect, .assign key value :: ls => ⟨sect, key.text, trim value⟩ :: directives sect ls
  | sect, .blank :: ls => directives sect ls

/-- The value of an assignment stays on its line and does not reach the next one. -/
def Line.Clean : Line → Prop
  | .assign _ value => LF ∉ value ∧ endsInBackslash value = false
  | _ => True

theorem render_append (doc doc' : List Line) : render (doc ++ doc') = render doc ++ render doc' := by
  simp [render, unlines_append]

@[simp] theorem render_cons (l : Line) (doc : List Line) :
    render (l :: doc) = l.render ++ LF :: render doc := by
  simp [render]

@[simp] theorem render_nil : render [] = [] := rfl

/-- The section open after a document read from inside `sect`. -/
def sectionAfter : PyStr → List Line → PyStr
  | sect, [] => sect
  | _, .header name :: ls => sectionAfter name.text ls
  | sect, _ :: ls => sectionAfter sect ls

theorem directives_append (sect : PyStr) (doc doc' : List Line) :
    directives sect (doc ++ doc') = directives sect doc ++ directives (sectionAfter sect doc) doc' := by
  induction doc generalizing sect with
  | nil => rfl
  | cons l doc ih => cases l <;> simp [directives, sectionAfter, ih]

/-! ## Trimming -/

theorem rdropWhile_cons {α : Type} (p : α → Bool) (c : α) (s : List α) :
    (c :: s).rdropWhile p =
      if s.rdropWhile p = [] then (if p c then [] else [c]) else c :: s.rdropWhile p := by
  simp only [List.rdropWhile, List.reverse_cons, List.dropWhile_append, List.reverse_eq_nil_iff,
    List.isEmpty_iff]
  split
  · cases h : p c <;> simp [h]
  · simp

theorem dropWhile_rdropWhile {α : Type} (p : α → Bool) (s : List α) :
    (s.rdropWhile p).dropWhile p = (s.dropWhile p).rdropWhile p := by
  induction s with
  | nil => simp
  | cons c s ih =>
      rw [rdropWhile_cons]
      cases hc : p c with
      | false =>
          rw [List.dropWhile_cons_of_neg (by simp [hc]), rdropWhile_cons]
          split <;> simp [hc]
      | true =>
          rw [List.dropWhile_cons_of_pos hc, ← ih]
          split
          · rename_i hs; simp [hs]
          · rw [List.dropWhile_cons_of_pos hc]

theorem trim_rdropWhile (s : PyStr) : trim (s.rdropWhile isBlank) = trim s := by
  rw [trim, stripBy, dropWhile_rdropWhile, List.rdropWhile_idempotent]
  rfl

theorem rdropWhile_append_of_not {α : Type} {p : α → Bool} {c : α} (h : p c = false)
    (s t : List α) : (s ++ c :: t).rdropWhile p = s ++ c :: t.rdropWhile p := by
  induction s with
  | nil => rw [List.nil_append, rdropWhile_cons, h]; split <;> simp_all
  | cons d s ih => rw [List.cons_append, rdropWhile_cons, ih]; simp

/-- Only blanks at the ends are cut: a text that starts and ends in other characters stays. -/
theorem trim_eq_self {c d : Nat} {s : PyStr} (hhead : s.head? = some c)
    (hlast : s.getLast? = some d) (hc : isBlank c = false) (hd : isBlank d = false) :
    trim s = s := by
  obtain ⟨t, rfl⟩ := List.head?_eq_some_iff.mp hhead
  obtain ⟨u, hu⟩ := List.getLast?_eq_some_iff.mp hlast
  rw [trim, stripBy, List.dropWhile_cons_of_neg (by simp [hc]), hu,
    List.rdropWhile_concat_neg _ _ _ (by simp [hd])]

/-- The last character of a text that does not end in a blank survives. -/
theorem getLast?_trim {s : PyStr} {c : Nat} (h : s.getLast? = some c) (hc : isBlank c = false) :
    (trim s).getLast? = some c := by
  obtain ⟨t, rfl⟩ := List.getLast?_eq_some_iff.mp h
  have hdrop : ∃ u, (t ++ [c]).dropWhile isBlank = u ++ [c] := by
    rw [List.dropWhile_append]
    split
    · exact ⟨[], by simp [hc]⟩
    · exact ⟨_, rfl⟩
  obtain ⟨u, hu⟩ := hdrop
  rw [trim, stripBy, hu, List.rdropWhile_concat_neg _ _ _ (by simp [hc]), List.getLast?_concat]

/-! ## Names -/

theorem isNameChar_facts {c : Nat} (h : isNameChar c = true) :
    isBlank c = false ∧ c ≠ 0x5b ∧ c ≠ 0x5c ∧ c ≠ 0x5d ∧ c ≠ 0x23 ∧ c ≠ 0x3b ∧ c ≠ equalsSign ∧
      c ≠ LF := by
  simp only [isNameChar, isDigit, Bool.or_eq_true, Bool.and_eq_true, decide_eq_true_eq,
    beq_iff_eq] at h
  simp only [isBlank, equalsSign, LF, Bool.or_eq_false_iff, beq_eq_false_iff_ne]
  omega

theorem Name.char {n : Name} {c : Nat} (h : c ∈ n.text) : isNameChar c = true :=
  List.all_eq_true.mp n.ok.2 c h

theorem Name.cons (n : Name) : ∃ c s, n.text = c :: s ∧ isNameChar c = true := by
  obtain ⟨c, s, h⟩ := List.exists_cons_of_ne_nil n.ok.1
  exact ⟨c, s, h, n.char (by simp [h])⟩

theorem Name.not_mem {n : Name} {c : Nat} (h : isNameChar c = false) : c ∉ n.text := by
  intro hm
  simp [n.char hm] at h

/-- A notion of white space that no name and no equals sign is part of. -/
def OutsideNames (p : Nat → Bool) : Prop :=
  p equalsSign = false ∧ ∀ c, isNameChar c = true → p c = false

theorem outsideNames_isBlank : OutsideNames isBlank :=
  ⟨rfl, fun _ hc => (isNameChar_facts hc).1⟩

theorem Name.dropWhile_append {p : Nat → Bool} (hp : OutsideNames p) (n : Name) (s : PyStr) :
    (n.text ++ s).dropWhile p = n.text ++ s := by
  obtain ⟨c, t, h, hc⟩ := n.cons
  rw [h, List.cons_append, List.dropWhile_cons_of_neg (by simp [hp.2 c hc])]

theorem Name.dropWhile_blank (n : Name) (s : PyStr) :
    (n.text ++ s).dropWhile isBlank = n.text ++ s :=
  n.dropWhile_append outsideNames_isBlank s

theorem Name.stripBy_text {p : Nat → Bool} (hp : OutsideNames p) (n : Name) :
    stripBy p n.text = n.text := by
  have hlast : ∀ hne : n.text ≠ [], ¬ p (n.text.getLast hne) = true := by
    intro hne
    simp [hp.2 _ (n.char (List.getLast_mem hne))]
  have hd := n.dropWhile_append hp []
  rw [List.append_nil] at hd
  rw [stripBy, hd, List.rdropWhile_eq_self_iff.mpr hlast]

theorem Name.stripBy_assign {p : Nat → Bool} (hp : OutsideNames p) (key : Name) (value : PyStr) :
    stripBy p (key.text ++ equalsSign :: value) = key.text ++ equalsSign :: value.rdropWhile p := by
  rw [stripBy, key.dropWhile_append hp, rdropWhile_append_of_not hp.1]

theorem Name.trim_text (n : Name) : trim n.text = n.text := n.stripBy_text outsideNames_isBlank

/-! ## One line at a time -/

theorem Line.lf_not_mem_render {l : Line} (h : l.Clean) : LF ∉ l.render := by
  cases l with
  | header name =>
      have hn : LF ∉ name.text := Name.not_mem (by decide)
      simpa [Line.render, LF] using hn
  | assign key value =>
      have hk : LF ∉ key.text := Name.not_mem (by decide)
      simpa [Line.render, LF, equalsSign] using And.intro hk h.1
  | blank => simp [Line.render]

/-- An assignment before it is known where its value ends. -/
theorem isComment_assign (key : Name) (value : PyStr) :
    isComment (Line.assign key value).render = false := by
  obtain ⟨c, t, h, hc⟩ := key.cons
  have hf := isNameChar_facts hc
  simp only [isComment, Line.render, key.dropWhile_blank]
  simp [h, hf]

theorem endsInBackslash_assign (key : Name) (value : PyStr) :
    endsInBackslash (Line.assign key value).render = endsInBackslash value := by
  cases value with
  | nil => simp [endsInBackslash, Line.render, equalsSign]
  | cons c s =>
      simp [endsInBackslash, Line.render, List.getLast?_append]

theorem getLast?_render_assign (key : Name) {value : PyStr} (h : value ≠ []) :
    (Line.assign key value).render.getLast? = value.getLast? := by
  rw [Line.render, List.getLast?_append_of_ne_nil _ (by simp)]
  cases value with
  | nil => exact absurd rfl h
  | cons c s => rw [List.getLast?_cons_cons]

theorem trim_assign (key : Name) (value : PyStr) :
    trim (key.text ++ equalsSign :: value) = key.text ++ equalsSign :: value.rdropWhile isBlank :=
  key.stripBy_assign outsideNames_isBlank value

theorem readDirectives_assign (sect : PyStr) (key : Name) (value : PyStr) (ls : List PyStr) :
    readDirectives sect ((key.text ++ equalsSign :: value) :: ls) =
      (⟨sect, key.text, trim value⟩ :: ·) <$> readDirectives sect ls := by
  obtain ⟨c, t, h, hc⟩ := key.cons
  have hhead : (key.text ++ equalsSign :: value.rdropWhile isBlank).head? ≠ some 0x5b := by
    simp [h, (isNameChar_facts hc).2.1]
  have hne : ∀ d ∈ key.text, (d != equalsSign) = true := by
    intro d hd
    simpa using (isNameChar_facts (key.char hd)).2.2.2.2.2.2.1
  simp only [readDirectives, trim_assign, if_neg hhead]
  rw [if_pos (by simp), List.takeWhile_append_of_pos hne, List.dropWhile_append_of_pos hne]
  simp [trim_rdropWhile, key.trim_text]

theorem read_assign (sect : PyStr) (key : Name) {value : PyStr}
    (h : endsInBackslash value = false) (ls : List PyStr) :
    readDirectives sect (joinContinued none ((Line.assign key value).render :: ls)) =
      (⟨sect, key.text, trim value⟩ :: ·) <$> readDirectives sect (joinContinued none ls) := by
  have hb : endsInBackslash (Line.assign key value).render = false := by
    rw [endsInBackslash_assign, h]
  simp only [joinContinued, isComment_assign, Option.getD_none, List.nil_append, hb,
    Bool.false_eq_true, if_false]
  exact readDirectives_assign sect key value _

theorem read_header (sect : PyStr) (name : Name) (ls : List PyStr) :
    readDirectives sect (joinContinued none ((Line.header name).render :: ls)) =
      readDirectives name.text (joinContinued none ls) := by
  have hp : isComment (Line.header name).render = false := by
    simp [isComment, Line.render, isBlank, LF]
  have hl : (Line.header name).render.getLast? = some 0x5d := by
    rw [Line.render, List.getLast?_concat]
  have ht : trim (Line.header name).render = (Line.header name).render :=
    trim_eq_self rfl hl (by decide) (by decide)
  have hb : endsInBackslash (Line.header name).render = false := by simp [endsInBackslash, hl]
  simp only [joinContinued, hp, Option.getD_none, List.nil_append, hb, Bool.false_eq_true, if_false,
    readDirectives, ht, hl]
  simp [Line.render]

theorem read_blank (sect : PyStr) (ls : List PyStr) :
    readDirectives sect (joinContinued none (Line.blank.render :: ls)) =
      readDirectives sect (joinContinued none ls) := by
  simp [joinContinued, Line.render, isComment, endsInBackslash, readDirectives, trim, stripBy]

/-- An assignment whose value ends in a backslash swallows the line below it. -/
theorem read_continued (sect : PyStr) (key : Name) {value next : PyStr}
    (h : endsInBackslash value = true) (hcomment : isComment next = false)
    (hnext : endsInBackslash next = false) (ls : List PyStr) :
    readDirectives sect (joinContinued none ((Line.assign key value).render :: next :: ls)) =
      (⟨sect, key.text, trim (value.dropLast ++ 0x20 :: next)⟩ :: ·) <$>
        readDirectives sect (joinContinued none ls) := by
  have hv : value ≠ [] := by
    rintro rfl
    simp [endsInBackslash] at h
  have hb : endsInBackslash (Line.assign key value).render = true := by
    rw [endsInBackslash_assign, h]
  have hdrop : (Line.assign key value).render.dropLast = key.text ++ equalsSign :: value.dropLast := by
    rw [Line.render, List.dropLast_append_of_ne_nil (by simp), List.dropLast_cons_of_ne_nil hv]
  have hjoined : endsInBackslash (value.dropLast ++ 0x20 :: next) = false := by
    cases next with
    | nil => simp [endsInBackslash]
    | cons c s => simpa [endsInBackslash, List.getLast?_append, List.getLast?_cons_cons] using hnext
  have hwhole := endsInBackslash_assign key (value.dropLast ++ 0x20 :: next)
  rw [hjoined, Line.render] at hwhole
  rw [joinContinued, isComment_assign, if_neg (by simp), Option.getD_none, List.nil_append,
    if_pos hb, hdrop, joinContinued, hcomment, if_neg (by simp), Option.getD_some]
  simp only [List.append_assoc, List.cons_append, List.nil_append, hwhole, Bool.false_eq_true,
    if_false]
  exact readDirectives_assign sect key _ _

/-! ## Whole documents -/

/-- Reading on from inside a section, with any lines behind the document. -/
theorem read_render (sect : PyStr) (doc : List Line) (h : ∀ l ∈ doc, l.Clean) (ls : List PyStr) :
    readDirectives sect (joinContinued none (doc.map Line.render ++ ls)) =
      (directives sect doc ++ ·) <$>
        readDirectives (sectionAfter sect doc) (joinContinued none ls) := by
  induction doc generalizing sect with
  | nil => simp [directives, sectionAfter]
  | cons l doc ih =>
      have ht := fun s => ih s fun m hm => h m (by simp [hm])
      cases l with
      | header name => rw [List.map_cons, List.cons_append, read_header, ht]; rfl
      | assign key value =>
          have hv : endsInBackslash value = false := (h (.assign key value) (by simp)).2
          rw [List.map_cons, List.cons_append, read_assign _ _ hv, ht]
          simp [directives, sectionAfter, Function.comp_def]
      | blank => rw [List.map_cons, List.cons_append, read_blank, ht]; rfl

/-- Parsing the text of a document gives back what the document says. -/
theorem parse_render (doc : List Line) (h : ∀ l ∈ doc, l.Clean) :
    parse (render doc) = some (directives [] doc) := by
  have hlf : ∀ l ∈ doc.map Line.render, LF ∉ l := by
    intro l hl
    obtain ⟨m, hm, rfl⟩ := List.mem_map.mp hl
    exact Line.lf_not_mem_render (h m hm)
  rw [parse, render, splitOn_unlines _ hlf, read_render [] doc h]
  have hend : readDirectives (sectionAfter [] doc) (joinContinued none [[]]) = some [] :=
    read_blank _ []
  rw [hend]
  simp

/-! ## A value that reaches into the next line -/

theorem Line.endsInBackslash_render {l : Line} (h : l.Clean) : endsInBackslash l.render = false := by
  cases l with
  | header name => rw [endsInBackslash, Line.render, List.getLast?_concat]; rfl
  | assign key value => rw [endsInBackslash_assign, h.2]
  | blank => rfl

theorem Line.isComment_render (l : Line) : isComment l.render = false := by
  cases l with
  | header name => simp [isComment, Line.render, isBlank, LF]
  | assign key value => exact isComment_assign key value
  | blank => rfl

/-- An assignment takes the line below it along when its value ends in a backslash. -/
theorem read_assign_then (sect : PyStr) (key : Name) (value : PyStr) {next : Line} (h : next.Clean)
    (ls : List PyStr) :
    ∃ v, readDirectives sect
        (joinContinued none ((Line.assign key value).render :: next.render :: ls)) =
      (⟨sect, key.text, v⟩ :: ·) <$> readDirectives sect
        (joinContinued none (if endsInBackslash value then ls else next.render :: ls)) := by
  cases hlast : endsInBackslash value with
  | true => exact ⟨_, read_continued sect key hlast next.isComment_render (Line.endsInBackslash_render h) ls⟩
  | false => exact ⟨_, read_assign sect key hlast (next.render :: ls)⟩

/-- The joined value is not the one that was meant. -/
theorem trim_continued_ne {value next : PyStr} (h : endsInBackslash value = true)
    (hnext : endsInBackslash next = false) (hlast : ∀ c ∈ next.getLast?, isBlank c = false) :
    trim (value.dropLast ++ 0x20 :: next) ≠ trim value := by
  intro heq
  have hvalue : value.getLast? = some 0x5c := by simpa [endsInBackslash] using h
  have htrim := getLast?_trim hvalue (by decide)
  obtain ⟨t, rfl⟩ := List.getLast?_eq_some_iff.mp hvalue
  rw [List.dropLast_concat] at heq
  rcases List.eq_nil_or_concat next with rfl | ⟨u, c, rfl⟩
  · -- nothing follows: the backslash is gone
    have hblank : trim (t ++ [0x20]) = trim t := by
      rw [← trim_rdropWhile (t ++ [0x20]), List.rdropWhile_concat_pos _ _ _ (by decide),
        trim_rdropWhile]
    have hlong : (trim (t ++ [0x5c])).length = (t.dropWhile isBlank).length + 1 := by
      rw [trim, stripBy, List.dropWhile_append]
      split
      · rename_i hempty
        simp [List.isEmpty_iff.mp hempty, isBlank, LF, rdropWhile_cons]
      · rw [List.rdropWhile_concat_neg _ _ _ (by decide), List.length_append]
        rfl
    have hshort : (trim t).length ≤ (t.dropWhile isBlank).length :=
      (List.rdropWhile_prefix _ _).length_le
    have := congrArg List.length heq
    rw [hblank, hlong] at this
    omega
  · rw [List.concat_eq_append] at hnext hlast heq
    have hc : c ≠ 0x5c := by simpa [endsInBackslash] using hnext
    have hend : (t ++ 0x20 :: (u ++ [c])).getLast? = some c := by
      simp [List.getLast?_append, List.getLast?_cons]
    have hjoined := getLast?_trim hend (hlast c (by simp))
    rw [heq, htrim] at hjoined
    exact hc (Option.some.inj hjoined).symm

/-- A document in which one value ends in a backslash is read as something else. -/
theorem parse_render_ne (pre : List Line) (key : Name) {value : PyStr} (post : List Line)
    (hpre : ∀ l ∈ pre, l.Clean) (hpost : ∀ l ∈ post, LF ∉ l.render) (hlf : LF ∉ value)
    (h : endsInBackslash value = true)
    (hnext : ∀ l ∈ post.head?, l.Clean ∧ ∀ c ∈ l.render.getLast?, isBlank c = false) :
    parse (render (pre ++ .assign key value :: post)) ≠
      some (directives [] (pre ++ .assign key value :: post)) := by
  have hlines : ∀ l ∈ (pre ++ .assign key value :: post).map Line.render, LF ∉ l := by
    intro l hl
    obtain ⟨m, hm, rfl⟩ := List.mem_map.mp hl
    rcases List.mem_append.mp hm with hm | hm
    · exact Line.lf_not_mem_render (hpre m hm)
    rcases List.mem_cons.mp hm with rfl | hm
    · have hk : LF ∉ key.text := Name.not_mem (by decide)
      simpa [Line.render, LF, equalsSign] using And.intro hk hlf
    · exact hpost m hm
  have hsplit : ∃ next rest, post.map Line.render ++ [[]] = next :: rest ∧ isComment next = false ∧
      endsInBackslash next = false ∧ ∀ c ∈ next.getLast?, isBlank c = false := by
    cases post with
    | nil => exact ⟨[], [], rfl, rfl, rfl, by simp⟩
    | cons l post =>
        have hl := hnext l rfl
        exact ⟨l.render, _, rfl, l.isComment_render, Line.endsInBackslash_render hl.1, hl.2⟩
  obtain ⟨next, rest, hrest, hcomment, hb, hblank⟩ := hsplit
  rw [parse, render, splitOn_unlines _ hlines, List.map_append, List.append_assoc,
    read_render [] pre hpre, List.map_cons, List.cons_append, hrest,
    read_continued _ key h hcomment hb, directives_append]
  cases readDirectives (sectionAfter [] pre) (joinContinued none rest) with
  | none => simp
  | some ds =>
      intro heq
      have hvalue := List.append_cancel_left (Option.some.inj heq)
      simp only [directives, List.cons.injEq, Directive.mk.injEq, true_and] at hvalue
      exact trim_continued_ne h hb hblank hvalue.1

end PwshPy.UnitFile
