import PwshPy.Text.PyStr

/-! # A TOML text, character by character

What a character of a TOML text is for is settled by the grammar: it is part of
a string, of a comment, or of neither. A text is written here with that role at
each of its characters, and a line end with the multi-line string it stands in,
so that a reader that only sees lines can be compared with the grammar.
-/

namespace PwshPy.Toml

/-- The two kinds of string, by the character that delimits them. -/
inductive Quote where
  | basic
  | literal
  deriving DecidableEq

def Quote.char : Quote → Nat
  | basic => 0x22
  | literal => 0x27

inductive Role where
  | code
  | quoted
  | comment
  deriving DecidableEq

inductive Mark where
  | char (role : Role) (c : Nat)
  /-- a line end, and the multi-line string that goes on behind it -/
  | newline (within : Option Quote)

/-- Characters outside strings and comments. -/
def code (s : PyStr) : List Mark := s.map (.char .code)

/-- Characters of a string, its delimiters included. -/
def quoted (s : PyStr) : List Mark := s.map (.char .quoted)

/-- Characters of a comment, its `#` included. -/
def commented (s : PyStr) : List Mark := s.map (.char .comment)

@[simp] theorem code_nil : code [] = [] := rfl

@[simp] theorem code_cons (c : Nat) (s : PyStr) : code (c :: s) = .char .code c :: code s := rfl

@[simp] theorem quoted_nil : quoted [] = [] := rfl

@[simp] theorem quoted_cons (c : Nat) (s : PyStr) :
    quoted (c :: s) = .char .quoted c :: quoted s := rfl

@[simp] theorem commented_nil : commented [] = [] := rfl

@[simp] theorem commented_cons (c : Nat) (s : PyStr) :
    commented (c :: s) = .char .comment c :: commented s := rfl

theorem quoted_append (s t : PyStr) : quoted (s ++ t) = quoted s ++ quoted t := List.map_append

theorem code_append (s t : PyStr) : code (s ++ t) = code s ++ code t := List.map_append

/-! ## Lines -/

structure Line where
  chars : List (Role × Nat)
  /-- the multi-line string open at its end -/
  within : Option Quote

namespace Line

def text (l : Line) : PyStr := l.chars.map Prod.snd

/-- Its characters outside every string and before any comment. -/
def code (l : Line) : PyStr := (l.chars.filter (·.1 == .code)).map Prod.snd

/-- The line without its comment. -/
def uncommented (l : Line) : PyStr := (l.chars.filter (·.1 != .comment)).map Prod.snd

/-- The line with one more character at its start. -/
def push (role : Role) (c : Nat) (l : Line) : Line := { l with chars := (role, c) :: l.chars }

@[simp] theorem push_text (role : Role) (c : Nat) (l : Line) :
    (l.push role c).text = c :: l.text := rfl

@[simp] theorem push_within (role : Role) (c : Nat) (l : Line) :
    (l.push role c).within = l.within := rfl

@[simp] theorem push_code (c : Nat) (l : Line) : (l.push .code c).code = c :: l.code := rfl

@[simp] theorem push_quoted_code (c : Nat) (l : Line) : (l.push .quoted c).code = l.code := rfl

@[simp] theorem push_comment_code (c : Nat) (l : Line) : (l.push .comment c).code = l.code := rfl

@[simp] theorem push_uncommented (c : Nat) (l : Line) :
    (l.push .code c).uncommented = c :: l.uncommented := rfl

@[simp] theorem push_quoted_uncommented (c : Nat) (l : Line) :
    (l.push .quoted c).uncommented = c :: l.uncommented := rfl

@[simp] theorem push_comment_uncommented (c : Nat) (l : Line) :
    (l.push .comment c).uncommented = l.uncommented := rfl

end Line

/-- A text line by line; no line follows a line end that ends the text. -/
def lines : List Mark → List Line
  | [] => []
  | .newline within :: m => ⟨[], within⟩ :: lines m
  | .char role c :: m =>
      match lines m with
      | [] => [⟨[(role, c)], none⟩]
      | l :: ls => l.push role c :: ls

@[simp] theorem lines_nil : lines [] = [] := rfl

@[simp] theorem lines_newline (within : Option Quote) (m : List Mark) :
    lines (.newline within :: m) = ⟨[], within⟩ :: lines m := rfl

theorem lines_char {m : List Mark} {l : Line} {ls : List Line} (h : lines m = l :: ls)
    (role : Role) (c : Nat) : lines (.char role c :: m) = l.push role c :: ls := by
  simp only [lines, h]

theorem lines_ne_nil {m : List Mark} (h : m ≠ []) : lines m ≠ [] := by
  cases m with
  | nil => exact absurd rfl h
  | cons mark m =>
      cases mark with
      | newline within => simp
      | char role c => cases hm : lines m <;> simp [lines, hm]

/-! ## Where a piece of a line stands -/

/-- Characters without a line end among them. -/
def row (xs : List (Role × Nat)) : List Mark := xs.map fun x => .char x.1 x.2

@[simp] theorem row_nil : row [] = [] := rfl

@[simp] theorem row_cons (x : Role × Nat) (xs : List (Role × Nat)) :
    row (x :: xs) = .char x.1 x.2 :: row xs := rfl

theorem row_append (xs ys : List (Role × Nat)) : row (xs ++ ys) = row xs ++ row ys :=
  List.map_append

theorem lines_append_newline (a : List Mark) (within : Option Quote) (m : List Mark) :
    lines (a ++ .newline within :: m) = lines (a ++ [.newline within]) ++ lines m := by
  induction a with
  | nil => rfl
  | cons mark a ih =>
      cases mark with
      | newline w => simp [ih]
      | char role c =>
          have hne : lines (a ++ [.newline within]) ≠ [] := lines_ne_nil (by simp)
          obtain ⟨l, ls, hl⟩ := List.exists_cons_of_ne_nil hne
          have hlong : lines (a ++ .newline within :: m) = l :: (ls ++ lines m) := by
            rw [ih, hl, List.cons_append]
          rw [List.cons_append, List.cons_append, lines_char hlong, lines_char hl,
            List.cons_append]

theorem lines_row_newline (xs : List (Role × Nat)) (within : Option Quote) (m : List Mark) :
    lines (row xs ++ .newline within :: m) = ⟨xs, within⟩ :: lines m := by
  induction xs with
  | nil => rfl
  | cons x xs ih => rw [row_cons, List.cons_append, lines_char ih]; rfl

theorem lines_row {xs : List (Role × Nat)} (h : xs ≠ []) : lines (row xs) = [⟨xs, none⟩] := by
  induction xs with
  | nil => exact absurd rfl h
  | cons x xs ih =>
      cases xs with
      | nil => rfl
      | cons y ys => rw [row_cons, lines_char (ih (by simp))]; rfl

/-- What a text ends with behind its last line end. -/
theorem exists_last_row (a : List Mark) :
    ∃ b p, a = b ++ row p ∧ (b = [] ∨ ∃ b' w, b = b' ++ [.newline w]) := by
  induction a using List.reverseRecOn with
  | nil => exact ⟨[], [], rfl, Or.inl rfl⟩
  | append_singleton a mark ih =>
      cases mark with
      | newline w => exact ⟨a ++ [.newline w], [], by simp, Or.inr ⟨a, w, rfl⟩⟩
      | char role c =>
          obtain ⟨b, p, rfl, hb⟩ := ih
          exact ⟨b, p ++ [(role, c)], by simp [row_append], hb⟩

/-- What a text begins with before its first line end. -/
theorem exists_first_row (b : List Mark) :
    ∃ q r, b = row q ++ r ∧ (r = [] ∨ ∃ w r', r = .newline w :: r') := by
  induction b with
  | nil => exact ⟨[], [], rfl, Or.inl rfl⟩
  | cons mark b ih =>
      cases mark with
      | newline w => exact ⟨[], .newline w :: b, rfl, Or.inr ⟨w, b, rfl⟩⟩
      | char role c =>
          obtain ⟨q, r, rfl, hr⟩ := ih
          exact ⟨(role, c) :: q, r, rfl, hr⟩

/-- A piece of a line lies in a line of the text: `p` stands between the piece
and the line end before it, `q` between it and the next. -/
theorem exists_line_of_piece (a : List Mark) {xs : List (Role × Nat)} (hxs : xs ≠ [])
    (b : List Mark) :
    ∃ l ∈ lines (a ++ (row xs ++ b)), ∃ p q,
      l.chars = p ++ xs ++ q ∧ row p <:+ a ∧ row q <+: b := by
  obtain ⟨before, p, rfl, hbefore⟩ := exists_last_row a
  obtain ⟨q, behind, rfl, hbehind⟩ := exists_first_row b
  have hline : ∃ w, (⟨p ++ xs ++ q, w⟩ : Line) ∈ lines (row (p ++ xs ++ q) ++ behind) := by
    rcases hbehind with rfl | ⟨w, rest, rfl⟩
    · exact ⟨none, by rw [List.append_nil, lines_row (by simp [hxs])]; simp⟩
    · exact ⟨w, by rw [lines_row_newline]; simp⟩
  obtain ⟨w, hw⟩ := hline
  have hmid : before ++ row p ++ (row xs ++ (row q ++ behind)) =
      before ++ (row (p ++ xs ++ q) ++ behind) := by
    simp [row_append]
  refine ⟨⟨p ++ xs ++ q, w⟩, ?_, p, q, rfl, List.suffix_append _ _, List.prefix_append _ _⟩
  rw [hmid]
  rcases hbefore with rfl | ⟨rest, w', rfl⟩
  · exact hw
  · rw [List.append_assoc, List.singleton_append, lines_append_newline]
    exact List.mem_append_right _ hw

/-- Nothing stands between a line end and what follows it. -/
theorem row_suffix_newline {p : List (Role × Nat)} {a : List Mark} {w : Option Quote}
    (h : row p <:+ a ++ [.newline w]) : p = [] := by
  obtain ⟨x, hx⟩ := h
  induction p using List.reverseRecOn with
  | nil => rfl
  | append_singleton p y _ =>
      have hlast := congrArg List.getLast? hx
      simp [row_append] at hlast

theorem row_prefix_newline {q : List (Role × Nat)} {b : List Mark} {w : Option Quote}
    (h : row q <+: .newline w :: b) : q = [] := by
  cases q with
  | nil => rfl
  | cons y ys => simp [List.cons_prefix_cons] at h

end PwshPy.Toml
