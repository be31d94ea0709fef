import PwshPy.Toml.Syntax

/-! # Where strings and pairs stand in a document

A string value is a piece of the text of its document. A key/value pair is one
too, and what stands before it is the beginning of a line, a blank, or the brace
or comma of an inline table.
-/

namespace PwshPy.Toml

/-! ## Strings -/

mutual

theorem Value.infix_of_mem_strings (v : Value) {s : Str} (h : s ∈ v.strings) :
    s.marks <:+: v.marks := by
  cases v with
  | str t =>
      obtain rfl := List.mem_singleton.mp h
      exact List.infix_rfl
  | plain p => simp [Value.strings] at h
  | array elements =>
      rw [Value.marks]
      exact (elements.infix_of_mem_strings h).trans ⟨_, _, rfl⟩
  | emptyTable blanks => simp [Value.strings] at h
  | table pairs =>
      rw [Value.marks]
      exact (pairs.infix_of_mem_strings h).trans ⟨_, _, rfl⟩

theorem Elements.infix_of_mem_strings (e : Elements) {s : Str} (h : s ∈ e.strings) :
    s.marks <:+: e.marks := by
  cases e with
  | done gap => simp [Elements.strings] at h
  | last before v after =>
      rw [Elements.marks]
      exact (v.infix_of_mem_strings h).trans ⟨_, _, rfl⟩
  | more before v after rest =>
      rw [Elements.marks]
      rcases List.mem_append.mp h with h | h
      · have hv := v.infix_of_mem_strings h
        simp only [List.append_assoc]
        exact hv.trans ((List.prefix_append _ _).isInfix.trans (List.suffix_append _ _).isInfix)
      · exact (rest.infix_of_mem_strings h).trans (List.suffix_append _ _).isInfix

theorem Pairs.infix_of_mem_strings (p : Pairs) {s : Str} (h : s ∈ p.strings) :
    s.marks <:+: p.marks := by
  cases p with
  | last before key left right v after =>
      rw [Pairs.marks]
      exact (v.infix_of_mem_strings h).trans ⟨_, _, rfl⟩
  | more before key left right v after rest =>
      rw [Pairs.marks]
      rcases List.mem_append.mp h with h | h
      · refine (v.infix_of_mem_strings h).trans ?_
        rw [List.append_assoc, List.append_assoc]
        exact ⟨_, _, rfl⟩
      · exact (rest.infix_of_mem_strings h).trans (List.suffix_append _ _).isInfix

end

theorem Expression.infix_of_mem_strings (e : Expression) {s : Str} (h : s ∈ e.strings) :
    s.marks <:+: e.marks := by
  cases e with
  | blank before comment => simp [Expression.strings] at h
  | header before double left key right after comment => simp [Expression.strings] at h
  | pair before p after comment =>
      refine (p.value.infix_of_mem_strings h).trans ?_
      rw [Expression.marks, Pair.marks, List.append_assoc, List.append_assoc]
      simp only [← List.append_assoc]
      rw [List.append_assoc _ (code after.1)]
      exact ⟨_, _, rfl⟩

theorem Document.infix_of_mem_strings (doc : Document) {s : Str}
    (h : s ∈ Document.strings doc) : s.marks <:+: Document.marks doc := by
  obtain ⟨e, he, hs⟩ := List.mem_flatMap.mp h
  obtain ⟨front, rest, rfl⟩ := List.append_of_mem he
  refine (e.infix_of_mem_strings hs).trans ?_
  rw [Document.marks, List.flatMap_append, List.flatMap_cons]
  exact ((List.prefix_append _ _).trans (List.prefix_append _ _)).isInfix.trans
    (List.suffix_append _ _).isInfix

/-! ## Pairs -/

def isKeyOpener (c : Nat) : Bool := isBlank c || c == 0x7b || c == 0x2c || c == 0x2e

/-- Behind this text a key may begin. -/
def OpensKey (a : List Mark) : Prop :=
  a = [] ∨ (∃ a' w, a = a' ++ [.newline w]) ∨
    ∃ a' c, a = a' ++ [.char .code c] ∧ isKeyOpener c = true

theorem OpensKey.append {x a : List Mark} (hx : OpensKey x) (ha : OpensKey a) :
    OpensKey (x ++ a) := by
  rcases ha with rfl | ⟨a', w, rfl⟩ | ⟨a', c, rfl, hc⟩
  · rw [List.append_nil]
    exact hx
  · exact Or.inr (Or.inl ⟨x ++ a', w, by simp⟩)
  · exact Or.inr (Or.inr ⟨x ++ a', c, by simp, hc⟩)

theorem OpensKey.append_of_ne_nil (x : List Mark) {a : List Mark} (hne : a ≠ [])
    (ha : OpensKey a) : OpensKey (x ++ a) := by
  rcases ha with rfl | ⟨a', w, rfl⟩ | ⟨a', c, rfl, hc⟩
  · exact absurd rfl hne
  · exact Or.inr (Or.inl ⟨x ++ a', w, by simp⟩)
  · exact Or.inr (Or.inr ⟨x ++ a', c, by simp, hc⟩)

theorem opensKey_behind (x : List Mark) {c : Nat} (hc : isKeyOpener c = true) :
    OpensKey (x ++ code [c]) := Or.inr (Or.inr ⟨x, c, rfl, hc⟩)

theorem opensKey_blanks (blanks : Blanks) : OpensKey (code blanks.1) := by
  cases hb : blanks.1.reverse with
  | nil =>
      rw [List.reverse_eq_nil_iff.mp hb]
      exact Or.inl rfl
  | cons c s =>
      have hblanks : blanks.1 = s.reverse ++ [c] := by
        rw [← List.reverse_reverse blanks.1, hb, List.reverse_cons]
      have hc : isBlank c = true :=
        List.all_eq_true.mp blanks.2 c (by rw [hblanks]; simp)
      rw [hblanks, code_append]
      exact opensKey_behind _ (by rw [isKeyOpener, hc]; rfl)

/-- The pair stands in the text where a key may begin. -/
def StandsIn (p : Pair) (m : List Mark) : Prop :=
  ∃ a b, m = a ++ p.marks ++ b ∧ OpensKey a

/-- The same, and not at the beginning of the text. -/
def StandsInside (p : Pair) (m : List Mark) : Prop :=
  ∃ a b, m = a ++ p.marks ++ b ∧ OpensKey a ∧ a ≠ []

theorem StandsInside.within {p : Pair} {m : List Mark} (h : StandsInside p m) (x y : List Mark) :
    StandsInside p (x ++ m ++ y) := by
  obtain ⟨a, b, rfl, ha, hne⟩ := h
  exact ⟨x ++ a, b ++ y, by simp, ha.append_of_ne_nil x hne, by simp [hne]⟩

theorem StandsInside.standsIn {p : Pair} {m : List Mark} (h : StandsInside p m) :
    StandsIn p m := by
  obtain ⟨a, b, hm, ha, -⟩ := h
  exact ⟨a, b, hm, ha⟩

theorem StandsIn.behind {p : Pair} {m : List Mark} (h : StandsIn p m) (x : List Mark) {c : Nat}
    (hc : isKeyOpener c = true) (y : List Mark) : StandsInside p (x ++ code [c] ++ m ++ y) := by
  obtain ⟨a, b, rfl, ha⟩ := h
  exact ⟨x ++ code [c] ++ a, b ++ y, by simp, (opensKey_behind x hc).append ha, by simp⟩

mutual

theorem Value.pair_stands (v : Value) {p : Pair} (h : p ∈ v.pairs) : StandsInside p v.marks := by
  cases v with
  | str s => simp [Value.pairs] at h
  | plain q => simp [Value.pairs] at h
  | array elements =>
      rw [Value.marks]
      exact (elements.pair_stands h).within _ _
  | emptyTable blanks => simp [Value.pairs] at h
  | table pairs =>
      rw [Value.marks]
      exact (pairs.pair_stands h).behind [] (by decide) _

theorem Elements.pair_stands (e : Elements) {p : Pair} (h : p ∈ e.pairs) :
    StandsInside p e.marks := by
  cases e with
  | done gap => simp [Elements.pairs] at h
  | last before v after =>
      rw [Elements.marks]
      exact (v.pair_stands h).within _ _
  | more before v after rest =>
      rw [Elements.marks]
      rcases List.mem_append.mp h with h | h
      · have hv := (v.pair_stands h).within before.marks (after.marks ++ code [0x2c] ++ rest.marks)
        simpa only [List.append_assoc] using hv
      · have hrest := (rest.pair_stands h).within
          (before.marks ++ v.marks ++ after.marks ++ code [0x2c]) []
        simpa only [List.append_nil] using hrest

theorem Pairs.pair_stands (ps : Pairs) {p : Pair} (h : p ∈ ps.all) : StandsIn p ps.marks := by
  cases ps with
  | last before key left right v after =>
      rw [Pairs.marks]
      rcases List.mem_cons.mp h with rfl | h
      · exact ⟨code before.1, code after.1, by simp [Pair.marks], opensKey_blanks before⟩
      · exact ((v.pair_stands h).within _ _).standsIn
  | more before key left right v after rest =>
      rw [Pairs.marks]
      rcases List.mem_cons.mp h with rfl | h
      · exact ⟨code before.1, code after.1 ++ code [0x2c] ++ rest.marks, by simp [Pair.marks],
          opensKey_blanks before⟩
      · rcases List.mem_append.mp h with h | h
        · have hv := (v.pair_stands h).within
            (code before.1 ++ key.marks ++ code left.1 ++ code [0x3d] ++ code right.1)
            (code after.1 ++ code [0x2c] ++ rest.marks)
          refine StandsInside.standsIn ?_
          simpa only [List.append_assoc] using hv
        · have hrest := (rest.pair_stands h).behind
            (code before.1 ++ key.marks ++ code left.1 ++ code [0x3d] ++ code right.1 ++ v.marks ++
              code after.1) (by decide : isKeyOpener 0x2c = true) []
          refine StandsInside.standsIn ?_
          simpa only [List.append_nil] using hrest

end

theorem Expression.pair_stands (e : Expression) {p : Pair} (h : p ∈ e.pairs) :
    StandsIn p e.marks := by
  cases e with
  | blank before comment => simp [Expression.pairs] at h
  | header before double left key right after comment => simp [Expression.pairs] at h
  | pair before q after comment =>
      rw [Expression.marks]
      rcases List.mem_cons.mp h with rfl | h
      · exact ⟨code before.1, code after.1 ++ commentMarks comment, by simp, opensKey_blanks before⟩
      · have hq := (q.value.pair_stands h).within
          (code before.1 ++ (q.key.marks ++ code q.left.1 ++ code [0x3d] ++ code q.right.1))
          (code after.1 ++ commentMarks comment)
        refine StandsInside.standsIn ?_
        simpa only [Pair.marks, List.append_assoc] using hq

theorem Document.opensKey_marks (doc : Document) : OpensKey (Document.marks doc) := by
  cases hd : doc.reverse with
  | nil =>
      rw [List.reverse_eq_nil_iff.mp hd]
      exact Or.inl rfl
  | cons e es =>
      have hdoc : doc = es.reverse ++ [e] := by
        rw [← List.reverse_reverse doc, hd, List.reverse_cons]
      refine Or.inr (Or.inl ⟨Document.marks es.reverse ++ e.marks, none, ?_⟩)
      simp [hdoc, Document.marks]

theorem Document.pair_stands (doc : Document) {p : Pair} (h : p ∈ Document.pairs doc) :
    StandsIn p (Document.marks doc) := by
  obtain ⟨e, he, hp⟩ := List.mem_flatMap.mp h
  obtain ⟨front, rest, rfl⟩ := List.append_of_mem he
  obtain ⟨a, b, hmarks, ha⟩ := e.pair_stands hp
  refine ⟨Document.marks front ++ a, b ++ [.newline none] ++ Document.marks rest, ?_,
    (Document.opensKey_marks front).append ha⟩
  simp [Document.marks, hmarks]

/-! ## Inside a pair -/

/-- The last part of a key stands where a key may begin: behind the dot before it. -/
theorem Key.last_stands (k : Key) : ∃ a, k.marks = a ++ k.last.marks ∧ OpensKey a := by
  obtain ⟨first, rest⟩ := k
  induction rest using List.reverseRecOn with
  | nil => exact ⟨[], by simp [Key.marks, Key.last], Or.inl rfl⟩
  | append_singleton rest p _ =>
      have hlast : (Key.mk first (rest ++ [p])).last = p.key := by simp [Key.last]
      refine ⟨first.marks ++ rest.flatMap (·.marks) ++ code p.before.1 ++ code [0x2e] ++
        code p.after.1, ?_, (opensKey_behind _ (by decide)).append (opensKey_blanks p.after)⟩
      rw [hlast]
      simp [Key.marks, DottedPart.marks]

theorem Str.marks_head (s : Str) : ∃ (q : Quote) (rest : List Mark),
    s.marks = quoted [q.char] ++ rest := by
  cases s with
  | basic items => exact ⟨.basic, _, by rw [Str.marks, List.append_assoc]; rfl⟩
  | literal chars => exact ⟨.literal, _, by rw [Str.marks, List.append_assoc]; rfl⟩
  | folded parts quotes => exact ⟨.basic, _, by rw [Str.marks, List.append_assoc]; rfl⟩
  | raw parts quotes => exact ⟨.literal, _, by rw [Str.marks, List.append_assoc]; rfl⟩

end PwshPy.Toml
