import PwshPy.Text.PyStr

/-! # Quoted words

A PowerShell single-quoted literal doubles every quote character, a POSIX `sh`
word leaves its quotes to write one. Reading either back gives the value, and
what stands around a quote inside such a word is known.
-/

namespace PwshPy

def QUOTE : Nat := 0x27
def BACKSLASH : Nat := 0x5c

/-! ## PowerShell -/

/-- The five characters PowerShell reads as a single quote. -/
def isPowerShellQuote (c : Nat) : Bool := c == QUOTE || (0x2018 ≤ c && c ≤ 0x201b)

/-- Every quote character doubled. -/
def doubled (value : PyStr) : PyStr :=
  value.flatMap fun c => if isPowerShellQuote c then [c, c] else [c]

/-- `_powershell_literal` -/
def powershell_literal (value : PyStr) : PyStr := QUOTE :: (doubled value ++ [QUOTE])

/-- `unquote_powershell_literal` -/
def unquote_powershell_literal : PyStr → PyStr
  | [] => []
  | [c] => [c]
  | c :: d :: body =>
      if isPowerShellQuote c ∧ d = c then
        c :: unquote_powershell_literal body
      else
        c :: unquote_powershell_literal (d :: body)

private theorem unquote_cons {c : Nat} (hc : isPowerShellQuote c = false) (body : PyStr) :
    unquote_powershell_literal (c :: body) = c :: unquote_powershell_literal body := by
  cases body with
  | nil => rfl
  | cons d body => simp [unquote_powershell_literal, hc]

theorem unquote_doubled (value : PyStr) : unquote_powershell_literal (doubled value) = value := by
  induction value with
  | nil => rfl
  | cons c value ih =>
      simp only [doubled, List.flatMap_cons] at ih ⊢
      by_cases hc : isPowerShellQuote c = true
      · simp [hc, unquote_powershell_literal, ih]
      · rw [if_neg hc, List.singleton_append, unquote_cons (by simpa using hc), ih]

/-- Reading a literal back invents no character. -/
theorem mem_of_mem_unquote {c : Nat} {body : PyStr} (h : c ∈ unquote_powershell_literal body) :
    c ∈ body := by
  induction body using unquote_powershell_literal.induct with
  | case1 => exact h
  | case2 d => exact h
  | case3 c' d body hq ih =>
      rw [unquote_powershell_literal, if_pos hq] at h
      rcases List.mem_cons.mp h with rfl | h
      · exact List.mem_cons_self
      · exact List.mem_cons_of_mem _ (List.mem_cons_of_mem _ (ih h))
  | case4 c' d body hq ih =>
      rw [unquote_powershell_literal, if_neg hq] at h
      rcases List.mem_cons.mp h with rfl | h
      · exact List.mem_cons_self
      · exact List.mem_cons_of_mem _ (ih h)

/-! ## POSIX `sh` -/

/-- `value.replace("'", "'\\''")` -/
def escaped (value : PyStr) : PyStr :=
  value.flatMap fun c => if c = QUOTE then [QUOTE, BACKSLASH, QUOTE, QUOTE] else [c]

/-- `_posix_shell_word` -/
def posix_shell_word (value : PyStr) : PyStr := QUOTE :: (escaped value ++ [QUOTE])

namespace Shlex

def DOUBLE_QUOTE : Nat := 0x22

def isWhitespace (c : Nat) : Bool := c == 0x20 || c == 0x09 || c == 0x0d || c == 0x0a

/-- The states of `shlex.shlex.read_token`: between words, in a word, inside a
quote, and behind a backslash with the quote it goes back to. -/
inductive State where
  | space
  | word
  | quote (q : Nat)
  | escape (back : Option Nat)

/-- What a backslash keeps of itself inside double quotes. -/
def kept (back : Option Nat) (c : Nat) : PyStr :=
  match back with
  | none => []
  | some q => if c ≠ BACKSLASH ∧ c ≠ q then [BACKSLASH] else []

/-- The words of a text, the one being read first; `none` is the `ValueError`. -/
def words : State → PyStr → PyStr → Option (List PyStr)
  | .space, _, [] => some []
  | .space, token, c :: s =>
      if isWhitespace c then words .space token s
      else if c = BACKSLASH then words (.escape none) [] s
      else if c = QUOTE ∨ c = DOUBLE_QUOTE then words (.quote c) [] s
      else words .word [c] s
  | .word, token, [] => some [token]
  | .word, token, c :: s =>
      if isWhitespace c then (token :: ·) <$> words .space [] s
      else if c = QUOTE ∨ c = DOUBLE_QUOTE then words (.quote c) token s
      else if c = BACKSLASH then words (.escape none) token s
      else words .word (token ++ [c]) s
  | .quote _, _, [] => none
  | .quote q, token, c :: s =>
      if c = q then words .word token s
      else if c = BACKSLASH ∧ q = DOUBLE_QUOTE then words (.escape (some q)) token s
      else words (.quote q) (token ++ [c]) s
  | .escape _, _, [] => none
  | .escape back, token, c :: s =>
      let token := token ++ (kept back c ++ [c])
      match back with
      | none => words .word token s
      | some q => words (.quote q) token s

end Shlex

/-- `shlex.split(s)` -/
def shlex_split (s : PyStr) : Option (List PyStr) := Shlex.words .space [] s

private theorem words_escaped (value token : PyStr) :
    Shlex.words (.quote QUOTE) token (escaped value ++ [QUOTE]) = some [token ++ value] := by
  induction value generalizing token with
  | nil => simp [escaped, Shlex.words]
  | cons c value ih =>
      simp only [escaped, List.flatMap_cons] at ih ⊢
      by_cases hc : c = QUOTE
      · -- the quote is closed, written behind a backslash, and opened again
        subst hc
        have hback : ¬ QUOTE = BACKSLASH := by decide
        have hspace : Shlex.isWhitespace BACKSLASH = false := by decide
        have hspace' : Shlex.isWhitespace QUOTE = false := by decide
        have hother : ¬ (BACKSLASH = QUOTE ∨ BACKSLASH = Shlex.DOUBLE_QUOTE) := by decide
        simp [Shlex.words, hspace, hspace', hother, Shlex.kept, ih, List.append_assoc]
      · have hquote : ¬ QUOTE = Shlex.DOUBLE_QUOTE := by decide
        simp [Shlex.words, hc, hquote, ih, List.append_assoc]

/-- `sh` reads a quoted word back as the one value it was written from. -/
theorem shlex_split_word (value : PyStr) : shlex_split (posix_shell_word value) = some [value] := by
  have hspace : Shlex.isWhitespace QUOTE = false := by decide
  have hback : ¬ QUOTE = BACKSLASH := by decide
  have hwords := words_escaped value []
  simpa [shlex_split, posix_shell_word, Shlex.words, hspace, hback] using hwords

/-- Splitting into words invents no character but the backslash. -/
private theorem words_subset {P : Nat → Prop} (hP : P BACKSLASH) {s : PyStr} :
    ∀ {state : Shlex.State} {token : PyStr} {ws : List PyStr},
      Shlex.words state token s = some ws → (∀ c ∈ token, P c) → (∀ c ∈ s, P c) →
        ∀ w ∈ ws, ∀ c ∈ w, P c := by
  induction s with
  | nil =>
      intro state token ws h ht _
      cases state with
      | space => obtain rfl := Option.some.inj h; simp
      | word => obtain rfl := Option.some.inj h; simpa using ht
      | quote q => simp [Shlex.words] at h
      | escape back => simp [Shlex.words] at h
  | cons c s ih =>
      intro state token ws h ht hs
      have hc : P c := hs c List.mem_cons_self
      have hrest : ∀ d ∈ s, P d := fun d hd => hs d (List.mem_cons_of_mem _ hd)
      have hsnoc : ∀ d ∈ token ++ [c], P d := by
        intro d hd
        rcases List.mem_append.mp hd with hd | hd
        · exact ht d hd
        · exact List.mem_singleton.mp hd ▸ hc
      cases state with
      | space =>
          simp only [Shlex.words] at h
          split at h
          · exact ih h ht hrest
          · split at h
            · exact ih h (by simp) hrest
            · split at h
              · exact ih h (by simp) hrest
              · exact ih h (by simpa using hc) hrest
      | word =>
          simp only [Shlex.words] at h
          split at h
          · obtain ⟨ws', hws', rfl⟩ := Option.map_eq_some_iff.mp h
            intro w hw
            rcases List.mem_cons.mp hw with rfl | hw
            · exact ht
            · exact ih hws' (by simp) hrest w hw
          · split at h
            · exact ih h ht hrest
            · split at h
              · exact ih h ht hrest
              · exact ih h hsnoc hrest
      | quote q =>
          simp only [Shlex.words] at h
          split at h
          · exact ih h ht hrest
          · split at h
            · exact ih h ht hrest
            · exact ih h hsnoc hrest
      | escape back =>
          have hkept : ∀ d ∈ token ++ (Shlex.kept back c ++ [c]), P d := by
            intro d hd
            rw [← List.append_assoc] at hd
            rcases List.mem_append.mp hd with hd | hd
            · rcases List.mem_append.mp hd with hd | hd
              · exact ht d hd
              · cases back with
                | none => simp [Shlex.kept] at hd
                | some q =>
                    simp only [Shlex.kept] at hd
                    split at hd
                    · exact List.mem_singleton.mp hd ▸ hP
                    · simp at hd
            · exact List.mem_singleton.mp hd ▸ hc
          cases back with
          | none => exact ih h hkept hrest
          | some q => exact ih h hkept hrest

theorem shlex_split_subset {P : Nat → Prop} (hP : P BACKSLASH) {s : PyStr} {ws : List PyStr}
    (h : shlex_split s = some ws) (hs : ∀ c ∈ s, P c) : ∀ w ∈ ws, ∀ c ∈ w, P c :=
  words_subset hP h (by simp) hs

/-! ## What stands around a quote -/

/-- No end of the text has the property: no match begins anywhere in it. -/
def Avoids (P : PyStr → Prop) (text : PyStr) : Prop := ∀ s, s <:+ text → ¬ P s

theorem avoids_cons {P : PyStr → Prop} {c : Nat} {text : PyStr} :
    Avoids P (c :: text) ↔ ¬ P (c :: text) ∧ Avoids P text := by
  constructor
  · exact fun h => ⟨h _ List.suffix_rfl, fun s hs => h s (hs.trans (List.suffix_cons _ _))⟩
  · rintro ⟨hhead, htail⟩ s hs
    rcases List.suffix_cons_iff.mp hs with rfl | hs
    · exact hhead
    · exact htail s hs

/-- A match is `first`, a quote, and a character that the kind allows. -/
def QuoteAfter (first : Nat → Prop) (second : Nat → Prop) (s : PyStr) : Prop :=
  ∃ c d rest, s = c :: QUOTE :: d :: rest ∧ first c ∧ second d

theorem avoids_nil {first second : Nat → Prop} : Avoids (QuoteAfter first second) [] := by
  rintro s hs ⟨c, d, rest, rfl, -⟩
  cases List.suffix_nil.mp hs

/-- No match begins with a character that is not `first`. -/
theorem avoids_append_left {first second : Nat → Prop} {begun text : PyStr}
    (hbegun : ∀ c ∈ begun, ¬first c) (h : Avoids (QuoteAfter first second) text) :
    Avoids (QuoteAfter first second) (begun ++ text) := by
  induction begun with
  | nil => exact h
  | cons c begun ih =>
      rw [List.forall_mem_cons] at hbegun
      refine avoids_cons.mpr ⟨?_, ih hbegun.2⟩
      rintro ⟨c', d, rest, heq, hc', -⟩
      obtain rfl := (List.cons.inj heq).1
      exact hbegun.1 hc'

/-- Nor where no quote follows. -/
theorem avoids_cons_of_ne {first second : Nat → Prop} {c d : Nat} {text : PyStr} (hd : d ≠ QUOTE)
    (h : Avoids (QuoteAfter first second) (d :: text)) :
    Avoids (QuoteAfter first second) (c :: d :: text) := by
  refine avoids_cons.mpr ⟨?_, h⟩
  rintro ⟨c', d', rest, heq, -⟩
  exact hd (List.cons.inj (List.cons.inj heq).2).1

/-- Inside a literal a quote is followed by a quote, and the one that closes it
by what the program writes there. -/
theorem doubled_avoids {first second : Nat → Prop} (hfirst : ∀ c, isPowerShellQuote c = true → ¬ first c)
    (hquote : ¬ second QUOTE) (value : PyStr) {rest : PyStr}
    (hrest : Avoids (QuoteAfter first second) rest)
    (hhead : ∀ d, rest.head? = some d → ¬ second d) :
    Avoids (QuoteAfter first second) (doubled value ++ QUOTE :: rest) := by
  have hq : isPowerShellQuote QUOTE = true := by decide
  induction value with
  | nil =>
      refine avoids_cons.mpr ⟨?_, hrest⟩
      rintro ⟨c, d, tail, heq, hc, -⟩
      obtain rfl := (List.cons.inj heq).1
      exact hfirst _ hq hc
  | cons c value ih =>
      -- a quote that opens what follows is doubled, or closes the literal
      have hnext : ∀ d tail, doubled value ++ QUOTE :: rest = QUOTE :: d :: tail → ¬ second d := by
        intro d tail heq
        cases value with
        | nil =>
            obtain rfl : rest = d :: tail := (List.cons.inj heq).2
            exact hhead d rfl
        | cons e value =>
            simp only [doubled, List.flatMap_cons] at heq
            by_cases he : isPowerShellQuote e = true
            · simp only [he, if_true, List.cons_append, List.cons.injEq] at heq
              obtain ⟨rfl, rfl, -⟩ := heq
              exact hquote
            · simp only [he, Bool.false_eq_true, if_false, List.cons_append, List.cons.injEq] at heq
              exact absurd (heq.1 ▸ hq) he
      simp only [doubled, List.flatMap_cons, List.append_assoc]
      by_cases hc : isPowerShellQuote c = true
      · simp only [hc, if_true, List.cons_append, List.nil_append]
        refine avoids_cons.mpr ⟨?_, avoids_cons.mpr ⟨?_, ih⟩⟩
        · rintro ⟨c', d, tail, heq, hc', -⟩
          obtain rfl := (List.cons.inj heq).1
          exact hfirst _ hc hc'
        · rintro ⟨c', d, tail, heq, hc', -⟩
          obtain rfl := (List.cons.inj heq).1
          exact hfirst _ hc hc'
      · simp only [hc, Bool.false_eq_true, if_false, List.cons_append, List.nil_append]
        refine avoids_cons.mpr ⟨?_, ih⟩
        rintro ⟨c', d, tail, heq, -, hd⟩
        exact hnext d tail (List.cons.inj heq).2 hd

/-- Inside an `sh` word a quote of the value is followed by a backslash, and the
one that closes the word by what the program writes there. -/
theorem escaped_avoids {first second : Nat → Prop} (hquote : ¬ first QUOTE)
    (hback : ¬ first BACKSLASH) (hback' : ¬ second BACKSLASH) (value : PyStr) {rest : PyStr}
    (hrest : Avoids (QuoteAfter first second) rest)
    (hhead : ∀ d, rest.head? = some d → ¬ second d) :
    Avoids (QuoteAfter first second) (escaped value ++ QUOTE :: rest) := by
  have hstart : ∀ {c : Nat} {s : PyStr}, ¬ first c → ¬ QuoteAfter first second (c :: s) := by
    rintro c s hc ⟨c', d, tail, heq, hc', -⟩
    obtain rfl := (List.cons.inj heq).1
    exact hc hc'
  induction value with
  | nil => exact avoids_cons.mpr ⟨hstart hquote, hrest⟩
  | cons c value ih =>
      have hnext : ∀ d tail, escaped value ++ QUOTE :: rest = QUOTE :: d :: tail → ¬ second d := by
        intro d tail heq
        cases value with
        | nil =>
            obtain rfl : rest = d :: tail := (List.cons.inj heq).2
            exact hhead d rfl
        | cons e value =>
            simp only [escaped, List.flatMap_cons] at heq
            by_cases he : e = QUOTE
            · simp only [he, if_true, List.cons_append, List.cons.injEq, true_and] at heq
              obtain ⟨rfl, -⟩ := heq
              exact hback'
            · simp only [he, if_false, List.cons_append, List.cons.injEq] at heq
              exact heq.1.elim
      simp only [escaped, List.flatMap_cons, List.append_assoc]
      by_cases hc : c = QUOTE
      · simp only [hc, if_true, List.cons_append, List.nil_append]
        exact avoids_cons.mpr ⟨hstart hquote, avoids_cons.mpr ⟨hstart hback,
          avoids_cons.mpr ⟨hstart hquote, avoids_cons.mpr ⟨hstart hquote, ih⟩⟩⟩⟩
      · simp only [hc, if_false, List.cons_append, List.nil_append]
        refine avoids_cons.mpr ⟨?_, ih⟩
        rintro ⟨c', d, tail, heq, -, hd⟩
        exact hnext d tail (List.cons.inj heq).2 hd

end PwshPy
