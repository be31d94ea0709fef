import Mathlib.Data.List.DropRight

/-! # Python text

A `str` is a sequence of code points, lone surrogates included, so a code point
is a number and no encoding is assumed. The definitions follow the documented
behaviour of the `str` methods the modelled code calls.
-/

namespace PwshPy

/-- The code points of a `str`. -/
abbrev PyStr := List Nat

instance instLawfulBEqPyStr : LawfulBEq PyStr := inferInstance

/-- The text of a source literal. -/
def py (s : String) : PyStr := s.toList.map Char.toNat

def LF : Nat := 0x0a

/-- `a <= b`: code points compared from the left. -/
def textLe : PyStr → PyStr → Bool
  | [], _ => true
  | _ :: _, [] => false
  | c :: a, d :: b => c < d || (c == d && textLe a b)

/-- Each piece followed by one LF. -/
def unlines (ls : List PyStr) : PyStr := ls.flatMap (· ++ [LF])

@[simp] theorem unlines_nil : unlines [] = [] := rfl

@[simp] theorem unlines_cons (l : PyStr) (ls : List PyStr) :
    unlines (l :: ls) = l ++ LF :: unlines ls := by
  simp [unlines]

theorem unlines_append (ls ms : List PyStr) : unlines (ls ++ ms) = unlines ls ++ unlines ms := by
  simp [unlines]

/-! ## Physical lines -/

/-- Splitting a text built line by line at LF gives the lines back, and the
empty piece after the last LF. -/
theorem splitOn_unlines (ls : List PyStr) (h : ∀ l ∈ ls, LF ∉ l) :
    (unlines ls).splitOn LF = ls ++ [[]] := by
  induction ls with
  | nil => rfl
  | cons l ls ih =>
      have hl : LF ∉ l := h l (by simp)
      have ht := ih fun m hm => h m (by simp [hm])
      rw [unlines_cons, List.splitOn_append_cons_self_of_not_mem hl, ht]
      rfl

/-! ## `str.strip` -/

/-- `str.isspace` of one code point: the Unicode white space and the four
information separators. -/
def isSpace (c : Nat) : Bool :=
  (0x09 ≤ c && c ≤ 0x0d) || (0x1c ≤ c && c ≤ 0x20) || c == 0x85 || c == 0xa0 || c == 0x1680 ||
    (0x2000 ≤ c && c ≤ 0x200a) || c == 0x2028 || c == 0x2029 || c == 0x202f || c == 0x205f ||
    c == 0x3000

/-- `s.strip()` for the white space `p`. -/
def stripBy (p : Nat → Bool) (s : PyStr) : PyStr := (s.dropWhile p).rdropWhile p

def strip (s : PyStr) : PyStr := stripBy isSpace s

theorem strip_of_no_space {s : PyStr} (h : ∀ c ∈ s, isSpace c = false) : strip s = s := by
  have hleft : s.dropWhile isSpace = s := by
    cases s with
    | nil => rfl
    | cons c s => rw [List.dropWhile_cons_of_neg (by simp [h c (by simp)])]
  rw [strip, stripBy, hleft, List.rdropWhile_eq_self_iff]
  intro hne hlast
  rw [h _ (List.getLast_mem hne)] at hlast
  cases hlast

/-- What holds of a separator's characters holds of a joined text's when it holds
of those of each part. -/
theorem forall_mem_intercalate {P : Nat → Prop} {sep : PyStr} (hsep : ∀ c ∈ sep, P c)
    {texts : List PyStr} :
    (∀ c ∈ sep.intercalate texts, P c) ↔ ∀ text ∈ texts, ∀ c ∈ text, P c := by
  induction texts with
  | nil => exact iff_of_true (fun c hc => absurd hc List.not_mem_nil) fun _ h => absurd h List.not_mem_nil
  | cons text texts ih =>
      rw [List.forall_mem_cons]
      cases texts with
      | nil =>
          rw [List.intercalate_singleton]
          exact (and_iff_left fun _ h => absurd h List.not_mem_nil).symm
      | cons next later =>
          rw [List.intercalate_cons_cons, List.forall_mem_append, List.forall_mem_append, ih,
            and_iff_left hsep]

/-! ## `str.lower` -/

/-- `text.lower()` as far as it can meet a word of ASCII letters other than k. -/
def asciiLower (text : PyStr) : PyStr :=
  text.map fun c => if 0x41 ≤ c ∧ c ≤ 0x5a then c + 0x20 else c

theorem asciiLower_append (s t : PyStr) : asciiLower (s ++ t) = asciiLower s ++ asciiLower t :=
  List.map_append

/-! ## `str.splitlines` -/

/-- The line boundaries of `str.splitlines`. -/
def isLineBoundary (c : Nat) : Bool :=
  (0x0a ≤ c && c ≤ 0x0d) || (0x1c ≤ c && c ≤ 0x1e) || c == 0x85 || c == 0x2028 || c == 0x2029

/-- A CR LF pair is one boundary: read it as its LF. -/
def joinCrLf : PyStr → PyStr
  | [] => []
  | [c] => [c]
  | c :: d :: s => if c = 0x0d ∧ d = LF then joinCrLf (d :: s) else c :: joinCrLf (d :: s)

/-- `s.splitlines()`: no piece follows a boundary that ends the text. -/
def splitlines (s : PyStr) : List PyStr :=
  let pieces := (joinCrLf s).splitOnP isLineBoundary
  if pieces.getLast? = some [] then pieces.dropLast else pieces

theorem joinCrLf_cons {c : Nat} (h : c ≠ 0x0d) (s : PyStr) :
    joinCrLf (c :: s) = c :: joinCrLf s := by
  cases s with
  | nil => rfl
  | cons d s => simp [joinCrLf, h]

theorem joinCrLf_append {l : PyStr} (h : 0x0d ∉ l) (s : PyStr) :
    joinCrLf (l ++ s) = l ++ joinCrLf s := by
  induction l with
  | nil => rfl
  | cons c l ih =>
      simp only [List.mem_cons, not_or] at h
      rw [List.cons_append, joinCrLf_cons (Ne.symm h.1), ih h.2, List.cons_append]

/-- A line without CR, ended by LF, is read piece by piece; the rest follows. -/
theorem splitlines_append_lf {l : PyStr} (h : 0x0d ∉ l) (s : PyStr) :
    splitlines (l ++ LF :: s) = l.splitOnP isLineBoundary ++ splitlines s := by
  have hlf : isLineBoundary LF = true := by decide
  have hne := List.splitOnP_ne_nil isLineBoundary (joinCrLf s)
  have hsplit : (joinCrLf (l ++ LF :: s)).splitOnP isLineBoundary =
      l.splitOnP isLineBoundary ++ (joinCrLf s).splitOnP isLineBoundary := by
    rw [joinCrLf_append h, joinCrLf_cons (by decide), List.splitOnP_append_cons _ _ hlf]
  simp only [splitlines, hsplit, List.getLast?_append_of_ne_nil _ hne]
  split
  · rw [List.dropLast_append_of_ne_nil hne]
  · rfl

theorem splitlines_unlines (ls : List PyStr) (h : ∀ l ∈ ls, 0x0d ∉ l) :
    splitlines (unlines ls) = ls.flatMap (·.splitOnP isLineBoundary) := by
  induction ls with
  | nil => rfl
  | cons l ls ih =>
      rw [unlines_cons, splitlines_append_lf (h l (by simp)),
        ih fun m hm => h m (by simp [hm])]
      rfl

/-! ## Decimal text -/

/-- `str(n)` of a non-negative number. -/
def decimal (n : Nat) : PyStr := (Nat.toDigits 10 n).map Char.toNat

/-- `n` with leading zeros up to `width` digits. -/
def padded (width n : Nat) : PyStr :=
  List.replicate (width - (decimal n).length) 0x30 ++ decimal n

def isDigit (c : Nat) : Bool := 0x30 ≤ c && c ≤ 0x39

theorem isDigit_of_mem_decimal {n : Nat} {c : Nat} (h : c ∈ decimal n) : isDigit c := by
  obtain ⟨d, hd, rfl⟩ := List.mem_map.mp h
  have hdigit := Nat.isDigit_of_mem_toDigits (by decide) (by decide) hd
  simp only [Char.isDigit, Bool.and_eq_true, decide_eq_true_eq, UInt32.le_iff_toNat_le] at hdigit
  simp only [isDigit, Bool.and_eq_true, decide_eq_true_eq]
  exact hdigit

theorem decimal_injective : Function.Injective decimal := by
  intro n m h
  have hchars : Nat.toDigits 10 n = Nat.toDigits 10 m :=
    List.map_injective_iff.mpr (fun _ _ hc => Char.toNat_inj.mp hc) h
  have hread := congrArg (fun digits => Nat.ofDigitChars 10 digits 0) hchars
  simpa only [Nat.ofDigitChars_ten_toDigits] using hread

theorem isDigit_of_mem_padded {width n : Nat} {c : Nat} (h : c ∈ padded width n) :
    isDigit c := by
  rcases List.mem_append.mp h with h | h
  · rw [(List.mem_replicate.mp h).2]; decide
  · exact isDigit_of_mem_decimal h

end PwshPy
