import PwshPy.Files.Encodable

/-! # Reading UTF-8

The strict decoder: the first byte of a character says how many follow and, for
four of them, what the second may be, so no text is read from an overlong form,
a surrogate or a number past the last code point.
-/

namespace PwshPy.Files

/-- Where the decoder stands. -/
inductive Decoding where
  | start
  /-- `owed + 1` bytes are missing; the next is between `low` and `high`. -/
  | inside (owed value low high : Nat)

def begin_char (b : Nat) : Option Decoding :=
  if 0xc2 ≤ b ∧ b ≤ 0xdf then some (.inside 0 (b % 0x20) 0x80 0xbf)
  else if b = 0xe0 then some (.inside 1 0 0xa0 0xbf)
  else if b = 0xed then some (.inside 1 0xd 0x80 0x9f)
  else if 0xe1 ≤ b ∧ b ≤ 0xef then some (.inside 1 (b % 0x10) 0x80 0xbf)
  else if b = 0xf0 then some (.inside 2 0 0x90 0xbf)
  else if 0xf1 ≤ b ∧ b ≤ 0xf3 then some (.inside 2 (b % 8) 0x80 0xbf)
  else if b = 0xf4 then some (.inside 2 4 0x80 0x8f)
  else none

/-- `data.decode("utf-8")` from here on, none where a `UnicodeDecodeError` is
raised. -/
def decode_utf8 : Decoding → List UInt8 → Option PyStr
  | .start, [] => some []
  | .inside .., [] => none
  | .start, b :: data =>
      if b.toNat < 0x80 then (decode_utf8 .start data).map (b.toNat :: ·)
      else (begin_char b.toNat).bind fun state => decode_utf8 state data
  | .inside owed value low high, b :: data =>
      if low ≤ b.toNat ∧ b.toNat ≤ high then
        match owed with
        | 0 => (decode_utf8 .start data).map ((value * 0x40 + b.toNat % 0x40) :: ·)
        | owed + 1 => decode_utf8 (.inside owed (value * 0x40 + b.toNat % 0x40) 0x80 0xbf) data
      else none

/-- A code point that UTF-8 can spell. -/
def isScalar (c : Nat) : Bool := c < 0x110000 && !isSurrogate c

/-- The bytes of a text of such code points. -/
def utf8_text (text : PyStr) : List UInt8 := text.flatMap utf8

section

variable {b value low high : Nat} (data : List UInt8)

theorem toNat_ofNat_of_lt (h : b < 0x100) : (UInt8.ofNat b).toNat = b := by
  rw [UInt8.toNat_ofNat']
  omega

theorem decode_first {state : Decoding} (hb : b < 0x100) (hlow : ¬b < 0x80)
    (h : begin_char b = some state) :
    decode_utf8 .start (UInt8.ofNat b :: data) = decode_utf8 state data := by
  rw [decode_utf8, toNat_ofNat_of_lt hb, if_neg hlow, h]
  rfl

theorem decode_next {owed : Nat} (hb : b < 0x100) (h : low ≤ b ∧ b ≤ high) :
    decode_utf8 (.inside (owed + 1) value low high) (UInt8.ofNat b :: data) =
      decode_utf8 (.inside owed (value * 0x40 + b % 0x40) 0x80 0xbf) data := by
  rw [decode_utf8, toNat_ofNat_of_lt hb, if_pos h]

theorem decode_last (hb : b < 0x100) (h : low ≤ b ∧ b ≤ high) :
    decode_utf8 (.inside 0 value low high) (UInt8.ofNat b :: data) =
      (decode_utf8 .start data).map ((value * 0x40 + b % 0x40) :: ·) := by
  rw [decode_utf8, toNat_ofNat_of_lt hb, if_pos h]

end

section

variable {c low high : Nat} (data : List UInt8)

theorem decode_two (hlow : 0x80 ≤ c) (hhigh : c < 0x800) :
    decode_utf8 .start (utf8 c ++ data) = (decode_utf8 .start data).map (c :: ·) := by
  have hlead : 0xc2 ≤ 0xc0 + c / 0x40 ∧ 0xc0 + c / 0x40 ≤ 0xdf := by omega
  have hbegin : begin_char (0xc0 + c / 0x40) =
      some (.inside 0 ((0xc0 + c / 0x40) % 0x20) 0x80 0xbf) := if_pos hlead
  have hvalue : (0xc0 + c / 0x40) % 0x20 * 0x40 + (0x80 + c % 0x40) % 0x40 = c := by omega
  rw [utf8, if_neg (by omega), if_pos hhigh, List.cons_append, List.cons_append, List.nil_append,
    decode_first _ (by omega) (by omega) hbegin, decode_last _ (by omega) (by omega), hvalue]

theorem decode_three (hlow : 0x800 ≤ c) (hhigh : c < 0x10000)
    (hbegin : begin_char (0xe0 + c / 0x1000) = some (.inside 1 (c / 0x1000) low high))
    (hsecond : low ≤ 0x80 + c / 0x40 % 0x40 ∧ 0x80 + c / 0x40 % 0x40 ≤ high) :
    decode_utf8 .start (utf8 c ++ data) = (decode_utf8 .start data).map (c :: ·) := by
  have hvalue : (c / 0x1000 * 0x40 + (0x80 + c / 0x40 % 0x40) % 0x40) * 0x40 +
      (0x80 + c % 0x40) % 0x40 = c := by omega
  rw [utf8, if_neg (by omega), if_neg (by omega), if_pos hhigh, List.cons_append, List.cons_append,
    List.cons_append, List.nil_append, decode_first _ (by omega) (by omega) hbegin,
    decode_next _ (by omega) hsecond, decode_last _ (by omega) (by omega), hvalue]

theorem decode_four (hlow : 0x10000 ≤ c) (hhigh : c < 0x110000)
    (hbegin : begin_char (0xf0 + c / 0x40000) = some (.inside 2 (c / 0x40000) low high))
    (hsecond : low ≤ 0x80 + c / 0x1000 % 0x40 ∧ 0x80 + c / 0x1000 % 0x40 ≤ high) :
    decode_utf8 .start (utf8 c ++ data) = (decode_utf8 .start data).map (c :: ·) := by
  have hvalue : ((c / 0x40000 * 0x40 + (0x80 + c / 0x1000 % 0x40) % 0x40) * 0x40 +
      (0x80 + c / 0x40 % 0x40) % 0x40) * 0x40 + (0x80 + c % 0x40) % 0x40 = c := by omega
  rw [utf8, if_neg (by omega), if_neg (by omega), if_neg (by omega), List.cons_append,
    List.cons_append, List.cons_append, List.cons_append, List.nil_append,
    decode_first _ (by omega) (by omega) hbegin, decode_next _ (by omega) hsecond,
    decode_next _ (by omega) (by omega), decode_last _ (by omega) (by omega), hvalue]

end

/-- One character is read back, whatever follows it: a short form would begin
below the second byte's lower bound, a surrogate above its upper one. -/
theorem decode_char {c : Nat} (h : isScalar c = true) (data : List UInt8) :
    decode_utf8 .start (utf8 c ++ data) = (decode_utf8 .start data).map (c :: ·) := by
  simp only [isScalar, isSurrogate, Bool.and_eq_true, Bool.not_eq_true', Bool.and_eq_false_iff,
    decide_eq_true_eq, decide_eq_false_iff_not] at h
  obtain ⟨hlast, hsurrogate⟩ := h
  by_cases h1 : c < 0x80
  · rw [utf8, if_pos h1, List.singleton_append, decode_utf8, toNat_ofNat_of_lt (by omega),
      if_pos h1]
  by_cases h2 : c < 0x800
  · exact decode_two data (by omega) h2
  by_cases h3 : c < 0x10000
  · by_cases hshort : c / 0x1000 = 0
    · exact decode_three data (by omega) h3 (by rw [hshort]; rfl) (by omega)
    by_cases hbelow : c / 0x1000 = 0xd
    · exact decode_three data (by omega) h3 (by rw [hbelow]; rfl) (by omega)
    · have hvalue : (0xe0 + c / 0x1000) % 0x10 = c / 0x1000 := by omega
      have hbegin : begin_char (0xe0 + c / 0x1000) = some (.inside 1 (c / 0x1000) 0x80 0xbf) := by
        rw [begin_char, if_neg (by omega), if_neg (by omega), if_neg (by omega),
          if_pos (by omega), hvalue]
      exact decode_three data (by omega) h3 hbegin (by omega)
  · by_cases hshort : c / 0x40000 = 0
    · exact decode_four data (by omega) hlast (by rw [hshort]; rfl) (by omega)
    by_cases hlong : c / 0x40000 = 4
    · exact decode_four data (by omega) hlast (by rw [hlong]; rfl) (by omega)
    · have hvalue : (0xf0 + c / 0x40000) % 8 = c / 0x40000 := by omega
      have hbegin : begin_char (0xf0 + c / 0x40000) =
          some (.inside 2 (c / 0x40000) 0x80 0xbf) := by
        rw [begin_char, if_neg (by omega), if_neg (by omega), if_neg (by omega),
          if_neg (by omega), if_neg (by omega), if_pos (by omega), hvalue]
      exact decode_four data (by omega) hlast hbegin (by omega)

theorem decode_utf8_text {text : PyStr} (h : ∀ c ∈ text, isScalar c = true) :
    decode_utf8 .start (utf8_text text) = some text := by
  induction text with
  | nil => rfl
  | cons c text ih =>
      have htext := ih fun d hd => h d (List.mem_cons_of_mem _ hd)
      rw [utf8_text, List.flatMap_cons, decode_char (h c (List.mem_cons_self ..))]
      show (decode_utf8 .start (utf8_text text)).map _ = _
      rw [htext]
      rfl

/-! ## ASCII -/

def Ascii (text : PyStr) : Prop := ∀ c ∈ text, c < 0x80

instance (text : PyStr) : Decidable (Ascii text) := inferInstanceAs (Decidable (∀ c ∈ text, c < 0x80))

theorem ascii_append {a b : PyStr} : Ascii (a ++ b) ↔ Ascii a ∧ Ascii b := List.forall_mem_append

theorem ascii_intercalate {sep : PyStr} (hsep : Ascii sep) {texts : List PyStr} :
    Ascii (sep.intercalate texts) ↔ ∀ text ∈ texts, Ascii text := forall_mem_intercalate hsep

/-- A text of ASCII is what the bytes say it is. -/
theorem text_of_encode_ascii {text : PyStr} {bytes : List UInt8} (h : encode .utf_8 text = some bytes)
    (hascii : ∀ b ∈ bytes, b.toNat < 0x80) : text = bytes.map UInt8.toNat := by
  induction text generalizing bytes with
  | nil =>
      cases h
      rfl
  | cons c text ih =>
      rw [encode] at h
      cases hchar : encode_char .utf_8 c with
      | none =>
          rw [hchar] at h
          cases h
      | some first =>
          rw [hchar] at h
          obtain ⟨rest, hrest, rfl⟩ := Option.map_eq_some_iff.mp h
          obtain ⟨hfirst, hlater⟩ := List.forall_mem_append.mp hascii
          have hspelled : first = utf8 c := by
            rw [encode_char] at hchar
            split at hchar
            · cases hchar
            · exact (Option.some.inj hchar).symm
          have hone : first = [UInt8.ofNat c] ∧ c < 0x80 := by
            subst hspelled
            unfold utf8 at hfirst ⊢
            -- a later byte of a longer form is not ASCII
            have htrail : ∀ n, ¬(UInt8.ofNat (0x80 + n % 0x40)).toNat < 0x80 := by
              intro n
              rw [toNat_ofNat_of_lt (by omega)]
              omega
            split_ifs at hfirst ⊢ with h1 h2 h3
            · exact ⟨rfl, h1⟩
            · exact absurd (hfirst _ (by simp)) (htrail c)
            · exact absurd (hfirst _ (by simp)) (htrail c)
            · exact absurd (hfirst _ (by simp)) (htrail c)
          obtain ⟨rfl, hc⟩ := hone
          rw [List.map_append, List.map_singleton, toNat_ofNat_of_lt (by omega),
            ← ih hrest hlater]
          rfl

theorem encode_of_ascii {text : PyStr} (h : Ascii text) :
    encode .utf_8 text = some (text.map UInt8.ofNat) := by
  induction text with
  | nil => rfl
  | cons c text ih =>
      have hc := h c List.mem_cons_self
      have hchar : encode_char .utf_8 c = some [UInt8.ofNat c] := by
        rw [encode_char, not_surrogate_of_lt hc]
        simp [utf8, hc]
      rw [encode, hchar, ih fun d hd => h d (List.mem_cons_of_mem _ hd)]
      rfl

end PwshPy.Files
