import PwshPy.Bytes.Endian
import PwshPy.Text.Lines
import PwshPy.Text.Surrogates

/-! # Writing text files

A text is written with one line end, one codec and at most one byte-order mark,
whole or in chunks. Where a chunk ends in CR the CR waits for the next chunk,
which may begin with its LF.
-/

namespace PwshPy.Files

open Bytes

/-! ## Codecs -/

/-- The encodings of Unicode, by Python's canonical names. -/
inductive Encoding where
  | utf_8
  | utf_8_sig
  | utf_16
  | utf_16_le
  | utf_16_be
  | utf_32
  | utf_32_le
  | utf_32_be

/-- The codecs that write no mark of their own. -/
inductive Codec where
  | utf_8
  | utf_16_le
  | utf_16_be
  | utf_32_le
  | utf_32_be

/-- `_bomless_codec` -/
def bomless_codec : Encoding → Codec
  | .utf_8 => .utf_8
  | .utf_8_sig => .utf_8
  | .utf_16 => .utf_16_le
  | .utf_16_le => .utf_16_le
  | .utf_16_be => .utf_16_be
  | .utf_32 => .utf_32_le
  | .utf_32_le => .utf_32_le
  | .utf_32_be => .utf_32_be

/-- `_BOM_BYTES` -/
def BOM_BYTES : Codec → List UInt8
  | .utf_8 => [0xef, 0xbb, 0xbf]
  | .utf_16_le => [0xff, 0xfe]
  | .utf_16_be => [0xfe, 0xff]
  | .utf_32_le => [0xff, 0xfe, 0x00, 0x00]
  | .utf_32_be => [0x00, 0x00, 0xfe, 0xff]

/-- A code point in UTF-8. -/
def utf8 (c : Nat) : List UInt8 :=
  let trail (n : Nat) : UInt8 := UInt8.ofNat (0x80 + n % 0x40)
  if c < 0x80 then [UInt8.ofNat c]
  else if c < 0x800 then [UInt8.ofNat (0xc0 + c / 0x40), trail c]
  else if c < 0x10000 then [UInt8.ofNat (0xe0 + c / 0x1000), trail (c / 0x40), trail c]
  else [UInt8.ofNat (0xf0 + c / 0x40000), trail (c / 0x1000), trail (c / 0x40), trail c]

/-- The code units of a code point in UTF-16. -/
def utf16 (c : Nat) : List Nat :=
  if c < 0x10000 then [c]
  else [0xd800 + (c - 0x10000) / 0x400, 0xdc00 + (c - 0x10000) % 0x400]

/-- A surrogate cannot be encoded. -/
def encode_char (codec : Codec) (c : Nat) : Option (List UInt8) :=
  if isSurrogate c then none
  else
    match codec with
    | .utf_8 => some (utf8 c)
    | .utf_16_le => some ((utf16 c).flatMap (le 2))
    | .utf_16_be => some ((utf16 c).flatMap (be 2))
    | .utf_32_le => some (le 4 c)
    | .utf_32_be => some (be 4 c)

/-- `_encode`: none where a `NativeCallError` is raised. -/
def encode (codec : Codec) : PyStr → Option (List UInt8)
  | [] => some []
  | c :: text => (encode_char codec c).bind fun data => (encode codec text).map (data ++ ·)

/-! ## Line ends -/

/-- `text.replace(c, new)` for one character. -/
def replace_char (c : Nat) (new text : PyStr) : PyStr := text.flatMap fun d => if d = c then new else [d]

/-- `_normalize_newlines` -/
def normalize_newlines (text newline : PyStr) : PyStr :=
  let normalized := replace_char CR [LF] (joinCrLf text)
  if newline = [LF] then normalized else replace_char LF newline normalized

/-! ## The two writers -/

inductive Outcome where
  /-- the bytes of the file -/
  | written (data : List UInt8)
  /-- an encode error, and the bytes left in the file, if it was opened -/
  | raised (left : Option (List UInt8))

def mark (codec : Codec) (bom : Bool) : List UInt8 := if bom then BOM_BYTES codec else []

def write_text (text : PyStr) (encoding : Encoding) (newline : PyStr) (bom : Bool) : Outcome :=
  let codec := bomless_codec encoding
  match encode codec (normalize_newlines text newline) with
  | none => .raised none
  | some data => .written (mark codec bom ++ data)

/-- The loop of `write_text_stream`: what it writes, and whether it ends. -/
def write_chunks (codec : Codec) (newline pending : PyStr) : List PyStr → List UInt8 × Bool
  | [] =>
      if pending ≠ [] then
        match encode codec (normalize_newlines pending newline) with
        | none => ([], false)
        | some data => (data, true)
      else ([], true)
  | chunk :: chunks =>
      let text := pending ++ chunk
      let pending := if text.getLast? = some CR then [CR] else []
      let complete := normalize_newlines (text.take (text.length - pending.length)) newline
      match encode codec complete with
      | none => ([], false)
      | some data =>
          let rest := write_chunks codec newline pending chunks
          (data ++ rest.1, rest.2)

def write_text_stream (chunks : List PyStr) (encoding : Encoding) (newline : PyStr) (bom : Bool) :
    Outcome :=
  let codec := bomless_codec encoding
  let out := write_chunks codec newline [] chunks
  if out.2 then .written (mark codec bom ++ out.1) else .raised (some (mark codec bom ++ out.1))

/-! ## Cutting a text -/

theorem encode_append (codec : Codec) (a b : PyStr) : encode codec (a ++ b) =
    (encode codec a).bind fun data => (encode codec b).map (data ++ ·) := by
  induction a with
  | nil =>
      show encode codec b = (encode codec b).map fun data => [] ++ data
      cases encode codec b <;> rfl
  | cons c a ih =>
      rw [List.cons_append, encode, encode, ih]
      cases encode_char codec c with
      | none => rfl
      | some first =>
          cases encode codec a with
          | none => rfl
          | some middle =>
              cases encode codec b with
              | none => rfl
              | some last => simp

/-- No CR LF pair is cut in two. -/
def Whole (a b : PyStr) : Prop := a.getLast? = some CR → b.head? ≠ some LF

theorem joinCrLf_append_whole {a b : PyStr} (h : Whole a b) :
    joinCrLf (a ++ b) = joinCrLf a ++ joinCrLf b := by
  induction a using joinCrLf.induct with
  | case1 => rfl
  | case2 c =>
      by_cases hc : c = CR
      · subst hc
        cases b with
        | nil => rfl
        | cons d b =>
            have hd : d ≠ LF := fun hd => h rfl (hd ▸ rfl)
            show joinCrLf (CR :: d :: b) = CR :: joinCrLf (d :: b)
            rw [joinCrLf, if_neg (fun hpair => hd hpair.2)]
      · exact joinCrLf_cons hc b
  | case3 c d s hpair ih =>
      have hrest : Whole (d :: s) b := by simpa [Whole] using h
      have hsplit := ih hrest
      rw [List.cons_append, List.cons_append, joinCrLf, if_pos hpair, joinCrLf, if_pos hpair]
      exact hsplit
  | case4 c d s hpair ih =>
      have hrest : Whole (d :: s) b := by simpa [Whole] using h
      have hsplit := ih hrest
      rw [List.cons_append, List.cons_append, joinCrLf, if_neg hpair, joinCrLf, if_neg hpair,
        List.cons_append]
      exact congrArg (c :: ·) hsplit

theorem replace_char_append (c : Nat) (new a b : PyStr) :
    replace_char c new (a ++ b) = replace_char c new a ++ replace_char c new b :=
  List.flatMap_append

theorem normalize_append {a b : PyStr} (h : Whole a b) (newline : PyStr) :
    normalize_newlines (a ++ b) newline = normalize_newlines a newline ++ normalize_newlines b newline := by
  unfold normalize_newlines
  rw [joinCrLf_append_whole h, replace_char_append]
  split
  · rfl
  · rw [replace_char_append]

/-- What is held back of a text: a CR at its end. -/
def held (text : PyStr) : PyStr := if text.getLast? = some CR then [CR] else []

/-- The text without what is held back, and what is held back. -/
theorem take_held (text : PyStr) :
    text.take (text.length - (held text).length) ++ held text = text := by
  unfold held
  by_cases h : text.getLast? = some CR
  · rw [if_pos h, List.length_singleton, ← List.dropLast_eq_take]
    exact List.dropLast_append_getLast? _ h
  · rw [if_neg h, List.length_nil, Nat.sub_zero, List.take_length, List.append_nil]

theorem whole_held (text rest : PyStr) :
    Whole (text.take (text.length - (held text).length)) (held text ++ rest) := by
  intro hlast
  by_cases h : text.getLast? = some CR
  · rw [held, if_pos h]
    simp [CR, LF]
  · rw [held, if_neg h, List.length_nil, Nat.sub_zero, List.take_length] at hlast
    exact absurd hlast h

/-- What the loop wrote, if it ended. -/
def ended (out : List UInt8 × Bool) : Option (List UInt8) := if out.2 then some out.1 else none

theorem ended_write_chunks_cons (codec : Codec) (newline pending chunk : PyStr) (chunks : List PyStr) :
    let text := pending ++ chunk
    ended (write_chunks codec newline pending (chunk :: chunks)) =
      (encode codec (normalize_newlines (text.take (text.length - (held text).length)) newline)).bind
        fun data => (ended (write_chunks codec newline (held text) chunks)).map (data ++ ·) := by
  intro text
  rw [write_chunks]
  show ended (match encode codec (normalize_newlines
    (text.take (text.length - (held text).length)) newline) with
    | none => ([], false)
    | some data => (data ++ (write_chunks codec newline (held text) chunks).1,
        (write_chunks codec newline (held text) chunks).2)) = _
  cases encode codec (normalize_newlines (text.take (text.length - (held text).length)) newline) with
  | none => rfl
  | some data =>
      cases hrest : write_chunks codec newline (held text) chunks with
      | mk later ends => cases ends <;> rfl

/-- The loop writes the whole text, encoded at once, and ends if that can be encoded. -/
theorem write_chunks_spec (codec : Codec) (newline : PyStr) (chunks : List PyStr) (pending : PyStr) :
    ended (write_chunks codec newline pending chunks) =
      encode codec (normalize_newlines (pending ++ chunks.flatten) newline) := by
  induction chunks generalizing pending with
  | nil =>
      rw [List.flatten_nil, List.append_nil, write_chunks]
      by_cases hpending : pending = []
      · subst hpending
        have hnothing : normalize_newlines [] newline = [] := by
          unfold normalize_newlines
          split <;> rfl
        rw [hnothing]
        rfl
      · rw [if_pos hpending]
        cases encode codec (normalize_newlines pending newline) <;> rfl
  | cons chunk chunks ih =>
      have hsplit : pending ++ (chunk :: chunks).flatten =
          (pending ++ chunk).take ((pending ++ chunk).length - (held (pending ++ chunk)).length) ++
            (held (pending ++ chunk) ++ chunks.flatten) := by
        rw [← List.append_assoc, take_held, List.flatten_cons, List.append_assoc]
      rw [ended_write_chunks_cons, ih, hsplit, normalize_append (whole_held _ _), encode_append]

/-! ## What can be encoded -/

theorem encode_isSome {codec : Codec} {text : PyStr} :
    (encode codec text).isSome ↔ ∀ c ∈ text, (encode_char codec c).isSome := by
  induction text with
  | nil => simp [encode]
  | cons c text ih =>
      rw [encode, List.forall_mem_cons, ← ih]
      cases encode_char codec c with
      | none => simp
      | some data => simp

theorem mem_joinCrLf {c : Nat} {text : PyStr} (h : c ∈ joinCrLf text) : c ∈ text := by
  induction text using joinCrLf.induct with
  | case1 => exact h
  | case2 d => exact h
  | case3 d e s hpair ih =>
      rw [joinCrLf, if_pos hpair] at h
      exact List.mem_cons_of_mem _ (ih h)
  | case4 d e s hpair ih =>
      rw [joinCrLf, if_neg hpair] at h
      cases List.mem_cons.mp h with
      | inl hhead => exact hhead ▸ List.mem_cons_self
      | inr hrest => exact List.mem_cons_of_mem _ (ih hrest)

theorem mem_replace_char {c d : Nat} {new text : PyStr} (h : d ∈ replace_char c new text) :
    d ∈ text ∨ d ∈ new := by
  obtain ⟨e, he, hd⟩ := List.mem_flatMap.mp h
  split at hd
  · exact Or.inr hd
  · exact Or.inl (List.mem_singleton.mp hd ▸ he)

/-- The characters of a normalized text are the text's own, the line end's, or LF. -/
theorem mem_normalize {c : Nat} {text newline : PyStr} (h : c ∈ normalize_newlines text newline) :
    c ∈ text ∨ c = LF ∨ c ∈ newline := by
  have hnormalized : ∀ c ∈ replace_char CR [LF] (joinCrLf text), c ∈ text ∨ c = LF := by
    intro c hc
    exact (mem_replace_char hc).imp mem_joinCrLf List.mem_singleton.mp
  unfold normalize_newlines at h
  split at h
  · exact (hnormalized c h).imp_right Or.inl
  · cases mem_replace_char h with
    | inl hold => exact (hnormalized c hold).imp_right Or.inl
    | inr hnew => exact Or.inr (Or.inr hnew)

/-! ## The writers agree -/

/-- The streamed writer writes what the plain one writes, and raises where it raises; both write
where the codec can encode the text and the line end. -/
theorem stream_equals_plain (chunks : List PyStr) (encoding : Encoding) (newline : PyStr) (bom : Bool) :
    (∀ data, write_text_stream chunks encoding newline bom = .written data ↔
        write_text chunks.flatten encoding newline bom = .written data) ∧
      ((encode (bomless_codec encoding) chunks.flatten).isSome →
        (encode (bomless_codec encoding) newline).isSome →
          ∃ data, write_text chunks.flatten encoding newline bom = .written data) := by
  have hspec := write_chunks_spec (bomless_codec encoding) newline chunks []
  rw [List.nil_append] at hspec
  constructor
  · intro data
    simp only [write_text_stream, write_text, ← hspec]
    cases write_chunks (bomless_codec encoding) newline [] chunks with
    | mk out ends => cases ends <;> simp [ended]
  · intro htext hnewline
    have hLF : (encode_char (bomless_codec encoding) LF).isSome := by
      cases encoding <;> rfl
    have hwhole : (encode (bomless_codec encoding)
        (normalize_newlines chunks.flatten newline)).isSome := by
      rw [encode_isSome] at htext hnewline ⊢
      intro c hc
      cases mem_normalize hc with
      | inl hold => exact htext c hold
      | inr hnew =>
          cases hnew with
          | inl hlf => exact hlf ▸ hLF
          | inr hend => exact hnewline c hend
    obtain ⟨data, hdata⟩ := Option.isSome_iff_exists.mp hwhole
    simp only [write_text, hdata]
    exact ⟨_, rfl⟩

/-- With a line end that cannot be encoded the plain writer leaves the file alone; the streamed one
has written the chunk before it. -/
theorem unencodable_newline_differs :
    (encode .utf_8 [0x61, LF]).isSome ∧
      write_text [0x61, LF] .utf_8 [0xd800] false = .raised none ∧
      write_text_stream [[0x61], [LF]] .utf_8 [0xd800] false = .raised (some [0x61]) :=
  ⟨rfl, rfl, rfl⟩

end PwshPy.Files
