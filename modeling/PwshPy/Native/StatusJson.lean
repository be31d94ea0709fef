import PwshPy.Text.Repr
import PwshPy.Text.Runs

/-! # The status of the tree helper as JSON

The three variants of a status and the object each is written as. No text is the
beginning of another's, and only the last variant ends in a letter and a brace.
-/

namespace PwshPy.TreeReaper

open Shlex (DOUBLE_QUOTE)

/-! ## `json.dumps` -/

/-- `json.dumps` of one character with `ensure_ascii`. -/
def jsonChar (c : Nat) : PyStr :=
  if c = DOUBLE_QUOTE ∨ c = BACKSLASH then [BACKSLASH, c]
  else if c = LF then py "\\n"
  else if c = CR then py "\\r"
  else if c = 0x09 then py "\\t"
  else if c = 0x0c then py "\\f"
  else if c = 0x08 then py "\\b"
  else if 0x20 ≤ c ∧ c ≤ 0x7e then [c]
  else if c ≤ 0xffff then py "\\u" ++ hex 4 c
  else
    py "\\u" ++ hex 4 (0xd800 + (c - 0x10000) / 1024) ++
      (py "\\u" ++ hex 4 (0xdc00 + (c - 0x10000) % 1024))

def jsonText (s : PyStr) : PyStr := DOUBLE_QUOTE :: (s.flatMap jsonChar ++ [DOUBLE_QUOTE])

def jsonInt : Int → PyStr
  | .ofNat n => decimal n
  | .negSucc n => 0x2d :: decimal (n + 1)

inductive Value where
  | int (n : Int)
  | text (s : PyStr)
  | true

def Value.dumps : Value → PyStr
  | int n => jsonInt n
  | text s => jsonText s
  | true => py "true"

def dumpsObject (fields : List (PyStr × Value)) : PyStr :=
  0x7b :: ((py ", ").intercalate (fields.map fun field => jsonText field.1 ++ py ": " ++ field.2.dumps) ++
    [0x7d])

/-! ## Statuses -/

/-- What `_Failed.of` takes of an exception: its class, its text, and the `errno` of an `OSError`. -/
structure Raised where
  name : PyStr
  text : PyStr
  errno : Option Int

inductive Status where
  | exited (exit_code : Int)
  | failed (error message : PyStr) (errno : Option Int)
  | killed

/-- `_Failed.of` -/
def Status.of (exc : Raised) : Status := .failed exc.name exc.text exc.errno

def Status.wire : Status → List (PyStr × Value)
  | exited exit_code => [(py "exit_code", .int exit_code)]
  | failed error message errno =>
      [(py "error", .text error), (py "message", .text message)] ++
        (errno.map fun code => (py "errno", Value.int code)).toList
  | killed => [(py "killed", .true)]

def encode_status (status : Status) : PyStr := dumpsObject status.wire

/-- The bytes are one JSON object that encodes a status. -/
def OneReport (bytes : PyStr) : Prop := ∃ status, bytes = encode_status status

/-! ## The texts -/

theorem encode_exited (n : Int) :
    encode_status (.exited n) = 0x7b :: (py "\"exit_code\": " ++ (jsonInt n ++ [0x7d])) := by
  have hkey : jsonText (py "exit_code") ++ py ": " = py "\"exit_code\": " := by decide
  simp [encode_status, dumpsObject, Status.wire, Value.dumps, ← hkey]

/-- What `"errno"` adds. -/
def errnoText : Option Int → PyStr
  | some code => py ", \"errno\": " ++ jsonInt code
  | none => []

theorem encode_failed (error message : PyStr) (errno : Option Int) :
    encode_status (.failed error message errno) =
      0x7b :: (py "\"error\": \"" ++ (error.flatMap jsonChar ++ DOUBLE_QUOTE ::
        (py ", \"message\": \"" ++ (message.flatMap jsonChar ++ DOUBLE_QUOTE ::
          (errnoText errno ++ [0x7d]))))) := by
  have herror : py "\"error\": \"" = jsonText (py "error") ++ (py ": " ++ [DOUBLE_QUOTE]) := by
    decide
  have hmessage : py ", \"message\": \"" =
      py ", " ++ (jsonText (py "message") ++ (py ": " ++ [DOUBLE_QUOTE])) := by decide
  have herrno : py ", \"errno\": " = py ", " ++ (jsonText (py "errno") ++ py ": ") := by decide
  cases errno with
  | none =>
      simp [encode_status, dumpsObject, Status.wire, Value.dumps, errnoText, herror, hmessage,
        jsonText]
  | some code =>
      simp [encode_status, dumpsObject, Status.wire, Value.dumps, errnoText, herror, hmessage,
        herrno, jsonText]

theorem encode_killed : encode_status .killed = 0x7b :: py "\"killed\": true" ++ [0x7d] := by decide

/-! ## No text begins another -/

/-- A text with no quote that would end a literal, nor a backslash that would escape one. -/
inductive Closed : PyStr → Prop
  | nil : Closed []
  | plain {c : Nat} {s : PyStr} (h : c ≠ DOUBLE_QUOTE ∧ c ≠ BACKSLASH) (rest : Closed s) :
      Closed (c :: s)
  | escape {d : Nat} {s : PyStr} (rest : Closed s) : Closed (BACKSLASH :: d :: s)

theorem Closed.append {s t : PyStr} (hs : ∀ c ∈ s, c ≠ DOUBLE_QUOTE ∧ c ≠ BACKSLASH)
    (ht : Closed t) : Closed (s ++ t) := by
  induction s with
  | nil => exact ht
  | cons c s ih =>
      obtain ⟨hc, hs⟩ := List.forall_mem_cons.mp hs
      exact .plain hc (ih hs)

theorem Closed.hex (width n : Nat) {t : PyStr} (ht : Closed t) : Closed (PwshPy.hex width n ++ t) := by
  apply Closed.append _ ht
  intro c hc
  have hbounds := mem_hex hc
  simp only [DOUBLE_QUOTE, BACKSLASH]
  omega

theorem Closed.unicode (n : Nat) {t : PyStr} (ht : Closed t) :
    Closed (py "\\u" ++ PwshPy.hex 4 n ++ t) := by
  have hmark : py "\\u" = [BACKSLASH, 0x75] := by decide
  rw [hmark, List.append_assoc]
  exact .escape (.hex 4 n ht)

theorem Closed.jsonChar (c : Nat) {t : PyStr} (ht : Closed t) :
    Closed (TreeReaper.jsonChar c ++ t) := by
  have hpair {mark : PyStr} {d : Nat} (h : mark = [BACKSLASH, d]) : Closed (mark ++ t) := by
    rw [h]
    exact .escape ht
  rw [TreeReaper.jsonChar]
  split
  · exact hpair rfl
  rename_i hplain
  split
  · exact hpair (d := 0x6e) (by decide)
  split
  · exact hpair (d := 0x72) (by decide)
  split
  · exact hpair (d := 0x74) (by decide)
  split
  · exact hpair (d := 0x66) (by decide)
  split
  · exact hpair (d := 0x62) (by decide)
  split
  · exact .plain (not_or.mp hplain) ht
  split
  · exact .unicode c ht
  · rw [List.append_assoc]
    exact .unicode _ (.unicode _ ht)

theorem closed_escaped (s : PyStr) : Closed (s.flatMap jsonChar) := by
  induction s with
  | nil => exact .nil
  | cons c s ih => exact .jsonChar c ih

/-- Two literals that agree have the same text. -/
theorem Closed.literal {a b rest more : PyStr} (ha : Closed a) (hb : Closed b)
    (h : a ++ DOUBLE_QUOTE :: rest <+: b ++ DOUBLE_QUOTE :: more) : a = b ∧ rest <+: more := by
  induction ha generalizing b with
  | nil =>
      cases hb with
      | nil => exact ⟨rfl, (List.cons_prefix_cons.mp h).2⟩
      | plain hc => exact absurd (List.cons_prefix_cons.mp h).1.symm hc.1
      | escape => exact absurd (List.cons_prefix_cons.mp h).1 (by decide)
  | plain hc _ ih =>
      cases hb with
      | nil => exact absurd (List.cons_prefix_cons.mp h).1 hc.1
      | plain _ hb =>
          obtain ⟨rfl, htail⟩ := List.cons_prefix_cons.mp h
          obtain ⟨rfl, hrest⟩ := ih hb htail
          exact ⟨rfl, hrest⟩
      | escape => exact absurd (List.cons_prefix_cons.mp h).1 hc.2
  | escape _ ih =>
      cases hb with
      | nil => exact absurd (List.cons_prefix_cons.mp h).1 (by decide)
      | plain hc => exact absurd (List.cons_prefix_cons.mp h).1.symm hc.2
      | escape hb =>
          obtain ⟨rfl, htail⟩ := List.cons_prefix_cons.mp (List.cons_prefix_cons.mp h).2
          obtain ⟨rfl, hrest⟩ := ih hb htail
          exact ⟨rfl, hrest⟩

theorem jsonInt_char {n : Int} {c : Nat} (h : c ∈ jsonInt n) : isDigit c = true ∨ c = 0x2d := by
  cases n with
  | ofNat n => exact Or.inl (isDigit_of_mem_decimal h)
  | negSucc n =>
      cases List.mem_cons.mp h with
      | inl hminus => exact Or.inr hminus
      | inr hdigit => exact Or.inl (isDigit_of_mem_decimal hdigit)

theorem brace_not_mem_jsonInt (n : Int) : 0x7d ∉ jsonInt n := by
  intro h
  exact absurd (jsonInt_char h) (by decide)

theorem errnoText_prefix {a b : Option Int} (h : errnoText a ++ [0x7d] <+: errnoText b ++ [0x7d]) :
    errnoText a = errnoText b := by
  have hcomma : py ", \"errno\": " = 0x2c :: py " \"errno\": " := by decide
  cases a with
  | none =>
      cases b with
      | none => rfl
      | some m =>
          rw [errnoText, errnoText, hcomma] at h
          exact absurd (List.cons_prefix_cons.mp h).1 (by decide)
  | some n =>
      cases b with
      | none =>
          rw [errnoText, errnoText, hcomma] at h
          exact absurd (List.cons_prefix_cons.mp h).1 (by decide)
      | some m =>
          rw [errnoText, errnoText, List.append_assoc, List.append_assoc,
            List.prefix_append_right_inj] at h
          rw [errnoText, errnoText,
            (Runs.prefix_of_cut (brace_not_mem_jsonInt n) (brace_not_mem_jsonInt m) h).1]

/-- An object that begins another is the other. -/
theorem encode_prefix {s t : Status} (h : encode_status s <+: encode_status t) :
    encode_status s = encode_status t := by
  have hexited : py "\"exit_code\": " = 0x22 :: 0x65 :: 0x78 :: py "it_code\": " := by decide
  have hfailed : py "\"error\": \"" = 0x22 :: 0x65 :: 0x72 :: py "ror\": \"" := by decide
  have hkilled : py "\"killed\": true" = 0x22 :: 0x6b :: py "illed\": true" := by decide
  cases s with
  | exited n =>
      cases t with
      | exited m =>
          rw [encode_exited, encode_exited, List.cons_prefix_cons, List.prefix_append_right_inj] at h
          rw [encode_exited, encode_exited,
            (Runs.prefix_of_cut (brace_not_mem_jsonInt n) (brace_not_mem_jsonInt m) h.2).1]
      | failed error message errno =>
          rw [encode_exited, encode_failed, hexited, hfailed] at h
          simp [List.cons_prefix_cons] at h
      | killed =>
          rw [encode_exited, encode_killed, hexited, hkilled] at h
          simp [List.cons_prefix_cons] at h
  | failed error message errno =>
      cases t with
      | exited m =>
          rw [encode_exited, encode_failed, hexited, hfailed] at h
          simp [List.cons_prefix_cons] at h
      | failed error' message' errno' =>
          rw [encode_failed, encode_failed, List.cons_prefix_cons, List.prefix_append_right_inj] at h
          obtain ⟨herror, h⟩ := (closed_escaped error).literal (closed_escaped error') h.2
          rw [List.prefix_append_right_inj] at h
          obtain ⟨hmessage, h⟩ := (closed_escaped message).literal (closed_escaped message') h
          rw [encode_failed, encode_failed, herror, hmessage, errnoText_prefix h]
      | killed =>
          rw [encode_failed, encode_killed, hfailed, hkilled] at h
          simp [List.cons_prefix_cons] at h
  | killed =>
      cases t with
      | exited m =>
          rw [encode_exited, encode_killed, hexited, hkilled] at h
          simp [List.cons_prefix_cons] at h
      | failed error message errno =>
          rw [encode_failed, encode_killed, hfailed, hkilled] at h
          simp [List.cons_prefix_cons] at h
      | killed => rfl

/-! ## Only the last variant ends in a letter -/

theorem jsonInt_last (n : Int) : ∃ front d, jsonInt n = front ++ [d] ∧ isDigit d = true := by
  have hdecimal (m : Nat) : ∃ front d, decimal m = front ++ [d] ∧ isDigit d = true := by
    rcases List.eq_nil_or_concat (decimal m) with hnil | ⟨front, d, hd⟩
    · simp [decimal, Nat.toDigits_ne_nil] at hnil
    · rw [List.concat_eq_append] at hd
      exact ⟨front, d, hd, isDigit_of_mem_decimal (by rw [hd]; simp)⟩
  cases n with
  | ofNat n => exact hdecimal n
  | negSucc n =>
      obtain ⟨front, d, hd, hdigit⟩ := hdecimal (n + 1)
      exact ⟨0x2d :: front, d, by rw [jsonInt, hd]; rfl, hdigit⟩

/-- What stands before the brace. -/
theorem encode_last (status : Status) : (∃ front d, encode_status status = front ++ [d, 0x7d] ∧
    d ≠ 0x65) ∨ status = .killed := by
  have hdigit {d : Nat} (h : isDigit d = true) : d ≠ 0x65 := by
    rintro rfl
    exact absurd h (by decide)
  cases status with
  | exited n =>
      obtain ⟨front, d, hd, h⟩ := jsonInt_last n
      exact Or.inl ⟨0x7b :: (py "\"exit_code\": " ++ front), d, by rw [encode_exited, hd]; simp,
        hdigit h⟩
  | failed error message errno =>
      cases errno with
      | none =>
          refine Or.inl ⟨0x7b :: (py "\"error\": \"" ++ (error.flatMap jsonChar ++ DOUBLE_QUOTE ::
            (py ", \"message\": \"" ++ message.flatMap jsonChar))), DOUBLE_QUOTE, ?_, by decide⟩
          rw [encode_failed]
          simp [errnoText]
      | some code =>
          obtain ⟨front, d, hd, h⟩ := jsonInt_last code
          refine Or.inl ⟨0x7b :: (py "\"error\": \"" ++ (error.flatMap jsonChar ++ DOUBLE_QUOTE ::
            (py ", \"message\": \"" ++ (message.flatMap jsonChar ++ DOUBLE_QUOTE ::
              (py ", \"errno\": " ++ front))))), d, ?_, hdigit h⟩
          rw [encode_failed]
          simp [errnoText, hd]
  | killed => exact Or.inr rfl

theorem oneReport_encode (status : Status) : OneReport (encode_status status) := ⟨status, rfl⟩

theorem not_oneReport_nil : ¬ OneReport [] := by
  intro h
  obtain ⟨status, hstatus⟩ := h
  cases hstatus

/-- Behind other bytes the report of a kill is no report. -/
theorem oneReport_append_killed {bytes : PyStr} :
    OneReport (bytes ++ encode_status .killed) ↔ bytes = [] := by
  constructor
  · intro h
    obtain ⟨status, hstatus⟩ := h
    cases encode_last status with
    | inl hlast =>
        obtain ⟨front, d, hfront, hd⟩ := hlast
        have hkilled : encode_status .killed = 0x7b :: py "\"killed\": tru" ++ [0x65, 0x7d] := by
          decide
        rw [hfront, hkilled, ← List.append_assoc] at hstatus
        have hends := (List.append_inj' hstatus rfl).2
        simp only [List.cons.injEq, and_true] at hends
        exact absurd hends.symm hd
    | inr hkilled =>
        rw [hkilled] at hstatus
        exact List.append_left_eq_self.mp hstatus
  · intro h
    rw [h]
    exact oneReport_encode .killed

/-- The beginning of a report is a report only when it is the whole of it. -/
theorem oneReport_prefix {bytes : PyStr} {status : Status} (h : bytes <+: encode_status status) :
    OneReport bytes ↔ bytes = encode_status status := by
  constructor
  · intro hone
    obtain ⟨other, rfl⟩ := hone
    exact encode_prefix h
  · intro hwhole
    rw [hwhole]
    exact oneReport_encode status

end PwshPy.TreeReaper
