import PwshPy.Storage.Variables
import PwshPy.Text.Quoting

/-! # Commands of `sh`

A command is read character by character: quotes and backslashes go, `"$NAME"`
and `"$@"` are replaced, a blank outside quotes ends a field. What this leaves
out (operators, patterns, newlines outside quotes, every other expansion) and an
unset variable, an error under `set -u`, have no reading.
-/

namespace PwshPy.Shell

open Storage

def BACKQUOTE : Nat := 0x60
def DOLLAR : Nat := 0x24
def AT : Nat := 0x40
def SPACE : Nat := 0x20

abbrev DOUBLE_QUOTE : Nat := Shlex.DOUBLE_QUOTE

/-- What a command can see of the shell it runs in. -/
structure Context where
  vars : Variables PyStr PyStr
  positional : List PyStr

inductive Mode where
  | plain
  | escaped
  | single
  | double
  | doubleEscaped
  | dollar
  | name (n : PyStr)

/-- How far a command has been read: the fields before this one, this one once
anything has begun it, and whether these double quotes held a `$@` of no
parameters. -/
structure Reading where
  fields : List PyStr
  field : Option PyStr
  bare : Bool
  mode : Mode

namespace Reading

/-- Outside quotes, with nothing of a field read yet. -/
def between (fields : List PyStr) : Reading := ⟨fields, none, false, .plain⟩

def push (r : Reading) (text : PyStr) : Reading := { r with field := some (r.field.getD [] ++ text) }

def endField (r : Reading) : Reading := { r with fields := r.fields ++ r.field.toList, field := none }

/-- `"$@"`: the first parameter joins what stands before it, the last what
follows, and no parameter is no field. -/
def spread (r : Reading) : List PyStr → Reading
  | [] => { r with bare := true }
  | [p] => r.push p
  | p :: q :: rest => (r.push p).endField.spread (q :: rest)

/-- The quotes end: `""` is a field, a bare `"$@"` is none. -/
def endDouble (r : Reading) : Reading :=
  { r with field := if r.bare then r.field else some (r.field.getD []), bare := false, mode := .plain }

end Reading

def isBlank (c : Nat) : Bool := c == SPACE || c == 0x09

def isLetter (c : Nat) : Bool := (0x41 ≤ c && c ≤ 0x5a) || (0x61 ≤ c && c ≤ 0x7a)

def isNameStart (c : Nat) : Bool := isLetter c || c == 0x5f

def isNameChar (c : Nat) : Bool := isNameStart c || isDigit c

/-- Letters, digits and `_`, `-`, `.`, `/`, which mean themselves outside quotes. -/
def isOrdinary (c : Nat) : Bool := isNameChar c || c == 0x2d || c == 0x2e || c == 0x2f

def stepDouble (r : Reading) (c : Nat) : Option Reading :=
  if c = DOUBLE_QUOTE then some r.endDouble
  else if c = BACKSLASH then some { r with mode := .doubleEscaped }
  else if c = DOLLAR then some { r with mode := .dollar }
  else if c = BACKQUOTE then none
  else some (r.push [c])

/-- Read one character. A command holds no NUL. -/
def step (sh : Context) (r : Reading) (c : Nat) : Option Reading :=
  if c = 0 then none
  else
    match r.mode with
    | .plain =>
        if c = QUOTE then some { r.push [] with mode := .single }
        else if c = DOUBLE_QUOTE then some { r with mode := .double }
        else if c = BACKSLASH then some { r with mode := .escaped }
        else if isBlank c then some r.endField
        else if isOrdinary c then some (r.push [c])
        else none
    | .escaped =>
        if c = LF then some { r with mode := .plain } else some { r.push [c] with mode := .plain }
    | .single => if c = QUOTE then some { r with mode := .plain } else some (r.push [c])
    | .double => stepDouble r c
    | .doubleEscaped =>
        if c = LF then some { r with mode := .double }
        else if c ∈ [DOLLAR, BACKQUOTE, DOUBLE_QUOTE, BACKSLASH] then
          some { r.push [c] with mode := .double }
        else some { r.push [BACKSLASH, c] with mode := .double }
    | .dollar =>
        if c = AT then some { r.spread sh.positional with mode := .double }
        else if isNameStart c then some { r with mode := .name [c] }
        else none
    | .name n =>
        if isNameChar c then some { r with mode := .name (n ++ [c]) }
        else
          match sh.vars n with
          | none => none
          | some value => stepDouble { r.push value with mode := .double } c

def read (sh : Context) (r : Reading) (text : PyStr) : Option Reading := text.foldlM (step sh) r

/-- The command ends: no quote may be open. -/
def finish (r : Reading) : Option (List PyStr) :=
  match r.mode with
  | .plain => some r.endField.fields
  | _ => none

def fieldsOf (sh : Context) (text : PyStr) : Option (List PyStr) :=
  (read sh (.between []) text).bind finish

/-- `n=text`: the one word of the text, neither split nor joined. -/
def assignment (sh : Context) (n text : PyStr) : Option Context :=
  match fieldsOf sh text with
  | some [value] => some { sh with vars := sh.vars.set n value }
  | _ => none

/-- `" ".join(texts)` -/
def joined (texts : List PyStr) : PyStr := List.intercalate [SPACE] texts

/-- `set -- parameters` and `eval text`, an `eval` inside another at most so
many levels deep. -/
def run (sh : Context) : Nat → PyStr → Option Context
  | 0, _ => none
  | depth + 1, text =>
      match fieldsOf sh text with
      | some (command :: arguments) =>
          if command = py "eval" then run sh depth (joined arguments)
          else if command = py "set" ∧ arguments.head? = some (py "--") then
            some { sh with positional := arguments.tail }
          else none
      | _ => none

/-! ## Reading on -/

variable {sh : Context} {r r' : Reading} {fields : List PyStr} {field : Option PyStr}

@[simp] theorem read_nil : read sh r [] = some r := rfl

theorem read_cons (c : Nat) (text : PyStr) :
    read sh r (c :: text) = (step sh r c).bind (read sh · text) := rfl

theorem read_append (a b : PyStr) : read sh r (a ++ b) = (read sh r a).bind (read sh · b) :=
  List.foldlM_append

theorem read_of_read {a : PyStr} (h : read sh r a = some r') (b : PyStr) :
    read sh r (a ++ b) = read sh r' b := by
  rw [read_append, h, Option.bind_some]

/-- What has been read holds no NUL. -/
theorem zero_not_mem_of_read {text : PyStr} (h : read sh r text = some r') : 0 ∉ text := by
  induction text generalizing r with
  | nil => exact List.not_mem_nil
  | cons c text ih =>
      rw [read_cons] at h
      obtain ⟨next, hstep, hlater⟩ := Option.bind_eq_some_iff.mp h
      have hc : c ≠ 0 := by
        intro hc
        rw [step, if_pos hc] at hstep
        cases hstep
      rw [List.mem_cons, not_or]
      exact ⟨Ne.symm hc, ih hlater⟩

theorem step_single {c : Nat} (hzero : c ≠ 0) (hquote : c ≠ QUOTE) {bare : Bool} :
    step sh ⟨fields, field, bare, .single⟩ c =
      some ⟨fields, some (field.getD [] ++ [c]), bare, .single⟩ := by
  simp [step, hzero, hquote, Reading.push]

/-- A quote of the value ends the quotes, stands behind a backslash, and opens
the next ones. -/
theorem read_quote_written {w : PyStr} {bare : Bool} :
    read sh ⟨fields, some w, bare, .single⟩ [QUOTE, BACKSLASH, QUOTE, QUOTE] =
      some ⟨fields, some (w ++ [QUOTE]), bare, .single⟩ := by
  show some (⟨fields, some (w ++ [QUOTE] ++ []), bare, .single⟩ : Reading) = _
  rw [List.append_nil]

theorem read_escaped {value : PyStr} (hzero : 0 ∉ value) {w : PyStr} {bare : Bool} :
    read sh ⟨fields, some w, bare, .single⟩ (escaped value ++ [QUOTE]) =
      some ⟨fields, some (w ++ value), bare, .plain⟩ := by
  induction value generalizing w with
  | nil =>
      rw [List.append_nil]
      rfl
  | cons c value ih =>
      simp only [List.mem_cons, not_or] at hzero
      have hlater := @ih hzero.2
      simp only [escaped, List.flatMap_cons, List.append_assoc] at hlater ⊢
      by_cases hc : c = QUOTE
      · subst hc
        rw [if_pos rfl, read_of_read read_quote_written, hlater, List.append_assoc]
        rfl
      · rw [if_neg hc, List.singleton_append, read_cons, step_single (Ne.symm hzero.1) hc,
          Option.bind_some, Option.getD_some, hlater, List.append_assoc]
        rfl

/-! ## What a text stands for inside a word -/

/-- Wherever it stands outside quotes, the text adds this value to its word. -/
def Renders (sh : Context) (text value : PyStr) : Prop :=
  ∀ fields field, read sh ⟨fields, field, false, .plain⟩ text =
    some ⟨fields, some (field.getD [] ++ value), false, .plain⟩

namespace Renders

variable {a b v w : PyStr}

theorem append (ha : Renders sh a v) (hb : Renders sh b w) : Renders sh (a ++ b) (v ++ w) := by
  intro fields field
  rw [read_of_read (ha fields field), hb fields, Option.getD_some, List.append_assoc]

theorem word {value : PyStr} (hzero : 0 ∉ value) : Renders sh (posix_shell_word value) value := by
  intro fields field
  have hopen : step sh ⟨fields, field, false, .plain⟩ QUOTE =
      some ⟨fields, some (field.getD []), false, .single⟩ := by
    show some (⟨fields, some (field.getD [] ++ []), false, .single⟩ : Reading) = _
    rw [List.append_nil]
  rw [posix_shell_word, read_cons, hopen, Option.bind_some, read_escaped hzero]

end Renders

/-! ## Variables -/

/-- A variable's name. -/
structure IsName (n : PyStr) : Prop where
  begins : ∃ c rest, n = c :: rest ∧ isNameStart c = true
  chars : ∀ c ∈ n, isNameChar c = true

theorem read_name {n m : PyStr} (hname : ∀ c ∈ m, isNameChar c = true) {bare : Bool} :
    read sh ⟨fields, field, bare, .name n⟩ m = some ⟨fields, field, bare, .name (n ++ m)⟩ := by
  induction m generalizing n with
  | nil => rw [List.append_nil, read_nil]
  | cons c m ih =>
      simp only [List.mem_cons, forall_eq_or_imp] at hname
      have hzero : c ≠ 0 := by
        intro hc
        subst hc
        exact absurd hname.1 (by decide)
      rw [read_cons, step, if_neg hzero]
      simp only [hname.1, if_true, Option.bind_some]
      rw [ih hname.2, List.append_assoc, List.singleton_append]

/-- A variable is replaced once a character ends its name; the character is then
read in the quotes around it. -/
theorem read_variable {n v : PyStr} (hname : IsName n) (hvar : sh.vars n = some v) {c : Nat}
    (hends : isNameChar c = false) (hzero : c ≠ 0) {bare : Bool} (rest : PyStr) :
    read sh ⟨fields, field, bare, .double⟩ (DOLLAR :: (n ++ c :: rest)) =
      read sh ⟨fields, some (field.getD [] ++ v), bare, .double⟩ (c :: rest) := by
  obtain ⟨d, m, hn, hstart⟩ := hname.begins
  have hat : d ≠ AT := by
    intro hd
    subst hd
    exact absurd hstart (by decide)
  have hd : d ≠ 0 := by
    intro hd
    subst hd
    exact absurd hstart (by decide)
  have hopen : read sh ⟨fields, field, bare, .double⟩ [DOLLAR, d] =
      some ⟨fields, field, bare, .name [d]⟩ := by
    show (step sh ⟨fields, field, bare, .dollar⟩ d).bind some = _
    rw [step, if_neg hd]
    simp only [if_neg hat, hstart, if_true, Option.bind_some]
  have hwhole : read sh ⟨fields, field, bare, .double⟩ (DOLLAR :: n) =
      some ⟨fields, field, bare, .name n⟩ := by
    have hm : ∀ c ∈ m, isNameChar c = true := fun c hc =>
      hname.chars c (hn ▸ List.mem_cons_of_mem d hc)
    show read sh _ ([DOLLAR] ++ n) = _
    rw [hn, show [DOLLAR] ++ d :: m = [DOLLAR, d] ++ m from rfl]
    exact (read_of_read hopen m).trans (read_name hm)
  rw [← List.cons_append, read_of_read hwhole, read_cons, read_cons, step, step, if_neg hzero,
    if_neg hzero]
  simp only [hends, hvar, Bool.false_eq_true, if_false]
  rfl

/-- `"$NAME"` adds the variable's value whole, whatever stands in it. -/
theorem Renders.variable {n v : PyStr} (hname : IsName n) (hvar : sh.vars n = some v) :
    Renders sh (DOUBLE_QUOTE :: DOLLAR :: (n ++ [DOUBLE_QUOTE])) v := by
  intro fields field
  show read sh ⟨fields, field, false, .double⟩ (DOLLAR :: (n ++ [DOUBLE_QUOTE])) = _
  rw [read_variable hname hvar (by decide) (by decide)]
  rfl

/-! ## Lists of words -/

theorem joined_cons_cons (a b : PyStr) (texts : List PyStr) :
    joined (a :: b :: texts) = a ++ SPACE :: joined (b :: texts) := by
  simp [joined, List.intercalate_cons_cons]

/-- Words with blanks between them and one behind are read as their values. -/
theorem read_joined {texts values : List PyStr} (h : List.Forall₂ (Renders sh) texts values) :
    read sh (.between fields) (joined texts ++ [SPACE]) = some (.between (fields ++ values)) := by
  induction h generalizing fields with
  | nil =>
      show some (Reading.between (fields ++ [])) = _
      rfl
  | @cons text value texts values hhead htail ih =>
      have hfirst : read sh (.between fields) (text ++ [SPACE]) =
          some (.between (fields ++ [value])) := by
        exact (read_of_read (hhead fields none) [SPACE]).trans rfl
      cases htail with
      | nil =>
          show read sh _ (joined [text] ++ [SPACE]) = _
          rw [joined, List.intercalate_singleton, hfirst]
      | cons hnext hlater =>
          rw [joined_cons_cons, List.append_assoc, List.cons_append, ← List.singleton_append,
            ← List.append_assoc, read_of_read hfirst, ih, List.append_assoc, List.singleton_append]

theorem zero_not_mem_joined {texts values : List PyStr} (h : List.Forall₂ (Renders sh) texts values) :
    0 ∉ joined texts := by
  have hread := zero_not_mem_of_read (@read_joined sh [] _ _ h)
  rw [List.mem_append, not_or] at hread
  exact hread.1

/-- `n=word` gives the variable what the word was written from. -/
theorem assignment_word {n value : PyStr} (hzero : 0 ∉ value) :
    assignment sh n (posix_shell_word value) = some { sh with vars := sh.vars.set n value } := by
  have hread : fieldsOf sh (posix_shell_word value) = some [value] := by
    rw [fieldsOf, Reading.between, Renders.word hzero]
    rfl
  rw [assignment, hread]

theorem Reading.spread_cons (p : PyStr) (rest : List PyStr) (r : Reading) :
    ∃ before last, r.spread (p :: rest) = { r with fields := before, field := some last } ∧
      before ++ [last] = r.fields ++ (r.field.getD [] ++ p) :: rest := by
  induction rest generalizing p r with
  | nil => exact ⟨_, _, rfl, rfl⟩
  | cons q rest ih =>
      obtain ⟨before, last, hspread, hall⟩ := ih q (r.push p).endField
      refine ⟨before, last, ?_, ?_⟩
      · rw [Reading.spread, hspread]
        rfl
      · rw [hall]
        show r.fields ++ [r.field.getD [] ++ p] ++ ([] ++ q) :: rest = _
        rw [List.append_assoc]
        rfl

/-- `"$@"` by itself is the parameters, as many fields as there are. -/
theorem fields_spread : (read sh (.between fields) (py "\"$@\"")).bind finish =
    some (fields ++ sh.positional) := by
  show finish ({ Reading.spread ⟨fields, none, false, .dollar⟩ sh.positional with
    mode := .double } : Reading).endDouble = _
  cases hp : sh.positional with
  | nil => rfl
  | cons p rest =>
      obtain ⟨before, last, hspread, hall⟩ :=
        Reading.spread_cons p rest ⟨fields, none, false, .dollar⟩
      rw [hspread]
      show some (before ++ [last]) = _
      rw [hall]
      rfl

/-! ## A list kept in a variable -/

/-- `eval "set -- $NAME \"\$@\""` -/
def setFrom (n : PyStr) : PyStr :=
  py "eval \"set -- $" ++ (n ++ py " \\\"\\$@\\\"\"")

theorem fields_setFrom {n v : PyStr} (hname : IsName n) (hvar : sh.vars n = some v) :
    fieldsOf sh (setFrom n) = some [py "eval", py "set -- " ++ (v ++ py " \"$@\"")] := by
  have hopen : read sh (.between []) (py "eval \"set -- ") =
      some ⟨[py "eval"], some (py "set -- "), false, .double⟩ := rfl
  have htext : setFrom n =
      py "eval \"set -- " ++ DOLLAR :: (n ++ SPACE :: py "\\\"\\$@\\\"\"") := by
    simp [setFrom, py, DOLLAR, SPACE]
  have hclose : read sh ⟨[py "eval"], some (py "set -- " ++ v), false, .double⟩
      (SPACE :: py "\\\"\\$@\\\"\"") =
      some ⟨[py "eval"], some (((((py "set -- " ++ v) ++ [SPACE]) ++ [DOUBLE_QUOTE]) ++ [DOLLAR]) ++
        [AT] ++ [DOUBLE_QUOTE]), false, .plain⟩ := rfl
  rw [fieldsOf, htext, read_of_read hopen, read_variable hname hvar (by decide) (by decide),
    Option.getD_some, hclose]
  simp only [List.append_assoc]
  rfl

/-- The words of the list come first, then the parameters there were. -/
theorem run_setFrom {n : PyStr} (hname : IsName n) {texts values : List PyStr}
    (hvar : sh.vars n = some (joined texts)) (h : List.Forall₂ (Renders sh) texts values)
    (depth : Nat) :
    run sh (depth + 2) (setFrom n) = some { sh with positional := values ++ sh.positional } := by
  have hset : read sh (.between []) (py "set -- ") =
      some (.between [py "set", py "--"]) := rfl
  have hinner : fieldsOf sh (py "set -- " ++ (joined texts ++ py " \"$@\"")) =
      some (py "set" :: py "--" :: (values ++ sh.positional)) := by
    show (read sh (.between []) (py "set -- " ++ (joined texts ++ ([SPACE] ++ py "\"$@\"")))).bind
      finish = _
    rw [read_of_read hset, ← List.append_assoc, read_of_read (read_joined h), fields_spread]
    rfl
  rw [run, fields_setFrom hname hvar]
  simp only [if_true]
  rw [joined, List.intercalate_singleton, run, hinner]
  rfl

end PwshPy.Shell
