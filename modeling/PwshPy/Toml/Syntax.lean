import PwshPy.Toml.Marks

/-! # TOML documents

The grammar of TOML 1.0 as syntax trees. A tree keeps every character of its
text, so the documents are the texts the trees are written as. A number, a
boolean or a date is kept by the characters it is spelled with and no further.
-/

namespace PwshPy.Toml

/-! ## Characters -/

def isBlank (c : Nat) : Bool := c == 0x20 || c == 0x09

def isScalarValue (c : Nat) : Bool := c ≤ 0xd7ff || (0xe000 ≤ c && c ≤ 0x10ffff)

/-- What a line may hold beside its end: no control character but the tab. -/
def isPrintable (c : Nat) : Bool := c == 0x09 || (0x20 ≤ c && c != 0x7f && isScalarValue c)

def isBasicChar (c : Nat) : Bool := isPrintable c && c != 0x22 && c != 0x5c

def isLiteralChar (c : Nat) : Bool := isPrintable c && c != 0x27

def isAlnum (c : Nat) : Bool :=
  (0x30 ≤ c && c ≤ 0x39) || (0x41 ≤ c && c ≤ 0x5a) || (0x61 ≤ c && c ≤ 0x7a)

def isHexDigit (c : Nat) : Bool :=
  (0x30 ≤ c && c ≤ 0x39) || (0x41 ≤ c && c ≤ 0x46) || (0x61 ≤ c && c ≤ 0x66)

def isBareKeyChar (c : Nat) : Bool := isAlnum c || c == 0x2d || c == 0x5f

/-- What numbers, booleans and dates are spelled with: `-`, `_`, `+`, `.` and `:` too. -/
def isPlainChar (c : Nat) : Bool := isBareKeyChar c || c == 0x2b || c == 0x2e || c == 0x3a

abbrev Chars (p : Nat → Bool) := { s : PyStr // s.all p = true }

abbrev Blanks := Chars isBlank

/-! ## Strings -/

inductive Escape where
  | backspace
  | tab
  | linefeed
  | formFeed
  | carriageReturn
  | quote
  | backslash

def Escape.letter : Escape → Nat
  | backspace => 0x62
  | tab => 0x74
  | linefeed => 0x6e
  | formFeed => 0x66
  | carriageReturn => 0x72
  | quote => 0x22
  | backslash => 0x5c

def Escape.value : Escape → Nat
  | backspace => 0x08
  | tab => 0x09
  | linefeed => 0x0a
  | formFeed => 0x0c
  | carriageReturn => 0x0d
  | quote => 0x22
  | backslash => 0x5c

def hexValue (digits : PyStr) : Nat :=
  digits.foldl (fun n d => 16 * n + if d ≤ 0x39 then d - 0x30 else (d ||| 0x20) - 0x57) 0

/-- `\u` and four hexadecimal digits, or `\U` and eight. -/
structure UnicodeEscape where
  long : Bool
  digits : Chars isHexDigit
  length_eq : digits.1.length = if long then 8 else 4
  scalar : isScalarValue (hexValue digits.1) = true

inductive BasicItem where
  | char (c : Nat) (h : isBasicChar c = true)
  | escape (e : Escape)
  | unicode (u : UnicodeEscape)

namespace BasicItem

def text : BasicItem → PyStr
  | char c _ => [c]
  | escape e => [0x5c, e.letter]
  | unicode u => 0x5c :: (if u.long then 0x55 else 0x75) :: u.digits.1

def value : BasicItem → Nat
  | char c _ => c
  | escape e => e.value
  | unicode u => hexValue u.digits.1

def isBlank : BasicItem → Bool
  | char c _ => Toml.isBlank c
  | _ => false

end BasicItem

/-- One item of a multi-line basic string's body. -/
inductive FoldedItem where
  | item (i : BasicItem)
  | newline
  /-- a backslash that only blanks separate from the end of its line -/
  | fold (blanks : Blanks)

inductive RawItem where
  | char (c : Nat) (h : isLiteralChar c = true)
  | newline

/-- A string as it is written. In a multi-line one, up to two quotation marks
may stand before each item and before the closing delimiter. -/
inductive Str where
  | basic (items : List BasicItem)
  | literal (chars : Chars isLiteralChar)
  | folded (parts : List (Fin 3 × FoldedItem)) (quotes : Fin 3)
  | raw (parts : List (Fin 3 × RawItem)) (quotes : Fin 3)

def FoldedItem.marks : FoldedItem → List Mark
  | item i => quoted i.text
  | newline => [.newline (some .basic)]
  | fold blanks => quoted (0x5c :: blanks.1) ++ [.newline (some .basic)]

def RawItem.marks : RawItem → List Mark
  | char c _ => quoted [c]
  | newline => [.newline (some .literal)]

def RawItem.value : RawItem → Nat
  | char c _ => c
  | newline => LF

/-- `n` delimiters in a row. -/
def Quote.run (q : Quote) (n : Nat) : List Mark := quoted (List.replicate n q.char)

namespace Str

def marks : Str → List Mark
  | basic items => Quote.basic.run 1 ++ quoted (items.flatMap (·.text)) ++ Quote.basic.run 1
  | literal chars => Quote.literal.run 1 ++ quoted chars.1 ++ Quote.literal.run 1
  | folded parts quotes =>
      Quote.basic.run 3 ++ parts.flatMap (fun p => Quote.basic.run p.1 ++ p.2.marks) ++
        Quote.basic.run (quotes + 3)
  | raw parts quotes =>
      Quote.literal.run 3 ++ parts.flatMap (fun p => Quote.literal.run p.1 ++ p.2.marks) ++
        Quote.literal.run (quotes + 3)

/-- The body of a multi-line basic string; behind a folded line end, the blanks
and line ends up to the next other character are left out (`trims`). -/
def foldedValue (trims : Bool) : List (Fin 3 × FoldedItem) → PyStr
  | [] => []
  | (quotes, .fold _) :: parts =>
      List.replicate quotes Quote.basic.char ++ foldedValue true parts
  | (quotes, .newline) :: parts =>
      if trims ∧ quotes = 0 then foldedValue true parts
      else List.replicate quotes Quote.basic.char ++ LF :: foldedValue false parts
  | (quotes, .item i) :: parts =>
      if trims ∧ quotes = 0 ∧ i.isBlank then foldedValue true parts
      else List.replicate quotes Quote.basic.char ++ i.value :: foldedValue false parts

/-- The text a string stands for. A line end right behind the opening delimiter
of a multi-line string is not part of it. -/
def value : Str → PyStr
  | basic items => items.map (·.value)
  | literal chars => chars.1
  | folded parts quotes =>
      let body := match parts with
        | (0, .newline) :: rest => rest
        | parts => parts
      foldedValue false body ++ List.replicate quotes Quote.basic.char
  | raw parts quotes =>
      let body := match parts with
        | (0, .newline) :: rest => rest
        | parts => parts
      body.flatMap (fun p => List.replicate p.1 Quote.literal.char ++ [p.2.value]) ++
        List.replicate quotes Quote.literal.char

end Str

/-! ## Keys -/

inductive SimpleKey where
  | bare (s : Chars isBareKeyChar) (h : s.1 ≠ [])
  | basic (items : List BasicItem)
  | literal (chars : Chars isLiteralChar)

namespace SimpleKey

def marks : SimpleKey → List Mark
  | bare s _ => code s.1
  | basic items => (Str.basic items).marks
  | literal chars => (Str.literal chars).marks

def name : SimpleKey → PyStr
  | bare s _ => s.1
  | basic items => (Str.basic items).value
  | literal chars => (Str.literal chars).value

end SimpleKey

/-- A `.` with its blanks, and the part of a dotted key behind it. -/
structure DottedPart where
  before : Blanks
  after : Blanks
  key : SimpleKey

def DottedPart.marks (p : DottedPart) : List Mark :=
  code p.before.1 ++ code [0x2e] ++ code p.after.1 ++ p.key.marks

structure Key where
  first : SimpleKey
  rest : List DottedPart

namespace Key

def marks (k : Key) : List Mark := k.first.marks ++ k.rest.flatMap (·.marks)

/-- The last part of the key. -/
def last (k : Key) : SimpleKey := ((k.rest.getLast?).map (·.key)).getD k.first

end Key

/-! ## Values -/

abbrev Comment := Option (Chars isPrintable)

def commentMarks : Comment → List Mark
  | none => []
  | some s => commented (0x23 :: s.1)

/-- Blanks, line ends and comments, as they may stand around an array's elements. -/
structure Gap where
  lines : List (Blanks × Comment)
  blanks : Blanks

def Gap.marks (g : Gap) : List Mark :=
  g.lines.flatMap (fun l => code l.1.1 ++ commentMarks l.2 ++ [.newline none]) ++ code g.blanks.1

/-- A number, a boolean or a date; a date and its time may be separated by a space. -/
structure Plain where
  word : Chars isPlainChar
  nonempty : word.1 ≠ []
  time : Option (Chars isPlainChar)

def Plain.text (p : Plain) : PyStr :=
  p.word.1 ++ match p.time with
    | none => []
    | some t => 0x20 :: t.1

mutual

inductive Value where
  | str (s : Str)
  | plain (p : Plain)
  | array (elements : Elements)
  | emptyTable (blanks : Blanks)
  | table (pairs : Pairs)

/-- What stands between the brackets of an array. -/
inductive Elements where
  /-- no more elements, behind the opening bracket or a comma -/
  | done (gap : Gap)
  | last (before : Gap) (v : Value) (after : Gap)
  | more (before : Gap) (v : Value) (after : Gap) (rest : Elements)

/-- What stands between the braces of an inline table. -/
inductive Pairs where
  | last (before : Blanks) (key : Key) (left right : Blanks) (v : Value) (after : Blanks)
  | more (before : Blanks) (key : Key) (left right : Blanks) (v : Value) (after : Blanks)
      (rest : Pairs)

end

mutual

def Value.marks : Value → List Mark
  | .str s => s.marks
  | .plain p => code p.text
  | .array elements => code [0x5b] ++ elements.marks ++ code [0x5d]
  | .emptyTable blanks => code [0x7b] ++ code blanks.1 ++ code [0x7d]
  | .table pairs => code [0x7b] ++ pairs.marks ++ code [0x7d]

def Elements.marks : Elements → List Mark
  | .done gap => gap.marks
  | .last before v after => before.marks ++ v.marks ++ after.marks
  | .more before v after rest =>
      before.marks ++ v.marks ++ after.marks ++ code [0x2c] ++ rest.marks

def Pairs.marks : Pairs → List Mark
  | .last before key left right v after =>
      code before.1 ++ key.marks ++ code left.1 ++ code [0x3d] ++ code right.1 ++ v.marks ++
        code after.1
  | .more before key left right v after rest =>
      code before.1 ++ key.marks ++ code left.1 ++ code [0x3d] ++ code right.1 ++ v.marks ++
        code after.1 ++ code [0x2c] ++ rest.marks

end

structure Pair where
  key : Key
  left : Blanks
  right : Blanks
  value : Value

def Pair.marks (p : Pair) : List Mark :=
  p.key.marks ++ code p.left.1 ++ code [0x3d] ++ code p.right.1 ++ p.value.marks

mutual

/-- The strings of a value, at any depth. -/
def Value.strings : Value → List Str
  | .str s => [s]
  | .plain _ => []
  | .array elements => elements.strings
  | .emptyTable _ => []
  | .table pairs => pairs.strings

def Elements.strings : Elements → List Str
  | .done _ => []
  | .last _ v _ => v.strings
  | .more _ v _ rest => v.strings ++ rest.strings

def Pairs.strings : Pairs → List Str
  | .last _ _ _ _ v _ => v.strings
  | .more _ _ _ _ v _ rest => v.strings ++ rest.strings

end

mutual

/-- The pairs of the inline tables in a value, at any depth. -/
def Value.pairs : Value → List Pair
  | .str _ => []
  | .plain _ => []
  | .array elements => elements.pairs
  | .emptyTable _ => []
  | .table pairs => pairs.all

def Elements.pairs : Elements → List Pair
  | .done _ => []
  | .last _ v _ => v.pairs
  | .more _ v _ rest => v.pairs ++ rest.pairs

def Pairs.all : Pairs → List Pair
  | .last _ key left right v _ => ⟨key, left, right, v⟩ :: v.pairs
  | .more _ key left right v _ rest => ⟨key, left, right, v⟩ :: (v.pairs ++ rest.all)

end

/-! ## Documents -/

/-- One expression of a document; it ends with its comment, before a line end. -/
inductive Expression where
  | blank (before : Blanks) (comment : Comment)
  | pair (before : Blanks) (p : Pair) (after : Blanks) (comment : Comment)
  /-- `[key]`, or `[[key]]` for an element of an array of tables -/
  | header (before : Blanks) (double : Bool) (left : Blanks) (key : Key) (right after : Blanks)
      (comment : Comment)

namespace Expression

def bracket (double : Bool) (c : Nat) : List Mark := code (if double then [c, c] else [c])

def marks : Expression → List Mark
  | blank before comment => code before.1 ++ commentMarks comment
  | pair before p after comment =>
      code before.1 ++ p.marks ++ code after.1 ++ commentMarks comment
  | header before double left key right after comment =>
      code before.1 ++ bracket double 0x5b ++ code left.1 ++ key.marks ++ code right.1 ++
        bracket double 0x5d ++ code after.1 ++ commentMarks comment

def strings : Expression → List Str
  | pair _ p _ _ => p.value.strings
  | _ => []

def pairs : Expression → List Pair
  | pair _ p _ _ => p :: p.value.pairs
  | _ => []

end Expression

abbrev Document := List Expression

namespace Document

/-- The text of a document, each of its expressions ended by a line end. -/
def marks (doc : Document) : List Mark := doc.flatMap fun e => e.marks ++ [.newline none]

/-- Every string value of the document, in arrays and inline tables too. -/
def strings (doc : Document) : List Str := doc.flatMap (·.strings)

/-- Every key/value pair of the document, in inline tables too. -/
def pairs (doc : Document) : List Pair := doc.flatMap (·.pairs)

/-- The lines of the document, without their ends. -/
def text (doc : Document) : List PyStr := (lines (Document.marks doc)).map (·.text)

end Document

end PwshPy.Toml
