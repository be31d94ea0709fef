import PwshPy.Text.Repr
import PwshPy.Xml.Paths

/-! # The record of one image

What `_image` reads of an `IMAGE` element. It asks through a view, so that it reads
a node of the parser's store and a whole element alike.
-/

namespace PwshPy.Wim

open Xml (View Element Node)

/-- An exception: a `NativeCallError`, or one that is not caught. -/
inductive Raised where
  | nativeCall (message : PyStr)
  | lookupError
  | valueError
  deriving DecidableEq

def Raised.isNativeCallError : Raised → Bool
  | nativeCall _ => true
  | lookupError | valueError => false

inductive ImageArchitecture where
  | X86
  | ARM
  | IA64
  | X64
  | ARM64
  | UNKNOWN
  deriving DecidableEq

structure WindowsImage where
  index : Nat
  name : PyStr
  description : PyStr
  edition_id : PyStr
  installation_type : PyStr
  architecture : ImageArchitecture
  version : PyStr
  build : Nat
  sp_build : Nat
  languages : List PyStr
  default_language : PyStr
  size_bytes : Nat
  deriving DecidableEq

/-- The numbers of a record. -/
def WindowsImage.numbers (image : WindowsImage) : List Nat :=
  [image.index, image.build, image.sp_build, image.size_bytes]

/-! ## Texts and numbers -/

/-- `_DECIMAL.fullmatch(value)` -/
def isDecimal (value : PyStr) : Bool :=
  1 ≤ value.length && value.length ≤ 20 && value.all isDigit

/-- `int(value)` of such a text. -/
def intOf (value : PyStr) : Nat := value.foldl (fun n c => 10 * n + (c - 0x30)) 0

section Fields

variable {ν : Type} (view : View ν) (node : ν)

/-- `_text_of` -/
def textOf : PyStr := strip ((view.text node).getD [])

/-- `_text` -/
def text (path : List PyStr) : PyStr :=
  match view.find node path with
  | some found => textOf view found
  | none => []

/-- `_decimal` -/
def decimalText (path : List PyStr) : Option PyStr :=
  let value := text view node path
  if isDecimal value then some value else none

/-- `_int` -/
def int (path : List PyStr) : Nat :=
  match decimalText view node path with
  | some value => intOf value
  | none => 0

/-- A key of `_ARCH`, or any other number. -/
def archOf : Nat → ImageArchitecture
  | 0 => .X86
  | 5 => .ARM
  | 6 => .IA64
  | 9 => .X64
  | 12 => .ARM64
  | _ => .UNKNOWN

/-- `_architecture` -/
def architecture : ImageArchitecture :=
  match decimalText view node [py "WINDOWS", py "ARCH"] with
  | some value => archOf (intOf value)
  | none => .UNKNOWN

/-- `_version` -/
def version : PyStr :=
  let parts := [py "MAJOR", py "MINOR", py "BUILD", py "SPBUILD"].map fun part =>
    decimalText view node [py "WINDOWS", py "VERSION", part]
  let numbers := parts.filterMap fun part => part.map fun value => decimal (intOf value)
  if numbers.length = parts.length then (py ".").intercalate numbers else []

def INDEX : PyStr := py "INDEX"

def BUILD : List PyStr := [py "WINDOWS", py "VERSION", py "BUILD"]

def SPBUILD : List PyStr := [py "WINDOWS", py "VERSION", py "SPBUILD"]

def TOTALBYTES : List PyStr := [py "TOTALBYTES"]

/-- `_index`, with what of Unicode's characters is printable and the path of the file. -/
def index (table : Nat → Bool) (path : PyStr) : Except Raised Nat :=
  let value := view.get node INDEX []
  if !isDecimal value then
    .error (.nativeCall (path ++ py ": an <IMAGE> has no numeric INDEX attribute (" ++
      pyRepr table value ++ py ")"))
  else .ok (intOf value)

/-- `_image` -/
def image (table : Nat → Bool) (path : PyStr) : Except Raised WindowsImage := do
  let index ← index view node table path
  pure {
    index
    name := text view node [py "NAME"]
    description := text view node [py "DESCRIPTION"]
    edition_id := text view node [py "WINDOWS", py "EDITIONID"]
    installation_type := text view node [py "WINDOWS", py "INSTALLATIONTYPE"]
    architecture := architecture view node
    version := version view node
    build := int view node BUILD
    sp_build := int view node SPBUILD
    languages := ((view.findall node [py "WINDOWS", py "LANGUAGES", py "LANGUAGE"]).map
      (textOf view)).filter fun lang => !lang.isEmpty
    default_language := text view node [py "WINDOWS", py "LANGUAGES", py "DEFAULT"]
    size_bytes := int view node TOTALBYTES }

end Fields

/-! ## In the store -/

section Held

variable {nodes : Nat → Node} {id : Nat} {x : Element}

theorem textOf_held (h : x.Held nodes id) :
    textOf (.stored nodes) id = textOf .element x := by
  rw [textOf, textOf, h.text]

theorem text_held (h : x.Held nodes id) (path : List PyStr) :
    text (.stored nodes) id path = text .element x path := by
  have hfind := h.find path
  unfold text
  generalize (View.stored nodes).find id path = found at hfind ⊢
  generalize View.element.find x path = found' at hfind ⊢
  cases hfind with
  | none => rfl
  | some hfound => exact textOf_held hfound

theorem decimalText_held (h : x.Held nodes id) (path : List PyStr) :
    decimalText (.stored nodes) id path = decimalText .element x path := by
  rw [decimalText, decimalText, text_held h]

theorem int_held (h : x.Held nodes id) (path : List PyStr) :
    int (.stored nodes) id path = int .element x path := by
  rw [int, int, decimalText_held h]

theorem languages_held (h : x.Held nodes id) (path : List PyStr) :
    ((View.stored nodes).findall id path).map (textOf (.stored nodes)) =
      (View.element.findall x path).map (textOf .element) := by
  have hall := h.findall path
  generalize (View.stored nodes).findall id path = ids at hall ⊢
  generalize View.element.findall x path = xs at hall ⊢
  induction hall with
  | nil => rfl
  | cons hfirst _ ih => rw [List.map_cons, List.map_cons, textOf_held hfirst, ih]

/-- A node gives the record of the element it holds. -/
theorem image_held (h : x.Held nodes id) (table : Nat → Bool) (path : PyStr) :
    image (.stored nodes) id table path = image .element x table path := by
  simp only [image, index, architecture, version, h.get, text_held h, decimalText_held h,
    int_held h, languages_held h]

end Held

end PwshPy.Wim
