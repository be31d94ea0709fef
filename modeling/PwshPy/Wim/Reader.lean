import PwshPy.Bytes.Endian
import PwshPy.Wim.Children

/-! # Reading the images of a file

The header names where the XML is; the file may change between any two calls on it,
and each call may fail. The parser is outside, taken by what it reports of a
resource: nested tokens, chunk by chunk, and how it ends.
-/

namespace PwshPy.Wim

open Xml (View Element Content Token Builder Reported)

/-! ## The file -/

/-- The file as each call finds it, or the text of the call's `OSError`. -/
structure File where
  opened : Except PyStr Unit
  /-- what it holds when the header is read -/
  first : Except PyStr (List UInt8)
  st_size : Except PyStr Nat
  sought : Except PyStr Unit
  /-- what it holds when the resource is read -/
  later : Except PyStr (List UInt8)
  closed : Except PyStr Unit

structure Range where
  offset : Nat
  length : Nat
  deriving DecidableEq

def Range.slice (range : Range) (content : List UInt8) : List UInt8 :=
  (content.drop range.offset).take range.length

/-- What is read of the file on the way to a result. -/
structure Fetch (ε α : Type) where
  reads : List Range
  result : Except ε α

namespace Fetch

variable {ε α β : Type}

def of (result : Except ε α) : Fetch ε α := ⟨[], result⟩

def bind (x : Fetch ε α) (f : α → Fetch ε β) : Fetch ε β :=
  match x.result with
  | .error e => ⟨x.reads, .error e⟩
  | .ok a => ⟨x.reads ++ (f a).reads, (f a).result⟩

instance : Monad (Fetch ε) where
  pure a := of (.ok a)
  bind := bind

end Fetch

/-- An `OSError`, or what the reader raises itself. -/
inductive Failure where
  | os (text : PyStr)
  | raised (e : Raised)

/-- A call on the file. -/
def call {α : Type} (outcome : Except PyStr α) : Fetch Failure α := .of (outcome.mapError .os)

/-- `handle.read(size)` -/
def read (content : Except PyStr (List UInt8)) (range : Range) : Fetch Failure (List UInt8) :=
  ⟨[range], (content.map range.slice).mapError .os⟩

/-! ## The header -/

def MAX_XML_BYTES : Nat := 16 * 1024 * 1024

def MAGIC : List UInt8 := [0x4d, 0x53, 0x57, 0x49, 0x4d, 0, 0, 0]

def HEADER_SIZE : Nat := 208

/-- `_xml_location` -/
def xmlLocation (path : PyStr) (header : List UInt8) : Except Raised Range :=
  let refuse (text : PyStr) : Except Raised Range := .error (.nativeCall (path ++ py ": " ++ text))
  let size := Bytes.ofLe ((header.take 79).drop 72)
  let offset := Bytes.ofLe ((header.take 88).drop 80)
  if header.length < HEADER_SIZE then
    refuse (py "not a WIM file (shorter than the " ++ decimal HEADER_SIZE ++ py "-byte header)")
  else if header.take 8 ≠ MAGIC then refuse (py "not a WIM file (bad header magic)")
  else if header.getD 79 0 &&& 0x04 ≠ 0 then
    refuse (py "compressed XML resource (resource flag 0x04) is not supported; use DISM on Windows")
  else if size = 0 then refuse (py "the header points at no XML resource")
  else if MAX_XML_BYTES < size then
    refuse (py "XML resource of " ++ decimal size ++ py " bytes exceeds the " ++
      decimal MAX_XML_BYTES ++ py "-byte limit")
  else if offset < HEADER_SIZE then
    refuse (py "XML resource offset " ++ decimal offset ++ py " lies inside the header")
  else .ok ⟨offset, size⟩

/-- `_truncated` -/
def truncated (path : PyStr) (range : Range) (remaining : Nat) : Raised :=
  .nativeCall (path ++ py ": truncated - the XML resource at offset " ++ decimal range.offset ++
    py " needs " ++ decimal range.length ++ py " bytes, only " ++ decimal remaining ++ py " remain")

/-- The header is the first thing in the file. -/
def HEADER : Range := ⟨0, HEADER_SIZE⟩

/-- The body of the `with` in `_read_xml_resource`. -/
def fetchResource (path : PyStr) (file : File) : Fetch Failure (Range × List UInt8) := do
  let header ← read file.first HEADER
  let range ← Fetch.of ((xmlLocation path header).mapError .raised)
  let file_size ← call file.st_size
  if file_size < range.offset + range.length then
    Fetch.of (.error (.raised (truncated path range (file_size - range.offset))))
  else do
    call file.sought
    let raw ← read file.later range
    pure (range, raw)

/-- `with path.open("rb") as handle`: an `OSError` of the close takes the place of what the body did. -/
def withOpen {α : Type} (file : File) (body : Fetch Failure α) : Fetch Failure α := do
  call file.opened
  match file.closed with
  | .error text => ⟨body.reads, .error (.os text)⟩
  | .ok () => body

/-- `_read_xml_resource` -/
def readXmlResource (path : PyStr) (file : File) : Fetch Raised (List UInt8) :=
  let fetched := withOpen file (fetchResource path file)
  { reads := fetched.reads
    result := match fetched.result with
      | .error (.os text) => .error (.nativeCall (py "cannot read " ++ path ++ py ": " ++ text))
      | .error (.raised e) => .error e
      | .ok (range, raw) =>
          if raw.length ≠ range.length then .error (truncated path range raw.length) else .ok raw }

/-! ## The images -/

/-- How a parser ends early, with the text of what it raises. -/
inductive XmlError where
  | defused (text : PyStr)
  | parse (text : PyStr)
  /-- an unknown encoding is declared -/
  | lookup
  /-- a multi-byte encoding is declared -/
  | value
  deriving DecidableEq

/-- What a parser reports of a resource. -/
structure Parsed where
  chunks : List (List Token)
  ending : Except XmlError Unit
  /-- the content of the root, as far as it is whole -/
  content : Content
  nested : Reported content chunks.flatten

/-- The `except` clauses of `_top_level_elements`. -/
def raisedOf (path : PyStr) : XmlError → Raised
  | .defused text => .nativeCall (path ++
      py ": XML resource carries a DTD or entity declaration; refused (" ++ text ++ py ")")
  | .parse text => .nativeCall (path ++ py ": malformed image XML: " ++ text)
  | .lookup => .lookupError
  | .value => .valueError

def IMAGE : PyStr := py "IMAGE"

/-- The body of the loop in `iter_wim_images`. -/
def visit {ν : Type} (table : Nat → Bool) (path : PyStr) (view : View ν) (node : ν) :
    Except Raised (List WindowsImage) :=
  if view.tag node = IMAGE then (image view node table path).map fun record => [record] else .ok []

/-- What an iteration reads of the file, yields and ends with. -/
structure Iteration where
  reads : List Range
  records : List WindowsImage
  ending : Except Raised Unit

def iterWimImages (table : Nat → Bool) (parser : List UInt8 → Parsed) (path : PyStr)
    (file : File) : Iteration :=
  let resource := readXmlResource path file
  match resource.result with
  | .error e => ⟨resource.reads, [], .error e⟩
  | .ok raw =>
      let parsed := parser raw
      let (records, ending) := topLevelElements (fun b => visit table path (.stored b.nodes))
        (parsed.ending.mapError (raisedOf path)) parsed.chunks .start .empty
      ⟨resource.reads, records, ending⟩

end PwshPy.Wim
