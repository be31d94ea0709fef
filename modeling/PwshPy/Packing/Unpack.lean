import Mathlib.Data.List.Sort
import PwshPy.Storage.Directory
import PwshPy.Effects.ForEach
import PwshPy.Packing.EntrySearch
import PwshPy.Packing.Runner

/-! # Reading a pack back

`unpack_script` finds the payload in the text of a runner, opens it as a zip or
as a tar and writes its members below a directory, one after another in the
order of their names. The readers of the two archive formats are outside the
program, and so is the file system but for the files it holds. Each question of a
path may raise an error of its own.
-/

namespace PwshPy.Packing

open PathFinder (Path)
open ForEach (forEach)
open Storage (Directory)

/-! ## The library -/

/-- What the readers of an archive raise. -/
inductive LibraryError where
  | badZipFile
  | tarError
  | osError
  | zlibError
  | eofError
  | notImplementedError
  | runtimeError
  | valueError
  deriving DecidableEq

/-- `except (zipfile.BadZipFile, tarfile.TarError, OSError)` -/
def LibraryError.caught : LibraryError → Bool
  | badZipFile | tarError | osError => true
  | _ => false

/-- What `pathlib` raises, among what a library may raise. -/
def PathError.library : PathError → LibraryError
  | osError => .osError
  | runtimeError => .runtimeError
  | valueError => .valueError

structure TarMember where
  name : PyStr
  isfile : Bool
  /-- where its header stands -/
  offset : Nat

structure Library where
  /-- `data.decode("utf-8-sig", "replace")` -/
  decode : Bytes → PyStr
  /-- `base64.b64decode(text, validate=True)`, none where it raises -/
  b64decode : PyStr → Option Bytes
  sha256 : Bytes → PyStr
  /-- `zipfile.ZipFile(...).namelist()` -/
  namelist : Bytes → Except LibraryError (List PyStr)
  /-- `archive.read(name)` -/
  read : Bytes → PyStr → Except LibraryError Bytes
  /-- `tarfile.open(...).getmembers()` -/
  getmembers : Bytes → Except LibraryError (List TarMember)
  /-- `tar.extractfile(member).read()` -/
  extractfile : Bytes → TarMember → Except LibraryError Bytes

/-! ## The payload in the text -/

/-- `_slice_payload` -/
def slice_payload (lines : List PyStr) (is_open is_close : PyStr → Bool) : Option (List PyStr) :=
  match lines.dropWhile fun line => !is_open (strip line) with
  | [] => none
  | _ :: rest =>
      if rest.any fun line => is_close (strip line) then
        some (rest.takeWhile fun line => !is_close (strip line))
      else none

/-- `_decode_payload` -/
def decode_payload (lib : Library) (payload_lines : List PyStr) (source : PyStr) :
    Except PyError Bytes :=
  match lib.b64decode (payload_lines.flatMap strip) with
  | some payload => .ok payload
  | none =>
      .error (packError [.text (py "the payload in "), .text source,
        .text (py " is not valid base64: "), .exc 0])

/-- `_extract_payload` -/
def extract_payload (lib : Library) (text source : PyStr) : Except PyError (Bytes × RunnerFormat) :=
  let lines := splitlines text
  match slice_payload lines (· == PAYLOAD_OPEN) (· == PAYLOAD_CLOSE) with
  | some ps1 => (decode_payload lib ps1 source).map (·, .ps1)
  | none =>
      match slice_payload lines SH_PAYLOAD_OPEN.isSuffixOf (· == SH_HEREDOC) with
      | some sh => (decode_payload lib sh source).map (·, .sh)
      | none =>
          .error (packError [.text source,
            .text (py " does not look like a pwshpy pack (no payload block found)")])

/-- `_extract_entry_name` -/
def extract_entry_name (lines : List PyStr) : PyStr :=
  match lines with
  | [] => []
  | line :: rest =>
      let stripped := strip line
      if ENTRY_PREFIX <+: stripped ∧ [QUOTE] <:+ stripped then
        unquote_powershell_literal (stripped.drop ENTRY_PREFIX.length).dropLast
      else if SH_ENTRY_PREFIX <+: stripped ∧ [QUOTE] <:+ stripped then
        match shlex_split (stripped.drop (SH_ENTRY_PREFIX.length - 1)) with
        | some [word] => word
        | _ => []
      else extract_entry_name rest

/-! ## The destination -/

abbrev Disk := Directory Path UInt8

/-- What the file system answers about the destination directory, links followed
as they then stand. A file is known by its resolved path. -/
structure Destination where
  /-- what `Path(dest).expanduser()` raises -/
  unexpanded : Option PathError
  /-- `target.resolve()` -/
  base : Disk → Except PathError Path
  /-- `(target / name).resolve()` -/
  locate : Disk → PyStr → Except PathError Path
  isDir : Disk → Path → Bool
  /-- what `destination.exists()` raises -/
  unasked : Disk → Path → Option PathError
  /-- an `OSError` of making the directories or of writing the file, and what it leaves -/
  obstacle : Disk → Path → Option (Nat × Disk)

/-- A member as the loop takes it: its name, and what reading it gives. -/
structure Member where
  name : PyStr
  body : Except LibraryError Bytes

/-- What ends an extraction. -/
inductive Stop where
  | outside (name : PyStr)
  | exists_ (destination : Path)
  | cannot_write (destination : Path) (exc : Nat)
  | library (exc : LibraryError)
  deriving DecidableEq

section Extract

variable (place : Destination) (force : Bool)

/-- `_write_member` -/
def write_member (disk : Disk) (name : PyStr) (body : Bytes) : Disk × Except Stop Unit :=
  match place.locate disk name with
  | .error exc => (disk, .error (.library exc.library))
  | .ok destination =>
      match place.base disk with
      -- the `except` around `relative_to` takes a `ValueError` of `resolve` for its own
      | .error .valueError => (disk, .error (.outside name))
      | .error exc => (disk, .error (.library exc.library))
      | .ok base =>
          if ¬base <+: destination then (disk, .error (.outside name))
          else
            match place.unasked disk destination with
            | some exc => (disk, .error (.library exc.library))
            | none =>
                if ((disk.entry destination).isSome ∨ place.isDir disk destination) ∧ ¬force then
                  (disk, .error (.exists_ destination))
                else
                  match place.obstacle disk destination with
                  | some (exc, left) => (left, .error (.cannot_write destination exc))
                  | none => (disk.write destination body, .ok ())

/-- One turn of the loop over the members. -/
def restore (disk : Disk) (member : Member) : Disk × Except Stop PyStr :=
  match member.body with
  | .error exc => (disk, .error (.library exc))
  | .ok body =>
      match write_member place force disk member.name body with
      | (disk, .error stop) => (disk, .error stop)
      | (disk, .ok ()) => (disk, .ok member.name)

end Extract

section Members

variable (lib : Library) (payload : Bytes)

/-- The members `_extract_zip_members` goes through. -/
def zip_members : Except LibraryError (List Member) :=
  (lib.namelist payload).map fun names =>
    ((names.insertionSort fun a b => textLe a b).filter (· ≠ SHIM_MODULE)).map fun name =>
      ⟨name, lib.read payload name⟩

/-- The members `_extract_tar_members` goes through. -/
def tar_members : Except LibraryError (List Member) :=
  (lib.getmembers payload).map fun members =>
    ((members.insertionSort fun a b => textLe a.name b.name).filter fun m =>
      m.isfile ∧ m.name ≠ SHIM_MODULE).map fun m => ⟨m.name, lib.extractfile payload m⟩

def members_of : RunnerFormat → Except LibraryError (List Member)
  | .ps1 => zip_members lib payload
  | .sh => tar_members lib payload

/-- `_extract_zip_members` and `_extract_tar_members` -/
def extract (place : Destination) (fmt : RunnerFormat) (force : Bool) (disk : Disk) :
    Disk × Except Stop (List PyStr) :=
  match members_of lib payload fmt with
  | .error exc => (disk, .error (.library exc))
  | .ok members => forEach (restore place force) disk members

end Members

/-! ## `unpack_script` -/

/-- What ends `unpack_script`: an error before the payload is opened, one of a
path that nothing catches, or one of the extraction. -/
inductive Failure where
  | pack (error : PyError)
  | path (exc : PathError)
  | stopped (stop : Stop)
  deriving DecidableEq

/-- A raised exception: a `PackError`, or what a library raised. -/
inductive Raised where
  | pack (error : PyError)
  | library (exc : LibraryError)
  deriving DecidableEq

/-- What the caller sees, behind the `except` clause. -/
def Failure.raised (source target : PyStr) : Failure → Raised
  | .pack error => .pack error
  | .path exc => .library exc.library
  | .stopped (.outside name) =>
      .pack (packError [.text (py "archive member "), .repr name,
        .text (py " would be written outside "), .text target])
  | .stopped (.exists_ destination) =>
      .pack (packError [.text (pathText destination),
        .text (py " already exists; pass force to overwrite it")])
  | .stopped (.cannot_write destination exc) =>
      .pack (packError [.text (py "cannot write "), .text (pathText destination), .text (py ": "),
        .exc exc])
  | .stopped (.library exc) =>
      if exc.caught then
        .pack (packError [.text (py "the payload of "), .text source,
          .text (py " could not be unpacked: "), .exc 0])
      else .library exc

structure Unpacked where
  entry : PyStr
  files : List PyStr
  payload_sha256 : PyStr
  payload_bytes : Nat
  deriving DecidableEq

/-- A pack file, as it is looked for and read. -/
inductive Source where
  /-- what `expanduser`, `is_file` or `resolve` raises of its path -/
  | refused (exc : PathError)
  | missing
  | unreadable (exc : Nat)
  | holding (data : Bytes)

/-- `_existing_file` and `_read_bytes` of the pack file. -/
def read_source (source : PyStr) : Source → Except Failure Bytes
  | .refused exc => .error (.path exc)
  | .missing => .error (.pack (packError [.text (py "packed script not found: "), .text source]))
  | .unreadable exc =>
      .error (.pack (packError [.text (py "cannot read "), .text source, .text (py ": "),
        .exc exc]))
  | .holding data => .ok data

/-- The text of the pack file with its payload. -/
def open_pack (lib : Library) (source : PyStr) (file : Source) :
    Except Failure (PyStr × Bytes × RunnerFormat) :=
  match read_source source file with
  | .error failure => .error failure
  | .ok data =>
      match extract_payload lib (lib.decode data) source with
      | .error e => .error (.pack e)
      | .ok payload => .ok (lib.decode data, payload)

section Open

variable {lib : Library} {source : PyStr} {file : Source}

/-- Opening a pack restores nothing. -/
theorem open_pack_not_stopped {stop : Stop} :
    open_pack lib source file ≠ .error (.stopped stop) := by
  unfold open_pack
  cases file with
  | holding data =>
      cases hpayload : extract_payload lib (lib.decode data) source with
      | error e => simp [read_source, hpayload]
      | ok payload => simp [read_source, hpayload]
  | _ => simp [read_source]

/-- Of what opening a pack raises, a path that is refused alone is not mapped. -/
theorem open_pack_eq_path {exc : PathError} :
    open_pack lib source file = .error (.path exc) ↔ file = .refused exc := by
  unfold open_pack
  cases file with
  | holding data =>
      cases hpayload : extract_payload lib (lib.decode data) source with
      | error e => simp [read_source, hpayload]
      | ok payload => simp [read_source, hpayload]
  | _ => simp [read_source]

theorem open_pack_eq_ok {data : Bytes} {text : PyStr} {payload : Bytes} {fmt : RunnerFormat} :
    open_pack lib source (.holding data) = .ok (text, payload, fmt) ↔
      lib.decode data = text ∧ extract_payload lib (lib.decode data) source = .ok (payload, fmt) := by
  unfold open_pack
  cases hpayload : extract_payload lib (lib.decode data) source with
  | error e => simp [read_source, hpayload]
  | ok payload => simp [read_source, hpayload]

end Open

def unpack_script (lib : Library) (place : Destination) (source : PyStr) (file : Source)
    (force : Bool) (disk : Disk) : Disk × Except Failure Unpacked :=
  match open_pack lib source file with
  | .error failure => (disk, .error failure)
  | .ok (text, payload, fmt) =>
      match place.unexpanded with
      | some exc => (disk, .error (.path exc))
      | none =>
          match extract lib payload place fmt force disk with
          | (disk, .error stop) => (disk, .error (.stopped stop))
          | (disk, .ok written) =>
              (disk, .ok { entry := extract_entry_name (splitlines text), files := written,
                           payload_sha256 := lib.sha256 payload, payload_bytes := payload.length })

end PwshPy.Packing
