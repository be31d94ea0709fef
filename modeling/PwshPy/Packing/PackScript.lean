import PwshPy.Bytes.Base64
import PwshPy.Files.TextFile
import PwshPy.Packing.GitSource
import PwshPy.Packing.RequiresPython
import PwshPy.Packing.ShimSource
import PwshPy.Packing.Unpack
import PwshPy.Packing.UvArgs

/-! # Packing a script

`pack_script` collects the sources, builds a zip or a tar of them with the shim,
renders a runner that carries it and writes that to the destination. What each
step raises is kept apart: some calls of the library are wrapped and some are not.
-/

namespace PwshPy.Packing

open PathFinder (Path)
open Files (encode encode_char normalize_newlines BOM_BYTES)

/-- What lies outside the packer. -/
structure Packer where
  /-- `ast.parse` of a source's text -/
  parse : Bytes → Except Nat Node
  stdlib_module_names : List PyStr
  /-- what `str.isprintable` says of a character -/
  printable : Nat → Bool
  /-- `body.decode("utf-8", "replace")` -/
  decode : Bytes → PyStr
  sha256 : Bytes → Bytes
  /-- the bytes of the zip with these members -/
  zip : List (PyStr × Bytes) → Bytes
  /-- the bytes of the tar with these members -/
  tar : List (PyStr × Bytes) → Bytes
  /-- `_TEMPLATE_PATHS[fmt].read_text(encoding="utf-8")` -/
  template : RunnerFormat → Except Nat (List TemplateLine)

/-- `PackOptions`, its format settled. -/
structure PackOptions where
  incl : List Path
  with_packages : List PyStr
  /-- `Path(options.root).expanduser().resolve()`, where a root is given -/
  root : Option (Except PathError Path)
  format : RunnerFormat
  force : Bool

/-- The destination of a pack, and what the file system answers about it. -/
structure Output where
  text : PyStr
  /-- what `Path(dest).expanduser()` raises, where a destination is given -/
  unexpanded : Option PathError
  /-- where `destination.resolve()` leads -/
  resolved : Path
  /-- what `destination.resolve()` raises -/
  unresolved : Option PathError
  isDir : Bool
  /-- what `destination.exists()` raises -/
  unasked : Option PathError
  /-- an `OSError` of `destination.parent.mkdir` -/
  mkdir : Option Nat
  /-- an `OSError` of the write: whether it is a denied access, and what it leaves -/
  obstacle : Disk → Option (Bool × Disk)

/-- `hashlib.sha256(data).hexdigest()` -/
def hexdigest (packer : Packer) (data : Bytes) : PyStr :=
  (packer.sha256 data).flatMap fun b => hex 2 b.toNat

/-- `path.as_posix()` of a relative path. -/
def as_posix (path : Path) : PyStr := joinWith (py "/") path

/-! ## The two archives -/

/-- `_build_archive`: a name is encoded in UTF-8. -/
def build_archive (packer : Packer) (members : List (PyStr × Bytes)) : Except PyError Bytes :=
  if members.any fun m => m.1.any isSurrogate then .error (uncaught .unicodeEncodeError)
  else .ok (packer.zip members)

/-- `text.encode("utf-8", "surrogateescape")` -/
def fsencode : PyStr → Option Bytes
  | [] => some []
  | c :: text =>
      (if 0xdc80 ≤ c ∧ c ≤ 0xdcff then some [UInt8.ofNat (c - 0xdc00)]
      else encode_char .utf_8 c).bind fun data => (fsencode text).map (data ++ ·)

/-- The text has at most so many bytes. -/
def fitsIn (limit : Nat) (text : PyStr) : Bool := (fsencode text).any fun data => data.length ≤ limit

/-- A text cut at each of its slashes. -/
def slash_cuts : PyStr → List (PyStr × PyStr)
  | [] => []
  | c :: rest =>
      let later := (slash_cuts rest).map fun cut => (c :: cut.1, cut.2)
      if c = 0x2f then ([], rest) :: later else later

def LENGTH_NAME : Nat := 100
def LENGTH_PREFIX : Nat := 155

/-- The first size a header of twelve octal digits has no room for. -/
def SIZE_LIMIT : Nat := 8 ^ 11

/-- What `TarInfo.tobuf` raises in the USTAR format. -/
def ustar_error (member : PyStr × Bytes) : Option PyError :=
  match fsencode member.1 with
  | none => some (uncaught .unicodeEncodeError)
  | some name =>
      if LENGTH_NAME < name.length ∧
          ¬(slash_cuts member.1).any fun cut => fitsIn LENGTH_PREFIX cut.1 && fitsIn LENGTH_NAME cut.2 then
        some (uncaught .valueError)
      else if SIZE_LIMIT ≤ member.2.length then some (uncaught .valueError)
      else none

/-- `_build_tar_archive` -/
def build_tar_archive (packer : Packer) (members : List (PyStr × Bytes)) : Except PyError Bytes :=
  match members.findSome? ustar_error with
  | some e => .error e
  | none => .ok (packer.tar members)

def build (packer : Packer) : RunnerFormat → List (PyStr × Bytes) → Except PyError Bytes
  | .ps1 => build_archive packer
  | .sh => build_tar_archive packer

/-! ## The members -/

/-- `_guard_destination` -/
def guard_destination (out : Output) (force : Bool) (disk : Disk) (sources : List Path) :
    Except PyError Unit :=
  match out.unresolved with
  | some exc => .error (uncaught exc.cls)
  | none =>
      if sources.contains out.resolved then
        .error (packError [.text (py "the destination "), .text out.text,
          .text (py " is one of the files being packed")])
      else
        match out.unasked with
        | some exc => .error (uncaught exc.cls)
        | none =>
            if ((disk.entry out.resolved).isSome ∨ out.isDir) ∧ ¬force then
              .error (packError [.text out.text,
                .text (py " already exists; pass force to overwrite it")])
            else .ok ()

/-- What a runner is made of. -/
structure Prepared where
  entry_arc : PyStr
  /-- in the order of their names -/
  members : List (PyStr × Bytes)
  metadata : PyStr
  external : List PyStr

section Prepare

variable (packer : Packer) (tree : SourceTree) (options : PackOptions)

/-- The import root: the entry's directory when none is given. -/
def root_path (entry_path : tree.File) : Except PathError Path :=
  options.root.getD (.ok entry_path.val.dropLast)

/-- The entry and the root, once the destination is expanded too. -/
def find_paths (entry : Path) (out : Output) : Except PyError (tree.File × Path) :=
  match existing_file tree entry (py "entry script") with
  | .error e => .error e
  | .ok entry_path =>
      match root_path tree options entry_path with
      | .error exc => .error (uncaught exc.cls)
      | .ok root =>
          match out.unexpanded with
          | some exc => .error (uncaught exc.cls)
          | none => .ok (entry_path, root)

/-- The members and the block, from the sources that were collected. -/
def prepare_members (root : Path) (entry_path : tree.File) (sources : Collected tree) :
    Except PyError Prepared :=
  match relative_to entry_path.val root with
  | none => .error (uncaught .valueError)
  | some entry_arc =>
      let members := (archive_members root sources.found).map fun m => (as_posix m.1, m.2)
      match extract_script_metadata (packer.decode ((sources.found.lookup entry_path).getD [])) with
      | .error e => .error e
      | .ok metadata =>
          if members.any fun m => m.1 == SHIM_MODULE then
            .error (packError [.text (py "a file to pack is named "), .repr SHIM_MODULE,
              .text (py (", which is reserved for the generated entry " ++
                "shim; rename it so the pack does not silently overwrite it"))])
          else
            match encode .utf_8 (render_shim packer.printable (as_posix entry_arc) metadata) with
            | none => .error (uncaught .unicodeEncodeError)
            | some shim =>
                .ok { entry_arc := as_posix entry_arc
                      members := (members ++ [(SHIM_MODULE, shim)]).insertionSort fun a b =>
                        textLe a.1 b.1
                      metadata, external := sources.external }

/-- `pack_script` up to the archive. -/
def prepare (entry : Path) (out : Output) (disk : Disk) : Except PyError Prepared :=
  match find_paths tree options entry out with
  | .error e => .error e
  | .ok (entry_path, root) =>
      match (collect_sources packer.parse packer.stdlib_module_names tree root entry_path
          options.incl).2 with
      | .error e => .error e
      | .ok sources =>
          match guard_destination out options.force disk
              ((Worklist.keys sources.found).map (·.val)) with
          | .error e => .error e
          | .ok () => prepare_members packer tree root entry_path sources

end Prepare

/-! ## The runner -/

/-- The pieces of `chunk_base64`. -/
def base64_lines (width : Nat) : Nat → PyStr → List PyStr
  | 0, _ => []
  | _ + 1, [] => []
  | n + 1, blob => blob.take width :: base64_lines width n (blob.drop width)

def chunk_base64 (blob : PyStr) : PyStr := joinWith [LF] (base64_lines 120 blob.length blob)

theorem mem_strip {c : Nat} {text : PyStr} (h : c ∈ strip text) : c ∈ text := by
  have hbegins := List.rdropWhile_prefix isSpace (text.dropWhile isSpace)
  exact (List.dropWhile_suffix isSpace).subset (hbegins.subset h)

theorem find_requires_python_chars {depth : Int} {open_string : Option Delimiter}
    {lines : List PyStr} {value : PyStr}
    (h : find_requires_python depth open_string lines = .ok value) :
    ∀ c ∈ value, isSpecifierChar c = true := by
  induction lines generalizing depth open_string with
  | nil =>
      cases h
      exact fun c hc => absurd hc List.not_mem_nil
  | cons raw rest ih =>
      rw [find_requires_python] at h
      split_ifs at h
      · cases h
        exact fun c hc => absurd hc List.not_mem_nil
      · unfold requires_python_value at h
        split at h
        · cases h
        · split at h
          · rename_i hall
            cases h
            exact fun c hc => List.all_eq_true.mp hall c (mem_strip hc)
          · cases h
      · exact ih h

/-- `extract_requires_python(metadata)`, as the content of a runner has it. -/
def python_request (metadata : PyStr) : Except PyError Specifiers :=
  match h : extract_requires_python metadata with
  | .error e => .error e
  | .ok text => .ok ⟨text, find_requires_python_chars h⟩

/-- `["--with", package]` for each package. -/
def with_args (with_packages : List PyStr) : List PyStr :=
  with_packages.flatMap fun package => [py "--with", package]

def runner_content (packer : Packer) (options : PackOptions) (prepared : Prepared) (payload : Bytes)
    (request : Specifiers) : RunnerContent where
  payload_b64 := chunk_base64 (Bytes.base64 payload)
  payload_sha256 := hexdigest packer payload
  entry := prepared.entry_arc
  uv_args := with_args options.with_packages
  file_hashes := prepared.members.map fun m => ⟨hexdigest packer m.2, m.1⟩
  python_request := request
  has_git_source := has_git_source prepared.metadata options.with_packages

/-- `_read_template` and the rendering of a payload. -/
def render_payload (packer : Packer) (options : PackOptions) (prepared : Prepared)
    (payload : Bytes) : Except PyError PyStr :=
  match python_request prepared.metadata with
  | .error e => .error e
  | .ok request =>
      match packer.template options.format with
      | .error exc =>
          .error (packError [.text (py "the packed-runner template is missing from the installation: "),
            .exc exc])
      | .ok template =>
          render split_relative_requirement options.format template
            (runner_content packer options prepared payload request)

/-- `_write_runner`: of what `write_text` raises, a denied access alone is an `OSError`. -/
def write_runner (out : Output) (disk : Disk) (runner : PyStr) (bom : Bool) :
    Disk × Except PyError Unit :=
  match out.mkdir with
  | some exc =>
      (disk, .error (packError [.text (py "cannot write "), .text out.text, .text (py ": "), .exc exc]))
  | none =>
      match encode .utf_8 (normalize_newlines runner [LF]) with
      | none => (disk, .error (uncaught .nativeCallError))
      | some data =>
          match out.obstacle disk with
          | some (true, left) =>
              (left, .error (packError [.text (py "cannot write "), .text out.text, .text (py ": "),
                .exc 0]))
          | some (false, left) => (left, .error (uncaught .nativeCallError))
          | none => (disk.write out.resolved (Files.mark .utf_8 bom ++ data), .ok ())

structure PackedScript where
  output_path : PyStr
  entry : PyStr
  files : List PyStr
  payload_sha256 : PyStr
  payload_bytes : Nat
  uv_args : List PyStr
  external_imports : List PyStr
  has_script_metadata : Bool

def pack_script (packer : Packer) (tree : SourceTree) (entry : Path) (out : Output)
    (options : PackOptions) (disk : Disk) : Disk × Except PyError PackedScript :=
  match prepare packer tree options entry out disk with
  | .error e => (disk, .error e)
  | .ok prepared =>
      match build packer options.format prepared.members with
      | .error e => (disk, .error e)
      | .ok payload =>
          match render_payload packer options prepared payload with
          | .error e => (disk, .error e)
          | .ok runner =>
              match write_runner out disk runner (options.format == .ps1) with
              | (disk, .error e) => (disk, .error e)
              | (disk, .ok ()) =>
                  (disk, .ok {
                    output_path := out.text
                    entry := prepared.entry_arc
                    files := prepared.members.map Prod.fst
                    payload_sha256 := hexdigest packer payload
                    payload_bytes := payload.length
                    uv_args := with_args options.with_packages
                    external_imports := prepared.external
                    has_script_metadata := prepared.metadata ≠ [] })

end PwshPy.Packing
