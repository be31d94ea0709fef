import PwshPy.Text.Errors
import PwshPy.Search.Worklist
import PwshPy.Search.PathFinder
import PwshPy.Packing.Imports

/-! # The files a pack embeds

`_collect_sources` walks the local imports of the entry and reads each file it
reaches. A source tree is seen through its links: which paths lead to a regular
file, and where that file really lies, or that the question of it raises an error
of its own. Parsing a file's text is left open.
-/

namespace PwshPy.Packing

open PathFinder (Path)

abbrev Bytes := List UInt8

/-- What `pathlib` raises: a home that is not known and a loop of links, an
embedded NUL, and an answer of the system that stands for more than an absent file. -/
inductive PathError where
  | osError
  | runtimeError
  | valueError
  deriving DecidableEq

def PathError.cls : PathError → ErrorClass
  | osError => .osError
  | runtimeError => .runtimeError
  | valueError => .valueError

/-- What the packer does not wrap. -/
def uncaught (cls : ErrorClass) : PyError := { cls, message := [.exc 0] }

/-- The regular files below every directory in sight, by their resolved paths,
and the paths that lead to them. -/
structure SourceTree where
  files : List Path
  /-- what reading a file gives, or the error of the outside world -/
  body : {p // p ∈ files} → Except Nat Bytes
  /-- `path.resolve()` of a path that `path.is_file()` accepts -/
  resolve : Path → Option {p // p ∈ files}
  isDir : Path → Bool
  /-- what `path.expanduser()`, `path.is_file()` or `path.resolve()` raises -/
  refusal : Path → Option PathError
  resolve_self : ∀ f, resolve f.val = some f
  /-- a path that is resolved is resolved again without an error -/
  refusal_self : ∀ f ∈ files, refusal f = none

namespace SourceTree

abbrev File (tree : SourceTree) := {p // p ∈ tree.files}

/-- The tree as an import finder sees it. -/
def finder (tree : SourceTree) : PathFinder.Tree tree.File where
  file := tree.resolve
  isDir := tree.isDir

end SourceTree

/-- The text of an absolute path. -/
def pathText : Path → PyStr
  | [] => py "/"
  | path => path.flatMap (py "/" ++ ·)

/-! ## Names and paths -/

def PY : PyStr := py ".py"

/-- `candidate_relative_paths`: `module.py` and `package/__init__.py`. -/
def candidate_relative_paths (dotted : Dotted) : Path × Path :=
  (dotted.dropLast ++ [dotted.getLastD [] ++ PY], dotted ++ [PathFinder.INIT ++ PY])

/-- `path.relative_to(root)` -/
def relative_to (path root : Path) : Option Path :=
  if root <+: path then some (path.drop root.length) else none

theorem relative_to_eq_some {path root r : Path} :
    relative_to path root = some r ↔ path = root ++ r := by
  unfold relative_to
  split
  · rename_i h
    obtain ⟨r', rfl⟩ := h
    simp [eq_comm]
  · rename_i h
    simp only [reduceCtorEq, false_iff]
    rintro rfl
    exact h (List.prefix_append _ _)

inductive ImportKind where
  | stdlib
  | local
  | external
  deriving DecidableEq

/-- `classify_import` -/
def classify_import (dotted : Dotted) (stdlib_names : List PyStr) (local_names : List Dotted) :
    ImportKind :=
  if dotted ∈ local_names then .local
  else if dotted.headD [] ∈ stdlib_names then .stdlib
  else .external

section Collect

variable (parse : Bytes → Except Nat Node) (stdlib : List PyStr) (tree : SourceTree) (root : Path)

/-- `_resolve_local`, where it returns. -/
def resolve_local (dotted : Dotted) : Option tree.File :=
  match tree.resolve (root ++ (candidate_relative_paths dotted).1) with
  | some file => some file
  | none => tree.resolve (root ++ (candidate_relative_paths dotted).2)

/-- What `_resolve_local` raises: the second path is asked for where the first is
no file. -/
def local_refusal (dotted : Dotted) : Option PathError :=
  match tree.refusal (root ++ (candidate_relative_paths dotted).1) with
  | some exc => some exc
  | none =>
      match tree.resolve (root ++ (candidate_relative_paths dotted).1) with
      | some _ => none
      | none => tree.refusal (root ++ (candidate_relative_paths dotted).2)

/-- `_resolve_local` of one name after another. -/
def ask_local (names : List Dotted) : Except PyError Unit :=
  match names.findSome? (local_refusal tree root) with
  | some exc => .error (uncaught exc.cls)
  | none => .ok ()

/-- `_package_parts` -/
def package_parts (module : tree.File) : List PyStr :=
  match relative_to module.val root with
  | some relative => relative.dropLast
  | none => []

/-- `_read_bytes` -/
def read_bytes (path : tree.File) : Except PyError Bytes :=
  match tree.body path with
  | .ok body => .ok body
  | .error exc =>
      .error (packError [.text (py "cannot read "), .text (pathText path.val), .text (py ": "),
        .exc exc])

/-- The parsed source, or the `PackError` for a text that is not Python. For a
text that holds a NUL no `SyntaxError` is raised, and its `ValueError` is not
caught. -/
def parse_source (path : tree.File) (body : Bytes) : Except PyError Node :=
  match parse body with
  | .ok node => .ok node
  | .error exc =>
      if 0 ∈ body then .error (valueError [.exc exc])
      else
        .error (packError [.text (pathText path.val), .text (py " is not valid Python: "), .exc exc])

/-- What one candidate adds: an external name, or a file to visit. -/
def candidate_effect (dotted : Dotted) : List PyStr × List tree.File :=
  let resolved := resolve_local tree root dotted
  let local_names := if resolved.isSome then [dotted] else []
  match classify_import dotted stdlib local_names with
  | .external => ([dotted.headD []], [])
  | .local => ([], resolved.toList)
  | .stdlib => ([], [])

/-- One turn of the loop over `pending`: read the file and follow its imports. -/
def visit (current : tree.File) :
    Except PyError ((Bytes × List PyStr) × List tree.File) := do
  let body ← read_bytes tree current
  let source ← parse_source parse tree current body
  let candidates := iter_import_candidates source (package_parts tree root current)
  ask_local tree root candidates
  let effects := candidates.map (candidate_effect stdlib tree root)
  return ((body, effects.flatMap Prod.fst), effects.flatMap Prod.snd)

/-- `_existing_file` -/
def existing_file (path : Path) (label : PyStr) : Except PyError tree.File :=
  match tree.refusal path with
  | some exc => .error (uncaught exc.cls)
  | none =>
      match tree.resolve path with
      | some file => .ok file
      | none =>
          .error (packError [.text label, .text (py " not found: "), .text (pathText path)])

/-- The loop over `include`, with the files found and the reads made. -/
def include_files : List Path → List (tree.File × Bytes) → List tree.File →
    List tree.File × Except PyError (List (tree.File × Bytes))
  | [], found, reads => (reads, .ok found)
  | extra :: rest, found, reads =>
      match existing_file tree extra (py "included file") with
      | .error e => (reads, .error e)
      | .ok path =>
          if path ∈ Worklist.keys found then
            include_files rest found reads
          else
            match read_bytes tree path with
            | .error e => (reads ++ [path], .error e)
            | .ok body => include_files rest (found ++ [(path, body)]) (reads ++ [path])

/-- `_require_under_root` for every path. -/
def require_under_root : List tree.File → Except PyError Unit
  | [] => .ok ()
  | path :: rest =>
      match relative_to path.val root with
      | some _ => require_under_root rest
      | none =>
          .error (packError [.text (pathText path.val), .text (py " lies outside the pack root "),
            .text (pathText root), .text (py "; widen it with root=")])

/-- The files to embed, and the import roots left to uv. -/
structure Collected where
  found : List (tree.File × Bytes)
  external : List PyStr

/-- `_collect_sources`, with the log of the files it reads. -/
def collect_sources (entry : tree.File) (incl : List Path) :
    List tree.File × Except PyError (Collected tree) :=
  match Worklist.explore (visit parse stdlib tree root) [entry] [] [] with
  | (reads, .error e) => (reads, .error e)
  | (reads, .ok walked) =>
      match include_files tree incl (walked.map fun (path, value) => (path, value.1)) reads with
      | (reads, .error e) => (reads, .error e)
      | (reads, .ok found) =>
          match require_under_root tree root (Worklist.keys found) with
          | .error e => (reads, .error e)
          | .ok () =>
              let named := walked.flatMap fun (_, value) => value.2
              match ask_local tree root (named.map fun name => [name]) with
              | .error e => (reads, .error e)
              | .ok () =>
                  let external := named.filter fun name => resolve_local tree root [name] = none
                  (reads, .ok { found, external := external.eraseDups.mergeSort textLe })

end Collect

/-! ## The archive -/

/-- The members of the archive: each file under its `_archive_name`. -/
def archive_members {tree : SourceTree} (root : Path) (found : List (tree.File × Bytes)) :
    List (Path × Bytes) :=
  found.filterMap fun (path, body) => (relative_to path.val root).map fun name => (name, body)

/-- The directory the members are unpacked into, as an import finder sees it. -/
def unpacked (members : List (Path × Bytes)) : PathFinder.Tree Bytes where
  file := fun path => members.lookup path
  isDir := fun path => members.any fun m => path.isPrefixOf m.1 && path != m.1

theorem mem_of_unpacked_file {members : List (Path × Bytes)} {path : Path} {body : Bytes}
    (h : (unpacked members).file path = some body) : (path, body) ∈ members := by
  obtain ⟨l₁, l₂, rfl, -⟩ := List.lookup_eq_some_iff.mp h
  simp

theorem unpacked_file_isSome {members : List (Path × Bytes)} {path : Path} :
    ((unpacked members).file path).isSome ↔ ∃ body, (path, body) ∈ members := by
  rw [Option.isSome_iff_exists]
  constructor
  · exact fun ⟨body, h⟩ => ⟨body, mem_of_unpacked_file h⟩
  · rintro ⟨body, h⟩
    cases hl : members.lookup path with
    | some body' => exact ⟨body', hl⟩
    | none => simpa using List.lookup_eq_none_iff.mp hl _ h

theorem unpacked_isDir {members : List (Path × Bytes)} {path more : Path} (hmore : more ≠ [])
    (h : ((unpacked members).file (path ++ more)).isSome) : (unpacked members).isDir path := by
  obtain ⟨body, hmem⟩ := unpacked_file_isSome.mp h
  refine List.any_eq_true.mpr ⟨_, hmem, ?_⟩
  simp [List.isPrefixOf_iff_prefix, hmore]

theorem mem_archive_members {tree : SourceTree} {root : Path} {found : List (tree.File × Bytes)}
    {name : Path} {body : Bytes} :
    (name, body) ∈ archive_members root found ↔ ∃ f, (f, body) ∈ found ∧ f.val = root ++ name := by
  simp only [archive_members, List.mem_filterMap, Option.map_eq_some_iff, relative_to_eq_some,
    Prod.mk.injEq, Prod.exists]
  constructor
  · rintro ⟨f, b, hmem, r, hr, rfl, rfl⟩
    exact ⟨f, hmem, hr⟩
  · rintro ⟨f, hmem, hf⟩
    exact ⟨f, body, hmem, name, hf, rfl, rfl⟩

end PwshPy.Packing
