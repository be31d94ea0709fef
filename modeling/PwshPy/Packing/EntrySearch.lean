import PwshPy.Packing.Fidelity
import PwshPy.Search.Importing

/-! # Where the entry of a pack finds its imports

The interpreter puts the directory of the script it is started with first on
its search path. The three ways to run a pack start it with two scripts, the
entry itself and the generated shim at the root of the payload. The shim has
imports of its own before the entry begins, searched for at that root as well.
-/

namespace PwshPy.Packing

open PathFinder (Path Spec Loaders)

/-! ## The pack -/

def SHIM_MODULE : PyStr := py "__pwshpy_pack_main__.py"

/-- What a runner embeds: the archive and the entry's name in it. -/
structure Pack where
  entry : Path
  members : List (Path × Bytes)

/-- The part of `pack_script` that chooses the members; `render_shim` gives the
shim's text for the entry's name and source. -/
def pack_members (parse : Bytes → Except Nat Node) (stdlib : List PyStr)
    (render_shim : Path → Bytes → Bytes) (tree : SourceTree) (root : Path) (entry : tree.File)
    (incl : List Path) : Except PyError Pack :=
  match (collect_sources parse stdlib tree root entry incl).2 with
  | .error e => .error e
  | .ok sources =>
      let members := archive_members root sources.found
      match relative_to entry.val root with
      | none => .error (valueError [.text (pathText entry.val), .text (py " is not in the subpath of "),
          .text (pathText root)])
      | some entry_arc =>
          if members.any fun m => m.1 == [SHIM_MODULE] then
            .error (packError [.text (py "a file to pack is named "), .repr SHIM_MODULE,
              .text (py (", which is reserved for the generated entry " ++
                "shim; rename it so the pack does not silently overwrite it"))])
          else
            let source := ((unpacked members).file entry_arc).getD []
            .ok { entry := entry_arc
                  members := members ++ [([SHIM_MODULE], render_shim entry_arc source)] }

theorem shim_mem {parse : Bytes → Except Nat Node} {stdlib : List PyStr}
    {render_shim : Path → Bytes → Bytes} {tree : SourceTree} {root : Path} {entry : tree.File}
    {incl : List Path} {pack : Pack}
    (h : pack_members parse stdlib render_shim tree root entry incl = .ok pack) :
    ∃ shim, ([SHIM_MODULE], shim) ∈ pack.members := by
  unfold pack_members at h
  cases hc : (collect_sources parse stdlib tree root entry incl).2 with
  | error e => simp [hc] at h
  | ok sources =>
      simp only [hc] at h
      cases hr : relative_to entry.val root with
      | none => simp [hr] at h
      | some entry_arc =>
          simp only [hr] at h
          obtain ⟨-, hp⟩ := Raises.ite_error_eq_ok.mp h
          obtain rfl := Except.ok.inj hp
          exact ⟨_, List.mem_append_right _ (List.mem_singleton_self _)⟩

/-! ## The interpreter -/

/-- An entry of `sys.path`: a directory of the unpacked payload, or one the
interpreter brings along. -/
inductive Place where
  | payload (dir : Path)
  | outside (dir : PyStr)
  deriving DecidableEq

/-- What a name is answered with. -/
inductive Module where
  /-- built in, frozen, or loaded as the interpreter started -/
  | own
  | file (place : Place) (path : Path)
  /-- a namespace package, of portions alone -/
  | namespace
  deriving DecidableEq

/-- The file of the payload that was loaded. -/
def Module.payload_file : Module → Option Path
  | .file (.payload _) path => some path
  | _ => none

abbrev Code := Importing.Code (List Place) PyStr Module
abbrev State := Importing.State (List Place) PyStr Module

def SHIM_NAME : PyStr := py "__pwshpy_pack_main__"

/-- The interpreter that runs the pack, the code of the packed modules among all
that it can run. -/
structure Interpreter where
  loaders : Loaders
  /-- the modules found before any directory is searched -/
  builtin : List PyStr
  /-- what is in `sys.modules` when a script starts -/
  loaded : List PyStr
  /-- `sys.path` behind the directory of the script -/
  inherited : List PyStr
  outside : PyStr → PyStr → Option Spec
  code : Module → Code
  /-- the imports of `runpy.run_path`, by the module `runpy` -/
  run_path : Module → Code
  /-- how many imports may be made inside one another -/
  recursion_limit : Nat
  /-- no module of its own is named like the shim -/
  unnamed : SHIM_NAME ∉ builtin ∧ SHIM_NAME ∉ loaded

inductive Run where
  | shUnelevated
  | shRoot
  | ps1

namespace Run

/-- The file the runner hands to `uv run`. -/
def target (pack : Pack) : Run → Path
  | shUnelevated => pack.entry
  | shRoot => [SHIM_MODULE]
  | ps1 => [SHIM_MODULE]

end Run

section Runs

variable (interp : Interpreter) (pack : Pack)

def find_in (place : Place) (name : PyStr) : Option Spec :=
  match place with
  | .payload dir => PathFinder.findIn (unpacked pack.members) interp.loaders.suffixes dir name
  | .outside dir => interp.outside dir name

/-- The finders of `sys.meta_path`, one after the other. -/
def find_module (sys_path : List Place) (name : PyStr) : Option Module :=
  if name ∈ interp.builtin then some .own
  else
    match PathFinder.loadOn (find_in interp pack) sys_path name with
    | some (place, file) => some (.file place file)
    | none =>
        if sys_path.any fun place => (find_in interp pack place name).isSome then some .namespace
        else none

def importer : Importing.System (List Place) PyStr Module where
  find := find_module interp pack
  code := interp.code

/-- Code run by the interpreter: the state it leaves, unless it raises. -/
def exec (code : Code) (s : State) : Option State :=
  match Importing.exec (Importing.import_at (importer interp pack) interp.recursion_limit) code s with
  | (s, true) => some s
  | (_, false) => none

/-- The interpreter started with a script of the payload. -/
def start (script : Path) : State where
  path := .payload script.dropLast :: interp.inherited.map .outside
  modules := interp.loaded.map (·, .own)
  touched := false

/-! ## The shim -/

/-- `if _HERE not in sys.path` -/
def shim_path (sys_path : List Place) : List Place :=
  if .payload [] ∈ sys_path then sys_path else .payload [] :: sys_path

/-- The imports of the shim. -/
def shim_imports : Code :=
  .require (py "base64") fun _ => .require (py "os") fun _ => .require (py "runpy") fun _ =>
    .require (py "sys") fun _ => .done

/-- The shim up to the entry's first line. -/
def run_shim (s : State) : Option State := do
  let s ← exec interp pack shim_imports s
  let runpy ← s.loaded (py "runpy")
  exec interp pack (interp.run_path runpy) { s with path := shim_path s.path }

/-- The interpreter as the entry begins, unless the run ended before it. -/
def entry_state (run : Run) : Option State :=
  let s := start interp (run.target pack)
  match run with
  | .shUnelevated => some s
  | .shRoot => run_shim interp pack s
  | .ps1 => run_shim interp pack s

/-- The interpreter as the entry, after some of its code, comes to an import. -/
def at_import (before : Code) (run : Run) : Option State :=
  (entry_state interp pack run).bind (exec interp pack before)

/-- The file of the payload that an import of the entry loads, if the run comes to it. -/
def payload_file (before : Code) (run : Run) (name : PyStr) : Option (Option Path) :=
  (at_import interp pack before run).map fun s =>
    (s.resolve (importer interp pack) name).bind Module.payload_file

/-- The three runs load the same file of the payload. -/
def LoadsSame (before : Code) (name : PyStr) : Prop :=
  ∀ run run', payload_file interp pack before run name = payload_file interp pack before run' name

/-- The run comes to the import, and nothing changed `sys.path` or `sys.modules` by hand. -/
def Undisturbed (before : Code) (run : Run) : Prop :=
  ∃ s, at_import interp pack before run = some s ∧ s.touched = false

theorem undisturbed_iff {before : Code} {run : Run} : Undisturbed interp pack before run ↔
    (at_import interp pack before run).map (·.touched) = some false := by
  rw [Undisturbed, Option.map_eq_some_iff]

/-- What a directory of the payload offers for a name. -/
def offered (dir : Path) (name : PyStr) : Option Path :=
  (PathFinder.findIn (unpacked pack.members) interp.loaders.suffixes dir name).bind Spec.file?

end Runs

section Search

variable {interp : Interpreter} {pack : Pack} {before : Code} {run : Run} {name : PyStr}
  {s left : State}

private theorem outside_loads_nothing :
    ∀ found, PathFinder.loadOn (find_in interp pack) (interp.inherited.map .outside) name =
      some found → ∃ dir, found.1 = .outside dir := by
  intro found h
  obtain ⟨place, hplace, hfound⟩ := List.exists_of_findSome?_eq_some h
  obtain ⟨dir, -, rfl⟩ := List.mem_map.mp hplace
  obtain ⟨file, -, rfl⟩ := Option.map_eq_some_iff.mp hfound
  exact ⟨dir, rfl⟩

/-- As a script starts, its directory alone lies in the payload. -/
theorem payload_file_start {script : Path} (hbuiltin : name ∉ interp.builtin)
    (hloaded : name ∉ interp.loaded) :
    ((start interp script).resolve (importer interp pack) name).bind Module.payload_file =
      offered interp pack script.dropLast name := by
  have hnew : name ∉ (start interp script).modules.map Prod.fst := by
    rw [start, List.map_map]
    simpa using hloaded
  rw [Importing.resolve_of_not_loaded hnew]
  show (find_module interp pack (.payload script.dropLast :: interp.inherited.map .outside) name).bind
    Module.payload_file = _
  rw [find_module, if_neg hbuiltin, PathFinder.loadOn, List.findSome?_cons]
  cases hf : offered interp pack script.dropLast name with
  | some file =>
      have hfirst : (find_in interp pack (.payload script.dropLast) name).bind Spec.file? =
          some file := hf
      simp [hfirst, Module.payload_file]
  | none =>
      have hfirst : (find_in interp pack (.payload script.dropLast) name).bind Spec.file? = none := hf
      simp only [hfirst, Option.map_none]
      rw [← PathFinder.loadOn]
      cases hrest : PathFinder.loadOn (find_in interp pack) (interp.inherited.map .outside) name with
      | none =>
          dsimp only
          split <;> rfl
      | some found =>
          obtain ⟨dir, hdir⟩ := outside_loads_nothing found hrest
          obtain ⟨place, file⟩ := found
          cases (show place = .outside dir from hdir)
          rfl

theorem exec_onward {code : Code} (h : exec interp pack code s = some left) :
    Importing.Onward (importer interp pack) s left := by
  have hrun := @Importing.run_onward _ _ _ _ (importer interp pack) interp.recursion_limit code s
  rw [exec] at h
  split at h
  · rename_i hout
    rw [hout] at hrun
    cases h
    exact hrun
  · cases h

/-- The shim, started at the root of the payload, leads no name elsewhere. -/
theorem run_shim_onward (h : run_shim interp pack (start interp [SHIM_MODULE]) = some left) :
    Importing.Onward (importer interp pack) (start interp [SHIM_MODULE]) left := by
  rw [run_shim, Option.bind_eq_bind, Option.bind_eq_some_iff] at h
  obtain ⟨s, himports, h⟩ := h
  rw [Option.bind_eq_bind, Option.bind_eq_some_iff] at h
  obtain ⟨runpy, -, hrun⟩ := h
  have hfirst := exec_onward himports
  intro huntouched
  obtain ⟨hmid, hpath, hresolve⟩ := exec_onward hrun huntouched
  obtain ⟨hstart, hpath', hresolve'⟩ := hfirst hmid
  have hhere : shim_path s.path = s.path := by
    rw [shim_path, if_pos]
    rw [hpath']
    exact List.mem_cons_self
  rw [hhere] at hpath
  refine ⟨hstart, hpath.trans hpath', fun name => (hresolve name).trans ?_⟩
  rw [hhere]
  exact hresolve' name

/-- Whichever way an undisturbed run of an entry at the root came to an import, it is answered as at
the start. -/
theorem payload_file_of_undisturbed (hroot : pack.entry.dropLast = [])
    (h : Undisturbed interp pack before run) : payload_file interp pack before run name =
      some (((start interp [SHIM_MODULE]).resolve (importer interp pack) name).bind
        Module.payload_file) := by
  obtain ⟨left, hleft, huntouched⟩ := h
  have honward : Importing.Onward (importer interp pack) (start interp [SHIM_MODULE]) left := by
    rw [at_import, Option.bind_eq_some_iff] at hleft
    obtain ⟨s, hs, hbefore⟩ := hleft
    have hentry : Importing.Onward (importer interp pack) (start interp [SHIM_MODULE]) s := by
      cases run with
      | shUnelevated =>
          have hsame : start interp pack.entry = start interp [SHIM_MODULE] := by
            rw [start, start, hroot]
            rfl
          cases hs
          rw [Run.target, hsame]
          exact .refl
      | shRoot => exact run_shim_onward hs
      | ps1 => exact run_shim_onward hs
    exact hentry.trans (exec_onward hbefore)
  rw [payload_file, hleft, Option.map_some, (honward huntouched).2.2 name]

theorem at_import_done : at_import interp pack .done run = entry_state interp pack run :=
  Option.bind_fun_some (entry_state interp pack run)

private theorem shim_offered {shim : Bytes} (h : ([SHIM_MODULE], shim) ∈ pack.members) :
    offered interp pack [] SHIM_NAME ≠ none := by
  have hfile : ((unpacked pack.members).file ([] ++ [SHIM_NAME ++ py ".py"])).isSome :=
    unpacked_file_isSome.mpr ⟨shim, h⟩
  obtain ⟨spec, f, hspec, hf⟩ := PathFinder.findIn_of_module interp.loaders.source hfile
  simp [offered, hspec, hf]

/-- A file of the payload tells the directory it is offered in. -/
theorem offered_dir_unique {dir dir' : Path} {file : Path} (hdot : PathFinder.DOT ∉ name)
    (hinit : name ≠ PathFinder.INIT) (h : offered interp pack dir name = some file)
    (h' : offered interp pack dir' name = some file) : dir = dir' := by
  obtain ⟨spec, hspec, hfile⟩ := Option.bind_eq_some_iff.mp h
  obtain ⟨spec', hspec', hfile'⟩ := Option.bind_eq_some_iff.mp h'
  exact PathFinder.findIn_dir_unique hdot hinit hspec hfile hspec' hfile'

end Search

def sampleLoaders : Loaders where
  suffixes := [py ".abi3.so", py ".so", py ".py", py ".pyc"]
  dotted := by
    intro s hs
    simp only [List.mem_cons, List.not_mem_nil, or_false] at hs
    rcases hs with rfl | rfl | rfl | rfl <;> exact ⟨_, rfl⟩
  source := by decide

def LIB : Place := .outside (py "lib")

/-- `base64` needs names of `types` that no packed module has. -/
def sampleCode (m : Module) : Code :=
  if m = .file LIB [py "base64.py"] then
    .require (py "types") fun types =>
      if types = .file LIB [py "types.py"] then .done else .raises
  else .done

def sampleFind (dir name : PyStr) : Option Spec :=
  if dir = py "lib" ∧ name ∈ [py "base64", py "runpy", py "types"] then
    some (.module [name ++ py ".py"])
  else none

theorem sample_unnamed : SHIM_NAME ∉ [py "sys"] ∧ SHIM_NAME ∉ [py "os"] := by decide

def sampleInterpreter : Interpreter where
  loaders := sampleLoaders
  builtin := [py "sys"]
  loaded := [py "os"]
  inherited := [py "lib"]
  outside := sampleFind
  code := sampleCode
  run_path := fun _ => .done
  recursion_limit := 9
  unnamed := sample_unnamed

/-- The last line of the shim. -/
def sampleShim (_ : Path) (_ : Bytes) : Bytes :=
  (py "runpy.run_path(_ENTRY, run_name='__main__')\n").map Nat.toUInt8

private theorem pack_importPkg (tree : SourceTree) (root : Path) (entry pkg : tree.File)
    {name pkgName : Path} (hne : pkg ≠ entry) (hentry : tree.body entry = .ok IMPORT_PKG)
    (hpkg : tree.body pkg = .ok []) (hresolve : resolve_local tree root [py "pkg"] = some pkg)
    (hasked : local_refusal tree root [py "pkg"] = none)
    (hname : relative_to entry.val root = some name)
    (hpkgName : relative_to pkg.val root = some pkgName)
    (hshim : name ≠ [SHIM_MODULE]) (hshim' : pkgName ≠ [SHIM_MODULE]) :
    pack_members sampleParse [] sampleShim tree root entry [] =
      .ok ⟨name, [(name, IMPORT_PKG), (pkgName, []), ([SHIM_MODULE], sampleShim name IMPORT_PKG)]⟩ := by
  have hroot : require_under_root tree root [entry, pkg] = .ok () := by
    simp [require_under_root, hname, hpkgName]
  have hrun := collect_importPkg tree root entry pkg hne hentry hpkg hresolve hasked hroot
  have hmembers : archive_members root [(entry, IMPORT_PKG), (pkg, [])] =
      [(name, IMPORT_PKG), (pkgName, [])] := by
    simp [archive_members, hname, hpkgName]
  simp [pack_members, hrun, hmembers, hname, hshim, hshim', sampleShim]

def belowTree : SourceTree :=
  plainTree [[py "srv", py "tool", py "app.py"], [py "srv", py "pkg", py "__init__.py"]]
    fun f => .ok (if f.val = [py "srv", py "tool", py "app.py"] then IMPORT_PKG else [])

def typesTree : SourceTree :=
  plainTree [[py "srv", py "types.py"], [py "srv", py "pkg", py "__init__.py"]]
    fun f => .ok (if f.val = [py "srv", py "types.py"] then IMPORT_PKG else [])

end PwshPy.Packing
