import PwshPy.Packing.PackScript
import PwshPy.Text.Order

/-! # The names in a pack

The members of a pack are named by the paths of their files below the root, so no
two of them share a name, and they stand in the order of their names.
-/

namespace PwshPy.Packing

open PathFinder (Path)

/-! ## The dictionary of sources -/

section Collected

variable {parse : Bytes → Except Nat Node} {stdlib : List PyStr} {tree : SourceTree} {root : Path}

theorem include_files_keys {incl : List Path} {found found' : List (tree.File × Bytes)}
    {reads reads' : List tree.File} (hkeys : reads = Worklist.keys found)
    (h : include_files tree incl found reads = (reads', .ok found')) :
    reads' = Worklist.keys found' := by
  induction incl generalizing found reads with
  | nil =>
      cases h
      exact hkeys
  | cons extra rest ih =>
      rw [include_files] at h
      cases hfile : existing_file tree extra (py "included file") with
      | error e =>
          rw [hfile] at h
          cases h
      | ok path =>
          rw [hfile] at h
          by_cases hmem : path ∈ Worklist.keys found
          · simp only [hmem, if_true] at h
            exact ih hkeys h
          · simp only [hmem, if_false] at h
            cases hbody : read_bytes tree path with
            | error e =>
                rw [hbody] at h
                cases h
            | ok body =>
                rw [hbody] at h
                exact ih (by simp [hkeys]) h

/-- A source is collected once. -/
theorem collect_sources_nodup {entry : tree.File} {incl : List Path} {sources : Collected tree}
    (h : (collect_sources parse stdlib tree root entry incl).2 = .ok sources) :
    (Worklist.keys sources.found).Nodup := by
  have hnodup : (collect_sources parse stdlib tree root entry incl).1.Nodup :=
    collect_sources_reads_nodup entry incl
  unfold collect_sources at h hnodup
  cases hwalk : Worklist.explore (visit parse stdlib tree root) [entry] [] [] with
  | mk reads result =>
      cases result with
      | error e =>
          rw [hwalk] at h
          cases h
      | ok walked =>
          rw [hwalk] at h hnodup
          have hreads : reads = Worklist.keys walked := Worklist.explore_visits_eq rfl hwalk
          cases hincl : include_files tree incl (walked.map fun e => (e.1, e.2.1)) reads with
          | mk reads' result =>
              cases result with
              | error e =>
                  simp only [hincl] at h
                  cases h
              | ok found =>
                  simp only [hincl] at h hnodup
                  cases hroot : require_under_root tree root (Worklist.keys found) with
                  | error e =>
                      rw [hroot] at h
                      cases h
                  | ok u =>
                      simp only [hroot, ask_external hwalk] at h hnodup
                      cases h
                      have hkeys := include_files_keys
                        (by simp [hreads, Worklist.keys, Function.comp_def]) hincl
                      exact hkeys ▸ hnodup

end Collected

/-! ## Names -/

/-- The files' paths are made of names: none is empty and none holds a slash. -/
def SourceTree.Named (tree : SourceTree) : Prop :=
  ∀ file ∈ tree.files, ∀ name ∈ file, name ≠ [] ∧ 0x2f ∉ name

theorem as_posix_injective {a b : Path} (ha : ∀ name ∈ a, name ≠ [] ∧ 0x2f ∉ name)
    (hb : ∀ name ∈ b, name ≠ [] ∧ 0x2f ∉ name) (h : as_posix a = as_posix b) : a = b := by
  have hsplit : ∀ path : Path, path ≠ [] → (∀ name ∈ path, name ≠ [] ∧ 0x2f ∉ name) →
      (as_posix path).splitOn 0x2f = path := by
    intro path hne hnames
    exact List.splitOn_intercalate _ (fun name hname => (hnames name hname).2) hne
  have hnil : ∀ path : Path, (∀ name ∈ path, name ≠ [] ∧ 0x2f ∉ name) → as_posix path = [] →
      path = [] := by
    intro path hnames hempty
    by_contra hne
    have hpath := hsplit path hne hnames
    rw [hempty] at hpath
    refine (hnames [] ?_).1 rfl
    rw [← hpath]
    exact List.mem_singleton_self _
  by_cases hane : a = []
  · subst hane
    exact (hnil b hb h.symm).symm
  · by_cases hbne : b = []
    · subst hbne
      exact hnil a ha h
    · rw [← hsplit a hane ha, ← hsplit b hbne hb, h]

section Members

variable {tree : SourceTree} {root : Path}

/-- The names of the archive of sources that were collected once. -/
theorem archive_members_nodup (hnamed : tree.Named) {found : List (tree.File × Bytes)}
    (hnodup : (Worklist.keys found).Nodup) :
    ((archive_members root found).map fun m => as_posix m.1).Nodup := by
  have hnames : ∀ (f : tree.File) (r : Path), f.val = root ++ r → ∀ name ∈ r, name ≠ [] ∧ 0x2f ∉ name := by
    intro f r hf name hname
    refine hnamed f.val f.property name ?_
    rw [hf]
    exact List.mem_append_right root hname
  induction found with
  | nil => exact List.nodup_nil
  | cons source found ih =>
      obtain ⟨f, body⟩ := source
      rw [Worklist.keys_cons, List.nodup_cons] at hnodup
      cases hrel : relative_to f.val root with
      | none =>
          have hskip : archive_members root ((f, body) :: found) = archive_members root found := by
            simp [archive_members, hrel]
          rw [hskip]
          exact ih hnodup.2
      | some r =>
          have hkeep : archive_members root ((f, body) :: found) =
              (r, body) :: archive_members root found := by
            simp [archive_members, hrel]
          have hf := relative_to_eq_some.mp hrel
          rw [hkeep, List.map_cons, List.nodup_cons]
          refine ⟨fun hmem => ?_, ih hnodup.2⟩
          obtain ⟨⟨r', body'⟩, hmem, hsame⟩ := List.mem_map.mp hmem
          obtain ⟨f', hfound, hf'⟩ := mem_archive_members.mp hmem
          have hrr : r' = r := as_posix_injective (hnames f' r' hf') (hnames f r hf) hsame
          have hff : f' = f := Subtype.ext (by rw [hf', hf, hrr])
          exact hnodup.1 (Worklist.mem_keys.mpr ⟨body', hff ▸ hfound⟩)

/-- The members that are unpacked again. -/
def own_members (members : List (PyStr × Bytes)) : List (PyStr × Bytes) :=
  members.filter fun m => m.1 ≠ SHIM_MODULE

section Prepare

variable {packer : Packer} {options : PackOptions} {prepared : Prepared}

/-- The members: the sources that were collected, and the shim. -/
theorem prepare_members_ok {entry_path : tree.File} {sources : Collected tree}
    (h : prepare_members packer tree root entry_path sources = .ok prepared) :
    ∃ shim, prepared.members =
        ((archive_members root sources.found).map
          (fun m : Path × Bytes => (as_posix m.1, m.2)) ++ [(SHIM_MODULE, shim)]).insertionSort
            (fun a b => textLe a.1 b.1) ∧
      ∀ m ∈ archive_members root sources.found, as_posix m.1 ≠ SHIM_MODULE := by
  unfold prepare_members at h
  cases hrel : relative_to entry_path.val root with
  | none =>
      simp only [hrel] at h
      cases h
  | some entry_arc =>
      simp only [hrel] at h
      cases hmetadata : extract_script_metadata
          (packer.decode ((sources.found.lookup entry_path).getD [])) with
      | error e =>
          simp only [hmetadata] at h
          cases h
      | ok metadata =>
          simp only [hmetadata] at h
          split_ifs at h with hreserved
          cases hshim : Files.encode .utf_8
              (render_shim packer.printable (as_posix entry_arc) metadata) with
          | none =>
              simp only [hshim] at h
              cases h
          | some shim =>
              simp only [hshim] at h
              cases h
              refine ⟨shim, rfl, fun m hm hname => hreserved ?_⟩
              exact List.any_eq_true.mpr ⟨_, List.mem_map_of_mem hm, beq_iff_eq.mpr hname⟩

theorem prepare_ok {entry : Path} {out : Output} {disk : Disk}
    (h : prepare packer tree options entry out disk = .ok prepared) :
    ∃ root entry_path sources, (Worklist.keys sources.found).Nodup ∧
      prepare_members packer tree root entry_path sources = .ok prepared := by
  unfold prepare at h
  cases hpaths : find_paths tree options entry out with
  | error e =>
      rw [hpaths] at h
      cases h
  | ok paths =>
      obtain ⟨entry_path, root⟩ := paths
      simp only [hpaths] at h
      cases hsources : (collect_sources packer.parse packer.stdlib_module_names tree root entry_path
          options.incl).2 with
      | error e =>
          simp only [hsources] at h
          cases h
      | ok sources =>
          simp only [hsources] at h
          cases hguard : guard_destination out options.force disk
              ((Worklist.keys sources.found).map (·.val)) with
          | error e =>
              rw [hguard] at h
              cases h
          | ok u =>
              rw [hguard] at h
              exact ⟨root, entry_path, sources, collect_sources_nodup hsources, h⟩

theorem prepare_members_ne_nil {entry : Path} {out : Output} {disk : Disk}
    (h : prepare packer tree options entry out disk = .ok prepared) : prepared.members ≠ [] := by
  obtain ⟨root, entry_path, sources, -, hmembers⟩ := prepare_ok h
  obtain ⟨shim, hsorted, -⟩ := prepare_members_ok hmembers
  refine List.ne_nil_of_mem (a := (SHIM_MODULE, shim)) ?_
  rw [hsorted]
  exact (List.mem_insertionSort _).mpr (List.mem_append_right _ (List.mem_singleton_self _))

/-- The members of a pack have a name each, and stand in the order of their names. -/
theorem prepare_names {entry : Path} {out : Output} {disk : Disk} (hnamed : tree.Named)
    (h : prepare packer tree options entry out disk = .ok prepared) :
    (prepared.members.map Prod.fst).Nodup ∧
      (prepared.members.map Prod.fst).Pairwise fun a b => textLe a b = true := by
  obtain ⟨root, entry_path, sources, honce, hmembers⟩ := prepare_ok h
  obtain ⟨shim, hsorted, hown⟩ := prepare_members_ok hmembers
  constructor
  · rw [hsorted]
    refine ((List.perm_insertionSort _ _).map Prod.fst).nodup_iff.mpr ?_
    rw [List.map_append, List.map_map, List.map_singleton]
    refine List.nodup_append.mpr ⟨archive_members_nodup hnamed honce, List.nodup_singleton _, ?_⟩
    intro name hname shim_name hshim hsame
    obtain ⟨m, hm, rfl⟩ := List.mem_map.mp hname
    exact hown m hm (hsame.trans (List.mem_singleton.mp hshim))
  · rw [hsorted, List.pairwise_map]
    exact List.pairwise_insertionSort _ _

end Prepare

end Members

end PwshPy.Packing
