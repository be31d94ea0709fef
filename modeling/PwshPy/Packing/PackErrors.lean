import PwshPy.Packing.Fidelity
import PwshPy.Packing.RunnerText

/-! # What packing and unpacking raise

Callers are told to expect a `PackError`. Each step either maps what its library
call raises to one or does not, so the exception that reaches the caller is
followed through the steps, up to the condition under which no unmapped one does.
-/

namespace PwshPy.Packing

open PathFinder (Path)
open Files (Clean clean_py clean_append clean_flatMap clean_intercalate clean_of_lt not_surrogate_of_lt encode
  normalize_newlines encode_eq_none_iff encode_isSome_iff clean_normalize)
open ForEach (forEach)

/-- Nothing but a `PackError` is raised. -/
def OnlyPackError {α : Type} (result : Except PyError α) : Prop :=
  ∀ e, result = .error e → e.cls = .packError

theorem onlyPackError_ok {α : Type} (a : α) : OnlyPackError (.ok a : Except PyError α) := by
  intro e h
  cases h

theorem onlyPackError_error {α : Type} {e : PyError} :
    OnlyPackError (.error e : Except PyError α) ↔ e.cls = .packError := by
  constructor
  · intro h
    exact h e rfl
  · intro hcls e' he
    cases he
    exact hcls

/-- One step raises nothing else, and neither does what follows it. -/
theorem onlyPackError_bind {α β : Type} {x : Except PyError α} {f : α → Except PyError β} :
    OnlyPackError (x >>= f) ↔ OnlyPackError x ∧ ∀ a, x = .ok a → OnlyPackError (f a) := by
  cases x with
  | error e =>
      have herror : OnlyPackError (Except.error e >>= f) ↔ e.cls = .packError := onlyPackError_error
      rw [herror, onlyPackError_error]
      refine ⟨fun h => ⟨h, fun a ha => ?_⟩, And.left⟩
      cases ha
  | ok a =>
      constructor
      · intro h
        refine ⟨onlyPackError_ok a, fun a' ha => ?_⟩
        cases ha
        exact h
      · intro h
        exact h.2 a rfl

theorem PathError.cls_ne_packError (exc : PathError) : exc.cls ≠ .packError := by
  cases exc <;> decide

/-- What `pathlib` raises is not mapped. -/
theorem not_onlyPackError_uncaught {α : Type} (exc : PathError) :
    ¬OnlyPackError (.error (uncaught exc.cls) : Except PyError α) := by
  rw [onlyPackError_error]
  exact exc.cls_ne_packError

/-! ## Collecting the sources -/

section Collect

variable (packer : Packer) (tree : SourceTree) (root : Path)

/-- A file that can be read but holds a NUL, so that parsing it raises a `ValueError`. -/
def HoldsNul (file : tree.File) : Prop :=
  ∃ body exc, tree.body file = .ok body ∧ packer.parse body = .error exc ∧ 0 ∈ body

/-- A file that is parsed and imports a name that cannot be looked for below the root. -/
def AsksRefused (file : tree.File) : Prop :=
  ∃ body source dotted exc, tree.body file = .ok body ∧ packer.parse body = .ok source ∧
    dotted ∈ iter_import_candidates source (package_parts tree root file) ∧
    local_refusal tree root dotted = some exc

theorem onlyPackError_existing_file_iff (path : Path) (label : PyStr) :
    OnlyPackError (existing_file tree path label) ↔ tree.refusal path = none := by
  unfold existing_file
  cases tree.refusal path with
  | some exc => exact iff_of_false (not_onlyPackError_uncaught exc) (by simp)
  | none =>
      refine iff_of_true ?_ rfl
      dsimp only
      split
      · exact onlyPackError_ok _
      · exact onlyPackError_error.mpr rfl

theorem onlyPackError_read_bytes (file : tree.File) : OnlyPackError (read_bytes tree file) := by
  unfold read_bytes
  split
  · exact onlyPackError_ok _
  · exact onlyPackError_error.mpr rfl

theorem parse_source_error {file : tree.File} {body : Bytes} {e : PyError}
    (h : parse_source packer.parse tree file body = .error e) :
    ∃ exc, packer.parse body = .error exc ∧ (e.cls = .packError ↔ 0 ∉ body) := by
  unfold parse_source at h
  cases hparse : packer.parse body with
  | ok node =>
      rw [hparse] at h
      cases h
  | error exc =>
      rw [hparse] at h
      refine ⟨exc, rfl, ?_⟩
      by_cases hzero : 0 ∈ body
      · simp only [hzero, if_true] at h
        cases h
        have hcls : ErrorClass.valueError ≠ .packError := by decide
        exact iff_of_false hcls (not_not_intro hzero)
      · simp only [hzero, if_false] at h
        cases h
        exact iff_of_true rfl hzero

theorem onlyPackError_parse_source_iff {file : tree.File} {body : Bytes}
    (hbody : tree.body file = .ok body) :
    OnlyPackError (parse_source packer.parse tree file body) ↔ ¬HoldsNul packer tree file := by
  cases hparse : parse_source packer.parse tree file body with
  | ok source =>
      refine iff_of_true (onlyPackError_ok source) fun hnul => ?_
      obtain ⟨body', exc, hbody', hexc, -⟩ := hnul
      rw [hbody] at hbody'
      cases hbody'
      rw [parse_source_eq_ok, hexc] at hparse
      cases hparse
  | error e =>
      obtain ⟨exc, hexc, hcls⟩ := parse_source_error packer tree hparse
      rw [onlyPackError_error, hcls, not_iff_not]
      constructor
      · intro hzero
        exact ⟨body, exc, hbody, hexc, hzero⟩
      · intro hnul
        obtain ⟨body', exc', hbody', -, hzero⟩ := hnul
        rw [hbody] at hbody'
        cases hbody'
        exact hzero

theorem onlyPackError_ask_local_iff (names : List Dotted) :
    OnlyPackError (ask_local tree root names) ↔
      ∀ dotted ∈ names, local_refusal tree root dotted = none := by
  rw [← List.findSome?_eq_none_iff, ask_local]
  cases names.findSome? (local_refusal tree root) with
  | none => exact iff_of_true (onlyPackError_ok _) rfl
  | some exc => exact iff_of_false (not_onlyPackError_uncaught exc) (by simp)

/-- What the visit of a file raises is mapped, but for a NUL in the file and for a
name that cannot be looked for. -/
theorem onlyPackError_visit_iff (file : tree.File) :
    OnlyPackError (visit packer.parse packer.stdlib_module_names tree root file) ↔
      ¬HoldsNul packer tree file ∧ ¬AsksRefused packer tree root file := by
  unfold visit
  rw [onlyPackError_bind, and_iff_right (onlyPackError_read_bytes tree file)]
  cases hread : read_bytes tree file with
  | error e =>
      have hnone : ∀ body, tree.body file ≠ .ok body := by
        intro body hbody
        rw [← read_bytes_eq_ok, hread] at hbody
        cases hbody
      refine iff_of_true (fun body hbody => ?_) ⟨fun hnul => ?_, fun hasks => ?_⟩
      · cases hbody
      · obtain ⟨body, exc, hbody, -⟩ := hnul
        exact hnone body hbody
      · obtain ⟨body, source, dotted, exc, hbody, -⟩ := hasks
        exact hnone body hbody
  | ok body =>
      have hbody := read_bytes_eq_ok.mp hread
      have hparse := onlyPackError_parse_source_iff packer tree hbody
      have hone : ∀ P : Bytes → Prop, (∀ a, Except.ok (ε := PyError) body = .ok a → P a) ↔ P body :=
        fun P => ⟨fun h => h body rfl, fun h a ha => by cases ha; exact h⟩
      rw [hone, onlyPackError_bind, hparse]
      refine and_congr_right fun _ => ?_
      simp only [parse_source_eq_ok, onlyPackError_bind, onlyPackError_ask_local_iff]
      constructor
      · intro h hasks
        obtain ⟨body', source, dotted, exc, hbody', hsource, hdotted, hexc⟩ := hasks
        rw [hbody] at hbody'
        cases hbody'
        have hnone := (h source hsource).1 dotted hdotted
        rw [hnone] at hexc
        cases hexc
      · intro h source hsource
        refine ⟨fun dotted hdotted => ?_, fun _ _ => onlyPackError_ok _⟩
        by_contra hsome
        obtain ⟨exc, hexc⟩ := Option.ne_none_iff_exists'.mp hsome
        exact h ⟨body, source, dotted, exc, hbody, hsource, hdotted, hexc⟩

/-- The walk over the imports of the entry comes to a file that holds a NUL, or that
imports a name that cannot be looked for. -/
def MeetsUnmapped (entry : tree.File) : Prop :=
  ∃ file, Worklist.Comes (visit packer.parse packer.stdlib_module_names tree root) [entry] [] file ∧
    (HoldsNul packer tree file ∨ AsksRefused packer tree root file)

theorem onlyPackError_explore_iff (entry : tree.File) :
    OnlyPackError (Worklist.explore (visit packer.parse packer.stdlib_module_names tree root)
      [entry] [] []).2 ↔ ¬MeetsUnmapped packer tree root entry := by
  have hwalk : ∀ e, (Worklist.explore (visit packer.parse packer.stdlib_module_names tree root)
      [entry] [] []).2 = .error e ↔ _ := fun e => Worklist.explore_error_iff
  constructor
  · intro h hmeets
    obtain ⟨file, hcomes, hfile⟩ := hmeets
    rw [← not_not (a := _ ∨ _), not_or, ← onlyPackError_visit_iff] at hfile
    refine hfile fun e he => ?_
    exact h e ((hwalk e).mpr ⟨file, hcomes, he⟩)
  · intro h e he
    obtain ⟨file, hcomes, hfile⟩ := (hwalk e).mp he
    have hmapped : OnlyPackError (visit packer.parse packer.stdlib_module_names tree root file) := by
      rw [onlyPackError_visit_iff, ← not_or]
      intro hunmapped
      exact h ⟨file, hcomes, hunmapped⟩
    exact hmapped e hfile

/-- A path to include cannot be looked for, and those in front of it were taken. -/
def IncludesRefused (incl : List Path) (found : List (tree.File × Bytes)) (reads : List tree.File) :
    Prop :=
  ∃ before extra after reads' found' exc, incl = before ++ extra :: after ∧
    include_files tree before found reads = (reads', .ok found') ∧ tree.refusal extra = some exc

theorem includesRefused_cons {extra : Path} {rest : List Path} {found : List (tree.File × Bytes)}
    {reads : List tree.File} :
    IncludesRefused tree (extra :: rest) found reads ↔ (∃ exc, tree.refusal extra = some exc) ∨
      ∃ before later after reads' found' exc, rest = before ++ later :: after ∧
        include_files tree (extra :: before) found reads = (reads', .ok found') ∧
        tree.refusal later = some exc := by
  constructor
  · intro h
    obtain ⟨before, later, after, reads', found', exc, hsplit, htaken, hexc⟩ := h
    cases before with
    | nil =>
        obtain ⟨rfl, -⟩ := List.cons.inj hsplit
        exact Or.inl ⟨exc, hexc⟩
    | cons first before =>
        obtain ⟨rfl, hrest⟩ := List.cons.inj hsplit
        exact Or.inr ⟨before, later, after, reads', found', exc, hrest, htaken, hexc⟩
  · intro h
    obtain ⟨exc, hexc⟩ | ⟨before, later, after, reads', found', exc, hrest, htaken, hexc⟩ := h
    · exact ⟨[], extra, rest, reads, found, exc, rfl, rfl, hexc⟩
    · exact ⟨extra :: before, later, after, reads', found', exc, congrArg _ hrest, htaken, hexc⟩

theorem onlyPackError_include_files_iff (incl : List Path) (found : List (tree.File × Bytes))
    (reads : List tree.File) :
    OnlyPackError (include_files tree incl found reads).2 ↔ ¬IncludesRefused tree incl found reads := by
  induction incl generalizing found reads with
  | nil =>
      refine iff_of_true (onlyPackError_ok _) fun h => ?_
      obtain ⟨before, extra, after, -, -, -, hsplit, -⟩ := h
      simp at hsplit
  | cons extra rest ih =>
      have hfile := onlyPackError_existing_file_iff tree extra (py "included file")
      rw [includesRefused_cons]
      simp only [include_files]
      cases hexists : existing_file tree extra (py "included file") with
      | error e =>
          rw [hexists] at hfile
          rw [show OnlyPackError (Except.error e : Except PyError (List (tree.File × Bytes))) ↔ _ from
            onlyPackError_error.trans onlyPackError_error.symm |>.trans hfile]
          simp [Option.eq_none_iff_forall_ne_some]
      | ok path =>
          have hasked : tree.refusal extra = none := hfile.mp (hexists ▸ onlyPackError_ok path)
          simp only [hasked, reduceCtorEq, exists_false, false_or]
          by_cases hfound : path ∈ Worklist.keys found
          · simp only [hfound, if_true]
            exact ih found reads
          · simp only [hfound, if_false]
            cases hread : read_bytes tree path with
            | error e =>
                refine iff_of_true (onlyPackError_error.mpr ?_) (by simp)
                exact onlyPackError_read_bytes tree path e hread
            | ok body => exact ih _ _

theorem onlyPackError_require_under_root (files : List tree.File) :
    OnlyPackError (require_under_root tree root files) := by
  induction files with
  | nil => exact onlyPackError_ok _
  | cons path rest ih =>
      rw [require_under_root]
      split
      · exact ih
      · exact onlyPackError_error.mpr rfl

/-- The files the imports lead to are read, parsed and looked for without an error
that is not mapped, and so are those to include. -/
structure Collects (entry : tree.File) (incl : List Path) : Prop where
  walk : ¬MeetsUnmapped packer tree root entry
  includes : ∀ reads walked, Worklist.explore
      (visit packer.parse packer.stdlib_module_names tree root) [entry] [] [] = (reads, .ok walked) →
    ¬IncludesRefused tree incl (walked.map fun e => (e.1, e.2.1)) reads

theorem onlyPackError_collect_sources_iff (entry : tree.File) (incl : List Path) :
    OnlyPackError (collect_sources packer.parse packer.stdlib_module_names tree root entry incl).2 ↔
      Collects packer tree root entry incl := by
  have hwalk := onlyPackError_explore_iff packer tree root entry
  unfold collect_sources
  cases hrun : Worklist.explore (visit packer.parse packer.stdlib_module_names tree root)
      [entry] [] [] with
  | mk reads result =>
      rw [hrun] at hwalk
      cases result with
      | error e =>
          show OnlyPackError (.error e) ↔ _
          rw [onlyPackError_error, ← onlyPackError_error (α := List _), hwalk]
          refine ⟨fun h => ⟨h, fun reads' walked h' => ?_⟩, Collects.walk⟩
          rw [hrun] at h'
          cases h'
      | ok walked =>
          have hincl := onlyPackError_include_files_iff tree incl
            (walked.map fun e => (e.1, e.2.1)) reads
          have hcollects : Collects packer tree root entry incl ↔
              ¬IncludesRefused tree incl (walked.map fun e => (e.1, e.2.1)) reads := by
            refine ⟨fun h => h.includes reads walked hrun, fun h => ⟨?_, fun reads' walked' h' => ?_⟩⟩
            · exact hwalk.mp (onlyPackError_ok walked)
            · rw [hrun] at h'
              cases h'
              exact h
          rw [hcollects, ← hincl]
          dsimp only
          cases hfound : include_files tree incl (walked.map fun e => (e.1, e.2.1)) reads with
          | mk reads' result =>
              cases result with
              | error e => exact onlyPackError_error.trans onlyPackError_error.symm
              | ok found =>
                  refine iff_of_true ?_ (onlyPackError_ok found)
                  dsimp only
                  cases hroot : require_under_root tree root (Worklist.keys found) with
                  | error e =>
                      exact onlyPackError_error.mpr (onlyPackError_require_under_root tree root _ e hroot)
                  | ok _ =>
                      simp only [ask_external hrun]
                      exact onlyPackError_ok _

end Collect

/-! ## Preparing the members -/

theorem mem_of_block_end {lines block : List PyStr} (h : block_end lines = some block) :
    ∀ line ∈ block, line ∈ lines := by
  induction lines generalizing block with
  | nil => cases h
  | cons first rest ih =>
      simp only [block_end] at h
      split_ifs at h
      · cases h
        exact fun line hline => List.mem_singleton.mp hline ▸ List.mem_cons_self
      · obtain ⟨later, hlater, rfl⟩ := Option.map_eq_some_iff.mp h
        rw [List.forall_mem_cons]
        exact ⟨List.mem_cons_self, fun line hline => List.mem_cons_of_mem _ (ih hlater line hline)⟩

theorem first_block_spec (lines : List PyStr) :
    OnlyPackError (first_block lines) ∧
      ∀ metadata, first_block lines = .ok metadata → (∀ line ∈ lines, Clean line) → Clean metadata := by
  induction lines with
  | nil =>
      refine ⟨onlyPackError_ok _, fun metadata h _ => ?_⟩
      cases h
      exact Files.clean_nil
  | cons line rest ih =>
      rw [first_block]
      by_cases hopen : rstrip line = PEP723_OPEN
      · simp only [hopen, ne_eq, not_true, if_false]
        cases hblock : block_end rest with
        | none =>
            refine ⟨onlyPackError_error.mpr rfl, fun metadata h _ => ?_⟩
            cases h
        | some block =>
            refine ⟨onlyPackError_ok _, fun metadata h hclean => ?_⟩
            cases h
            rw [List.forall_mem_cons] at hclean
            have hlf : Clean [LF] := clean_py "\n"
            refine clean_flatMap.mpr (List.forall_mem_cons.mpr ⟨clean_append.mpr ⟨hclean.1, hlf⟩, ?_⟩)
            intro later hlater
            exact clean_append.mpr ⟨hclean.2 later (mem_of_block_end hblock later hlater), hlf⟩
      · simp only [hopen, ne_eq, not_false_eq_true, if_true]
        refine ⟨ih.1, fun metadata h hclean => ih.2 metadata h ?_⟩
        exact (List.forall_mem_cons.mp hclean).2

theorem clean_extract_script_metadata {source metadata : PyStr} (hsource : Clean source)
    (h : extract_script_metadata source = .ok metadata) : Clean metadata :=
  (first_block_spec _).2 metadata h fun _ hline c hc => hsource c (mem_of_mem_splitlines hline hc)

section Shim

variable {table : Nat → Bool} (htable : ∀ c, isSurrogate c = true → table c = false)

include htable

theorem clean_pyRepr (s : PyStr) : Clean (pyRepr table s) := by
  refine forall_mem_pyRepr (P := fun c => isSurrogate c = false) (fun c hlow hhigh => ?_) (fun c hc => ?_) s
  · exact not_surrogate_of_lt (by omega)
  · rw [isprintable, Bool.and_eq_true] at hc
    rw [← Bool.not_eq_true]
    intro hsurrogate
    rw [htable c hsurrogate] at hc
    exact absurd hc.2 Bool.false_ne_true

theorem clean_shim_value (entry : PyStr) (f : ShimField) : Clean (f.value table entry) := by
  cases f with
  | cwd_exit =>
      refine clean_of_lt ?_
      show ∀ c ∈ decimal SHIM_CWD_EXIT, c < 0x80
      decide
  | caller_names =>
      refine clean_append.mpr ⟨clean_py _, clean_append.mpr ⟨?_, clean_py _⟩⟩
      exact (clean_intercalate (clean_py _)).mpr
        (List.forall_mem_map.mpr fun name _ => clean_pyRepr htable name)
  | _ => exact clean_pyRepr htable _

/-- The shim can be encoded whatever the entry's name, which it holds by its `repr`. -/
theorem clean_render_shim (entry : PyStr) {metadata : PyStr} (h : Clean metadata) :
    Clean (render_shim table entry metadata) := by
  have hlf : Clean [LF] := clean_py "\n"
  refine clean_append.mpr ⟨h, clean_flatMap.mpr (List.forall_mem_map.mpr fun line _ => ?_)⟩
  refine clean_append.mpr ⟨clean_flatMap.mpr fun piece _ => ?_, hlf⟩
  cases piece with
  | text s => exact clean_py s
  | field f => exact clean_shim_value htable entry f

end Shim

/-- The decoder and the table of printable characters know no surrogate. -/
structure Packer.Decodes (packer : Packer) : Prop where
  decode : ∀ data, Clean (packer.decode data)
  printable : ∀ c, isSurrogate c = true → packer.printable c = false
  template : ∀ fmt lines, packer.template fmt = .ok lines →
    ∀ line ∈ lines, ∀ s, Segment.text s ∈ line → Clean s

section Prepare

variable {packer : Packer} {tree : SourceTree} {options : PackOptions} {entry : Path} {out : Output}
  {disk : Disk}

theorem onlyPackError_guard_destination_iff (sources : List Path) :
    OnlyPackError (guard_destination out options.force disk sources) ↔
      out.unresolved = none ∧ (out.resolved ∉ sources → out.unasked = none) := by
  unfold guard_destination
  cases hresolved : out.unresolved with
  | some exc => exact iff_of_false (not_onlyPackError_uncaught exc) (by simp)
  | none =>
      by_cases hsource : out.resolved ∈ sources
      · simp only [List.contains_iff_mem, hsource, if_true]
        exact iff_of_true (onlyPackError_error.mpr rfl) (by simp)
      · simp only [List.contains_iff_mem, hsource, if_false]
        cases hasked : out.unasked with
        | some exc => exact iff_of_false (not_onlyPackError_uncaught exc) (by simp)
        | none =>
            refine iff_of_true ?_ (by simp)
            dsimp only
            split_ifs
            · exact onlyPackError_error.mpr rfl
            · exact onlyPackError_ok _

theorem onlyPackError_prepare_members (hdecodes : packer.Decodes) {root : Path}
    {entry_path : tree.File} {reads : List tree.File} {sources : Collected tree}
    (h : collect_sources packer.parse packer.stdlib_module_names tree root entry_path options.incl =
      (reads, .ok sources)) :
    OnlyPackError (prepare_members packer tree root entry_path sources) := by
  obtain ⟨-, hreached, hbelow⟩ := collect_sources_ok h
  obtain ⟨entry_arc, harc⟩ := hbelow entry_path (hreached entry_path Relation.ReflTransGen.refl)
  simp only [prepare_members, harc]
  cases hmetadata : extract_script_metadata
      (packer.decode ((sources.found.lookup entry_path).getD [])) with
  | error e => exact onlyPackError_error.mpr ((first_block_spec _).1 e hmetadata)
  | ok metadata =>
      dsimp only
      split_ifs
      · exact onlyPackError_error.mpr rfl
      · have hclean := clean_extract_script_metadata (hdecodes.decode _) hmetadata
        obtain ⟨shim, hshim⟩ := Option.isSome_iff_exists.mp
          (encode_isSome_iff.mpr (clean_render_shim hdecodes.printable (as_posix entry_arc) hclean))
        rw [hshim]
        exact onlyPackError_ok _

/-- The entry, the root and the destination are found: no path is met that
`pathlib` refuses, and no home that is not known. -/
structure Finds (tree : SourceTree) (options : PackOptions) (entry : Path) (out : Output) :
    Prop where
  asked : tree.refusal entry = none
  root : ∀ entry_path, existing_file tree entry (py "entry script") = .ok entry_path →
    ∃ root, root_path tree options entry_path = .ok root
  destination : ∀ entry_path, existing_file tree entry (py "entry script") = .ok entry_path →
    out.unexpanded = none

theorem onlyPackError_find_paths_iff :
    OnlyPackError (find_paths tree options entry out) ↔ Finds tree options entry out := by
  have hasked := onlyPackError_existing_file_iff tree entry (py "entry script")
  unfold find_paths
  cases hentry : existing_file tree entry (py "entry script") with
  | error e =>
      rw [hentry, onlyPackError_error] at hasked
      show OnlyPackError (.error e) ↔ _
      rw [onlyPackError_error, hasked]
      refine ⟨fun h => ⟨h, fun entry_path h' => ?_, fun entry_path h' => ?_⟩, Finds.asked⟩
      · rw [hentry] at h'
        cases h'
      · rw [hentry] at h'
        cases h'
  | ok entry_path =>
      have hfound : tree.refusal entry = none := hasked.mp (hentry ▸ onlyPackError_ok entry_path)
      have hfinds : Finds tree options entry out ↔
          (∃ root, root_path tree options entry_path = .ok root) ∧ out.unexpanded = none := by
        refine ⟨fun h => ⟨h.root entry_path hentry, h.destination entry_path hentry⟩,
          fun h => ⟨hfound, fun other h' => ?_, fun _ _ => h.2⟩⟩
        rw [hentry] at h'
        cases h'
        exact h.1
      rw [hfinds]
      dsimp only
      cases root_path tree options entry_path with
      | error exc => exact iff_of_false (not_onlyPackError_uncaught exc) (by simp)
      | ok root =>
          dsimp only
          cases out.unexpanded with
          | some exc => exact iff_of_false (not_onlyPackError_uncaught exc) (by simp)
          | none => exact iff_of_true (onlyPackError_ok _) ⟨⟨root, rfl⟩, rfl⟩

/-- Each path is found, the sources are collected, and the destination is asked for,
without an error that is not mapped. -/
structure Prepares (packer : Packer) (tree : SourceTree) (options : PackOptions) (entry : Path)
    (out : Output) : Prop where
  finds : Finds tree options entry out
  sources : ∀ entry_path root, find_paths tree options entry out = .ok (entry_path, root) →
    Collects packer tree root entry_path options.incl
  destination : ∀ entry_path root reads sources,
    find_paths tree options entry out = .ok (entry_path, root) →
    collect_sources packer.parse packer.stdlib_module_names tree root entry_path options.incl =
      (reads, .ok sources) →
    out.unresolved = none ∧
      (out.resolved ∉ (Worklist.keys sources.found).map (·.val) → out.unasked = none)

theorem prepare_eq_bind : prepare packer tree options entry out disk =
    find_paths tree options entry out >>= fun paths =>
      (collect_sources packer.parse packer.stdlib_module_names tree paths.2 paths.1
          options.incl).2 >>= fun sources =>
        guard_destination out options.force disk ((Worklist.keys sources.found).map (·.val)) >>=
          fun _ => prepare_members packer tree paths.2 paths.1 sources := by
  unfold prepare
  cases find_paths tree options entry out with
  | error e => rfl
  | ok paths =>
      obtain ⟨entry_path, root⟩ := paths
      simp only [bind, Except.bind]
      cases (collect_sources packer.parse packer.stdlib_module_names tree root entry_path
          options.incl).2 with
      | error e => rfl
      | ok sources =>
          simp only
          cases guard_destination out options.force disk
              ((Worklist.keys sources.found).map (·.val)) with
          | error e => rfl
          | ok _ => rfl

theorem onlyPackError_prepare_iff (hdecodes : packer.Decodes) :
    OnlyPackError (prepare packer tree options entry out disk) ↔
      Prepares packer tree options entry out := by
  rw [prepare_eq_bind, onlyPackError_bind, onlyPackError_find_paths_iff]
  simp only [onlyPackError_bind, onlyPackError_collect_sources_iff, onlyPackError_guard_destination_iff]
  constructor
  · intro h
    refine ⟨h.1, fun entry_path root hpaths => (h.2 (entry_path, root) hpaths).1, ?_⟩
    intro entry_path root reads sources hpaths hsources
    exact ((h.2 (entry_path, root) hpaths).2 sources (congrArg Prod.snd hsources)).1
  · intro h
    refine ⟨h.finds, fun paths hpaths => ⟨h.sources paths.1 paths.2 hpaths, fun sources hsources => ?_⟩⟩
    have hrun : collect_sources packer.parse packer.stdlib_module_names tree paths.2 paths.1
        options.incl = (_, .ok sources) := Prod.ext rfl hsources
    refine ⟨h.destination _ _ _ sources hpaths hrun, fun _ _ => ?_⟩
    exact onlyPackError_prepare_members hdecodes hrun

end Prepare

/-! ## Building the archive -/

theorem mem_slash_cuts {text before behind : PyStr} :
    (before, behind) ∈ slash_cuts text ↔ text = before ++ 0x2f :: behind := by
  induction text generalizing before behind with
  | nil => simp [slash_cuts]
  | cons c rest ih =>
      have hlater : (before, behind) ∈ (slash_cuts rest).map (fun cut => (c :: cut.1, cut.2)) ↔
          ∃ front, before = c :: front ∧ rest = front ++ 0x2f :: behind := by
        rw [List.mem_map]
        constructor
        · intro h
          obtain ⟨⟨front, back⟩, hcut, heq⟩ := h
          cases heq
          exact ⟨front, rfl, ih.mp hcut⟩
        · intro h
          obtain ⟨front, rfl, hrest⟩ := h
          exact ⟨(front, behind), ih.mpr hrest, rfl⟩
      have hcuts : c :: rest = before ++ 0x2f :: behind ↔
          (before = [] ∧ c = 0x2f ∧ rest = behind) ∨
            ∃ front, before = c :: front ∧ rest = front ++ 0x2f :: behind := by
        cases before with
        | nil => simp
        | cons d front => simp [eq_comm]
      rw [hcuts, ← hlater, slash_cuts]
      split_ifs with hslash
      · simp [hslash, eq_comm]
      · simp [hslash]

/-- The USTAR format has room for the member: for its name, cut at one of its
slashes where it is long, and for its size. -/
def FitsUstar (member : PyStr × Bytes) : Prop :=
  ∃ name, fsencode member.1 = some name ∧
    (name.length ≤ LENGTH_NAME ∨ ∃ before behind, member.1 = before ++ 0x2f :: behind ∧
      fitsIn LENGTH_PREFIX before = true ∧ fitsIn LENGTH_NAME behind = true) ∧
    member.2.length < SIZE_LIMIT

theorem any_slash_cuts {text : PyStr} :
    ((slash_cuts text).any fun cut => fitsIn LENGTH_PREFIX cut.1 && fitsIn LENGTH_NAME cut.2) = true ↔
      ∃ before behind, text = before ++ 0x2f :: behind ∧
        fitsIn LENGTH_PREFIX before = true ∧ fitsIn LENGTH_NAME behind = true := by
  simp only [List.any_eq_true, Bool.and_eq_true, Prod.exists, mem_slash_cuts]

theorem ustar_error_spec (member : PyStr × Bytes) :
    (ustar_error member = none ↔ FitsUstar member) ∧
      ∀ e, ustar_error member = some e → e.cls ≠ .packError := by
  unfold ustar_error FitsUstar
  cases fsencode member.1 with
  | none => simp [uncaught]
  | some name =>
      simp only [← any_slash_cuts, Option.some.injEq, exists_eq_left']
      split_ifs with hname hsize
      · refine ⟨iff_of_false (by simp) ?_, by simp [uncaught]⟩
        intro hfits
        obtain hshort | hcut := hfits.1
        · omega
        · exact hname.2 hcut
      · refine ⟨iff_of_false (by simp) ?_, by simp [uncaught]⟩
        intro hfits
        omega
      · refine ⟨iff_of_true rfl ⟨?_, by omega⟩, by simp⟩
        by_contra hnot
        rw [not_or, Nat.not_le] at hnot
        exact hname hnot

/-- The archive of the format can hold the member. -/
def Storable : RunnerFormat → PyStr × Bytes → Prop
  | .ps1, member => Clean member.1
  | .sh, member => FitsUstar member

theorem build_spec (packer : Packer) (fmt : RunnerFormat) (members : List (PyStr × Bytes)) :
    ((∃ payload, build packer fmt members = .ok payload) ↔ ∀ m ∈ members, Storable fmt m) ∧
      ∀ e, build packer fmt members = .error e → e.cls ≠ .packError := by
  cases fmt with
  | ps1 =>
      have hall : (∀ m ∈ members, Storable .ps1 m) ↔
          ¬(members.any fun m => m.1.any isSurrogate) = true := by
        simp [Storable, Clean]
      rw [hall]
      show ((∃ payload, build_archive packer members = .ok payload) ↔ _) ∧
        ∀ e, build_archive packer members = .error e → _
      unfold build_archive
      split_ifs with hany
      · exact ⟨iff_of_false (by simp) (not_not_intro hany), by simp [uncaught]⟩
      · exact ⟨iff_of_true ⟨_, rfl⟩ hany, by simp⟩
  | sh =>
      show ((∃ payload, build_tar_archive packer members = .ok payload) ↔ _) ∧
        ∀ e, build_tar_archive packer members = .error e → _
      unfold build_tar_archive
      cases hfind : members.findSome? ustar_error with
      | none =>
          rw [List.findSome?_eq_none_iff] at hfind
          refine ⟨iff_of_true ⟨_, rfl⟩ fun m hm => ?_, fun e he => ?_⟩
          · exact (ustar_error_spec m).1.mp (hfind m hm)
          · cases he
      | some e =>
          obtain ⟨m, hm, herror⟩ := List.exists_of_findSome?_eq_some hfind
          refine ⟨iff_of_false (fun hok => ?_) fun hall => ?_, fun e' he' => ?_⟩
          · obtain ⟨payload, hpayload⟩ := hok
            cases hpayload
          · rw [(ustar_error_spec m).1.mpr (hall m hm)] at herror
            cases herror
          · cases he'
            exact (ustar_error_spec m).2 e herror

/-! ## Rendering and writing the runner -/

theorem onlyPackError_find_requires_python (depth : Int) (open_string : Option Delimiter)
    (lines : List PyStr) : OnlyPackError (find_requires_python depth open_string lines) := by
  induction lines generalizing depth open_string with
  | nil => exact onlyPackError_ok _
  | cons raw rest ih =>
      rw [find_requires_python]
      split_ifs
      · exact onlyPackError_ok _
      · unfold requires_python_value
        split
        · exact onlyPackError_error.mpr rfl
        · split
          · exact onlyPackError_ok _
          · exact onlyPackError_error.mpr rfl
      · exact ih _ _

theorem python_request_spec (metadata : PyStr) :
    OnlyPackError (python_request metadata) ∧
      ((∃ request, python_request metadata = .ok request) ↔
        ∃ text, extract_requires_python metadata = .ok text) := by
  unfold python_request
  split
  · rename_i e h
    refine ⟨onlyPackError_error.mpr (onlyPackError_find_requires_python _ _ _ e h), ?_⟩
    rw [h]
    simp
  · rename_i text h
    exact ⟨onlyPackError_ok _, iff_of_true ⟨_, rfl⟩ ⟨text, h⟩⟩

/-- The runner of the prepared members can be rendered: its `requires-python` is
read, the template is installed and whole, and no name breaks it. -/
structure Renders (packer : Packer) (fmt : RunnerFormat) (prepared : Prepared) : Prop where
  request : ∃ text, extract_requires_python prepared.metadata = .ok text
  template : ∃ lines, packer.template fmt = .ok lines ∧
    ∀ p ∈ fmt.placeholders, lines.any (·.contains (Segment.hole p)) = true
  names : ∀ name ∈ prepared.entry_arc :: prepared.members.map Prod.fst, LF ∉ name ∧ CR ∉ name
  comment_end : fmt = .ps1 → containsText (py "#>") prepared.entry_arc = false

section Runner

variable {packer : Packer} {options : PackOptions} {prepared : Prepared} {payload : Bytes}
  {content : RunnerContent}

theorem onlyPackError_refuse_unrepresentable_names :
    OnlyPackError (refuse_unrepresentable_names content) := by
  unfold refuse_unrepresentable_names
  split
  · exact onlyPackError_error.mpr rfl
  · exact onlyPackError_ok _

theorem refuse_comment_end_spec (fmt : RunnerFormat) :
    OnlyPackError (refuse_comment_end fmt content) ∧
      (refuse_comment_end fmt content = .ok () ↔
        (fmt = .ps1 → containsText (py "#>") content.entry = false)) := by
  cases fmt with
  | sh => exact ⟨onlyPackError_ok _, iff_of_true rfl fun h => nomatch h⟩
  | ps1 =>
      unfold refuse_comment_end
      dsimp only
      split_ifs with h
      · exact ⟨onlyPackError_error.mpr rfl, iff_of_false (by simp) (by simp [h])⟩
      · exact ⟨onlyPackError_ok _, iff_of_true rfl (by simp [h])⟩

theorem onlyPackError_render (split : PyStr → Option (PyStr × PyStr)) (fmt : RunnerFormat)
    (template : List TemplateLine) : OnlyPackError (render split fmt template content) := by
  unfold render
  split
  · intro e h
    cases Raises.bind_eq_error.mp h with
    | inl hnames => exact onlyPackError_refuse_unrepresentable_names e hnames
    | inr hlater =>
        obtain ⟨⟨⟩, -, hlater⟩ := hlater
        cases Raises.bind_eq_error.mp hlater with
        | inl hend => exact (refuse_comment_end_spec fmt).1 e hend
        | inr hdone =>
            obtain ⟨⟨⟩, -, hdone⟩ := hdone
            cases hdone
  · exact onlyPackError_error.mpr rfl

theorem computed_runner_content (request : Specifiers) :
    Computed (runner_content packer options prepared payload request) where
  payload_b64 := clean_chunk_base64 payload
  payload_sha256 := clean_hexdigest packer payload
  digests := by
    intro fh hfh
    obtain ⟨m, -, rfl⟩ := List.mem_map.mp hfh
    exact clean_hexdigest packer m.2

theorem spelled_runner_content (request : Specifiers) :
    Spelled (runner_content packer options prepared payload request) ↔
      Clean prepared.entry_arc ∧ (∀ v ∈ options.with_packages, Clean v) ∧
        ∀ m ∈ prepared.members, Clean m.1 := by
  have hargs : (∀ v ∈ with_args options.with_packages, Clean v) ↔
      ∀ v ∈ options.with_packages, Clean v := by
    have hwith : Clean (py "--with") := clean_py _
    rw [with_args, List.forall_mem_flatMap]
    refine forall₂_congr fun package _ => ?_
    rw [List.forall_mem_cons, List.forall_mem_singleton, and_iff_right hwith]
  have hpaths : (∀ fh ∈ (runner_content packer options prepared payload request).file_hashes,
      Clean fh.path) ↔ ∀ m ∈ prepared.members, Clean m.1 := List.forall_mem_map
  rw [← hargs, ← hpaths]
  constructor
  · intro h
    exact ⟨h.entry, h.uv_args, h.paths⟩
  · intro h
    exact ⟨h.1, h.2.1, h.2.2⟩

theorem render_payload_spec (hdecodes : packer.Decodes) (options : PackOptions) (prepared : Prepared)
    (payload : Bytes) :
    OnlyPackError (render_payload packer options prepared payload) ∧
      ((∃ runner, render_payload packer options prepared payload = .ok runner) ↔
        Renders packer options.format prepared) ∧
      ∀ runner, render_payload packer options prepared payload = .ok runner →
        (Clean runner ↔ Clean prepared.entry_arc ∧ (∀ v ∈ options.with_packages, Clean v) ∧
          ∀ m ∈ prepared.members, Clean m.1) := by
  obtain ⟨hrequest, hrequests⟩ := python_request_spec prepared.metadata
  unfold render_payload
  cases hparsed : python_request prepared.metadata with
  | error e =>
      rw [hparsed] at hrequests hrequest
      refine ⟨onlyPackError_error.mpr (hrequest e rfl), iff_of_false (by simp) ?_, by simp⟩
      intro hrenders
      obtain ⟨request, hok⟩ := hrequests.mpr hrenders.request
      cases hok
  | ok request =>
      rw [hparsed] at hrequests
      cases htemplate : packer.template options.format with
      | error exc =>
          refine ⟨onlyPackError_error.mpr rfl, iff_of_false (by simp) ?_, by simp⟩
          intro hrenders
          obtain ⟨lines, hlines, -⟩ := hrenders.template
          rw [htemplate] at hlines
          cases hlines
      | ok template =>
          dsimp only
          refine ⟨onlyPackError_render _ _ _, ?_, fun runner h => ?_⟩
          · simp only [render_eq_ok, refuse_unrepresentable_names_eq_ok,
              (refuse_comment_end_spec options.format).2]
            constructor
            · intro h
              obtain ⟨runner, hall, hnames, hend, -⟩ := h
              refine ⟨hrequests.mp ⟨request, rfl⟩, ⟨template, htemplate, hall⟩, ?_, hend⟩
              simpa [runner_content, Function.comp_def] using hnames
            · intro h
              obtain ⟨lines, hlines, hall⟩ := h.template
              rw [htemplate] at hlines
              cases hlines
              refine ⟨_, hall, ?_, h.comment_end, rfl⟩
              simpa [runner_content, Function.comp_def] using h.names
          · rw [clean_render (hdecodes.template _ _ htemplate) (computed_runner_content request) h,
              spelled_runner_content]

end Runner

end PwshPy.Packing
