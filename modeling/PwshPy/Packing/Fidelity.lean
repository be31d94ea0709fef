import PwshPy.Packing.Closure

/-! # What the pack loads is what the tree loads

The walk finds exactly the files the entry's imports lead to, and reads each of
them once. For a name that has one form and no link on its way, the finder on
the unpacked files loads the file it loads from the source tree.
-/

namespace PwshPy.Packing

open PathFinder (Path Spec)

variable {parse : Bytes → Except Nat Node} {stdlib : List PyStr} {tree : SourceTree} {root : Path}

/-! ## One visit -/

variable (parse tree root) in
/-- The file imports the other: one of its candidates resolves to it. -/
def Imports (f g : tree.File) : Prop :=
  ∃ body source dotted, tree.body f = .ok body ∧ parse body = .ok source ∧
    dotted ∈ iter_import_candidates source (package_parts tree root f) ∧
    resolve_local tree root dotted = some g

theorem read_bytes_eq_ok {f : tree.File} {body : Bytes} :
    read_bytes tree f = .ok body ↔ tree.body f = .ok body := by
  unfold read_bytes
  cases tree.body f <;> simp

theorem parse_source_eq_ok {f : tree.File} {body : Bytes} {source : Node} :
    parse_source parse tree f body = .ok source ↔ parse body = .ok source := by
  unfold parse_source
  cases parse body with
  | ok node => simp
  | error exc => simp only [reduceCtorEq, iff_false]; split <;> simp

theorem ask_local_eq_ok {names : List Dotted} :
    ask_local tree root names = .ok () ↔ ∀ dotted ∈ names, local_refusal tree root dotted = none := by
  rw [ask_local, ← List.findSome?_eq_none_iff]
  cases names.findSome? (local_refusal tree root) with
  | none => simp
  | some exc => simp

private theorem mem_candidate_effect {dotted : Dotted} {g : tree.File} :
    g ∈ (candidate_effect stdlib tree root dotted).2 ↔ resolve_local tree root dotted = some g := by
  unfold candidate_effect classify_import
  cases h : resolve_local tree root dotted with
  | some file => simp [eq_comm]
  | none =>
      by_cases hs : dotted.headD [] ∈ stdlib
      · simp only [Option.isSome_none, Bool.false_eq_true, if_false, List.not_mem_nil, hs, if_true]
        simp
      · simp only [Option.isSome_none, Bool.false_eq_true, if_false, List.not_mem_nil, hs]
        simp

private theorem mem_candidate_external {dotted : Dotted} {name : PyStr}
    (h : name ∈ (candidate_effect stdlib tree root dotted).1) : name = dotted.headD [] := by
  unfold candidate_effect at h
  dsimp only at h
  split at h
  · exact List.mem_singleton.mp h
  · cases h
  · cases h

theorem visit_eq_ok {f : tree.File} {value : Bytes × List PyStr} {next : List tree.File}
    (h : visit parse stdlib tree root f = .ok (value, next)) :
    ∃ source, tree.body f = .ok value.1 ∧ parse value.1 = .ok source ∧
      ∀ g, g ∈ next ↔ ∃ dotted ∈ iter_import_candidates source (package_parts tree root f),
        resolve_local tree root dotted = some g := by
  unfold visit at h
  obtain ⟨body, hbody, h⟩ := Raises.bind_eq_ok.mp h
  obtain ⟨source, hsource, h⟩ := Raises.bind_eq_ok.mp h
  obtain ⟨-, -, h⟩ := Raises.bind_eq_ok.mp h
  obtain ⟨rfl, rfl⟩ := Prod.mk.inj (Except.ok.inj h)
  refine ⟨source, read_bytes_eq_ok.mp hbody, parse_source_eq_ok.mp hsource, fun g => ?_⟩
  simp only [List.mem_flatMap, List.mem_map, exists_exists_and_eq_and, mem_candidate_effect]

/-- The external names of a visit that returned were looked for. -/
theorem visit_names_asked {f : tree.File} {value : Bytes × List PyStr} {next : List tree.File}
    (h : visit parse stdlib tree root f = .ok (value, next)) :
    ∀ name ∈ value.2, local_refusal tree root [name] = none := by
  unfold visit at h
  obtain ⟨body, -, h⟩ := Raises.bind_eq_ok.mp h
  obtain ⟨source, -, h⟩ := Raises.bind_eq_ok.mp h
  obtain ⟨⟨⟩, hasked, h⟩ := Raises.bind_eq_ok.mp h
  obtain ⟨rfl, -⟩ := Prod.mk.inj (Except.ok.inj h)
  intro name hname
  obtain ⟨effect, heffect, hmem⟩ := List.mem_flatMap.mp hname
  obtain ⟨dotted, hdotted, rfl⟩ := List.mem_map.mp heffect
  rw [mem_candidate_external hmem]
  exact ask_local_eq_ok.mp hasked _ (first_mem_candidates hdotted)

/-- On a file the walk could visit, a visit leads where the imports lead. -/
theorem leads_iff_imports {f g : tree.File} {value : Bytes × List PyStr} {next : List tree.File}
    (h : visit parse stdlib tree root f = .ok (value, next)) :
    Worklist.Leads (visit parse stdlib tree root) f g ↔ Imports parse tree root f g := by
  obtain ⟨source, hbody, hsource, hnext⟩ := visit_eq_ok h
  constructor
  · rintro ⟨value', next', hv, hg⟩
    obtain ⟨rfl, rfl⟩ : value' = value ∧ next' = next := by simpa [hv] using h
    obtain ⟨dotted, hd, hr⟩ := (hnext g).mp hg
    exact ⟨_, source, dotted, hbody, hsource, hd, hr⟩
  · rintro ⟨body', source', dotted, hbody', hsource', hd, hr⟩
    obtain rfl : body' = value.1 := by simpa [hbody'] using hbody
    obtain rfl : source' = source := by simpa [hsource'] using hsource
    exact ⟨value, next, h, (hnext g).mpr ⟨dotted, hd, hr⟩⟩

/-! ## The whole walk -/

variable (parse tree root) in
/-- The files the imports of the entry lead to. -/
def Reached (entry f : tree.File) : Prop := Relation.ReflTransGen (Imports parse tree root) entry f

/-- The dictionary holds what its files hold. -/
def Holds (found : List (tree.File × Bytes)) : Prop := ∀ e ∈ found, tree.body e.1 = .ok e.2

private theorem walked_spec {entry : tree.File} {reads : List tree.File}
    {walked : List (tree.File × (Bytes × List PyStr))}
    (h : Worklist.explore (visit parse stdlib tree root) [entry] [] [] = (reads, .ok walked)) :
    (∀ e ∈ walked, tree.body e.1 = .ok e.2.1) ∧ reads = Worklist.keys walked ∧
      ∀ f, f ∈ Worklist.keys walked ↔ Reached parse tree root entry f := by
  have inv := Worklist.explore_ok (Worklist.Invariant.initial [entry]) h
  have hreads := Worklist.explore_visits_eq rfl h
  have hvisit : ∀ e ∈ walked, ∃ next, visit parse stdlib tree root e.1 = .ok (e.2, next) :=
    fun e he => (inv.visited e he).imp fun _ hn => hn.1
  refine ⟨fun e he => ?_, hreads, fun f => ⟨fun hf => ?_, fun hf => ?_⟩⟩
  · obtain ⟨next, hv⟩ := hvisit e he
    obtain ⟨_, hbody, -⟩ := visit_eq_ok hv
    exact hbody
  · obtain ⟨_, hs, hpath⟩ := inv.mem_iff.mp hf
    obtain rfl := List.mem_singleton.mp hs
    refine Relation.ReflTransGen.mono (fun a b hab => ?_) _ _ hpath
    obtain ⟨value, next, hv, hb⟩ := hab
    exact (leads_iff_imports hv).mp ⟨value, next, hv, hb⟩
  · have hentry : entry ∈ Worklist.keys walked :=
      inv.mem_iff.mpr ⟨entry, List.mem_singleton_self _, .refl⟩
    induction hf with
    | refl => exact hentry
    | tail _ hbc ih =>
        obtain ⟨s, hs, hpath⟩ := inv.mem_iff.mp ih
        obtain ⟨value, hmem⟩ := Worklist.mem_keys.mp ih
        obtain ⟨next, hv⟩ := hvisit _ hmem
        exact inv.mem_iff.mpr ⟨s, hs, hpath.tail ((leads_iff_imports hv).mpr hbc)⟩

/-- The names that look external are looked for once more, with the same answers. -/
theorem ask_external {entry : tree.File} {reads : List tree.File}
    {walked : List (tree.File × (Bytes × List PyStr))}
    (h : Worklist.explore (visit parse stdlib tree root) [entry] [] [] = (reads, .ok walked)) :
    ask_local tree root ((walked.flatMap fun e => e.2.2).map fun name => [name]) = .ok () := by
  have inv := Worklist.explore_ok (Worklist.Invariant.initial [entry]) h
  rw [ask_local_eq_ok, List.forall_mem_map]
  intro name hname
  obtain ⟨e, he, hmem⟩ := List.mem_flatMap.mp hname
  obtain ⟨next, hvisit, -⟩ := inv.visited e he
  exact visit_names_asked hvisit name hmem

/-- The loop over the included files keeps the dictionary and the log in step. -/
private theorem include_files_reads {incl : List Path} {found : List (tree.File × Bytes)}
    {reads : List tree.File} (hkeys : reads = Worklist.keys found) (hnodup : reads.Nodup) :
    (include_files tree incl found reads).1.Nodup := by
  induction incl generalizing found reads with
  | nil => exact hnodup
  | cons extra rest ih =>
      rw [include_files]
      cases existing_file tree extra (py "included file") with
      | error e => exact hnodup
      | ok path =>
          by_cases hmem : path ∈ Worklist.keys found
          · simp only [hmem, if_true]
            exact ih hkeys hnodup
          · have hnew : (reads ++ [path]).Nodup :=
              List.nodup_append.mpr ⟨hnodup, by simp, by grind⟩
            simp only [hmem, if_false]
            cases read_bytes tree path with
            | error e => exact hnew
            | ok body => exact ih (by simp [hkeys]) hnew

private theorem include_files_ok {incl : List Path} {found found' : List (tree.File × Bytes)}
    {reads reads' : List tree.File} (hold : Holds found)
    (h : include_files tree incl found reads = (reads', .ok found')) :
    Holds found' ∧ ∀ f ∈ Worklist.keys found, f ∈ Worklist.keys found' := by
  induction incl generalizing found reads with
  | nil =>
      simp only [include_files, Prod.mk.injEq, Except.ok.injEq] at h
      exact h.2 ▸ ⟨hold, fun _ hf => hf⟩
  | cons extra rest ih =>
      rw [include_files] at h
      cases he : existing_file tree extra (py "included file") with
      | error e => simp [he] at h
      | ok path =>
          by_cases hmem : path ∈ Worklist.keys found
          · simp only [he, hmem, if_true] at h
            exact ih hold h
          · simp only [he, hmem, if_false] at h
            cases hr : read_bytes tree path with
            | error e => simp [hr] at h
            | ok body =>
                simp only [hr] at h
                have hold' : Holds (found ++ [(path, body)]) := by
                  intro e he
                  rcases List.mem_append.mp he with he | he
                  · exact hold e he
                  · obtain rfl := List.mem_singleton.mp he
                    exact read_bytes_eq_ok.mp hr
                obtain ⟨hh, hsub⟩ := ih hold' h
                exact ⟨hh, fun f hf => hsub f (by simp [hf])⟩

private theorem require_under_root_ok {paths : List tree.File}
    (h : require_under_root tree root paths = .ok ()) :
    ∀ f ∈ paths, ∃ r, relative_to f.val root = some r := by
  induction paths with
  | nil => simp
  | cons path rest ih =>
      rw [require_under_root] at h
      cases hr : relative_to path.val root with
      | none => simp [hr] at h
      | some r =>
          simp only [hr] at h
          exact List.forall_mem_cons.mpr ⟨⟨r, hr⟩, ih h⟩

/-- What a run that returns has collected. -/
theorem collect_sources_ok {entry : tree.File} {incl : List Path} {reads : List tree.File}
    {c : Collected tree}
    (h : collect_sources parse stdlib tree root entry incl = (reads, .ok c)) :
    Holds c.found ∧ (∀ f, Reached parse tree root entry f → f ∈ Worklist.keys c.found) ∧
      ∀ f ∈ Worklist.keys c.found, ∃ r, relative_to f.val root = some r := by
  unfold collect_sources at h
  cases hw : Worklist.explore (visit parse stdlib tree root) [entry] [] [] with
  | mk reads₁ result =>
      rw [hw] at h
      cases result with
      | error e => simp at h
      | ok walked =>
          obtain ⟨hbody, -, hreached⟩ := walked_spec hw
          simp only at h
          cases hi : include_files tree incl (walked.map fun e => (e.1, e.2.1)) reads₁ with
          | mk reads₂ result =>
              rw [hi] at h
              cases result with
              | error e => simp at h
              | ok found =>
                  have hold : Holds (walked.map fun e => (e.1, e.2.1)) := by
                    intro e he
                    obtain ⟨w, hw, rfl⟩ := List.mem_map.mp he
                    exact hbody w hw
                  obtain ⟨hholds, hsub⟩ := include_files_ok hold hi
                  cases hu : require_under_root tree root (Worklist.keys found) with
                  | error e => simp [hu] at h
                  | ok u =>
                      simp only [hu, ask_external hw, Prod.mk.injEq, Except.ok.injEq] at h
                      obtain ⟨-, rfl⟩ := h
                      refine ⟨hholds, fun f hf => hsub f ?_, require_under_root_ok hu⟩
                      obtain ⟨value, hmem⟩ := Worklist.mem_keys.mp ((hreached f).mpr hf)
                      exact Worklist.mem_keys.mpr ⟨value.1, List.mem_map.mpr ⟨_, hmem, rfl⟩⟩

/-- No file is read twice, in a run that returns or raises. -/
theorem collect_sources_reads_nodup (entry : tree.File) (incl : List Path) :
    (collect_sources parse stdlib tree root entry incl).1.Nodup := by
  have hwalk : (Worklist.explore (visit parse stdlib tree root) [entry] [] []).1.Nodup :=
    Worklist.explore_visits_nodup rfl List.nodup_nil
  unfold collect_sources
  cases hw : Worklist.explore (visit parse stdlib tree root) [entry] [] [] with
  | mk reads result =>
      rw [hw] at hwalk
      cases result with
      | error e => exact hwalk
      | ok walked =>
          obtain ⟨-, hreads, -⟩ := walked_spec hw
          have hincl : (include_files tree incl (walked.map fun e => (e.1, e.2.1)) reads).1.Nodup :=
            include_files_reads (by simp [hreads, Worklist.keys, Function.comp_def]) hwalk
          simp only
          cases hi : include_files tree incl (walked.map fun e => (e.1, e.2.1)) reads with
          | mk reads' result =>
              rw [hi] at hincl
              cases result with
              | error e => exact hincl
              | ok found =>
                  cases hu : require_under_root tree root (Worklist.keys found) with
                  | error e => simpa only [hu] using hincl
                  | ok u => simpa only [hu, ask_external hw] using hincl

/-! ## What the finder loads -/

/-- The loaders of the pure-Python modules. -/
def SOURCE_SUFFIXES : List PyStr := [PY]

variable (tree root) in
/-- The package a file runs in: none as the entry script, and the one its name
gives as a module the finder loads from the root. -/
inductive RunsIn (entry : tree.File) : tree.File → List PyStr → Prop where
  | script : RunsIn entry entry []
  | module {f : tree.File} {name : Dotted} {spec : Spec}
      (hload : PathFinder.load tree.finder SOURCE_SUFFIXES root name = some spec)
      (hf : spec.file? = some f.val) : RunsIn entry f (spec.parent name)

variable (tree root) in
/-- No part of the name is both a module file and a package, and no link stands
where a part is looked for. -/
structure Plain (dotted : Dotted) : Prop where
  oneForm : ∀ p, p ≠ [] → p <+: dotted →
    tree.resolve (root ++ (candidate_relative_paths p).1) = none ∨
      tree.resolve (root ++ (candidate_relative_paths p).2) = none
  unlinked : ∀ p, p ≠ [] → p <+: dotted → ∀ path,
    path = root ++ (candidate_relative_paths p).1 ∨ path = root ++ (candidate_relative_paths p).2 →
      ∀ f, tree.resolve path = some f → f.val = path

private theorem candidate_paths_concat (before : Path) (n : PyStr) :
    candidate_relative_paths (before ++ [n]) =
      (before ++ [n ++ PY], before ++ [n, PathFinder.INIT ++ PY]) := by
  simp [candidate_relative_paths]

/-- For a plain name the packer resolves what the finder chose. -/
theorem resolve_local_eq {before : Path} {n : PyStr} {spec : Spec} {q : Path}
    (hplain : Plain tree root (before ++ [n]))
    (h : PathFinder.findIn tree.finder SOURCE_SUFFIXES (root ++ before) n = some spec)
    (hq : spec.file? = some q) :
    ∃ f, resolve_local tree root (before ++ [n]) = some f ∧ f.val = q := by
  have hone := hplain.oneForm (before ++ [n]) (by simp) List.prefix_rfl
  have hlink := hplain.unlinked (before ++ [n]) (by simp) List.prefix_rfl
  unfold resolve_local
  rw [candidate_paths_concat] at hone hlink ⊢
  rcases PathFinder.findIn_cases h with ⟨s, hs, rfl, hfile⟩ | ⟨-, ⟨s, hs, rfl, hfile⟩ | ⟨-, rfl, -⟩⟩
  · obtain rfl : s = PY := by simpa [SOURCE_SUFFIXES] using hs
    simp only [List.append_assoc] at hfile hq
    obtain ⟨f, hf⟩ := Option.isSome_iff_exists.mp hfile
    have hresolve : tree.resolve (root ++ (before ++ [n, PathFinder.INIT ++ PY])) = some f := hf
    obtain rfl := Option.some.inj hq
    rcases hone with hmod | hpkg
    · exact ⟨f, by simp only [hmod, hresolve], hlink _ (.inr rfl) f hresolve⟩
    · simp [hresolve] at hpkg
  · obtain rfl : s = PY := by simpa [SOURCE_SUFFIXES] using hs
    simp only [List.append_assoc] at hfile hq
    obtain ⟨f, hf⟩ := Option.isSome_iff_exists.mp hfile
    have hresolve : tree.resolve (root ++ (before ++ [n ++ PY])) = some f := hf
    obtain rfl := Option.some.inj hq
    exact ⟨f, by simp only [hresolve], hlink _ (.inl rfl) f hresolve⟩
  · simp [Spec.file?] at hq

/-- The anchor of relative imports is the package the file runs in; the script
has none. -/
theorem names_of_runsIn {entry f : tree.File} {parent : List PyStr}
    (h : RunsIn tree root entry f parent) {node : Node} {dotted : Dotted}
    (hn : Names parent node dotted) : Names (package_parts tree root f) node dotted := by
  cases h with
  | script => exact hn.of_script
  | module hload hf =>
      obtain ⟨leaf, hleaf⟩ := PathFinder.load_parent hload hf
      have hrel : relative_to f.val root = some _ :=
        relative_to_eq_some.mpr (hleaf.trans (List.append_assoc _ _ _))
      simpa only [package_parts, hrel, List.dropLast_concat] using hn

theorem Plain.of_prefix {dotted p : Dotted} (h : Plain tree root dotted) (hp : p <+: dotted) :
    Plain tree root p where
  oneForm := fun q hne hq => h.oneForm q hne (hq.trans hp)
  unlinked := fun q hne hq => h.unlinked q hne (hq.trans hp)

/-! ## The closure -/

variable (tree root) in
/-- The module the finder loads from the root for this name is a member of the
archive, and from the unpacked members the finder loads that member, with the
same source. -/
def LoadsAlike (members : List (Path × Bytes)) (dotted : Dotted) : Prop :=
  ∀ spec q, PathFinder.load tree.finder SOURCE_SUFFIXES root dotted = some spec →
    spec.file? = some q →
      ∃ f name body, q = root ++ name ∧ tree.resolve q = some f ∧ tree.body f = .ok body ∧
        (name, body) ∈ members ∧ ∃ spec',
          PathFinder.load (unpacked members) SOURCE_SUFFIXES [] dotted = some spec' ∧
            spec'.file? = some name ∧ (unpacked members).file name = some body

/-- The archive holds files of the tree, under their own names. -/
private theorem archive_restricts {found : List (tree.File × Bytes)} :
    PathFinder.Restricts (unpacked (archive_members root found)) tree.finder root where
  file := by
    intro name h
    obtain ⟨body, hmem⟩ := unpacked_file_isSome.mp h
    obtain ⟨f, -, hf⟩ := mem_archive_members.mp hmem
    have hself : tree.resolve (root ++ name) = some f := hf ▸ tree.resolve_self f
    exact Option.isSome_iff_exists.mpr ⟨f, hself⟩
  dir := fun _ _ hmore h => unpacked_isDir hmore h

private theorem unpacked_file_eq {found : List (tree.File × Bytes)} (hold : Holds found)
    {f : tree.File} {name : Path} {body : Bytes} (hf : f.val = root ++ name)
    (hmem : (f, body) ∈ found) :
    (unpacked (archive_members root found)).file name = some body := by
  have hsome : ((unpacked (archive_members root found)).file name).isSome :=
    unpacked_file_isSome.mpr ⟨body, mem_archive_members.mpr ⟨f, hmem, hf⟩⟩
  obtain ⟨body', hbody'⟩ := Option.isSome_iff_exists.mp hsome
  obtain ⟨f', hmem', hf'⟩ := mem_archive_members.mp (mem_of_unpacked_file hbody')
  obtain rfl : f' = f := Subtype.ext (hf'.trans hf.symm)
  have hb := hold _ hmem
  have hb' := hold _ hmem'
  simp only at hb hb'
  rw [hbody', Except.ok.inj (hb'.symm.trans hb)]

/-- An import statement of the file, as the interpreter reads its source, names
the module. -/
inductive ImportNames (interp : Bytes → Option Node) (tree : SourceTree) (root : Path)
    (entry f : tree.File) (dotted : Dotted) : Prop where
  | intro {parent : List PyStr} {body : Bytes} {source node : Node}
      (hruns : RunsIn tree root entry f parent) (hbody : tree.body f = .ok body)
      (hsource : interp body = some source) (hnode : Within node source)
      (hname : Names parent node dotted)

/-- The packer parses the text of the file as the interpreter does. -/
def ReadAlike (interp : Bytes → Option Node) (parse : Bytes → Except Nat Node)
    (f : tree.File) : Prop :=
  ∀ body source, tree.body f = .ok body → interp body = some source → parse body = .ok source

/-- Every part of a name a walked file gives is a candidate of this file, so what
the packer resolves it to is packed. -/
private theorem prefix_packed {interp : Bytes → Option Node} {entry : tree.File}
    {found : List (tree.File × Bytes)}
    (hfound : ∀ f, Reached parse tree root entry f → f ∈ Worklist.keys found)
    {f : tree.File} {dotted : Dotted} (hreached : Reached parse tree root entry f)
    (hread : ReadAlike interp parse f) (hn : ImportNames interp tree root entry f dotted)
    {p : Dotted} (hne : p ≠ []) (hp : p <+: dotted) {g : tree.File}
    (hg : resolve_local tree root p = some g) : ∃ b, (g, b) ∈ found := by
  obtain ⟨hruns, hbody, hsource, hnode, hname⟩ := hn
  have hcandidate := (names_of_runsIn hruns (hname.of_prefix hne hp)).mem_candidates hnode
  have himports : Imports parse tree root f g :=
    ⟨_, _, p, hbody, hread _ _ hbody hsource, hcandidate, hg⟩
  exact Worklist.mem_keys.mp (hfound g (hreached.tail himports))

/-- A plain name whose parts are packed as the packer resolves them loads alike. -/
private theorem loadsAlike_of_packed {found : List (tree.File × Bytes)} (hold : Holds found)
    {dotted : Dotted} (hplain : Plain tree root dotted)
    (hpacked : ∀ p, p ≠ [] → p <+: dotted → ∀ g, resolve_local tree root p = some g →
      ∃ b, (g, b) ∈ found) :
    LoadsAlike tree root (archive_members root found) dotted := by
  intro spec q hload hq
  have hkept : ∀ before n after, dotted = before ++ n :: after → ∀ chosen r,
      PathFinder.findIn tree.finder SOURCE_SUFFIXES (root ++ [] ++ before) n = some chosen →
        chosen.file? = some (root ++ r) →
          ((unpacked (archive_members root found)).file r).isSome := by
    intro before n after hd chosen r hchosen hr
    have hp : before ++ [n] <+: dotted := ⟨after, by simp [hd]⟩
    obtain ⟨g, hg, hval⟩ :=
      resolve_local_eq (hplain.of_prefix hp) (by simpa using hchosen) hr
    obtain ⟨b, hb⟩ := hpacked (before ++ [n]) (by simp) hp g hg
    exact unpacked_file_isSome.mpr ⟨b, mem_archive_members.mpr ⟨g, hb, hval⟩⟩
  obtain ⟨spec', hload', rfl⟩ := PathFinder.load_restrict (d := []) archive_restricts
    (by simpa using hload) hq hkept
  obtain ⟨name, hname, rfl⟩ := Spec.file?_under hq
  obtain ⟨hsome, -⟩ := PathFinder.load_file hload' hname
  obtain ⟨b, hb⟩ := unpacked_file_isSome.mp hsome
  obtain ⟨g, hmem, hg⟩ := mem_archive_members.mp hb
  exact ⟨g, name, b, rfl, hg ▸ tree.resolve_self g, hold _ hmem, hb, spec', hload', hname,
    unpacked_file_eq hold hg hmem⟩

/-- No file is read twice. In a run that returns, a module that an import
statement of a packed file names loads alike from the pack, when the walk reads
this file, and as the interpreter does, and the name is plain. -/
theorem import_closure_is_faithful_when_plain (parse : Bytes → Except Nat Node)
    (interp : Bytes → Option Node) (stdlib : List PyStr) (tree : SourceTree) (root : Path)
    (entry : tree.File) (incl : List Path) :
    (collect_sources parse stdlib tree root entry incl).1.Nodup ∧
      ∀ reads c, collect_sources parse stdlib tree root entry incl = (reads, .ok c) →
        ∀ f ∈ Worklist.keys c.found, ∀ dotted, ImportNames interp tree root entry f dotted →
          Reached parse tree root entry f → ReadAlike interp parse f → Plain tree root dotted →
            LoadsAlike tree root (archive_members root c.found) dotted := by
  refine ⟨collect_sources_reads_nodup entry incl, ?_⟩
  intro reads c h f _ dotted hn hreached hread hplain
  obtain ⟨hold, hfound, -⟩ := collect_sources_ok h
  exact loadsAlike_of_packed hold hplain fun p hne hp g hg =>
    prefix_packed hfound hreached hread hn hne hp hg

/-! ## An entry that imports one package -/

/-- A tree without links. -/
def plainTree (files : List Path) (body : {p // p ∈ files} → Except Nat Bytes) : SourceTree where
  files := files
  body := body
  resolve := fun path =>
    if h : files.contains path = true then some ⟨path, List.contains_iff_mem.mp h⟩ else none
  isDir := fun path => files.any fun f => path.isPrefixOf f && path != f
  refusal := fun _ => none
  resolve_self := fun f => dif_pos (List.contains_iff_mem.mpr f.property)
  refusal_self := fun _ _ => rfl

theorem plainTree_resolve {files : List Path} {body : {p // p ∈ files} → Except Nat Bytes}
    {path : Path} {f : (plainTree files body).File}
    (h : (plainTree files body).resolve path = some f) : f.val = path := by
  by_cases hmem : files.contains path = true
  · have hresolve : (plainTree files body).resolve path =
        some ⟨path, List.contains_iff_mem.mp hmem⟩ := dif_pos hmem
    exact (congrArg Subtype.val (Option.some.inj (hresolve.symm.trans h))).symm
  · have hresolve : (plainTree files body).resolve path = none := dif_neg hmem
    simp [hresolve] at h

def IMPORT_PKG : Bytes := (py "import pkg\n").map Nat.toUInt8

def importPkg : Node := .other [.import_ [[py "pkg"]]]

/-- The parser, on the two sources of the samples. -/
def sampleParse (body : Bytes) : Except Nat Node :=
  .ok (if body = IMPORT_PKG then importPkg else .other [])

def sampleInterp (body : Bytes) : Option Node :=
  some (if body = IMPORT_PKG then importPkg else .other [])

private theorem importPkg_candidates (package : List PyStr) :
    iter_import_candidates importPkg package = [[py "pkg"]] := by
  have hwalk : walk [importPkg] = [importPkg, .import_ [[py "pkg"]]] := by
    simp [walk, importPkg, Node.children]
  have hnames : [importPkg, .import_ [[py "pkg"]]].flatMap (node_candidates package) =
      [[py "pkg"]] := rfl
  rw [iter_import_candidates, hwalk, hnames]
  decide

private theorem empty_candidates (package : List PyStr) :
    iter_import_candidates (.other []) package = [] := by
  simp [iter_import_candidates, walk, Node.children, node_candidates]

/-- The run on an entry that imports `pkg` and nothing else. -/
theorem collect_importPkg (tree : SourceTree) (root : Path) (entry pkg : tree.File) (hne : pkg ≠ entry)
    (hentry : tree.body entry = .ok IMPORT_PKG) (hpkg : tree.body pkg = .ok [])
    (hresolve : resolve_local tree root [py "pkg"] = some pkg)
    (hasked : local_refusal tree root [py "pkg"] = none)
    (hroot : require_under_root tree root [entry, pkg] = .ok ()) :
    collect_sources sampleParse [] tree root entry [] =
      ([entry, pkg], .ok ⟨[(entry, IMPORT_PKG), (pkg, [])], []⟩) := by
  have hvisit : visit sampleParse [] tree root entry = .ok ((IMPORT_PKG, []), [pkg]) := by
    have hparse : sampleParse IMPORT_PKG = .ok importPkg := rfl
    simp [visit, read_bytes, hentry, parse_source, hparse, importPkg_candidates, ask_local, hasked,
      bind, Except.bind, candidate_effect, hresolve, classify_import, pure, Except.pure]
  have hvisit' : visit sampleParse [] tree root pkg = .ok (([], []), []) := by
    have hparse : sampleParse [] = .ok (.other []) := rfl
    simp [visit, read_bytes, hpkg, parse_source, hparse, empty_candidates, ask_local, bind,
      Except.bind, pure, Except.pure]
  have hwalk : Worklist.explore (visit sampleParse [] tree root) [entry] [] [] =
      ([entry, pkg], .ok [(entry, (IMPORT_PKG, [])), (pkg, ([], []))]) := by
    simp [Worklist.explore, hvisit, hvisit', hne]
  simp [collect_sources, hwalk, include_files, hroot, ask_local]

private theorem importPkg_names {entry : tree.File} (hentry : tree.body entry = .ok IMPORT_PKG) :
    ImportNames sampleInterp tree root entry entry [py "pkg"] :=
  .intro .script hentry rfl (.child (List.mem_singleton_self _) (.self _))
    (.import_ (List.mem_singleton_self _) (by decide) List.prefix_rfl)

def packageTree : SourceTree :=
  plainTree [[py "srv", py "app.py"], [py "srv", py "pkg", py "__init__.py"]]
    fun f => .ok (if f.val = [py "srv", py "app.py"] then IMPORT_PKG else [])

theorem import_closure_is_faithful_when_plain_at :
    LoadsAlike packageTree [py "srv"]
      [([py "app.py"], IMPORT_PKG), ([py "pkg", py "__init__.py"], [])] [py "pkg"] := by
  let app : packageTree.File := ⟨[py "srv", py "app.py"], by decide⟩
  let pkg : packageTree.File := ⟨[py "srv", py "pkg", py "__init__.py"], by decide⟩
  have hrun := collect_importPkg packageTree [py "srv"] app pkg (by decide) rfl rfl rfl rfl rfl
  refine (import_closure_is_faithful_when_plain sampleParse sampleInterp [] packageTree [py "srv"]
    app []).2 _ _ hrun app (by decide) [py "pkg"] (importPkg_names rfl) .refl ?_ ?_
  · intro body source hbody hsource
    obtain rfl := Except.ok.inj hbody
    exact congrArg Except.ok (Option.some.inj hsource)
  · have hone : ∀ p, p ≠ [] → p <+: [py "pkg"] → p = [py "pkg"] := fun p hne hp => by
      simpa [hne] using List.prefix_cons_iff.mp hp
    constructor
    · intro p hne hp
      obtain rfl := hone p hne hp
      exact .inl rfl
    · intro p hne hp path _ f hf
      exact plainTree_resolve hf

def twoFormsTree : SourceTree :=
  plainTree [[py "srv", py "app.py"], [py "srv", py "pkg.py"],
      [py "srv", py "pkg", py "__init__.py"]]
    fun f => .ok (if f.val = [py "srv", py "app.py"] then IMPORT_PKG else [])

/-- With `pkg.py` beside `pkg/__init__.py` the pack carries the file the
interpreter passes over. -/
theorem module_file_packed_for_package :
    ∃ (app : twoFormsTree.File) (reads : List twoFormsTree.File) (c : Collected twoFormsTree),
      collect_sources sampleParse [] twoFormsTree [py "srv"] app [] = (reads, .ok c) ∧
        app ∈ Worklist.keys c.found ∧
        ImportNames sampleInterp twoFormsTree [py "srv"] app app [py "pkg"] ∧
        ¬ LoadsAlike twoFormsTree [py "srv"] (archive_members [py "srv"] c.found) [py "pkg"] := by
  let app : twoFormsTree.File := ⟨[py "srv", py "app.py"], by decide⟩
  let pkg : twoFormsTree.File := ⟨[py "srv", py "pkg.py"], by decide⟩
  have hrun := collect_importPkg twoFormsTree [py "srv"] app pkg (by decide) rfl rfl rfl rfl rfl
  refine ⟨app, _, _, hrun, by decide, importPkg_names rfl, fun hload => ?_⟩
  have hspec : PathFinder.load twoFormsTree.finder SOURCE_SUFFIXES [py "srv"] [py "pkg"] =
      some (.package [py "srv", py "pkg"] [py "srv", py "pkg", py "__init__.py"]) := by decide
  obtain ⟨f, name, body, hq, -, -, hmem, -⟩ := hload _ _ hspec rfl
  obtain rfl : [py "pkg", py "__init__.py"] = name := (List.cons.inj hq).2
  obtain ⟨g, hg, hval⟩ := mem_archive_members.mp hmem
  simp only [List.mem_cons, Prod.mk.injEq, List.not_mem_nil, or_false] at hg
  rcases hg with ⟨rfl, -⟩ | ⟨rfl, -⟩
  · exact absurd hval (by decide)
  · exact absurd hval (by decide)

end PwshPy.Packing
