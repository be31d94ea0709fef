import PwshPy.Config.Overrides

/-! # Nesting overrides is a merge

Overrides are accepted when each is well formed and no key is under another.
Then each key holds its last value, and nothing else is in the mapping, in
whatever order the keys came.
-/

namespace PwshPy.Config

open Storage

variable {σ : Type} {loads : PyStr → Option (Item PyStr σ)} {str : PyStr → σ}

/-! ## Well-formed overrides -/

/-- The components of an override's key. -/
def key_of (raw : PyStr) : List PyStr := (path_part raw).splitOn DOT

/-- An override has an `=`, and before it at least two components, none empty. -/
structure WellFormed (raw : PyStr) : Prop where
  equals : EQUALS ∈ raw
  dotted : 2 ≤ (key_of raw).length
  filled : ∀ part ∈ key_of raw, part ≠ []

section Parsed

variable (loads str)

def value_of (raw : PyStr) : Item PyStr σ := coerce_value loads str (value_str raw)

def override_of (raw : PyStr) : ConfigOverride σ where
  section_ := (key_of raw).headD []
  key_path := (key_of raw).tail
  value := value_of loads str raw

theorem components_override_of (raw : PyStr) : (override_of loads str raw).components = key_of raw := by
  have hne := List.splitOn_ne_nil DOT (path_part raw)
  show (key_of raw).headD [] :: (key_of raw).tail = key_of raw
  rw [key_of]
  cases hparts : (path_part raw).splitOn DOT with
  | nil => exact absurd hparts hne
  | cons part parts => rfl

theorem dotted_key_override_of (raw : PyStr) :
    (override_of loads str raw).dotted_key = path_part raw := by
  rw [ConfigOverride.dotted_key, components_override_of, key_of, List.intercalate_splitOn]

theorem dot_mem_iff (text : PyStr) : DOT ∈ text ↔ 2 ≤ (text.splitOn DOT).length := by
  constructor
  · intro h
    obtain ⟨before, after, rfl⟩ := List.append_of_mem h
    have hbefore := List.length_pos_iff.mpr (List.splitOn_ne_nil DOT before)
    have hafter := List.length_pos_iff.mpr (List.splitOn_ne_nil DOT after)
    rw [List.splitOn_append_cons_self, List.length_append]
    omega
  · intro h
    by_contra hnone
    rw [List.splitOn_eq_singleton hnone] at h
    simp at h

theorem parse_wellFormed {raw : PyStr} (h : WellFormed raw) :
    parse_override loads str raw = .ok (override_of loads str raw) := by
  have hdot := (dot_mem_iff (path_part raw)).mpr h.dotted
  have hcomponents := components_override_of loads str raw
  have hsection : (key_of raw).headD [] ≠ [] := by
    refine h.filled _ ?_
    rw [← hcomponents]
    exact List.mem_cons_self
  have hkeys : (key_of raw).tail.all (· ≠ []) = true := by
    rw [List.all_eq_true]
    intro part hpart
    exact decide_eq_true (h.filled part (List.mem_of_mem_tail hpart))
  unfold parse_override
  rw [if_neg (not_not.mpr h.equals), if_neg (not_not.mpr hdot)]
  exact (if_neg hsection).trans (if_neg (not_not.mpr hkeys))

theorem parse_malformed {raw : PyStr} (h : ¬WellFormed raw) :
    ∃ e, parse_override loads str raw = .error e := by
  unfold parse_override
  by_cases hequals : EQUALS ∈ raw
  · by_cases hdot : DOT ∈ path_part raw
    · rw [if_neg (not_not.mpr hequals), if_neg (not_not.mpr hdot)]
      by_cases hsection : (key_of raw).headD [] = []
      · exact ⟨_, if_pos hsection⟩
      · by_cases hkeys : (key_of raw).tail.all (· ≠ []) = true
        · refine absurd ⟨hequals, (dot_mem_iff _).mp hdot, ?_⟩ h
          intro part hpart
          rw [← components_override_of loads str raw] at hpart
          cases List.mem_cons.mp hpart with
          | inl hhead => exact hhead ▸ hsection
          | inr htail => exact of_decide_eq_true (List.all_eq_true.mp hkeys part htail)
        · exact ⟨_, (if_neg hsection).trans (if_pos hkeys)⟩
    · rw [if_neg (not_not.mpr hequals), if_pos hdot]
      exact ⟨_, rfl⟩
  · rw [if_pos hequals]
    exact ⟨_, rfl⟩

theorem parse_all_wellFormed {raws : List PyStr} (h : ∀ raw ∈ raws, WellFormed raw) :
    raws.mapM (parse_override loads str) = .ok (raws.map (override_of loads str)) := by
  induction raws with
  | nil => rfl
  | cons raw rest ih =>
      obtain ⟨hraw, hrest⟩ := List.forall_mem_cons.mp h
      rw [List.mapM_cons, parse_wellFormed loads str hraw, ih hrest]
      rfl

theorem parse_all_malformed {raws : List PyStr} (h : ¬∀ raw ∈ raws, WellFormed raw) :
    ∃ e, raws.mapM (parse_override loads str) = .error e := by
  induction raws with
  | nil => exact absurd (fun _ hraw => absurd hraw List.not_mem_nil) h
  | cons raw rest ih =>
      rw [List.mapM_cons]
      by_cases hraw : WellFormed raw
      · have hrest : ¬∀ raw ∈ rest, WellFormed raw :=
          fun hrest => h (List.forall_mem_cons.mpr ⟨hraw, hrest⟩)
        obtain ⟨e, he⟩ := ih hrest
        rw [parse_wellFormed loads str hraw, he]
        exact ⟨e, rfl⟩
      · obtain ⟨e, he⟩ := parse_malformed loads str hraw
        rw [he]
        exact ⟨e, rfl⟩

end Parsed

/-! ## Keys under each other -/

theorem intercalate_append {sep : PyStr} {as bs : List PyStr} (ha : as ≠ []) (hb : bs ≠ []) :
    sep.intercalate (as ++ bs) = sep.intercalate as ++ sep ++ sep.intercalate bs := by
  induction as with
  | nil => exact absurd rfl ha
  | cons a as ih =>
      cases as with
      | nil =>
          rw [List.singleton_append, List.intercalate_cons_of_ne_nil hb, List.intercalate_singleton]
      | cons a' as =>
          have hrest := ih (List.cons_ne_nil _ _)
          rw [List.cons_append, List.intercalate_cons_of_ne_nil (by simp), hrest,
            List.intercalate_cons_cons]
          simp only [List.append_assoc]

/-- A text goes on behind another and a dot exactly when its components do. -/
theorem under_iff (key other : PyStr) : key ++ [DOT] <+: other ↔
    ∃ rest, rest ≠ [] ∧ other.splitOn DOT = key.splitOn DOT ++ rest := by
  constructor
  · intro h
    obtain ⟨tail, rfl⟩ := h
    refine ⟨tail.splitOn DOT, List.splitOn_ne_nil _ _, ?_⟩
    rw [List.append_assoc, List.singleton_append, List.splitOn_append_cons_self]
  · intro h
    obtain ⟨rest, hrest, hsplit⟩ := h
    have hjoined := congrArg ([DOT] : PyStr).intercalate hsplit
    rw [intercalate_append (List.splitOn_ne_nil _ _) hrest, List.intercalate_splitOn,
      List.intercalate_splitOn] at hjoined
    exact ⟨_, hjoined.symm⟩

/-- No key is under another. -/
def Apart (keys : List (List PyStr)) : Prop :=
  ∀ k ∈ keys, ∀ k' ∈ keys, k <+: k' → k = k'

theorem find_conflict_eq_none {dotted_keys : List PyStr} :
    find_conflict dotted_keys = none ↔
      ∀ key ∈ dotted_keys, ∀ other ∈ dotted_keys, ¬key ++ [DOT] <+: other := by
  simp only [find_conflict, List.findSome?_eq_none_iff, Option.map_eq_none_iff, List.find?_eq_none,
    List.isPrefixOf_iff_prefix]

theorem apart_iff_no_conflict (raws : List PyStr) :
    find_conflict (raws.map path_part) = none ↔ Apart (raws.map key_of) := by
  rw [find_conflict_eq_none]
  simp only [Apart, List.forall_mem_map, under_iff, not_exists, not_and]
  refine forall₂_congr fun raw _ => forall₂_congr fun raw' _ => ?_
  constructor
  · intro h hbegins
    obtain ⟨rest, hrest⟩ := hbegins
    cases rest with
    | nil => rw [← hrest, List.append_nil]
    | cons part rest => exact absurd hrest.symm (h _ (List.cons_ne_nil _ _))
  · intro h rest hne hsplit
    have hsame := h ⟨rest, hsplit.symm⟩
    rw [key_of, key_of, hsplit] at hsame
    exact hne (List.self_eq_append_right.mp hsame)

/-! ## Nesting -/

/-- The value of a key's last occurrence. -/
def last_value (overrides : List (ConfigOverride σ)) (key : List PyStr) : Option (Item PyStr σ) :=
  (overrides.filter (·.components = key)).getLast?.map ConfigOverride.value

theorem last_value_append (overrides : List (ConfigOverride σ)) (override : ConfigOverride σ) :
    last_value (overrides ++ [override]) = fun key =>
      if key = override.components then some override.value else last_value overrides key := by
  funext key
  rw [last_value, List.filter_append]
  by_cases hkey : key = override.components
  · simp [hkey]
  · simp [hkey, Ne.symm hkey, last_value]

theorem last_value_isSome {overrides : List (ConfigOverride σ)} {key : List PyStr}
    (h : (last_value overrides key).isSome) : key ∈ overrides.map ConfigOverride.components := by
  rw [last_value, Option.isSome_map, Option.isSome_iff_ne_none, ne_eq,
    List.getLast?_eq_none_iff] at h
  obtain ⟨override, hoverride⟩ := List.exists_mem_of_ne_nil _ h
  obtain ⟨hmem, hkey⟩ := List.mem_filter.mp hoverride
  exact List.mem_map.mpr ⟨override, hmem, of_decide_eq_true hkey⟩

/-- The rest of the overrides, nested into tables that hold those before them. -/
theorem nest_all_describes {done todo : List (ConfigOverride σ)} {tree : Item PyStr σ}
    (h : Describes (last_value done) tree)
    (hapart : Apart ((done ++ todo).map ConfigOverride.components)) :
    ∃ tree' entered, nest_all tree todo = some (tree', entered) ∧
      (∀ given ∈ entered, given = false) ∧ Describes (last_value (done ++ todo)) tree' := by
  induction todo generalizing done tree with
  | nil => exact ⟨tree, [], rfl, by simp, by rwa [List.append_nil]⟩
  | cons override todo ih =>
      have hmem : override.components ∈ (done ++ override :: todo).map ConfigOverride.components := by
        simp
      have hdone : ∀ k, (last_value done k).isSome →
          k ∈ (done ++ override :: todo).map ConfigOverride.components := by
        intro k hk
        rw [List.map_append]
        exact List.mem_append_left _ (last_value_isSome hk)
      have hkey : ∀ k, (last_value done k).isSome →
          override.components <+: k ∨ k <+: override.components → k = override.components := by
        intro k hk hnear
        cases hnear with
        | inl hunder => exact (hapart _ hmem k (hdone k hk) hunder).symm
        | inr hover => exact hapart k (hdone k hk) _ hmem hover
      have hfilled : override.components ≠ [] := List.cons_ne_nil _ _
      obtain ⟨next, entered, hwrite, hentered, hnext⟩ := h.write hfilled hkey override.value
      rw [← last_value_append] at hnext
      have hrest : Apart ((done ++ [override] ++ todo).map ConfigOverride.components) := by
        rwa [List.append_assoc]
      obtain ⟨tree', later, hall, hlater, htree⟩ := ih hnext hrest
      refine ⟨tree', entered ++ later, ?_, ?_, ?_⟩
      · rw [nest_all, nest_override, hwrite]
        simp only [hall]
      · intro given hgiven
        cases List.mem_append.mp hgiven with
        | inl hhere => exact hentered given hhere
        | inr hthere => exact hlater given hthere
      · rwa [List.append_assoc] at htree

/-! ## The merge -/

section Merge

variable (loads str)

theorem nest_overrides_accepted {raws : List PyStr} (hwellFormed : ∀ raw ∈ raws, WellFormed raw)
    (hapart : Apart (raws.map key_of)) :
    ∃ out, nest_overrides loads str raws = .ok out ∧ (∀ given ∈ out.entered, given = false) ∧
      Describes (last_value (raws.map (override_of loads str))) out.tree := by
  have hkeys : (raws.map (override_of loads str)).map ConfigOverride.components = raws.map key_of := by
    rw [List.map_map]
    exact List.map_congr_left fun raw _ => components_override_of loads str raw
  have hdotted : (raws.map (override_of loads str)).map ConfigOverride.dotted_key =
      raws.map path_part := by
    rw [List.map_map]
    exact List.map_congr_left fun raw _ => dotted_key_override_of loads str raw
  obtain ⟨tree, entered, hall, hentered, htree⟩ :=
    @nest_all_describes σ [] (raws.map (override_of loads str)) Item.fresh .empty (by rwa [← hkeys] at hapart)
  have hnone := (apart_iff_no_conflict raws).mpr hapart
  refine ⟨{ tree, keys := raws.map path_part, entered }, ?_, hentered, htree⟩
  unfold nest_overrides
  simp only [parse_all_wellFormed loads str hwellFormed, hdotted, refuse_conflicts, hnone, hall]

theorem nest_overrides_refused {raws : List PyStr}
    (h : ¬((∀ raw ∈ raws, WellFormed raw) ∧ Apart (raws.map key_of))) :
    ∃ e, nest_overrides loads str raws = .error (.value_error e) := by
  unfold nest_overrides
  by_cases hwellFormed : ∀ raw ∈ raws, WellFormed raw
  · have hdotted : (raws.map (override_of loads str)).map ConfigOverride.dotted_key =
        raws.map path_part := by
      rw [List.map_map]
      exact List.map_congr_left fun raw _ => dotted_key_override_of loads str raw
    cases hconflict : find_conflict (raws.map path_part) with
    | none => exact absurd ⟨hwellFormed, (apart_iff_no_conflict raws).mp hconflict⟩ h
    | some pair =>
        simp only [parse_all_wellFormed loads str hwellFormed, hdotted, refuse_conflicts, hconflict]
        exact ⟨_, rfl⟩
  · obtain ⟨e, he⟩ := parse_all_malformed loads str hwellFormed
    simp only [he]
    exact ⟨e, rfl⟩

/-- Overrides are accepted exactly when each is well formed and no key is under another; then each
key holds the value of its last occurrence, the tables above the keys are the ones the nesting
made, nothing else is there, no step entered a table of a value, and only the order of occurrences
of one key matters. -/
theorem overrides_merge (raws : List PyStr) :
    ((∃ out, nest_overrides loads str raws = .ok out) ↔
        (∀ raw ∈ raws, WellFormed raw) ∧ Apart (raws.map key_of)) ∧
      ∀ out, nest_overrides loads str raws = .ok out →
        Describes (fun key => ((raws.filter (key_of · = key)).getLast?).map (value_of loads str))
            out.tree ∧
          (∀ given ∈ out.entered, given = false) ∧
          ∀ raws' : List PyStr, (∀ key, raws'.filter (key_of · = key) = raws.filter (key_of · = key)) →
            ∃ out', nest_overrides loads str raws' = .ok out' ∧ out.tree.Same out'.tree := by
  have hvalues : ∀ raws : List PyStr, last_value (raws.map (override_of loads str)) =
      fun key => ((raws.filter (key_of · = key)).getLast?).map (value_of loads str) := by
    intro raws
    funext key
    rw [last_value, List.filter_map, List.getLast?_map, Option.map_map]
    simp only [Function.comp_def, components_override_of]
    rfl
  have hmem : ∀ {raws raws' : List PyStr}, (∀ key, raws'.filter (key_of · = key) =
      raws.filter (key_of · = key)) → ∀ raw ∈ raws', raw ∈ raws := by
    intro raws raws' h raw hraw
    have hfiltered : raw ∈ raws'.filter (key_of · = key_of raw) :=
      List.mem_filter.mpr ⟨hraw, decide_eq_true rfl⟩
    rw [h] at hfiltered
    exact (List.mem_filter.mp hfiltered).1
  have haccepted : (∃ out, nest_overrides loads str raws = .ok out) →
      (∀ raw ∈ raws, WellFormed raw) ∧ Apart (raws.map key_of) := by
    intro h
    by_contra hbad
    obtain ⟨out, hout⟩ := h
    obtain ⟨e, he⟩ := nest_overrides_refused loads str hbad
    rw [hout] at he
    cases he
  refine ⟨⟨haccepted, ?_⟩, ?_⟩
  · intro h
    obtain ⟨out, hout, -⟩ := nest_overrides_accepted loads str h.1 h.2
    exact ⟨out, hout⟩
  · intro out hout
    obtain ⟨hwellFormed, hapart⟩ := haccepted ⟨out, hout⟩
    obtain ⟨found, hfound, hentered, htree⟩ := nest_overrides_accepted loads str hwellFormed hapart
    rw [hout] at hfound
    cases hfound
    rw [hvalues] at htree
    refine ⟨htree, hentered, ?_⟩
    intro raws' hraws'
    have hin := hmem hraws'
    have hwellFormed' : ∀ raw ∈ raws', WellFormed raw := fun raw hraw => hwellFormed raw (hin raw hraw)
    have hapart' : Apart (raws'.map key_of) := by
      intro k hk k' hk' hbegins
      obtain ⟨raw, hraw, rfl⟩ := List.mem_map.mp hk
      obtain ⟨raw', hraw', rfl⟩ := List.mem_map.mp hk'
      exact hapart _ (List.mem_map_of_mem (hin raw hraw)) _ (List.mem_map_of_mem (hin raw' hraw')) hbegins
    obtain ⟨out', hout', -, htree'⟩ := nest_overrides_accepted loads str hwellFormed' hapart'
    rw [hvalues] at htree'
    simp only [hraws'] at htree'
    exact ⟨out', hout', htree.same htree'⟩

end Merge

end PwshPy.Config
