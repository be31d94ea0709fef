import PwshPy.Records.Repair

/-! # What a repair keeps and reports

A repair replaces surrogates and renames keys, each mapping's apart, and
nothing else; the places it reports are the ones it changed.
-/

namespace PwshPy.Records

open Storage

variable {σ : Type}

/-- The first value with its surrogates replaced, its shape and its entries kept in order, the keys
of each mapping renamed without two of them meeting. -/
inductive Repairs : Value σ → Value σ → Prop
  | text (t : PyStr) : Repairs (.text t) (.text (replace_surrogates t))
  | scalar (s : σ) : Repairs (.scalar s) (.scalar s)
  | list {items items' : List (Value σ)} :
      List.Forall₂ Repairs items items' → Repairs (.list items) (.list items')
  | mapping {entries entries' : List (PyStr × Value σ)} (name : PyStr → PyStr) :
      entries'.map Prod.fst = (entries.map Prod.fst).map name →
      Set.InjOn name {key | key ∈ entries.map Prod.fst} →
      (∀ key ∈ entries.map Prod.fst, has_surrogate key = false → name key = key) →
      List.Forall₂ Repairs (entries.map Prod.snd) (entries'.map Prod.snd) →
      Repairs (.mapping entries) (.mapping entries')

theorem repairs_items {items : List (Value σ)} (h : ∀ v ∈ items, Repairs v.listed (repaired v)) :
    List.Forall₂ Repairs (items.map Value.listed) (items.map repaired) := by
  rw [List.forall₂_map_left_iff, List.forall₂_map_right_iff, List.forall₂_same]
  exact h

theorem repairs_listed {v : Value σ} (hkeyed : v.Keyed) : Repairs v.listed (repaired v) := by
  induction v with
  | text t => exact .text t
  | scalar s => exact .scalar s
  | list items ih =>
      rw [repaired_list, Value.listed_list]
      exact .list (repairs_items fun v hv => ih v hv (Value.forall_list.mp hkeyed v hv))
  | tuple items ih =>
      rw [repaired_tuple, Value.listed_tuple]
      exact .list (repairs_items fun v hv => ih v hv (Value.forall_tuple.mp hkeyed v hv))
  | mapping entries ih =>
      obtain ⟨hkeys, hitems⟩ := Value.forall_mapping.mp hkeyed
      have hsame : (entries.map fun entry => (entry.1, entry.2.listed)).map Prod.fst =
          entries.map Prod.fst := by
        simp only [List.map_map, Function.comp_def]
      rw [repaired_mapping hkeys, Value.listed_mapping]
      refine .mapping (new_key (entries.map Prod.fst)) ?_ ?_ ?_ ?_
      · rw [hsame, map_new_key_keys]
      · rw [hsame]
        exact new_key_injOn hkeys
      · intro key _ hclean
        exact new_key_of_clean hclean
      · have hpairs : ∀ item ∈ entries.map Prod.snd, Repairs item.listed (repaired item) := by
          intro item hitem
          obtain ⟨entry, hentry, rfl⟩ := List.mem_map.mp hitem
          exact ih entry hentry (hitems entry hentry)
        simpa only [List.map_map, Function.comp_def] using repairs_items hpairs

theorem repaired_of_clean {v : Value σ} (hkeyed : v.Keyed) (hclean : v.Clean) :
    repaired v = v.listed := by
  induction v with
  | text t =>
      rw [repaired_text, replace_surrogates_eq_self.mpr (Value.forall_text.mp hclean)]
      rfl
  | scalar s => rfl
  | list items ih =>
      rw [repaired_list, Value.listed_list]
      congr 1
      exact List.map_congr_left fun v hv =>
        ih v hv (Value.forall_list.mp hkeyed v hv) (Value.forall_list.mp hclean v hv)
  | tuple items ih =>
      rw [repaired_tuple, Value.listed_tuple]
      congr 1
      exact List.map_congr_left fun v hv =>
        ih v hv (Value.forall_tuple.mp hkeyed v hv) (Value.forall_tuple.mp hclean v hv)
  | mapping entries ih =>
      obtain ⟨hkeys, hitems⟩ := Value.forall_mapping.mp hkeyed
      obtain ⟨hnames, hcleans⟩ := Value.forall_mapping.mp hclean
      rw [repaired_mapping hkeys, Value.listed_mapping]
      congr 1
      refine List.map_congr_left fun entry hentry => ?_
      have hname := hnames entry.1 (List.mem_map.mpr ⟨entry, hentry, rfl⟩)
      rw [new_key_of_clean hname, ih entry hentry (hitems entry hentry) (hcleans entry hentry)]

theorem children_keyed {v : Value σ} (hkeyed : v.Keyed) : ∀ w ∈ v.children, w.Keyed := by
  cases hkeyed with
  | text _ => exact fun _ hw => absurd hw List.not_mem_nil
  | scalar _ => exact fun _ hw => absurd hw List.not_mem_nil
  | list hitems => exact hitems
  | tuple hitems => exact hitems
  | mapping _ hitems =>
      intro w hw
      obtain ⟨entry, hentry, rfl⟩ := List.mem_map.mp hw
      exact hitems entry hentry

theorem children_repaired {v : Value σ} (hkeyed : v.Keyed) :
    (repaired v).children = v.children.map repaired := by
  cases v with
  | text t => rfl
  | scalar s => rfl
  | list items => rw [repaired_list]; rfl
  | tuple items => rw [repaired_tuple]; rfl
  | mapping entries =>
      rw [repaired_mapping (Value.forall_mapping.mp hkeyed).1]
      simp only [Value.children, List.map_map, Function.comp_def]

/-- Each place keeps its own value, repaired. -/
theorem at_place_repaired {v : Value σ} (hkeyed : v.Keyed) (place : List Nat) :
    (repaired v).at_place place = (v.at_place place).map repaired := by
  induction place generalizing v with
  | nil => rfl
  | cons n place ih =>
      rw [Value.at_place, Value.at_place, children_repaired hkeyed, List.getElem?_map]
      cases hchild : v.children[n]? with
      | none => rfl
      | some child => exact ih (children_keyed hkeyed child (List.mem_of_getElem? hchild))

theorem at_place_keyed {v w : Value σ} (hkeyed : v.Keyed) {place : List Nat}
    (h : v.at_place place = some w) : w.Keyed := by
  induction place generalizing v with
  | nil =>
      cases h
      exact hkeyed
  | cons n place ih =>
      rw [Value.at_place] at h
      cases hchild : v.children[n]? with
      | none => simp [hchild] at h
      | some child =>
          rw [hchild] at h
          exact ih (children_keyed hkeyed child (List.mem_of_getElem? hchild)) h

/-! ## The places that were changed -/

/-- A text that holds a surrogate, or an entry whose key does, by the names on the way to it. -/
inductive Changed : Value σ → List PyStr → Prop
  | text {t : PyStr} : has_surrogate t = true → Changed (.text t) []
  | key {entries : List (PyStr × Value σ)} {entry : PyStr × Value σ} :
      entry ∈ entries → has_surrogate entry.1 = true →
      Changed (.mapping entries) [new_key (entries.map Prod.fst) entry.1]
  | value {entries : List (PyStr × Value σ)} {entry : PyStr × Value σ} {place : List PyStr} :
      entry ∈ entries → Changed entry.2 place →
      Changed (.mapping entries) (new_key (entries.map Prod.fst) entry.1 :: place)
  | list {items : List (Value σ)} {n : Nat} {item : Value σ} {place : List PyStr} :
      items[n]? = some item → Changed item place → Changed (.list items) (decimal n :: place)
  | tuple {items : List (Value σ)} {n : Nat} {item : Value σ} {place : List PyStr} :
      items[n]? = some item → Changed item place → Changed (.tuple items) (decimal n :: place)

/-- The dotted path of a place, written on from another. -/
def dotted (path : PyStr) (place : List PyStr) : PyStr :=
  place.foldl (fun path segment => join path (ascii segment)) path

theorem ascii_decimal (n : Nat) : ascii (decimal n) = decimal n := by
  have hsame : ∀ c ∈ decimal n, (if c < 0x80 && isprintable c then c else 0x3f) = id c := by
    intro c hc
    have hdigit := isDigit_of_mem_decimal hc
    simp only [isDigit, Bool.and_eq_true, decide_eq_true_eq] at hdigit
    have hprintable : (c < 0x80 && isprintable c) = true := by
      simp only [isprintable, Bool.and_eq_true, decide_eq_true_eq]
      omega
    rw [if_pos hprintable]
    rfl
  rw [ascii, List.map_congr_left hsame, List.map_id]

theorem mem_value_items {path : PyStr} {index : Nat} {items : List (Value σ)} {p : PyStr} :
    p ∈ (Repairer.value_items path index items).2 ↔ ∃ n item, items[n]? = some item ∧
      p ∈ (Repairer.value (join path (decimal (index + n))) item).2 := by
  induction items generalizing index with
  | nil => simp [Repairer.value_items]
  | cons item rest ih =>
      simp only [Repairer.value_items, List.mem_append, ih]
      constructor
      · intro h
        cases h with
        | inl hhere => exact ⟨0, item, rfl, hhere⟩
        | inr hlater =>
            obtain ⟨n, found, hfound, hp⟩ := hlater
            exact ⟨n + 1, found, hfound, by rwa [Nat.add_comm n 1, ← Nat.add_assoc]⟩
      · intro h
        obtain ⟨n, found, hfound, hp⟩ := h
        cases n with
        | zero =>
            cases hfound
            exact Or.inl hp
        | succ n =>
            refine Or.inr ⟨n, found, hfound, ?_⟩
            rwa [Nat.add_assoc, Nat.add_comm 1 n]

theorem mem_value_entries {path : PyStr} {renamed : List (PyStr × PyStr)}
    {entries : List (PyStr × Value σ)} {p : PyStr} :
    p ∈ (Repairer.value_entries path renamed entries).2 ↔ ∃ entry ∈ entries,
      (entry.1 ∈ renamed.map Prod.fst ∧ p = join path (ascii (Dict.getSelf renamed entry.1))) ∨
        p ∈ (Repairer.value (join path (ascii (Dict.getSelf renamed entry.1))) entry.2).2 := by
  induction entries with
  | nil => simp [Repairer.value_entries]
  | cons entry rest ih =>
      obtain ⟨key, item⟩ := entry
      simp only [Repairer.value_entries, List.mem_append, ih, List.mem_cons, exists_eq_or_imp]
      refine or_congr (or_congr ?_ Iff.rfl) Iff.rfl
      split
      · simp [*]
      · simp [*]

theorem mem_repaired_keys {keys : List PyStr} {key : PyStr} (hkey : key ∈ keys) :
    key ∈ (repaired_key_names keys).map Prod.fst ↔ has_surrogate key = true := by
  rw [repaired_key_names, (Dict.ofPairs_spec _).2, name_keys_keys, List.mem_filter]
  simp [hkey]

/-- The walk reports the changed places, each by its dotted path. -/
theorem mem_value_paths {v : Value σ} {path p : PyStr} :
    p ∈ (Repairer.value path v).2 ↔ ∃ place, Changed v place ∧ p = dotted path place := by
  induction v generalizing path p with
  | text t =>
      by_cases h : has_surrogate t = true
      · have hchanged : replace_surrogates t ≠ t := by
          intro hsame
          rw [replace_surrogates_eq_self, h] at hsame
          cases hsame
        simp only [Repairer.value, Repairer.text, if_pos hchanged, List.mem_singleton]
        constructor
        · intro hp
          exact ⟨[], .text h, hp⟩
        · intro hplace
          obtain ⟨place, hplace, rfl⟩ := hplace
          cases hplace
          rfl
      · rw [Bool.not_eq_true] at h
        have hsame : ¬replace_surrogates t ≠ t := not_not.mpr (replace_surrogates_eq_self.mpr h)
        simp only [Repairer.value, Repairer.text, if_neg hsame, List.not_mem_nil, false_iff]
        intro hplace
        obtain ⟨place, hplace, -⟩ := hplace
        cases hplace with
        | text hbad => exact absurd (h.symm.trans hbad) Bool.false_ne_true
  | scalar s =>
      simp only [Repairer.value, List.not_mem_nil, false_iff]
      intro hplace
      obtain ⟨place, hplace, -⟩ := hplace
      cases hplace
  | list items ih =>
      simp only [Repairer.value, mem_value_items, Nat.zero_add]
      constructor
      · intro h
        obtain ⟨n, item, hitem, hp⟩ := h
        obtain ⟨place, hplace, rfl⟩ := (ih item (List.mem_of_getElem? hitem)).mp hp
        exact ⟨decimal n :: place, .list hitem hplace, by rw [dotted, dotted, List.foldl_cons, ascii_decimal]⟩
      · intro h
        obtain ⟨place, hplace, rfl⟩ := h
        cases hplace with
        | @list _ n item place hitem hrest =>
            refine ⟨n, item, hitem, (ih item (List.mem_of_getElem? hitem)).mpr ⟨place, hrest, ?_⟩⟩
            rw [dotted, dotted, List.foldl_cons, ascii_decimal]
  | tuple items ih =>
      simp only [Repairer.value, mem_value_items, Nat.zero_add]
      constructor
      · intro h
        obtain ⟨n, item, hitem, hp⟩ := h
        obtain ⟨place, hplace, rfl⟩ := (ih item (List.mem_of_getElem? hitem)).mp hp
        exact ⟨decimal n :: place, .tuple hitem hplace, by rw [dotted, dotted, List.foldl_cons, ascii_decimal]⟩
      · intro h
        obtain ⟨place, hplace, rfl⟩ := h
        cases hplace with
        | @tuple _ n item place hitem hrest =>
            refine ⟨n, item, hitem, (ih item (List.mem_of_getElem? hitem)).mpr ⟨place, hrest, ?_⟩⟩
            rw [dotted, dotted, List.foldl_cons, ascii_decimal]
  | mapping entries ih =>
      simp only [Repairer.value, mem_value_entries]
      constructor
      · intro h
        obtain ⟨entry, hentry, hp⟩ := h
        have hkey : entry.1 ∈ entries.map Prod.fst := List.mem_map.mpr ⟨entry, hentry, rfl⟩
        cases hp with
        | inl hhere =>
            exact ⟨_, .key hentry ((mem_repaired_keys hkey).mp hhere.1), hhere.2⟩
        | inr hbelow =>
            obtain ⟨place, hplace, rfl⟩ := (ih entry hentry).mp hbelow
            exact ⟨_, .value hentry hplace, rfl⟩
      · intro h
        obtain ⟨place, hplace, rfl⟩ := h
        cases hplace with
        | @key _ entry hentry hbad =>
            have hkey : entry.1 ∈ entries.map Prod.fst := List.mem_map.mpr ⟨entry, hentry, rfl⟩
            exact ⟨entry, hentry, Or.inl ⟨(mem_repaired_keys hkey).mpr hbad, rfl⟩⟩
        | @value _ entry place hentry hrest =>
            exact ⟨entry, hentry, Or.inr ((ih entry hentry).mpr ⟨place, hrest, rfl⟩)⟩

theorem clean_iff_unchanged {v : Value σ} : v.Clean ↔ ∀ place, ¬Changed v place := by
  constructor
  · intro hclean place hplace
    induction hplace with
    | text hbad => exact absurd ((Value.forall_text.mp hclean).symm.trans hbad) Bool.false_ne_true
    | key hentry hbad =>
        have hkey := (Value.forall_mapping.mp hclean).1 _ (List.mem_map.mpr ⟨_, hentry, rfl⟩)
        exact absurd (hkey.symm.trans hbad) Bool.false_ne_true
    | value hentry _ ih => exact ih ((Value.forall_mapping.mp hclean).2 _ hentry)
    | list hitem _ ih => exact ih (Value.forall_list.mp hclean _ (List.mem_of_getElem? hitem))
    | tuple hitem _ ih => exact ih (Value.forall_tuple.mp hclean _ (List.mem_of_getElem? hitem))
  · intro h
    induction v with
    | text t =>
        refine .text ?_
        by_contra hbad
        rw [Bool.not_eq_false] at hbad
        exact h _ (.text hbad)
    | scalar s => exact .scalar s
    | list items ih =>
        refine .list fun v hv => ih v hv fun place hplace => ?_
        obtain ⟨n, hn⟩ := List.getElem?_of_mem hv
        exact h _ (.list hn hplace)
    | tuple items ih =>
        refine .tuple fun v hv => ih v hv fun place hplace => ?_
        obtain ⟨n, hn⟩ := List.getElem?_of_mem hv
        exact h _ (.tuple hn hplace)
    | mapping entries ih =>
        refine .mapping ?_ fun entry hentry => ih entry hentry fun place hplace => ?_
        · intro key hkey
          obtain ⟨entry, hentry, rfl⟩ := List.mem_map.mp hkey
          by_contra hbad
          rw [Bool.not_eq_false] at hbad
          exact h _ (.key hentry hbad)
        · exact h _ (.value hentry hplace)

theorem paths_eq_nil_iff {v : Value σ} {path : PyStr} :
    (Repairer.value path v).2 = [] ↔ v.Clean := by
  rw [clean_iff_unchanged, List.eq_nil_iff_forall_not_mem]
  simp only [mem_value_paths, not_exists, not_and]
  constructor
  · intro h place hplace
    exact h _ place hplace rfl
  · intro h p place hplace
    exact absurd hplace (h place)

/-! ## The repair -/

theorem repair_of_clean {v : Value σ} (hclean : v.Clean) :
    repair_surrogates v = { value := v, replaced := [] } := by
  rw [repair_surrogates, if_pos (paths_eq_nil_iff.mpr hclean)]

theorem repair_of_changed {v : Value σ} (hchanged : ¬v.Clean) : repair_surrogates v =
    { value := repaired v, replaced := Dict.fromkeys (Repairer.value [] v).2 } := by
  rw [repair_surrogates, if_neg (fun h => hchanged (paths_eq_nil_iff.mp h))]
  rfl

theorem repair_clean {v : Value σ} (hkeyed : v.Keyed) : (repair_surrogates v).value.Clean := by
  by_cases hclean : v.Clean
  · rwa [repair_of_clean hclean]
  · rw [repair_of_changed hclean]
    exact repaired_clean hkeyed

theorem repair_listed {v : Value σ} (hkeyed : v.Keyed) :
    (repair_surrogates v).value.listed = repaired v := by
  by_cases hclean : v.Clean
  · rw [repair_of_clean hclean, repaired_of_clean hkeyed hclean]
  · rw [repair_of_changed hclean]
    exact repaired_listed hkeyed

theorem mem_replaced {v : Value σ} {p : PyStr} :
    p ∈ (repair_surrogates v).replaced ↔ ∃ place, Changed v place ∧ p = dotted [] place := by
  by_cases hclean : v.Clean
  · rw [repair_of_clean hclean]
    simp only [List.not_mem_nil, false_iff, not_exists, not_and]
    intro place hplace
    exact absurd hplace (clean_iff_unchanged.mp hclean place)
  · rw [repair_of_changed hclean, Dict.mem_fromkeys, mem_value_paths]

theorem replaced_nodup (v : Value σ) : (repair_surrogates v).replaced.Nodup := by
  by_cases hclean : v.Clean
  · rw [repair_of_clean hclean]
    exact List.nodup_nil
  · rw [repair_of_changed hclean]
    exact Dict.fromkeys_nodup _

/-- A repair loses nothing: no surrogate is left, shape, counts and order are kept (a tuple read as
a list), what was clean is as it was, the paths are those of the changed places, each once, and a
second repair has nothing to do. -/
theorem surrogate_repair_is_lossless {v : Value σ} (hkeyed : v.Keyed) :
    (repair_surrogates v).value.Clean ∧
      Repairs v.listed (repair_surrogates v).value.listed ∧
      (∀ place w, v.at_place place = some w → w.Clean →
        ((repair_surrogates v).value.at_place place).map Value.listed = some w.listed) ∧
      (v.Clean → (repair_surrogates v).value = v) ∧
      (∀ path, path ∈ (repair_surrogates v).replaced ↔
        ∃ place, Changed v place ∧ path = dotted [] place) ∧
      (repair_surrogates v).replaced.Nodup ∧
      repair_surrogates (repair_surrogates v).value =
        { value := (repair_surrogates v).value, replaced := [] } := by
  refine ⟨repair_clean hkeyed, ?_, ?_, ?_, fun _ => mem_replaced, replaced_nodup v,
    repair_of_clean (repair_clean hkeyed)⟩
  · rw [repair_listed hkeyed]
    exact repairs_listed hkeyed
  · intro place w hplace hclean
    rw [← Value.at_place_listed, repair_listed hkeyed, at_place_repaired hkeyed, hplace,
      Option.map_some, repaired_of_clean (at_place_keyed hkeyed hplace) hclean]
  · intro hclean
    rw [repair_of_clean hclean]

/-- A clean tuple beside a text that holds a surrogate. -/
def tupleBesideSurrogate : Value Nat :=
  .mapping [(py "a", .tuple [.scalar 1]), (py "b", .text [0xdcff])]

theorem tupleBesideSurrogate_keyed : tupleBesideSurrogate.Keyed := by
  refine .mapping (by decide) ?_
  simp only [List.mem_cons, List.not_mem_nil, or_false, forall_eq_or_imp, forall_eq]
  refine ⟨.tuple ?_, .text trivial⟩
  simp only [List.mem_singleton, forall_eq]
  exact .scalar 1

theorem surrogate_repair_is_lossless_pair :
    (repair_surrogates tupleBesideSurrogate).value.Clean :=
  (surrogate_repair_is_lossless tupleBesideSurrogate_keyed).1

/-- The tuple holds no surrogate, and comes back as a list. -/
theorem clean_tuple_becomes_list :
    tupleBesideSurrogate.at_place [0] = some (.tuple [.scalar 1]) ∧
      (.tuple [.scalar 1] : Value Nat).Clean ∧
      (repair_surrogates tupleBesideSurrogate).value.at_place [0] ≠ some (.tuple [.scalar 1]) := by
  refine ⟨rfl, ?_, ?_⟩
  · refine .tuple ?_
    simp only [List.mem_singleton, forall_eq]
    exact .scalar 1
  · have hplace : (repair_surrogates tupleBesideSurrogate).value.at_place [0] =
        some (.list [.scalar 1]) := by rfl
    rw [hplace]
    intro h
    cases h

end PwshPy.Records
