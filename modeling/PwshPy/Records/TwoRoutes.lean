import PwshPy.Records.Lossless
import PwshPy.Records.TrustedData

/-! # Two routes to a repaired record

Masking, dumping and unmasking gives the dump of the record with its own keys.
Repairing its keys first and its values later, or both at once, is the same.
-/

namespace PwshPy.Records

open Naming Storage

variable {κ σ τ : Type} [DecidableEq κ] {models : Models κ} {program : Program κ}

/-! ## Every key is walked -/

theorem mem_items_string_keys {items : List (Datum κ σ)} {key : PyStr} :
    key ∈ items_string_keys models items ↔ ∃ v ∈ items, key ∈ string_keys models v := by
  induction items with
  | nil => simp [items_string_keys]
  | cons item rest ih => simp [items_string_keys, ih]

theorem mem_entries_string_keys {entries : List (PyStr × Datum κ σ)} {key : PyStr} :
    key ∈ entries_string_keys models entries ↔
      key ∈ entries.map Prod.fst ∨ ∃ entry ∈ entries, key ∈ string_keys models entry.2 := by
  induction entries with
  | nil => simp [entries_string_keys]
  | cons entry rest ih =>
      obtain ⟨name, item⟩ := entry
      simp only [entries_string_keys, List.cons_append, List.mem_cons, List.mem_append, ih,
        List.map_cons, exists_eq_or_imp]
      tauto

theorem mem_fields_string_keys {walked : List PyStr} {fields : List (PyStr × Datum κ σ)}
    {key : PyStr} : key ∈ fields_string_keys models walked fields ↔
      ∃ field ∈ fields, field.1 ∈ walked ∧ key ∈ string_keys models field.2 := by
  induction fields with
  | nil => simp [fields_string_keys]
  | cons field rest ih =>
      obtain ⟨name, item⟩ := field
      by_cases hname : name ∈ walked
      · simp [fields_string_keys, hname, ih]
      · simp [fields_string_keys, hname, ih]

/-- A field that is left out has no key but the empty one. -/
theorem emptyKeys_of_unlisted (htold : program.Told (string_key : Held κ σ → Prop)) {m : κ}
    {fields : List (PyStr × Datum κ σ)} (h : (Datum.record m fields).Trusted program)
    {field : PyStr × Datum κ σ} (hfield : field ∈ fields)
    (hunlisted : field.1 ∉ mapping_fields program.models m) : field.2.EmptyKeys := by
  rw [Datum.Trusted, held_record] at h
  refine keys_of_respelled (fun t ht => ?_)
    (htold.no_key h (List.mem_map.mpr ⟨field, hfield, rfl⟩) hunlisted sullied_injective rfl
      fun _ => trivial)
  by_contra hne
  rw [has_surrogate_sullied hne] at ht
  cases ht

/-- The walk meets every key but the empty one. -/
theorem keys_walked (htold : program.Told (string_key : Held κ σ → Prop)) {v : Datum κ σ}
    (htrusted : v.Trusted program) :
    v.Keys fun keys => ∀ key ∈ keys, key ∈ [] :: string_keys program.models v := by
  have hgrows {v w : Datum κ σ} (h : v.Keys fun keys => ∀ key ∈ keys,
      key ∈ [] :: string_keys program.models v)
      (hsub : ∀ key ∈ string_keys program.models v, key ∈ string_keys program.models w) :
      v.Keys fun keys => ∀ key ∈ keys, key ∈ [] :: string_keys program.models w := by
    refine h.imp fun keys hkeys key hkey => ?_
    rcases List.mem_cons.mp (hkeys key hkey) with hempty | hmem
    · exact hempty ▸ List.mem_cons_self
    · exact List.mem_cons_of_mem _ (hsub key hmem)
  induction v with
  | text t => exact .text t
  | scalar s => exact .scalar s
  | list items ih =>
      exact .list fun v hv => hgrows (ih v hv (htrusted.list v hv)) fun key hkey =>
        mem_items_string_keys.mpr ⟨v, hv, hkey⟩
  | tuple items ih =>
      exact .tuple fun v hv => hgrows (ih v hv (htrusted.tuple v hv)) fun key hkey =>
        mem_items_string_keys.mpr ⟨v, hv, hkey⟩
  | mapping entries ih =>
      refine .mapping (fun key hkey => List.mem_cons_of_mem _
        (mem_entries_string_keys.mpr (Or.inl hkey))) fun entry hentry => ?_
      exact hgrows (ih entry hentry (htrusted.mapping.2 entry hentry)) fun key hkey =>
        mem_entries_string_keys.mpr (Or.inr ⟨entry, hentry, hkey⟩)
  | record m fields ih =>
      refine .record fun field hfield => ?_
      by_cases hname : field.1 ∈ mapping_fields program.models m
      · exact hgrows (ih field hfield (htrusted.record.2 field hfield)) fun key hkey =>
          mem_fields_string_keys.mpr ⟨field, hfield, hname, hkey⟩
      · refine (emptyKeys_of_unlisted htold htrusted hfield hname).imp fun keys hkeys key hkey => ?_
        exact hkeys key hkey ▸ List.mem_cons_self

theorem items_hold_surrogate_key_eq {items : List (Datum κ σ)}
    (h : ∀ v ∈ items, holds_surrogate_key models v = (string_keys models v).any has_surrogate) :
    items_hold_surrogate_key models items =
      (items_string_keys models items).any has_surrogate := by
  induction items with
  | nil => rfl
  | cons item rest ih =>
      rw [items_hold_surrogate_key, items_string_keys, List.any_append, h item List.mem_cons_self,
        ih fun v hv => h v (List.mem_cons_of_mem _ hv)]

theorem holds_surrogate_key_eq (v : Datum κ σ) :
    holds_surrogate_key models v = (string_keys models v).any has_surrogate := by
  induction v with
  | text t => rfl
  | scalar s => rfl
  | list items ih => exact items_hold_surrogate_key_eq ih
  | tuple items ih => exact items_hold_surrogate_key_eq ih
  | mapping entries ih =>
      rw [holds_surrogate_key, string_keys]
      induction entries with
      | nil => rfl
      | cons entry rest ihrest =>
          obtain ⟨key, item⟩ := entry
          rw [entries_hold_surrogate_key, entries_string_keys, List.cons_append, List.any_cons,
            List.any_append, Bool.or_assoc, ih (key, item) List.mem_cons_self,
            ihrest fun entry hentry => ih entry (List.mem_cons_of_mem _ hentry)]
  | record m fields ih =>
      rw [holds_surrogate_key, string_keys]
      induction fields with
      | nil => rfl
      | cons field rest ihrest =>
          obtain ⟨name, item⟩ := field
          rw [fields_hold_surrogate_key, fields_string_keys,
            ihrest fun field hfield => ih field (List.mem_cons_of_mem _ hfield),
            ih (name, item) List.mem_cons_self]
          split
          · rw [List.any_append]
          · rfl

theorem cleanKeys_of_not_holds (htold : program.Told (string_key : Held κ σ → Prop))
    {v : Datum κ σ} (htrusted : v.Trusted program)
    (h : holds_surrogate_key program.models v = false) : v.CleanKeys := by
  rw [holds_surrogate_key_eq, List.any_eq_false] at h
  refine (keys_walked htold htrusted).imp fun _ hkeys key hkey => ?_
  rcases List.mem_cons.mp (hkeys key hkey) with hempty | hmem
  · rw [hempty]
    rfl
  · exact Bool.not_eq_true _ ▸ h key hmem

/-! ## Masking and unmasking -/

namespace KeyMask

theorem placeholder_injective : Function.Injective placeholder := by
  intro i j h
  exact decimal_injective (List.cons.inj h).2

theorem placeholder_clean (n : Nat) : has_surrogate (placeholder n) = false := by
  have hdecimal := has_surrogate_eq_false.mp (has_surrogate_decimal n)
  rw [has_surrogate_eq_false]
  intro c hc
  cases List.mem_cons.mp hc with
  | inl hzero => rw [hzero]; rfl
  | inr hdigit => exact hdecimal c hdigit

/-- The mask keeps off the reserved keys, and its stand-ins are placeholders. -/
structure Covers (reserved : List PyStr) (m : KeyMask) : Prop where
  reserved_taken : ∀ key ∈ reserved, key ∈ m.taken ∨ key = []
  names_nodup : (m.originals.map Prod.fst).Nodup
  names_taken : ∀ name ∈ m.originals.map Prod.fst, name ∈ m.taken
  names_free : ∀ name ∈ m.originals.map Prod.fst, name ∉ reserved
  names_placeholders : ∀ name ∈ m.originals.map Prod.fst, ∃ n, name = placeholder n

variable {reserved : List PyStr} {m : KeyMask}

theorem covers_new (v : Datum κ σ) : Covers ([] :: string_keys models v) (new models v) where
  reserved_taken := fun _ hkey => (List.mem_cons.mp hkey).symm
  names_nodup := List.nodup_nil
  names_taken := fun _ hname => absurd hname List.not_mem_nil
  names_free := fun _ hname => absurd hname List.not_mem_nil
  names_placeholders := fun _ hname => absurd hname List.not_mem_nil

theorem Covers.original_reserved (h : Covers reserved m) {key : PyStr} (hkey : key ∈ reserved) :
    m.original key = key :=
  Dict.getSelf_of_not_mem fun hname => h.names_free key hname hkey

/-- A field's name is never taken for a placeholder. -/
theorem Covers.original_plain (h : Covers reserved m) {name : PyStr} (hname : 0 ∉ name) :
    m.original name = name := by
  refine Dict.getSelf_of_not_mem fun hmem => ?_
  obtain ⟨n, rfl⟩ := h.names_placeholders name hmem
  exact hname List.mem_cons_self

/-- What masking one key gives: a clean name that every later mask takes back to the key. -/
structure StandsIn (reserved : List PyStr) (m : KeyMask) (key : PyStr) (out : PyStr × KeyMask) :
    Prop where
  covers : Covers reserved out.2
  grows : m.originals ⊆ out.2.originals
  clean : has_surrogate out.1 = false
  restores : ∀ later : KeyMask, Covers reserved later → out.2.originals ⊆ later.originals →
    later.original out.1 = key

theorem stand_in_spec (h : Covers reserved m) {key : PyStr} (hkey : key ∈ reserved) :
    StandsIn reserved m key (m.stand_in key) := by
  by_cases hbad : has_surrogate key = true
  · simp only [stand_in, if_pos hbad]
    have hfree := @firstFree_not_mem _ _ _ m.taken placeholder_injective m.originals.length
    obtain ⟨n, hn⟩ := @firstFree_eq_name _ _ _ m.taken placeholder_injective m.originals.length
    generalize firstFree placeholder m.taken m.originals.length = name at hfree hn
    have hnew : name ∉ m.originals.map Prod.fst := fun hname => hfree (h.names_taken name hname)
    have hnames : ∀ other ∈ (m.originals ++ [(name, key)]).map Prod.fst,
        other ∈ m.originals.map Prod.fst ∨ other = name := by
      intro other hother
      simpa using hother
    rw [Dict.store_of_not_mem hnew]
    refine ⟨⟨?_, ?_, ?_, ?_, ?_⟩, List.subset_append_left _ _, ?_, ?_⟩
    · intro other hother
      exact (h.reserved_taken other hother).imp_left (List.mem_cons_of_mem _)
    · exact Dict.nodup_append_of_not_mem h.names_nodup hnew
    · intro other hother
      cases hnames other hother with
      | inl hold => exact List.mem_cons_of_mem _ (h.names_taken other hold)
      | inr heq => exact heq ▸ List.mem_cons_self
    · intro other hother hreserved
      cases hnames other hother with
      | inl hold => exact h.names_free other hold hreserved
      | inr heq =>
          rcases h.reserved_taken other hreserved with htaken | hempty
          · exact hfree (heq ▸ htaken)
          · rw [heq, hn] at hempty
            cases hempty
    · intro other hother
      cases hnames other hother with
      | inl hold => exact h.names_placeholders other hold
      | inr heq => exact ⟨n, heq.trans hn⟩
    · rw [hn]
      exact placeholder_clean n
    · intro later hlater hgrows
      exact Dict.getSelf_of_mem hlater.names_nodup (hgrows (List.mem_append_right _ (by simp)))
  · simp only [stand_in, if_neg hbad]
    refine ⟨h, List.Subset.refl _, Bool.not_eq_true _ ▸ hbad, ?_⟩
    intro later hlater _
    exact hlater.original_reserved hkey

/-- A dumped scalar holds no mapping and no tuple. -/
structure JsonLeaf (leaf : σ → Value τ) : Prop where
  bare : ∀ s, (leaf s).Forall (fun _ => True) fun _ => False
  listed : ∀ s, (leaf s).listed = leaf s

theorem unmask_items_eq (items : List (Value τ)) : m.unmask_items items = items.map m.unmask := by
  induction items with
  | nil => rfl
  | cons item rest ih => rw [unmask_items, ih, List.map_cons]

theorem unmask_entries_eq (entries : List (PyStr × Value τ)) :
    m.unmask_entries entries = entries.map fun entry => (m.original entry.1, m.unmask entry.2) := by
  induction entries with
  | nil => rfl
  | cons entry rest ih => rw [unmask_entries, ih, List.map_cons]

theorem unmask_of_bare {v : Value τ} (h : v.Forall (fun _ => True) fun _ => False) :
    m.unmask v = v := by
  induction v with
  | text t => rfl
  | scalar s => rfl
  | list items ih =>
      have hitems : ∀ v ∈ items, m.unmask v = id v := fun v hv =>
        ih v hv (Value.forall_list.mp h v hv)
      rw [unmask, unmask_items_eq, List.map_congr_left hitems, List.map_id]
  | tuple items ih => rfl
  | mapping entries ih => exact (Value.forall_mapping.mp h).1.elim

variable {leaf : σ → Value τ}

omit [DecidableEq κ] in
theorem dump_items_eq (items : List (Datum κ σ)) : dump_items leaf items = items.map (dump leaf) := by
  induction items with
  | nil => rfl
  | cons item rest ih => rw [dump_items, ih, List.map_cons]

omit [DecidableEq κ] in
theorem dump_entries_eq (entries : List (PyStr × Datum κ σ)) :
    dump_entries leaf entries = entries.map fun entry => (entry.1, dump leaf entry.2) := by
  induction entries with
  | nil => rfl
  | cons entry rest ih => rw [dump_entries, ih, List.map_cons]

omit [DecidableEq κ] in
theorem dump_entries_keys (entries : List (PyStr × Datum κ σ)) :
    (dump_entries leaf entries).map Prod.fst = entries.map Prod.fst := by
  rw [dump_entries_eq, List.map_map]
  rfl

omit [DecidableEq κ] in
/-- A record's own names come through an unmasking, its values do if each does. -/
theorem unmask_fields {c : κ} {fields fields' : List (PyStr × Datum κ σ)}
    (hnames : (fields.map Prod.fst).Nodup)
    (hvalues : m.unmask_entries (dump_entries leaf fields') = dump_entries leaf fields) :
    m.unmask (dump leaf (.record c fields' : Datum κ σ)) = dump leaf (.record c fields) := by
  rw [dump, unmask, hvalues, Dict.ofPairs_of_nodup]
  · rfl
  · rwa [dump_entries_keys]

omit [DecidableEq κ] in
/-- No empty key and no field's name is taken for a placeholder. -/
theorem unmask_dump_of_emptyKeys (hleaf : JsonLeaf leaf) (h : Covers reserved m) {v : Datum κ σ}
    (hempty : v.EmptyKeys) (htrusted : v.Trusted program) :
    m.unmask (dump leaf v) = dump leaf v := by
  have hentries {entries : List (PyStr × Datum κ σ)}
      (hnames : ∀ entry ∈ entries, 0 ∉ entry.1)
      (hvalues : ∀ entry ∈ entries, m.unmask (dump leaf entry.2) = dump leaf entry.2) :
      m.unmask_entries (dump_entries leaf entries) = dump_entries leaf entries := by
    rw [unmask_entries_eq, dump_entries_eq, List.map_map]
    refine List.map_congr_left fun entry hentry => ?_
    show (m.original entry.1, m.unmask (dump leaf entry.2)) = (entry.1, dump leaf entry.2)
    rw [h.original_plain (hnames entry hentry), hvalues entry hentry]
  induction v with
  | text t => rfl
  | scalar s => exact unmask_of_bare (hleaf.bare s)
  | list items ih =>
      rw [dump, unmask, unmask_items_eq, dump_items_eq, List.map_map]
      congr 1
      exact List.map_congr_left fun v hv =>
        ih v hv (Datum.keys_list.mp hempty v hv) (htrusted.list v hv)
  | tuple items ih =>
      rw [dump, unmask, unmask_items_eq, dump_items_eq, List.map_map]
      congr 1
      exact List.map_congr_left fun v hv =>
        ih v hv (Datum.keys_tuple.mp hempty v hv) (htrusted.tuple v hv)
  | mapping entries ih =>
      obtain ⟨hkeys, hempty⟩ := Datum.keys_mapping.mp hempty
      obtain ⟨hnodup, htrusted⟩ := htrusted.mapping
      rw [dump, unmask, hentries, Dict.ofPairs_of_nodup]
      · rwa [dump_entries_keys]
      · intro entry hentry
        rw [hkeys entry.1 (List.mem_map.mpr ⟨entry, hentry, rfl⟩)]
        exact List.not_mem_nil
      · exact fun entry hentry => ih entry hentry (hempty entry hentry) (htrusted entry hentry)
  | record c fields ih =>
      refine unmask_fields htrusted.names.1 (hentries ?_ ?_)
      · exact fun field hfield =>
          (htrusted.names.2 field.1 (List.mem_map.mpr ⟨field, hfield, rfl⟩)).2
      · exact fun field hfield => ih field hfield (Datum.keys_record.mp hempty field hfield)
          (htrusted.record.2 field hfield)

/-- What masking a value gives: clean keys, and a mask that takes its dump back. -/
structure Masks (leaf : σ → Value τ) (reserved : List PyStr) (m : KeyMask) (v : Datum κ σ)
    (out : Datum κ σ × KeyMask) : Prop where
  covers : Covers reserved out.2
  grows : m.originals ⊆ out.2.originals
  clean : out.1.CleanKeys
  restores : ∀ later : KeyMask, Covers reserved later → out.2.originals ⊆ later.originals →
    later.unmask (dump leaf out.1) = dump leaf v

/-- The same of the items of a list. -/
structure MasksItems (leaf : σ → Value τ) (reserved : List PyStr) (m : KeyMask)
    (items : List (Datum κ σ)) (out : List (Datum κ σ) × KeyMask) : Prop where
  covers : Covers reserved out.2
  grows : m.originals ⊆ out.2.originals
  clean : ∀ v ∈ out.1, v.CleanKeys
  restores : ∀ later : KeyMask, Covers reserved later → out.2.originals ⊆ later.originals →
    later.unmask_items (dump_items leaf out.1) = dump_items leaf items

/-- The same of the entries of a mapping or the fields of a record. -/
structure MasksEntries (leaf : σ → Value τ) (reserved : List PyStr) (m : KeyMask)
    (entries : List (PyStr × Datum κ σ)) (out : List (PyStr × Datum κ σ) × KeyMask) : Prop where
  covers : Covers reserved out.2
  grows : m.originals ⊆ out.2.originals
  clean_names : ∀ name ∈ out.1.map Prod.fst, has_surrogate name = false
  clean : ∀ entry ∈ out.1, entry.2.CleanKeys
  restores : ∀ later : KeyMask, Covers reserved later → out.2.originals ⊆ later.originals →
    later.unmask_entries (dump_entries leaf out.1) = dump_entries leaf entries

theorem mask_items_spec {items : List (Datum κ σ)}
    (hitems : ∀ v ∈ items, ∀ m, Covers reserved m → Masks leaf reserved m v (m.mask models v))
    (h : Covers reserved m) : MasksItems leaf reserved m items (m.mask_items models items) := by
  induction items generalizing m with
  | nil => exact ⟨h, List.Subset.refl _, by simp [mask_items], fun _ _ _ => rfl⟩
  | cons item rest ih =>
      have hitem := hitems item List.mem_cons_self m h
      have hrest := ih (fun v hv => hitems v (List.mem_cons_of_mem _ hv)) hitem.covers
      simp only [mask_items]
      refine ⟨hrest.covers, List.Subset.trans hitem.grows hrest.grows,
        List.forall_mem_cons.mpr ⟨hitem.clean, hrest.clean⟩, ?_⟩
      intro later hlater hgrows
      rw [dump_items, unmask_items, dump_items, hrest.restores later hlater hgrows,
        hitem.restores later hlater (List.Subset.trans hrest.grows hgrows)]

theorem mask_entries_spec {entries : List (PyStr × Datum κ σ)}
    (hkeys : ∀ key ∈ entries.map Prod.fst, key ∈ reserved)
    (hitems : ∀ entry ∈ entries, ∀ m, Covers reserved m →
      Masks leaf reserved m entry.2 (m.mask models entry.2))
    (h : Covers reserved m) :
    MasksEntries leaf reserved m entries (m.mask_entries models entries) := by
  induction entries generalizing m with
  | nil => exact ⟨h, List.Subset.refl _, by simp [mask_entries], by simp [mask_entries], fun _ _ _ => rfl⟩
  | cons entry rest ih =>
      obtain ⟨key, item⟩ := entry
      have hname := stand_in_spec h (hkeys key (by simp))
      have hitem := hitems (key, item) List.mem_cons_self _ hname.covers
      have hrest := ih (fun k hk => hkeys k (List.mem_cons_of_mem _ hk))
        (fun entry hentry => hitems entry (List.mem_cons_of_mem _ hentry)) hitem.covers
      simp only [mask_entries]
      refine ⟨hrest.covers, List.Subset.trans (List.Subset.trans hname.grows hitem.grows) hrest.grows,
        List.forall_mem_cons.mpr ⟨hname.clean, hrest.clean_names⟩,
        List.forall_mem_cons.mpr ⟨hitem.clean, hrest.clean⟩, ?_⟩
      intro later hlater hgrows
      rw [dump_entries, unmask_entries, dump_entries, hrest.restores later hlater hgrows,
        hitem.restores later hlater (List.Subset.trans hrest.grows hgrows),
        hname.restores later hlater (List.Subset.trans (List.Subset.trans hitem.grows hrest.grows) hgrows)]

theorem mask_fields_spec (hleaf : JsonLeaf leaf) {walked : List PyStr}
    {fields : List (PyStr × Datum κ σ)}
    (hnames : ∀ name ∈ fields.map Prod.fst, has_surrogate name = false ∧ 0 ∉ name)
    (hwalked : ∀ field ∈ fields, field.1 ∈ walked → ∀ m, Covers reserved m →
      Masks leaf reserved m field.2 (m.mask models field.2))
    (hleft : ∀ field ∈ fields, field.1 ∉ walked → field.2.EmptyKeys ∧ field.2.Trusted program)
    (h : Covers reserved m) :
    MasksEntries leaf reserved m fields (m.mask_fields models walked fields) := by
  induction fields generalizing m with
  | nil => exact ⟨h, List.Subset.refl _, by simp [mask_fields], by simp [mask_fields], fun _ _ _ => rfl⟩
  | cons field rest ih =>
      obtain ⟨name, item⟩ := field
      obtain ⟨hclean, hplain⟩ := hnames name (by simp)
      have hnames' := fun n hn => hnames n (List.mem_cons_of_mem _ hn)
      have hwalked' := fun field hfield => hwalked field (List.mem_cons_of_mem _ hfield)
      have hleft' := fun field hfield => hleft field (List.mem_cons_of_mem _ hfield)
      by_cases hname : name ∈ walked
      · have hitem := hwalked (name, item) List.mem_cons_self hname m h
        have hrest := ih hnames' hwalked' hleft' hitem.covers
        simp only [mask_fields, if_pos hname]
        refine ⟨hrest.covers, List.Subset.trans hitem.grows hrest.grows,
          List.forall_mem_cons.mpr ⟨hclean, hrest.clean_names⟩,
          List.forall_mem_cons.mpr ⟨hitem.clean, hrest.clean⟩, ?_⟩
        intro later hlater hgrows
        rw [dump_entries, unmask_entries, dump_entries, hrest.restores later hlater hgrows,
          hitem.restores later hlater (List.Subset.trans hrest.grows hgrows), hlater.original_plain hplain]
      · obtain ⟨hempty, htrusted⟩ := hleft (name, item) List.mem_cons_self hname
        have hrest := ih hnames' hwalked' hleft' h
        simp only [mask_fields, if_neg hname]
        refine ⟨hrest.covers, hrest.grows, List.forall_mem_cons.mpr ⟨hclean, hrest.clean_names⟩,
          List.forall_mem_cons.mpr ⟨hempty.imp fun _ hkeys key hkey => by
            rw [hkeys key hkey]; rfl, hrest.clean⟩, ?_⟩
        intro later hlater hgrows
        rw [dump_entries, unmask_entries, dump_entries, hrest.restores later hlater hgrows,
          unmask_dump_of_emptyKeys hleaf hlater hempty htrusted, hlater.original_plain hplain]

theorem mask_spec (hleaf : JsonLeaf leaf) (htold : program.Told (string_key : Held κ σ → Prop))
    {v : Datum κ σ} (htrusted : v.Trusted program)
    (hreserved : v.Keys fun keys => ∀ key ∈ keys, key ∈ reserved)
    (h : Covers reserved m) : Masks leaf reserved m v (m.mask program.models v) := by
  induction v generalizing m with
  | text t => exact ⟨h, List.Subset.refl _, .text t, fun _ _ _ => rfl⟩
  | scalar s =>
      exact ⟨h, List.Subset.refl _, .scalar s, fun _ _ _ => unmask_of_bare (hleaf.bare s)⟩
  | list items ih =>
      have hout := @mask_items_spec _ _ _ _ program.models reserved m leaf items
        (fun v hv m hm => ih v hv (htrusted.list v hv) (Datum.keys_list.mp hreserved v hv) hm) h
      simp only [mask]
      refine ⟨hout.covers, hout.grows, .list hout.clean, ?_⟩
      intro later hlater hgrows
      rw [dump, unmask, hout.restores later hlater hgrows, dump]
  | tuple items ih =>
      have hout := @mask_items_spec _ _ _ _ program.models reserved m leaf items
        (fun v hv m hm => ih v hv (htrusted.tuple v hv) (Datum.keys_tuple.mp hreserved v hv) hm) h
      simp only [mask]
      refine ⟨hout.covers, hout.grows, .tuple hout.clean, ?_⟩
      intro later hlater hgrows
      rw [dump, unmask, hout.restores later hlater hgrows, dump]
  | mapping entries ih =>
      obtain ⟨hnodup, htrusted⟩ := htrusted.mapping
      obtain ⟨hkeys, hreserved⟩ := Datum.keys_mapping.mp hreserved
      have hout := @mask_entries_spec _ _ _ _ program.models reserved m leaf entries hkeys
        (fun entry hentry m hm => ih entry hentry (htrusted entry hentry) (hreserved entry hentry) hm) h
      have hback : (((m.mask_entries program.models entries).1.map Prod.fst).map
          (m.mask_entries program.models entries).2.original) = entries.map Prod.fst := by
        have hrestored := hout.restores _ hout.covers (List.Subset.refl _)
        have hnames := congrArg (List.map Prod.fst) hrestored
        rw [unmask_entries_eq, dump_entries_keys, dump_entries_eq] at hnames
        simpa only [List.map_map, Function.comp_def] using hnames
      have hnames : ((m.mask_entries program.models entries).1.map Prod.fst).Nodup :=
        List.Nodup.of_map _ (hback ▸ hnodup)
      simp only [mask, Dict.ofPairs_of_nodup hnames]
      refine ⟨hout.covers, hout.grows, .mapping hout.clean_names hout.clean, ?_⟩
      intro later hlater hgrows
      rw [dump, unmask, hout.restores later hlater hgrows, dump, Dict.ofPairs_of_nodup]
      rwa [dump_entries_keys]
  | record c fields ih =>
      have hfields := htrusted.record.2
      have hout := @mask_fields_spec _ _ _ _ program.models program reserved m leaf hleaf
        (mapping_fields program.models c) fields htrusted.names.2
        (fun field hfield _ m hm => ih field hfield (hfields field hfield)
          (Datum.keys_record.mp hreserved field hfield) hm)
        (fun field hfield hname => ⟨emptyKeys_of_unlisted htold htrusted hfield hname,
          hfields field hfield⟩) h
      simp only [mask]
      refine ⟨hout.covers, hout.grows, .record hout.clean, ?_⟩
      intro later hlater hgrows
      exact unmask_fields htrusted.names.1 (hout.restores later hlater hgrows)

end KeyMask

/-! ## The two routes -/

section Dumped

variable {leaf : σ → Value τ}

omit [DecidableEq κ] in
theorem dump_listed (hleaf : KeyMask.JsonLeaf leaf) (v : Datum κ σ) :
    (dump leaf v).listed = dump leaf v := by
  induction v with
  | text t => rfl
  | scalar s => exact hleaf.listed s
  | list items ih =>
      rw [dump, Value.listed_list, KeyMask.dump_items_eq, List.map_map]
      congr 1
      exact List.map_congr_left ih
  | tuple items ih =>
      rw [dump, Value.listed_list, KeyMask.dump_items_eq, List.map_map]
      congr 1
      exact List.map_congr_left ih
  | mapping entries ih =>
      rw [dump, Value.listed_mapping, KeyMask.dump_entries_eq, List.map_map]
      congr 1
      exact List.map_congr_left fun entry hentry => congrArg (Prod.mk entry.1) (ih entry hentry)
  | record c fields ih =>
      rw [dump, Value.listed_mapping, KeyMask.dump_entries_eq, List.map_map]
      congr 1
      exact List.map_congr_left fun field hfield => congrArg (Prod.mk field.1) (ih field hfield)

omit [DecidableEq κ] in
theorem dump_entries_keyed {entries : List (PyStr × Datum κ σ)}
    (hnames : (entries.map Prod.fst).Nodup) (h : ∀ entry ∈ entries, (dump leaf entry.2).Keyed) :
    (Value.mapping (dump_entries leaf entries)).Keyed := by
  refine .mapping ?_ ?_
  · rwa [KeyMask.dump_entries_keys]
  · rw [KeyMask.dump_entries_eq]
    intro entry' hentry'
    obtain ⟨entry, hentry, rfl⟩ := List.mem_map.mp hentry'
    exact h entry hentry

omit [DecidableEq κ] in
theorem dump_items_keyed {items : List (Datum κ σ)} (h : ∀ v ∈ items, (dump leaf v).Keyed) :
    (Value.list (dump_items leaf items)).Keyed := by
  refine .list ?_
  rw [KeyMask.dump_items_eq]
  intro w hw
  obtain ⟨v, hv, rfl⟩ := List.mem_map.mp hw
  exact h v hv

omit [DecidableEq κ] in
theorem dump_keyed (hleaf : KeyMask.JsonLeaf leaf) {v : Datum κ σ} (htrusted : v.Trusted program) :
    (dump leaf v).Keyed := by
  induction v with
  | text t => exact .text trivial
  | scalar s => exact (hleaf.bare s).imp (fun _ _ => trivial) fun _ hfalse => hfalse.elim
  | list items ih => exact dump_items_keyed fun v hv => ih v hv (htrusted.list v hv)
  | tuple items ih => exact dump_items_keyed fun v hv => ih v hv (htrusted.tuple v hv)
  | mapping entries ih =>
      obtain ⟨hnodup, hitems⟩ := htrusted.mapping
      exact dump_entries_keyed hnodup fun entry hentry => ih entry hentry (hitems entry hentry)
  | record m fields ih =>
      exact dump_entries_keyed htrusted.names.1 fun field hfield =>
        ih field hfield (htrusted.record.2 field hfield)

end Dumped

theorem repair_keys_items_eq (items : List (Value τ)) :
    repair_keys_items items = items.map repair_keys := by
  induction items with
  | nil => rfl
  | cons item rest ih => rw [repair_keys_items, ih, List.map_cons]

theorem repair_keys_entries_eq (renamed : List (PyStr × PyStr)) (entries : List (PyStr × Value τ)) :
    repair_keys_entries renamed entries =
      entries.map fun entry => (Dict.getSelf renamed entry.1, repair_keys entry.2) := by
  induction entries with
  | nil => rfl
  | cons entry rest ih => rw [repair_keys_entries, ih, List.map_cons]

theorem repair_keys_mapping {entries : List (PyStr × Value τ)}
    (hkeys : (entries.map Prod.fst).Nodup) : repair_keys (.mapping entries) =
      .mapping (entries.map fun entry =>
        (new_key (entries.map Prod.fst) entry.1, repair_keys entry.2)) := by
  have hnames : (entries.map fun entry => (new_key (entries.map Prod.fst) entry.1,
      repair_keys entry.2)).map Prod.fst = (entries.map Prod.fst).map (new_key (entries.map Prod.fst)) := by
    simp only [List.map_map, Function.comp_def]
  rw [repair_keys, repair_keys_entries_eq, Dict.ofPairs_of_nodup]
  · rfl
  · exact hnames ▸ new_keys_nodup hkeys

theorem repair_keys_keyed {v : Value τ} (hkeyed : v.Keyed) : (repair_keys v).Keyed := by
  induction v with
  | text t => exact hkeyed
  | scalar s => exact hkeyed
  | list items ih =>
      rw [repair_keys, repair_keys_items_eq]
      refine .list ?_
      intro w hw
      obtain ⟨v, hv, rfl⟩ := List.mem_map.mp hw
      exact ih v hv (Value.forall_list.mp hkeyed v hv)
  | tuple items ih => exact hkeyed
  | mapping entries ih =>
      obtain ⟨hkeys, hitems⟩ := Value.forall_mapping.mp hkeyed
      rw [repair_keys_mapping hkeys]
      refine .mapping ?_ ?_
      · simpa only [List.map_map, Function.comp_def] using new_keys_nodup hkeys
      · intro entry' hentry'
        obtain ⟨entry, hentry, rfl⟩ := List.mem_map.mp hentry'
        exact ih entry hentry (hitems entry hentry)

theorem repair_keys_listed {v : Value τ} (hkeyed : v.Keyed) (hlisted : v.listed = v) :
    (repair_keys v).listed = repair_keys v := by
  induction v with
  | text t => rfl
  | scalar s => rfl
  | list items ih =>
      rw [Value.listed_list, Value.list.injEq] at hlisted
      have hitems := List.map_inj_left.mp (hlisted.trans (List.map_id items).symm)
      rw [repair_keys, repair_keys_items_eq, Value.listed_list, List.map_map]
      congr 1
      exact List.map_congr_left fun v hv => ih v hv (Value.forall_list.mp hkeyed v hv) (hitems v hv)
  | tuple items ih => simp at hlisted
  | mapping entries ih =>
      obtain ⟨hkeys, hitems⟩ := Value.forall_mapping.mp hkeyed
      rw [Value.listed_mapping, Value.mapping.injEq] at hlisted
      have hentries := List.map_inj_left.mp (hlisted.trans (List.map_id entries).symm)
      rw [repair_keys_mapping hkeys, Value.listed_mapping, List.map_map]
      congr 1
      refine List.map_congr_left fun entry hentry => ?_
      exact congrArg (Prod.mk _) (ih entry hentry (hitems entry hentry)
        (congrArg Prod.snd (hentries entry hentry)))

/-- Repairing keys before values is repairing both. -/
theorem repaired_repair_keys {v : Value τ} (hkeyed : v.Keyed) :
    repaired (repair_keys v) = repaired v := by
  induction v with
  | text t => rfl
  | scalar s => rfl
  | list items ih =>
      rw [repair_keys, repair_keys_items_eq, repaired_list, repaired_list, List.map_map]
      congr 1
      exact List.map_congr_left fun v hv => ih v hv (Value.forall_list.mp hkeyed v hv)
  | tuple items ih => rfl
  | mapping entries ih =>
      obtain ⟨hkeys, hitems⟩ := Value.forall_mapping.mp hkeyed
      have hnames : (entries.map fun entry => (new_key (entries.map Prod.fst) entry.1,
          repair_keys entry.2)).map Prod.fst =
          (entries.map Prod.fst).map (new_key (entries.map Prod.fst)) := by
        simp only [List.map_map, Function.comp_def]
      have hnodup := new_keys_nodup hkeys
      rw [repair_keys_mapping hkeys, repaired_mapping hkeys, repaired_mapping (hnames ▸ hnodup),
        hnames, List.map_map]
      congr 1
      refine List.map_congr_left fun entry hentry => ?_
      have hclean := new_key_clean hkeys (List.mem_map.mpr ⟨entry, hentry, rfl⟩)
      show (new_key _ (new_key _ entry.1), repaired (repair_keys entry.2)) = _
      rw [new_key_of_clean hclean, ih entry hentry (hitems entry hentry)]

theorem repair_value_of_listed {v : Value τ} (hkeyed : v.Keyed) (hlisted : v.listed = v) :
    (repair_surrogates v).value = repaired v := by
  by_cases hclean : v.Clean
  · rw [repair_of_clean hclean, repaired_of_clean hkeyed hclean, hlisted]
  · rw [repair_of_changed hclean]

/-- What is relied on of `model_dump(mode="json")`: a record without surrogate keys is dumped to its
structure, a scalar to what holds no mapping. Any other record is not: a surrogate key comes back
rewritten, or raises an error. -/
structure Dumps (leaf : σ → Value τ) (model_dump : Datum κ σ → Option (Value τ)) : Prop where
  scalars : KeyMask.JsonLeaf leaf
  clean : ∀ c fields, (Datum.record c fields).CleanKeys →
    model_dump (.record c fields) = some (dump leaf (.record c fields))
  unclean : ∀ c fields, ¬ (Datum.record c fields).CleanKeys →
    model_dump (.record c fields) ≠ some (dump leaf (.record c fields))

/-- Masking loses no key, and both routes to a repaired record give the same data in the same order. -/
def RoutesAgree (program : Program κ) (leaf : σ → Value τ)
    (model_dump : Datum κ σ → Option (Value τ)) : Prop :=
  ∀ c fields, (Datum.record c fields).Trusted program →
    to_dict_keeping_surrogate_keys program.models model_dump (.record c fields) =
        some (dump leaf (.record c fields)) ∧
      ∃ plain out, to_dict program.models model_dump (.record c fields) = some plain ∧
        repair_record program.models model_dump (.record c fields) = some out ∧
          (repair_surrogates plain).value = out.value

section Routes

variable {leaf : σ → Value τ} {model_dump : Datum κ σ → Option (Value τ)}

theorem routes_agree_of_told (hdumps : Dumps leaf model_dump)
    (htold : program.Told (string_key : Held κ σ → Prop)) : RoutesAgree program leaf model_dump := by
  intro c fields htrusted
  have hlisted := @dump_listed _ _ _ leaf hdumps.scalars (.record c fields)
  have hplain := dump_keyed hdumps.scalars htrusted
  rw [repair_record, to_dict_keeping_surrogate_keys, to_dict]
  by_cases hholds : holds_surrogate_key program.models (.record c fields) = true
  · have hmasks := KeyMask.mask_spec hdumps.scalars htold htrusted (keys_walked htold htrusted)
      (KeyMask.covers_new (.record c fields))
    have hkept : dump_keeping_keys program.models model_dump (.record c fields) =
        some (dump leaf (.record c fields)) := by
      rw [dump_keeping_keys]
      refine Eq.trans ?_ (congrArg some (hmasks.restores _ hmasks.covers (List.Subset.refl _)))
      exact congrArg (Option.map _) (hdumps.clean c _ hmasks.clean)
    rw [if_pos hholds, if_pos hholds, hkept]
    refine ⟨rfl, _, _, rfl, rfl, ?_⟩
    rw [repair_value_of_listed hplain hlisted, repair_value_of_listed (repair_keys_keyed hplain)
      (repair_keys_listed hplain hlisted), repaired_repair_keys hplain]
  · have hclean := cleanKeys_of_not_holds htold htrusted (Bool.not_eq_true _ ▸ hholds)
    rw [if_neg hholds, if_neg hholds, hdumps.clean c fields hclean]
    exact ⟨rfl, _, _, rfl, rfl, rfl⟩

/-- Where a field that is not walked can hold a surrogate key, a record with that key only is handed
to the dump as it is. -/
theorem told_of_routes_agree (hdumps : Dumps leaf model_dump)
    (hagree : RoutesAgree program leaf model_dump) :
    program.Told (string_key : Held κ σ → Prop) := by
  intro m hm name arg harg hholds
  obtain ⟨held, hheld, hkey, hothers⟩ := exists_only_there (fun _ => trivial) hm harg hholds
  obtain ⟨d, hd⟩ := exists_datum hheld
  obtain ⟨fields, rfl, hfields⟩ := datum_of_record hd
  by_contra hnames
  have hunlisted : name ∉ program.mapping_fields m := fun hlisted =>
    hnames ((program.mem_mapping_fields harg).mp hlisted)
  have hmissed : holds_surrogate_key program.models (.record m fields) = false := by
    rw [← holds_surrogate_key_held, hd, Program.holds_surrogate_key, holds_key_record,
      List.any_eq_false]
    intro field hfield hfound
    rw [Bool.and_eq_true, decide_eq_true_eq] at hfound
    by_cases hname : field.1 = name
    · exact hunlisted (hname ▸ hfound.1)
    · have hclean := holds_key_every_field hfound.2
      rw [hothers field hfield hname] at hclean
      cases hclean
  have hkept := (hagree m fields (by rw [Datum.Trusted, hd]; exact hheld)).1
  rw [to_dict_keeping_surrogate_keys, hmissed, if_neg Bool.false_ne_true] at hkept
  refine hdumps.unclean m fields (fun hclean => ?_) hkept
  rw [← hd, holds_key_of_cleanKeys hclean] at hkey
  cases hkey

end Routes

/-- `model_dump` of a record with a surrogate key below a list: it raises. -/
def strict_dump (leaf : σ → Value τ) (v : Datum κ σ) : Option (Value τ) :=
  if v.held.holds_key every_field then none else some (dump leaf v)

omit [DecidableEq κ] in
theorem strict_dump_dumps {leaf : σ → Value τ} (hleaf : KeyMask.JsonLeaf leaf) :
    Dumps leaf (@strict_dump κ σ τ leaf) where
  scalars := hleaf
  clean c fields hclean := by
    rw [strict_dump, holds_key_of_cleanKeys hclean, if_neg Bool.false_ne_true]
  unclean c fields hunclean := by
    have hkey : (Datum.record c fields).held.holds_key every_field = true := by
      by_contra hnone
      exact hunclean (cleanKeys_of_holds_key (Bool.not_eq_true _ ▸ hnone))
    rw [strict_dump, if_pos hkey]
    exact (Option.some_ne_none _).symm

theorem scalar_json : KeyMask.JsonLeaf (Value.scalar : Nat → Value Nat) where
  bare s := .scalar s
  listed _ := rfl

/-- `dict` -/
def dict_class : PyClass Unit where
  is_mapping := true
  is_collection := true
  is_text := false
  instances shape := match shape with
    | .mapping => true
    | _ => false

def bag_fields (_ : Unit) : List (PyStr × TypeHint Unit) :=
  [(py "data", .generic dict_class [.literal, .any])]

theorem bag_fields_nodup : ∀ m, ((bag_fields m).map Prod.fst).Nodup :=
  fun _ => List.nodup_singleton _

theorem bag_fields_plain : ∀ m, ∀ name ∈ (bag_fields m).map Prod.fst,
    has_surrogate name = false ∧ 0 ∉ name := by
  intro m name hname
  rw [List.mem_singleton.mp hname]
  decide

/-- One class, with the one field `data: dict[str, Any]`. -/
def bagProgram : Program Unit where
  classes := [()]
  all_classes := mem_only_class
  fields := bag_fields
  names_nodup := bag_fields_nodup
  names_plain := bag_fields_plain
  issubclass := same_class
  issubclass_refl := same_class_refl

/-- A surrogate key, and a key that looks like its placeholder. -/
def bag_data : List (PyStr × Datum Unit Nat) :=
  [(py "data", .mapping [([0x6b, 0xdcff], .scalar 1), ([0, 0x30], .scalar 2)])]

theorem bag_data_trusted : (Datum.record () bag_data).Trusted bagProgram := by
  have hother : ∀ entry ∈ [((.text [0x6b, 0xdcff] : Held Unit Nat), (.other 1 : Held Unit Nat)),
      (.text [0, 0x30], .other 2)], string_key entry.1 ∧ ∃ s, entry.2 = .other s := by
    simp [string_key]
  have hdistinct : [(.text [0x6b, 0xdcff] : Held Unit Nat), .text [0, 0x30]].Nodup := by
    simp
  rw [Datum.Trusted, held_record]
  refine .record (.record rfl rfl ?_) ?_
  · intro name arg v harg hv
    cases List.mem_singleton.mp harg
    cases List.mem_singleton.mp hv
    refine .generic rfl ?_ ?_
    · intro arg harg key hkey
      cases harg
      obtain ⟨entry, hentry, rfl⟩ := List.mem_map.mp hkey
      obtain ⟨t, ht⟩ : ∃ t, entry.1 = .text t := by
        have hkind := (hother entry hentry).1
        cases hentry' : entry.1 <;> simp_all [string_key]
      exact ht ▸ .literal_text t
    · intro arg harg value _
      cases harg
      exact .any value
  · refine List.forall_mem_singleton.mpr (.mapping hdistinct ?_ ?_)
    · exact fun entry hentry => (hother entry hentry).1
    · intro entry hentry
      obtain ⟨s, hs⟩ := (hother entry hentry).2
      exact hs ▸ .other s

/-- A list of one mapping with a surrogate key. -/
def listed_record : List (PyStr × Datum Unit Nat) :=
  [(py "data", .list [.mapping [([0xDCFF], .scalar 1)]])]

theorem held_listed_record :
    (Datum.record () listed_record).held = .record () (listed_data 1) := by
  rw [held_record]
  rfl

end PwshPy.Records
