import Mathlib.Data.Set.List
import PwshPy.Records.PruningSound

/-! # Trusted records with text keys

The records the dumps work on: each matches the annotations of its class, and the keys of its
mappings are strings. Where the annotations tell, a field that is not walked has no key that could
be taken for another one.
-/

namespace PwshPy.Records

variable {κ σ : Type} {program : Program κ}

/-- Every record in the value matches the annotations of its class, and the keys of each mapping are
distinct. -/
abbrev Datum.Trusted (program : Program κ) (v : Datum κ σ) : Prop :=
  v.held.Trusted program string_key

theorem items_held_eq (items : List (Datum κ σ)) : items_held items = items.map (·.held) := by
  induction items with
  | nil => rfl
  | cons item rest ih => rw [items_held, ih, List.map_cons]

theorem entries_held_eq (entries : List (PyStr × Datum κ σ)) :
    entries_held entries = entries.map fun entry => (.text entry.1, entry.2.held) := by
  induction entries with
  | nil => rfl
  | cons entry rest ih => rw [entries_held, ih, List.map_cons]

theorem fields_held_eq (fields : List (PyStr × Datum κ σ)) :
    fields_held fields = fields.map fun field => (field.1, field.2.held) := by
  induction fields with
  | nil => rfl
  | cons field rest ih => rw [fields_held, ih, List.map_cons]

@[simp]
theorem held_list (items : List (Datum κ σ)) :
    (Datum.list items).held = .list (items.map (·.held)) := by
  rw [Datum.held, items_held_eq]

@[simp]
theorem held_tuple (items : List (Datum κ σ)) :
    (Datum.tuple items).held = .tuple (items.map (·.held)) := by
  rw [Datum.held, items_held_eq]

@[simp]
theorem held_mapping (entries : List (PyStr × Datum κ σ)) : (Datum.mapping entries).held =
    .mapping (entries.map fun entry => (.text entry.1, entry.2.held)) := by
  rw [Datum.held, entries_held_eq]

@[simp]
theorem held_record (m : κ) (fields : List (PyStr × Datum κ σ)) : (Datum.record m fields).held =
    .record m (fields.map fun field => (field.1, field.2.held)) := by
  rw [Datum.held, fields_held_eq]

namespace Datum.Trusted

theorem list {items : List (Datum κ σ)} (h : (Datum.list items).Trusted program) :
    ∀ v ∈ items, v.Trusted program := by
  rw [Datum.Trusted, held_list] at h
  cases h with
  | list hitems => exact fun v hv => hitems v.held (List.mem_map.mpr ⟨v, hv, rfl⟩)

theorem tuple {items : List (Datum κ σ)} (h : (Datum.tuple items).Trusted program) :
    ∀ v ∈ items, v.Trusted program := by
  rw [Datum.Trusted, held_tuple] at h
  cases h with
  | tuple hitems => exact fun v hv => hitems v.held (List.mem_map.mpr ⟨v, hv, rfl⟩)

theorem mapping {entries : List (PyStr × Datum κ σ)}
    (h : (Datum.mapping entries).Trusted program) :
    (entries.map Prod.fst).Nodup ∧ ∀ entry ∈ entries, entry.2.Trusted program := by
  rw [Datum.Trusted, held_mapping] at h
  cases h with
  | mapping hnodup _ hentries =>
      refine ⟨List.Nodup.of_map (Held.text : PyStr → Held κ σ) ?_, fun entry hentry =>
        hentries _ (List.mem_map.mpr ⟨entry, hentry, rfl⟩)⟩
      rw [List.map_map] at hnodup ⊢
      exact hnodup

theorem record {m : κ} {fields : List (PyStr × Datum κ σ)}
    (h : (Datum.record m fields).Trusted program) :
    fields.map Prod.fst = (program.fields m).map Prod.fst ∧
      ∀ field ∈ fields, field.2.Trusted program := by
  rw [Datum.Trusted, held_record] at h
  cases h with
  | record hmatches hfields =>
      refine ⟨?_, fun field hfield => hfields _ (List.mem_map.mpr ⟨field, hfield, rfl⟩)⟩
      cases hmatches with
      | record _ hnames _ =>
          rw [List.map_map] at hnames
          exact hnames

/-- The names of a record are those of its class: distinct, without surrogates and NULs. -/
theorem names {m : κ} {fields : List (PyStr × Datum κ σ)}
    (h : (Datum.record m fields).Trusted program) : (fields.map Prod.fst).Nodup ∧
      ∀ name ∈ fields.map Prod.fst, has_surrogate name = false ∧ 0 ∉ name := by
  rw [h.record.1]
  exact ⟨program.names_nodup m, program.names_plain m⟩

end Datum.Trusted

theorem exists_datum {v : Held κ σ} (h : v.Trusted program string_key) :
    ∃ d : Datum κ σ, d.held = v := by
  have hmembers {α β : Type} (f : α → β) (l : List β) (h : ∀ b ∈ l, ∃ a, f a = b) :
      ∃ l' : List α, l'.map f = l := by
    rw [← Set.mem_range, Set.range_list_map]
    exact h
  induction h with
  | text t => exact ⟨.text t, rfl⟩
  | other s => exact ⟨.scalar s, rfl⟩
  | list _ ih =>
      obtain ⟨items, rfl⟩ := hmembers _ _ ih
      exact ⟨.list items, held_list items⟩
  | tuple _ ih =>
      obtain ⟨items, rfl⟩ := hmembers _ _ ih
      exact ⟨.tuple items, held_tuple items⟩
  | mapping _ hkeys _ ih =>
      obtain ⟨entries, rfl⟩ := hmembers
        (fun entry : PyStr × Datum κ σ => ((.text entry.1 : Held κ σ), entry.2.held)) _
        fun entry hentry => by
          obtain ⟨d, hd⟩ := ih entry hentry
          have hkey := hkeys entry hentry
          obtain ⟨key, value⟩ := entry
          cases key with
          | text t => exact ⟨(t, d), congrArg (Prod.mk _) hd⟩
          | other s => cases hkey
          | list items => cases hkey
          | tuple items => cases hkey
          | mapping entries => cases hkey
          | record m fields => cases hkey
      exact ⟨.mapping entries, held_mapping entries⟩
  | @record m _ _ _ ih =>
      obtain ⟨fields, rfl⟩ := hmembers
        (fun field : PyStr × Datum κ σ => (field.1, field.2.held)) _
        fun field hfield => by
          obtain ⟨d, hd⟩ := ih field hfield
          exact ⟨(field.1, d), congrArg (Prod.mk _) hd⟩
      exact ⟨.record m fields, held_record m fields⟩

theorem datum_of_record {d : Datum κ σ} {m : κ} {fields : List (PyStr × Held κ σ)}
    (h : d.held = .record m fields) : ∃ own : List (PyStr × Datum κ σ), d = .record m own ∧
      fields = own.map fun field => (field.1, field.2.held) := by
  cases d with
  | text t => cases h
  | scalar s => cases h
  | list items => cases h
  | tuple items => cases h
  | mapping entries => cases h
  | record c own =>
      rw [held_record, Held.record.injEq] at h
      exact ⟨own, congrArg (fun c => Datum.record c own) h.1, h.2.symm⟩

/-! ## Keys -/

/-- Every key of every mapping is clean. -/
abbrev Datum.CleanKeys (v : Datum κ σ) : Prop :=
  v.Keys fun keys => ∀ key ∈ keys, has_surrogate key = false

/-- No key could be taken for a placeholder, and none holds a surrogate. -/
abbrev Datum.EmptyKeys (v : Datum κ σ) : Prop := v.Keys fun keys => ∀ key ∈ keys, key = []

/-- No walk finds a key in a value whose keys are clean. -/
theorem holds_key_of_cleanKeys {v : Datum κ σ} (h : v.CleanKeys) :
    v.held.holds_key every_field = false := by
  induction v with
  | text t => rfl
  | scalar s => rfl
  | list items ih =>
      rw [held_list, holds_key_list, List.any_map, List.any_eq_false]
      exact fun v hv => Bool.not_eq_true _ ▸ ih v hv (Datum.keys_list.mp h v hv)
  | tuple items ih =>
      rw [held_tuple, holds_key_tuple, List.any_map, List.any_eq_false]
      exact fun v hv => Bool.not_eq_true _ ▸ ih v hv (Datum.keys_tuple.mp h v hv)
  | mapping entries ih =>
      obtain ⟨hkeys, hentries⟩ := Datum.keys_mapping.mp h
      rw [held_mapping, holds_key_mapping, List.any_map, List.any_eq_false]
      intro entry hentry
      have hkey := hkeys entry.1 (List.mem_map.mpr ⟨entry, hentry, rfl⟩)
      simp [Held.surrogate_key, hkey, ih entry hentry (hentries entry hentry)]
  | record m fields ih =>
      rw [held_record, holds_key_every_record, List.any_map, List.any_eq_false]
      exact fun field hfield =>
        Bool.not_eq_true _ ▸ ih field hfield (Datum.keys_record.mp h field hfield)

/-- What holds of every text key, if no key of another spelling holds a surrogate. -/
theorem keys_of_respelled {spell : PyStr → PyStr} {P : PyStr → Prop}
    (hspell : ∀ t, has_surrogate (spell t) = false → P t) {v : Datum κ σ}
    (h : (v.held.respell spell).holds_key every_field = false) :
    v.Keys fun keys => ∀ key ∈ keys, P key := by
  induction v with
  | text t => exact .text t
  | scalar s => exact .scalar s
  | list items ih =>
      rw [held_list, respell_list, holds_key_list, List.map_map, List.any_map, List.any_eq_false] at h
      exact .list fun v hv => ih v hv (Bool.not_eq_true _ ▸ h v hv)
  | tuple items ih =>
      rw [held_tuple, respell_tuple, holds_key_tuple, List.map_map, List.any_map,
        List.any_eq_false] at h
      exact .tuple fun v hv => ih v hv (Bool.not_eq_true _ ▸ h v hv)
  | mapping entries ih =>
      rw [held_mapping, respell_mapping, holds_key_mapping, List.map_map, List.any_map,
        List.any_eq_false] at h
      have hentry : ∀ entry ∈ entries, has_surrogate (spell entry.1) = false ∧
          (entry.2.held.respell spell).holds_key every_field = false := by
        intro entry hentry
        have hfound := Bool.not_eq_true _ ▸ h entry hentry
        exact Bool.or_eq_false_iff.mp hfound
      refine .mapping ?_ fun entry hmem => ih entry hmem (hentry entry hmem).2
      intro key hkey
      obtain ⟨entry, hmem, rfl⟩ := List.mem_map.mp hkey
      exact hspell _ (hentry entry hmem).1
  | record m fields ih =>
      rw [held_record, respell_record, holds_key_every_record, List.map_map, List.any_map,
        List.any_eq_false] at h
      exact .record fun field hfield => ih field hfield (Bool.not_eq_true _ ▸ h field hfield)

theorem cleanKeys_of_holds_key {v : Datum κ σ} (h : v.held.holds_key every_field = false) :
    v.CleanKeys :=
  @keys_of_respelled _ _ id _ (fun _ => id) v ((respell_id v.held).symm ▸ h)

end PwshPy.Records
