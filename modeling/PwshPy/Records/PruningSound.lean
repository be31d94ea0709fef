import PwshPy.Records.Pruning

/-! # When annotation pruning is sound

The keys of a record can be spelled anew without a change to what it matches. So where a field can
hold a surrogate key there is a record with no other one, and pruning is sound for a program exactly
when each such field names a mapping.
-/

namespace PwshPy.Records

variable {κ σ : Type} {program : Program κ} {keys : Held κ σ → Prop}

/-! ## The same value with other keys -/

/-- Another spelling, with no surrogate in it. -/
def respelled (t : PyStr) : PyStr := t.flatMap fun c => List.replicate c 1 ++ [0]

theorem respelled_cons (c : Nat) (t : PyStr) :
    respelled (c :: t) = List.replicate c 1 ++ 0 :: respelled t := by
  rw [respelled, List.flatMap_cons, List.append_assoc]
  rfl

theorem replicate_append_inj {a b : Nat} {s t : PyStr}
    (h : List.replicate a 1 ++ 0 :: s = List.replicate b 1 ++ 0 :: t) : a = b ∧ s = t := by
  induction a generalizing b with
  | zero =>
      cases b with
      | zero => simpa using h
      | succ b => simp [List.replicate_succ] at h
  | succ a ih =>
      cases b with
      | zero => simp [List.replicate_succ] at h
      | succ b =>
          rw [List.replicate_succ, List.replicate_succ, List.cons_append, List.cons_append] at h
          have hrest := ih (List.cons.inj h).2
          exact ⟨congrArg Nat.succ hrest.1, hrest.2⟩

theorem respelled_injective : Function.Injective respelled := by
  intro s
  induction s with
  | nil =>
      intro t h
      cases t with
      | nil => rfl
      | cons c t => simp [respelled] at h
  | cons a s ih =>
      intro t h
      cases t with
      | nil => simp [respelled] at h
      | cons c t =>
          rw [respelled_cons, respelled_cons] at h
          have hsame := replicate_append_inj h
          rw [hsame.1, ih hsame.2]

theorem has_surrogate_respelled (t : PyStr) : has_surrogate (respelled t) = false := by
  rw [has_surrogate_eq_false]
  intro c hc
  obtain ⟨d, _, hc⟩ := List.mem_flatMap.mp hc
  cases List.mem_append.mp hc with
  | inl hone =>
      rw [List.eq_of_mem_replicate hone]
      rfl
  | inr hzero =>
      rw [List.mem_singleton.mp hzero]
      rfl

/-- Another spelling, with a surrogate in it unless the text is empty. -/
def sullied : PyStr → PyStr
  | [] => []
  | c :: t => 0xDCFF :: c :: t

theorem sullied_injective : Function.Injective sullied := by
  intro s t h
  cases s <;> cases t <;> simp_all [sullied]

theorem has_surrogate_sullied {t : PyStr} (h : t ≠ []) : has_surrogate (sullied t) = true := by
  cases t with
  | nil => exact absurd rfl h
  | cons c t => rfl

section Respell

variable (spell : PyStr → PyStr)

def Held.key_respelled : Held κ σ → Held κ σ
  | .text t => .text (spell t)
  | .other s => .other s
  | .list items => .list items
  | .tuple items => .tuple items
  | .mapping entries => .mapping entries
  | .record m fields => .record m fields

mutual

/-- The value with each key that is a text spelled anew. -/
def Held.respell : Held κ σ → Held κ σ
  | .text t => .text t
  | .other s => .other s
  | .list items => .list (respell_items items)
  | .tuple items => .tuple (respell_items items)
  | .mapping entries => .mapping (respell_entries entries)
  | .record m fields => .record m (respell_fields fields)

def respell_items : List (Held κ σ) → List (Held κ σ)
  | [] => []
  | item :: rest => item.respell :: respell_items rest

def respell_entries : List (Held κ σ × Held κ σ) → List (Held κ σ × Held κ σ)
  | [] => []
  | (key, item) :: rest => (key.key_respelled spell, item.respell) :: respell_entries rest

def respell_fields : List (PyStr × Held κ σ) → List (PyStr × Held κ σ)
  | [] => []
  | (name, item) :: rest => (name, item.respell) :: respell_fields rest

end

theorem respell_items_eq (items : List (Held κ σ)) :
    respell_items spell items = items.map (·.respell spell) := by
  induction items with
  | nil => rfl
  | cons item rest ih => rw [respell_items, ih, List.map_cons]

theorem respell_entries_eq (entries : List (Held κ σ × Held κ σ)) : respell_entries spell entries =
    entries.map fun entry => (entry.1.key_respelled spell, entry.2.respell spell) := by
  induction entries with
  | nil => rfl
  | cons entry rest ih => rw [respell_entries, ih, List.map_cons]

theorem respell_fields_eq (fields : List (PyStr × Held κ σ)) :
    respell_fields spell fields = fields.map fun field => (field.1, field.2.respell spell) := by
  induction fields with
  | nil => rfl
  | cons field rest ih => rw [respell_fields, ih, List.map_cons]

@[simp]
theorem respell_list (items : List (Held κ σ)) :
    (Held.list items).respell spell = .list (items.map (·.respell spell)) := by
  rw [Held.respell, respell_items_eq]

@[simp]
theorem respell_tuple (items : List (Held κ σ)) :
    (Held.tuple items).respell spell = .tuple (items.map (·.respell spell)) := by
  rw [Held.respell, respell_items_eq]

@[simp]
theorem respell_mapping (entries : List (Held κ σ × Held κ σ)) :
    (Held.mapping entries).respell spell = .mapping
      (entries.map fun entry => (entry.1.key_respelled spell, entry.2.respell spell)) := by
  rw [Held.respell, respell_entries_eq]

@[simp]
theorem respell_record (m : κ) (fields : List (PyStr × Held κ σ)) :
    (Held.record m fields).respell spell =
      .record m (fields.map fun field => (field.1, field.2.respell spell)) := by
  rw [Held.respell, respell_fields_eq]

theorem shape_respell (v : Held κ σ) : (v.respell spell).shape = v.shape := by
  cases v <;> rfl

variable {spell}

theorem key_respelled_injective (hspell : Function.Injective spell) :
    Function.Injective (Held.key_respelled spell : Held κ σ → Held κ σ) := by
  intro v w h
  cases v <;> cases w <;> simp_all [Held.key_respelled, hspell.eq_iff]

theorem Matches.key_respelled (hnil : spell [] = []) {v : Held κ σ} {arg : TypeHint κ}
    (h : Matches program v arg) : Matches program (v.key_respelled spell) arg := by
  cases v with
  | text t => exact h.other_text rfl fun hempty => by rw [hempty]; exact hnil
  | other s => exact h
  | list items => exact h
  | tuple items => exact h
  | mapping entries => exact h
  | record m fields => exact h

/-- Other keys of the same kind leave a value what it was to its annotation. -/
theorem Matches.respell (hnil : spell [] = []) {v : Held κ σ} {arg : TypeHint κ}
    (h : Matches program v arg) : Matches program (v.respell spell) arg := by
  induction h with
  | any v => exact .any _
  | unresolved v => exact .unresolved _
  | literal_text t => exact .literal_text t
  | literal_other s => exact .literal_other s
  | annotated _ ih => exact .annotated ih
  | union harg _ ih => exact .union harg ih
  | @generic v origin args hinstance hmembers hvalues ih ihvalues =>
      refine .generic (shape_respell spell v ▸ hinstance) ?_ ?_
      · intro arg harg member hmember
        cases v with
        | text t => exact hmembers arg harg member hmember
        | other s => cases hmember
        | list items =>
            rw [respell_list] at hmember
            obtain ⟨item, hitem, rfl⟩ := List.mem_map.mp hmember
            exact ih arg harg item hitem
        | tuple items =>
            rw [respell_tuple] at hmember
            obtain ⟨item, hitem, rfl⟩ := List.mem_map.mp hmember
            exact ih arg harg item hitem
        | mapping entries =>
            rw [respell_mapping, Held.members, List.map_map] at hmember
            obtain ⟨entry, hentry, rfl⟩ := List.mem_map.mp hmember
            exact (hmembers arg harg entry.1
              (List.mem_map.mpr ⟨entry, hentry, rfl⟩)).key_respelled hnil
        | record m fields =>
            rw [respell_record, Held.members, List.map_map] at hmember
            obtain ⟨field, hfield, rfl⟩ := List.mem_map.mp hmember
            have hpair := ih arg harg (.tuple [.text field.1, field.2])
              (List.mem_map.mpr ⟨field, hfield, rfl⟩)
            rwa [respell_tuple] at hpair
      · intro arg harg value hvalue
        cases v with
        | mapping entries =>
            rw [respell_mapping, Held.values, List.map_map] at hvalue
            obtain ⟨entry, hentry, rfl⟩ := List.mem_map.mp hvalue
            exact ihvalues arg harg entry.2 (List.mem_map.mpr ⟨entry, hentry, rfl⟩)
        | text t => cases hvalue
        | other s => cases hvalue
        | list items =>
            rw [respell_list] at hvalue
            cases hvalue
        | tuple items =>
            rw [respell_tuple] at hvalue
            cases hvalue
        | record m fields =>
            rw [respell_record] at hvalue
            cases hvalue
  | @tuple_of items args hlength _ ih =>
      rw [respell_tuple]
      refine .tuple_of (by rw [List.length_map, hlength]) ?_
      intro n v arg hv harg
      rw [List.getElem?_map, Option.map_eq_some_iff] at hv
      obtain ⟨item, hitem, rfl⟩ := hv
      exact ih n item arg hitem harg
  | @of_class v c hinstance => exact .of_class (shape_respell spell v ▸ hinstance)
  | record hsubclass hnames _ ih =>
      rw [respell_record]
      refine .record hsubclass (by rw [List.map_map]; exact hnames) ?_
      intro name arg v harg hv
      obtain ⟨field, hfield, heq⟩ := List.mem_map.mp hv
      cases heq
      exact ih field.1 arg field.2 harg hfield

theorem keys_respelled (hkeys : StringsAllowed keys) {v : Held κ σ} (h : keys v) :
    keys (v.key_respelled spell) := by
  cases v with
  | text t => exact hkeys _
  | other s => exact h
  | list items => exact h
  | tuple items => exact h
  | mapping entries => exact h
  | record m fields => exact h

theorem Held.Trusted.respell (hspell : Function.Injective spell) (hnil : spell [] = [])
    (hkeys : StringsAllowed keys) {v : Held κ σ} (h : v.Trusted program keys) :
    (v.respell spell).Trusted program keys := by
  induction h with
  | text t => exact .text t
  | other s => exact .other s
  | list _ ih =>
      rw [respell_list]
      exact .list (List.forall_mem_map.mpr ih)
  | tuple _ ih =>
      rw [respell_tuple]
      exact .tuple (List.forall_mem_map.mpr ih)
  | @mapping entries hnodup hallowed _ ih =>
      rw [respell_mapping]
      refine .mapping ?_ ?_ (List.forall_mem_map.mpr ih)
      · rw [List.map_map]
        have hmapped := hnodup.map (key_respelled_injective hspell)
        rwa [List.map_map] at hmapped
      · exact List.forall_mem_map.mpr fun entry hentry => keys_respelled hkeys (hallowed entry hentry)
  | @record m fields hmatches _ ih =>
      have hrecord := hmatches.respell hnil
      rw [respell_record] at hrecord ⊢
      exact .record hrecord (List.forall_mem_map.mpr ih)

theorem respell_id (v : Held κ σ) : v.respell id = v := by
  have hkey (k : Held κ σ) : k.key_respelled id = k := by cases k <;> rfl
  induction v with
  | text t => rfl
  | other s => rfl
  | list items ih => rw [respell_list, List.map_congr_left ih, List.map_id']
  | tuple items ih => rw [respell_tuple, List.map_congr_left ih, List.map_id']
  | mapping entries ih =>
      rw [respell_mapping, List.map_congr_left (g := id) fun entry hentry => by
        rw [hkey, ih entry hentry]; rfl, List.map_id]
  | record m fields ih =>
      rw [respell_record, List.map_congr_left (g := id) fun field hfield => by
        rw [ih field hfield]; rfl, List.map_id]

end Respell

/-- Without surrogates in its keys a value holds no surrogate key. -/
theorem holds_key_respelled (v : Held κ σ) :
    (v.respell respelled).holds_key every_field = false := by
  have hkey (k : Held κ σ) : (k.key_respelled respelled).surrogate_key = false := by
    cases k <;> first | rfl | exact has_surrogate_respelled _
  induction v with
  | text t => rfl
  | other s => rfl
  | list items ih =>
      rw [respell_list, holds_key_list, List.any_map, List.any_eq_false]
      intro item hitem
      exact Bool.not_eq_true _ ▸ ih item hitem
  | tuple items ih =>
      rw [respell_tuple, holds_key_tuple, List.any_map, List.any_eq_false]
      intro item hitem
      exact Bool.not_eq_true _ ▸ ih item hitem
  | mapping entries ih =>
      rw [respell_mapping, holds_key_mapping, List.any_map, List.any_eq_false]
      intro entry hentry
      simp [hkey, ih entry hentry]
  | record m fields ih =>
      rw [respell_record, holds_key_every_record, List.any_map, List.any_eq_false]
      intro field hfield
      exact Bool.not_eq_true _ ▸ ih field hfield

/-! ## When pruning is sound -/

/-- A field that can hold a key does so in a record that holds no key elsewhere. -/
theorem exists_only_there (hkeys : StringsAllowed keys) {m : κ}
    (hm : program.Constructible keys m) {name : PyStr} {arg : TypeHint κ}
    (harg : (name, arg) ∈ program.fields m) (hholds : arg.HoldsKey program keys) :
    ∃ fields, (Held.record m fields).Trusted program keys ∧
      (Held.record m fields).holds_key every_field = true ∧
        ∀ field ∈ fields, field.1 ≠ name → field.2.holds_key every_field = false := by
  obtain ⟨v, htrusted, hmatches, hkey⟩ := hholds.exists_value hkeys
  obtain ⟨fields, hfields, hnamed⟩ := @exists_record _ _ program keys m
    (fun other w => (other = name → w.holds_key every_field = true) ∧
      (other ≠ name → w.holds_key every_field = false)) (by
      intro other arg' harg'
      by_cases hother : other = name
      · subst hother
        have hsame : (other, arg) = (other, arg') :=
          List.inj_on_of_nodup_map (program.names_nodup m) harg harg' rfl
        cases hsame
        exact ⟨v, htrusted, hmatches, fun _ => hkey, fun hne => absurd rfl hne⟩
      · obtain ⟨w, hw, hmatches'⟩ := hm other arg' harg'
        exact ⟨w.respell respelled, hw.respell respelled_injective rfl hkeys, hmatches'.respell rfl,
          fun heq => absurd heq hother, fun _ => holds_key_respelled w⟩)
  obtain ⟨w, hw, -, -⟩ := hfields.declared harg
  refine ⟨fields, hfields, ?_, fun field hfield => (hnamed field hfield).2⟩
  rw [holds_key_every_record, List.any_eq_true]
  exact ⟨(name, w), hw, (hnamed _ hw).1 rfl⟩

section Sound

variable [DecidableEq κ]

/-- A field of a trusted record that is left out of the walk holds no surrogate key, with its keys in
no other spelling either. -/
theorem Program.Told.no_key (htold : program.Told keys) {m : κ} {fields : List (PyStr × Held κ σ)}
    (h : (Held.record m fields).Trusted program keys) {name : PyStr} {v : Held κ σ}
    (hv : (name, v) ∈ fields) (hunlisted : name ∉ program.mapping_fields m)
    {spell : PyStr → PyStr} (hspell : Function.Injective spell) (hnil : spell [] = [])
    (hkeys : StringsAllowed keys) : (v.respell spell).holds_key every_field = false := by
  obtain ⟨htrusted, arg, harg, hmatches⟩ := h.field hv
  by_contra hkey
  rw [Bool.not_eq_false] at hkey
  refine hunlisted ((program.mem_mapping_fields harg).mpr (htold m ?_ name arg harg
    ((hmatches.respell hnil).holdsKey (htrusted.respell hspell hnil hkeys) hkey)))
  intro other arg' harg'
  obtain ⟨w, -, hw, hmatches'⟩ := h.declared harg'
  exact ⟨w, hw, hmatches'⟩

theorem Program.Told.holds_surrogate_key_of_every (hkeys : StringsAllowed keys)
    (htold : program.Told keys) {v : Held κ σ} (h : v.Trusted program keys)
    (hkey : v.holds_key every_field = true) : program.holds_surrogate_key v = true := by
  rw [Program.holds_surrogate_key]
  induction v with
  | text t => cases hkey
  | other s => cases hkey
  | list items ih =>
      cases h with
      | list hitems =>
          rw [holds_key_list, List.any_eq_true] at hkey ⊢
          obtain ⟨v, hv, hkey⟩ := hkey
          exact ⟨v, hv, ih v hv (hitems v hv) hkey⟩
  | tuple items ih =>
      cases h with
      | tuple hitems =>
          rw [holds_key_tuple, List.any_eq_true] at hkey ⊢
          obtain ⟨v, hv, hkey⟩ := hkey
          exact ⟨v, hv, ih v hv (hitems v hv) hkey⟩
  | mapping entries ih =>
      cases h with
      | mapping _ _ hentries =>
          rw [holds_key_mapping, List.any_eq_true] at hkey ⊢
          obtain ⟨entry, hentry, hkey⟩ := hkey
          rw [Bool.or_eq_true] at hkey
          refine ⟨entry, hentry, ?_⟩
          rw [Bool.or_eq_true]
          exact hkey.imp_right (ih entry hentry (hentries entry hentry))
  | record m fields ih =>
      rw [holds_key_every_record, List.any_eq_true] at hkey
      rw [holds_key_record, List.any_eq_true]
      obtain ⟨⟨name, v⟩, hv, hkey⟩ := hkey
      have hlisted : name ∈ program.mapping_fields m := by
        by_contra hunlisted
        have hnone := htold.no_key h hv hunlisted Function.injective_id rfl hkeys
        rw [respell_id, hkey] at hnone
        cases hnone
      refine ⟨(name, v), hv, ?_⟩
      rw [Bool.and_eq_true, decide_eq_true_eq]
      exact ⟨hlisted, ih _ hv (h.field hv).1 hkey⟩

/-- The walk of the listed fields answers like a walk of every field, for all records of a program,
exactly when each field that can hold a key names a mapping. -/
theorem pruning_sound_iff (program : Program κ) :
    (∀ m (fields : List (PyStr × Held κ σ)), (Held.record m fields).Trusted program any_key →
      program.holds_surrogate_key (.record m fields) =
        (Held.record m fields).holds_key every_field) ↔
      program.Told (any_key : Held κ σ → Prop) := by
  constructor
  · intro hsound m hm name arg harg hholds
    obtain ⟨fields, hfields, hkey, hothers⟩ :=
      exists_only_there (fun _ => trivial) hm harg hholds
    have hagree := hsound m fields hfields
    rw [hkey, Program.holds_surrogate_key, holds_key_record, List.any_eq_true] at hagree
    obtain ⟨⟨other, w⟩, hw, hfound⟩ := hagree
    rw [Bool.and_eq_true, decide_eq_true_eq] at hfound
    by_cases hother : other = name
    · rw [hother] at hfound
      exact (program.mem_mapping_fields harg).mp hfound.1
    · have hclean := holds_key_every_field hfound.2
      rw [hothers _ hw hother] at hclean
      cases hclean
  · intro htold m fields htrusted
    rw [Bool.eq_iff_iff]
    exact ⟨holds_key_every_field,
      Program.Told.holds_surrogate_key_of_every (fun _ => trivial) htold htrusted⟩

end Sound

/-! ### A field that is not walked -/

/-- `list`, as `typing.List` names it. -/
def list_class : PyClass Unit where
  is_mapping := false
  is_collection := true
  is_text := false
  instances shape := match shape with
    | .list => true
    | _ => false

def list_fields (_ : Unit) : List (PyStr × TypeHint Unit) :=
  [(py "data", .generic list_class [])]

theorem mem_only_class : ∀ m : Unit, m ∈ [()] := fun _ => List.mem_singleton.mpr rfl

theorem list_fields_nodup : ∀ m, ((list_fields m).map Prod.fst).Nodup :=
  fun _ => List.nodup_singleton _

theorem list_fields_plain : ∀ m, ∀ name ∈ (list_fields m).map Prod.fst,
    has_surrogate name = false ∧ 0 ∉ name := by
  intro m name hname
  rw [List.mem_singleton.mp hname]
  decide

def same_class (_ _ : Unit) : Bool := true

theorem same_class_refl : ∀ m, same_class m m = true := fun _ => rfl

/-- One class, with the one field `data: typing.List`. -/
def listProgram : Program Unit where
  classes := [()]
  all_classes := mem_only_class
  fields := list_fields
  names_nodup := list_fields_nodup
  names_plain := list_fields_plain
  issubclass := same_class
  issubclass_refl := same_class_refl

/-- The bare alias names no mapping. -/
theorem list_fields_unwalked : listProgram.mapping_fields () = [] := by
  simp [Program.mapping_fields, mapping_fields, Program.models, Program.fields_asked, listProgram,
    list_fields, TypeHint.asked, args_asked, list_class, can_hold_mapping, any_can_hold_mapping]

/-- A list of one mapping whose key holds a byte that was not valid UTF-8. -/
def listed_data (s : σ) : List (PyStr × Held Unit σ) :=
  [(py "data", .list [.mapping [(.text [0xDCFF], .other s)]])]

theorem listed_data_trusted {keys : Held Unit σ → Prop} (hkeys : StringsAllowed keys) (s : σ) :
    (Held.record () (listed_data s)).Trusted listProgram keys := by
  refine .record (.record rfl rfl ?_) ?_
  · intro name arg v harg hv
    cases List.mem_singleton.mp harg
    cases List.mem_singleton.mp hv
    refine .generic rfl ?_ ?_
    · intro arg harg
      cases harg
    · intro arg harg
      cases harg
  · intro field hfield
    rw [List.mem_singleton.mp hfield]
    refine .list (List.forall_mem_singleton.mpr (.mapping (List.nodup_singleton _)
      (List.forall_mem_singleton.mpr (hkeys _)) ?_))
    exact List.forall_mem_singleton.mpr (.other s)

theorem listed_data_unwalked (s : σ) :
    listProgram.holds_surrogate_key (.record () (listed_data s)) = false := by
  rw [Program.holds_surrogate_key, holds_key_record, list_fields_unwalked, List.any_eq_false]
  simp

theorem listed_data_holds_key (s : σ) :
    (Held.record () (listed_data s)).holds_key every_field = true := by
  rw [listed_data, holds_key_every_record, List.any_cons, holds_key_list, List.any_cons,
    holds_key_mapping]
  rfl

/-- The bare alias hides the list's mapping from the walk. -/
theorem pruning_misses_listed_key :
    ¬ ∀ m (fields : List (PyStr × Held Unit Unit)), (Held.record m fields).Trusted listProgram any_key →
      listProgram.holds_surrogate_key (.record m fields) =
        (Held.record m fields).holds_key every_field := by
  intro hsound
  have hagree := hsound () (listed_data ()) (listed_data_trusted (fun _ => trivial) ())
  rw [listed_data_unwalked, listed_data_holds_key] at hagree
  cases hagree

end PwshPy.Records
