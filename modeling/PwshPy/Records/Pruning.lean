import PwshPy.Records.Matching

/-! # Annotation pruning

Only the fields whose annotations name a mapping are walked for surrogate keys. Whether that misses
a key depends on what else the values of an annotation can be: `isinstance` lets more through than
the annotation names.
-/

namespace PwshPy.Records

variable {κ σ : Type}

/-! ## What an annotation names -/

/-- The annotation names something that can be a mapping: `Any`, a mapping's generic, a bare
collection class or what is not resolved, in an argument or a field of a model just as well. -/
inductive TypeHint.NamesMapping (program : Program κ) : TypeHint κ → Prop
  | any : NamesMapping program .any
  | unresolved : NamesMapping program .unresolved
  | annotated {arg : TypeHint κ} : NamesMapping program arg → NamesMapping program (.annotated arg)
  | union {arg : TypeHint κ} {args : List (TypeHint κ)} : arg ∈ args → NamesMapping program arg →
      NamesMapping program (.union args)
  | mappingOf {origin : PyClass κ} (args : List (TypeHint κ)) : origin.is_mapping = true →
      NamesMapping program (.generic origin args)
  | generic {origin : PyClass κ} {arg : TypeHint κ} {args : List (TypeHint κ)} : arg ∈ args →
      NamesMapping program arg → NamesMapping program (.generic origin args)
  | tuple_of {arg : TypeHint κ} {args : List (TypeHint κ)} : arg ∈ args →
      NamesMapping program arg → NamesMapping program (.tuple_of args)
  | model {m : κ} {name : PyStr} {arg : TypeHint κ} : (name, arg) ∈ program.fields m →
      NamesMapping program arg → NamesMapping program (.model m)
  | collection {c : PyClass κ} : (c.is_collection && !c.is_text) = true →
      NamesMapping program (.of_class c)

section NamesMapping

variable {program : Program κ}

theorem mem_args_asked_iff {type : FieldType κ} {args : List (TypeHint κ)} :
    type ∈ args_asked args ↔ ∃ arg ∈ args, arg.asked = type := by
  rw [args_asked_eq, List.mem_map]

theorem TypeHint.NamesMapping.names {arg : TypeHint κ} (h : arg.NamesMapping program) :
    Names program.models arg.asked := by
  induction h with
  | any => exact .any
  | unresolved => exact .unresolved
  | annotated _ ih => exact .annotated ih
  | union harg _ ih => exact .generic (mem_args_asked harg) ih
  | mappingOf args horigin =>
      rw [TypeHint.asked, if_pos horigin]
      exact .mappingOf _
  | @generic origin arg args harg _ ih =>
      rw [TypeHint.asked]
      split
      · exact .mappingOf _
      · exact .generic (mem_args_asked harg) ih
  | tuple_of harg _ ih => exact .generic (mem_args_asked harg) ih
  | model harg _ ih =>
      exact .model (List.mem_map.mpr ⟨_, List.mem_map.mpr ⟨_, harg, rfl⟩, rfl⟩) ih
  | collection hcollection =>
      rw [TypeHint.asked, if_pos hcollection]
      exact .container

/-- Which annotations look like one of these to the search. -/
theorem TypeHint.asked_cases (arg : TypeHint κ) :
    match arg.asked with
    | .any => arg = .any
    | .unresolved => arg = .unresolved
    | .annotated type => ∃ inner, arg = .annotated inner ∧ inner.asked = type
    | .mappingOf _ => ∃ origin args, arg = .generic origin args ∧ origin.is_mapping = true
    | .generic types => ∃ args, types = args_asked args ∧
        (arg = .union args ∨ (∃ origin, arg = .generic origin args) ∨ arg = .tuple_of args)
    | .model m => arg = .model m
    | .container => ∃ c, arg = .of_class c ∧ (c.is_collection && !c.is_text) = true
    | .literal => True
    | .plain => True := by
  cases arg with
  | any => rfl
  | literal => trivial
  | annotated inner => exact ⟨inner, rfl, rfl⟩
  | union args => exact ⟨args, rfl, .inl rfl⟩
  | generic origin args =>
      rw [TypeHint.asked]
      by_cases horigin : origin.is_mapping = true
      · rw [if_pos horigin]
        exact ⟨origin, args, rfl, horigin⟩
      · rw [if_neg horigin]
        exact ⟨args, rfl, .inr (.inl ⟨origin, rfl⟩)⟩
  | tuple_of args => exact ⟨args, rfl, .inr (.inr rfl)⟩
  | unresolved => rfl
  | model m => rfl
  | of_class c =>
      rw [TypeHint.asked]
      by_cases hcollection : (c.is_collection && !c.is_text) = true
      · rw [if_pos hcollection]
        exact ⟨c, rfl, hcollection⟩
      · rw [if_neg hcollection]
        trivial

theorem names_mapping_of_names {type : FieldType κ} (h : Names program.models type)
    {arg : TypeHint κ} (harg : arg.asked = type) : arg.NamesMapping program := by
  induction h generalizing arg with
  | any =>
      have hcases := arg.asked_cases
      rw [harg] at hcases
      exact hcases ▸ .any
  | annotated _ ih =>
      have hcases := arg.asked_cases
      rw [harg] at hcases
      obtain ⟨inner, rfl, hinner⟩ := hcases
      exact .annotated (ih hinner)
  | mappingOf args =>
      have hcases := arg.asked_cases
      rw [harg] at hcases
      obtain ⟨origin, args, rfl, horigin⟩ := hcases
      exact .mappingOf args horigin
  | generic hmem _ ih =>
      have hcases := arg.asked_cases
      rw [harg] at hcases
      obtain ⟨args, rfl, hform⟩ := hcases
      obtain ⟨inner, hinner, hasked⟩ := mem_args_asked_iff.mp hmem
      rcases hform with rfl | ⟨origin, rfl⟩ | rfl
      · exact .union hinner (ih hasked)
      · exact .generic hinner (ih hasked)
      · exact .tuple_of hinner (ih hasked)
  | unresolved =>
      have hcases := arg.asked_cases
      rw [harg] at hcases
      exact hcases ▸ .unresolved
  | @model m type hmem _ ih =>
      have hcases := arg.asked_cases
      rw [harg] at hcases
      obtain ⟨field, hfield, hasked⟩ := List.mem_map.mp hmem
      obtain ⟨⟨name, inner⟩, hinner, rfl⟩ := List.mem_map.mp hfield
      exact hcases ▸ .model hinner (ih hasked)
  | container =>
      have hcases := arg.asked_cases
      rw [harg] at hcases
      obtain ⟨c, rfl, hcollection⟩ := hcases
      exact .collection hcollection

end NamesMapping

namespace Program

variable [DecidableEq κ] (program : Program κ)

/-- `_mapping_fields` -/
def mapping_fields (m : κ) : List PyStr := Records.mapping_fields program.models m

/-- `_holds_surrogate_key` -/
def holds_surrogate_key (v : Held κ σ) : Bool :=
  v.holds_key fun m name => decide (name ∈ program.mapping_fields m)

/-- A field is walked exactly when its annotation names a mapping. -/
theorem mem_mapping_fields {m : κ} {name : PyStr} {arg : TypeHint κ}
    (h : (name, arg) ∈ program.fields m) :
    name ∈ program.mapping_fields m ↔ arg.NamesMapping program := by
  have hasked : (name, arg.asked) ∈ program.fields_asked m := List.mem_map.mpr ⟨_, h, rfl⟩
  rw [mapping_fields, Records.mapping_fields, List.mem_map]
  constructor
  · intro hlisted
    obtain ⟨field, hfield, hname⟩ := hlisted
    rw [List.mem_filter] at hfield
    have hsame : field = (name, arg.asked) :=
      List.inj_on_of_nodup_map (program.fields_asked_nodup m) hfield.1 hasked hname
    rw [hsame] at hfield
    exact names_mapping_of_names (names_of_can_hold_mapping hfield.2) rfl
  · intro hnames
    exact ⟨(name, arg.asked),
      List.mem_filter.mpr ⟨hasked, can_hold_mapping_of_names hnames.names .nil⟩, rfl⟩

end Program

/-! ## The values the dumps walk -/

mutual

/-- A value whose mappings all have text keys. -/
def Datum.held : Datum κ σ → Held κ σ
  | .text t => .text t
  | .scalar s => .other s
  | .list items => .list (items_held items)
  | .tuple items => .tuple (items_held items)
  | .mapping entries => .mapping (entries_held entries)
  | .record m fields => .record m (fields_held fields)

def items_held : List (Datum κ σ) → List (Held κ σ)
  | [] => []
  | item :: rest => item.held :: items_held rest

def entries_held : List (PyStr × Datum κ σ) → List (Held κ σ × Held κ σ)
  | [] => []
  | (key, item) :: rest => (.text key, item.held) :: entries_held rest

def fields_held : List (PyStr × Datum κ σ) → List (PyStr × Held κ σ)
  | [] => []
  | (name, item) :: rest => (name, item.held) :: fields_held rest

end

section Walks

variable [DecidableEq κ] (program : Program κ)

/-- The dumps' own walk. -/
theorem holds_surrogate_key_held (v : Datum κ σ) :
    program.holds_surrogate_key v.held = Records.holds_surrogate_key program.models v := by
  rw [Program.holds_surrogate_key]
  induction v with
  | text t => rfl
  | scalar s => rfl
  | list items ih =>
      rw [Datum.held, Held.holds_key, Records.holds_surrogate_key]
      induction items with
      | nil => rfl
      | cons item rest ihrest =>
          rw [items_held, items_hold_key, items_hold_surrogate_key, ih item List.mem_cons_self,
            ihrest fun v hv => ih v (List.mem_cons_of_mem _ hv)]
  | tuple items ih =>
      rw [Datum.held, Held.holds_key, Records.holds_surrogate_key]
      induction items with
      | nil => rfl
      | cons item rest ihrest =>
          rw [items_held, items_hold_key, items_hold_surrogate_key, ih item List.mem_cons_self,
            ihrest fun v hv => ih v (List.mem_cons_of_mem _ hv)]
  | mapping entries ih =>
      rw [Datum.held, Held.holds_key, Records.holds_surrogate_key]
      induction entries with
      | nil => rfl
      | cons entry rest ihrest =>
          rw [entries_held, entries_hold_key, entries_hold_surrogate_key,
            ih entry List.mem_cons_self, ihrest fun v hv => ih v (List.mem_cons_of_mem _ hv)]
          rfl
  | record m fields ih =>
      rw [Datum.held, Held.holds_key, Records.holds_surrogate_key]
      induction fields with
      | nil => rfl
      | cons field rest ihrest =>
          rw [fields_held, fields_hold_key, fields_hold_surrogate_key, ih field List.mem_cons_self,
            ihrest fun v hv => ih v (List.mem_cons_of_mem _ hv)]
          by_cases hlisted : field.1 ∈ program.mapping_fields m
          · rw [decide_eq_true hlisted, Bool.true_and]
            exact (if_pos hlisted).symm
          · rw [decide_eq_false hlisted, Bool.false_and, Bool.false_or]
            exact (if_neg hlisted).symm

end Walks

/-! ## What the values of an annotation can hold -/

section Holding

variable (program : Program κ) (keys : Held κ σ → Prop)

/-- There is a value for the annotation. -/
def TypeHint.Inhabited (arg : TypeHint κ) : Prop :=
  ∃ v : Held κ σ, v.Trusted program keys ∧ Matches program v arg

/-- The class has instances: each of its fields has a value. -/
def Program.Constructible (m : κ) : Prop :=
  ∀ name arg, (name, arg) ∈ program.fields m → arg.Inhabited program keys

/-- Some container that is walked and holds anything is an instance of the class. -/
def PyClass.Walked (c : PyClass κ) : Prop := c.instances .list = true ∨ c.instances .tuple = true

/-- A value of the annotation can hold a surrogate key, whether or not a mapping is named. -/
inductive TypeHint.HoldsKey : TypeHint κ → Prop
  | any : HoldsKey .any
  | unresolved : HoldsKey .unresolved
  | annotated {arg : TypeHint κ} : HoldsKey arg → HoldsKey (.annotated arg)
  | union {arg : TypeHint κ} {args : List (TypeHint κ)} : arg ∈ args → HoldsKey arg →
      HoldsKey (.union args)
  /-- any class with lists, tuples or mappings among its instances -/
  | of_class {c : PyClass κ} : c.Walked ∨ c.instances .mapping = true → HoldsKey (.of_class c)
  /-- any class with the instances of a model among its own -/
  | of_model_class {c : PyClass κ} {m : κ} {name : PyStr} {arg : TypeHint κ} :
      c.instances (.record m) = true → program.Constructible keys m →
      (name, arg) ∈ program.fields m → HoldsKey arg → HoldsKey (.of_class c)
  /-- a model by its own fields or those of a subclass -/
  | model {m m' : κ} {name : PyStr} {arg : TypeHint κ} : program.issubclass m' m = true →
      program.Constructible keys m' → (name, arg) ∈ program.fields m' → HoldsKey arg →
      HoldsKey (.model m)
  /-- a bare alias of `typing`: nothing is said of the items -/
  | bare {origin : PyClass κ} : origin.Walked → HoldsKey (.generic origin [])
  | item {origin : PyClass κ} {arg : TypeHint κ} {args : List (TypeHint κ)} : origin.Walked →
      HoldsKey arg → HoldsKey (.generic origin (arg :: args))
  | position {arg : TypeHint κ} {args : List (TypeHint κ)} :
      (∀ other ∈ args, other.Inhabited program keys) → arg ∈ args → HoldsKey arg →
      HoldsKey (.tuple_of args)
  /-- a mapping that has the key itself -/
  | key {origin : PyClass κ} {args : List (TypeHint κ)} : origin.instances .mapping = true →
      (∀ arg, args[0]? = some arg → Matches program (.text [0xDCFF] : Held κ σ) arg) →
      (∀ arg, args[1]? = some arg → arg.Inhabited program keys) → HoldsKey (.generic origin args)
  /-- a mapping below which there is one: nothing may be said of what the keys lead to -/
  | value {origin : PyClass κ} {args : List (TypeHint κ)} : origin.instances .mapping = true →
      (∀ arg, args[0]? = some arg → ∃ key, keys key ∧ Matches program key arg) →
      (∀ arg, args[1]? = some arg → HoldsKey arg) → HoldsKey (.generic origin args)
  /-- a record that is iterated, its names and values as pairs -/
  | iterated {origin : PyClass κ} {args : List (TypeHint κ)} {m : κ}
      {fields : List (PyStr × Held κ σ)} : origin.instances (.record m) = true →
      (Held.record m fields).Trusted program keys →
      (∀ arg, args[0]? = some arg → ∀ pair ∈ (Held.record m fields).members,
        Matches program pair arg) →
      (Held.record m fields).holds_key every_field = true → HoldsKey (.generic origin args)

/-- Every field that can hold a surrogate key is annotated with a mapping, where its class has
instances. -/
def Program.Told : Prop :=
  ∀ m, program.Constructible keys m → ∀ name arg, (name, arg) ∈ program.fields m →
    arg.HoldsKey program keys → arg.NamesMapping program

end Holding

section HoldsKey

variable {program : Program κ} {keys : Held κ σ → Prop}

/-- Every string may be a key. -/
def StringsAllowed (keys : Held κ σ → Prop) : Prop := ∀ t, keys (.text t)

/-- `{'\udcff': ''}` -/
def sample : Held κ σ := .mapping [(.text [0xDCFF], .text [])]

theorem sample_trusted (hkeys : StringsAllowed keys) : (sample : Held κ σ).Trusted program keys :=
  .mapping (List.nodup_singleton _) (List.forall_mem_singleton.mpr (hkeys _))
    (List.forall_mem_singleton.mpr (.text _))

theorem sample_holds_key : (sample : Held κ σ).holds_key every_field = true := by
  rw [sample, holds_key_mapping]
  rfl

/-- A constructible class with a field that can hold a key has a record that does. -/
theorem exists_holding_record {m : κ} (hm : program.Constructible keys m) {name : PyStr}
    {arg : TypeHint κ} (harg : (name, arg) ∈ program.fields m) {v : Held κ σ}
    (htrusted : v.Trusted program keys) (hmatches : Matches program v arg)
    (hkey : v.holds_key every_field = true) : ∃ fields,
      (Held.record m fields).Trusted program keys ∧
        (Held.record m fields).holds_key every_field = true := by
  obtain ⟨fields, hfields, hnamed⟩ := @exists_record _ _ program keys m
    (fun other w => other = name → w = v) (by
      intro other arg' harg'
      by_cases hother : other = name
      · subst hother
        have hsame : (other, arg) = (other, arg') :=
          List.inj_on_of_nodup_map (program.names_nodup m) harg harg' rfl
        cases hsame
        exact ⟨v, htrusted, hmatches, fun _ => rfl⟩
      · obtain ⟨w, hw, hmatches'⟩ := hm other arg' harg'
        exact ⟨w, hw, hmatches', fun heq => absurd heq hother⟩)
  obtain ⟨w, hw, -, -⟩ := hfields.declared harg
  refine ⟨fields, hfields, ?_⟩
  rw [holds_key_every_record, List.any_eq_true]
  refine ⟨(name, w), hw, ?_⟩
  rw [show w = v from hnamed _ hw rfl]
  exact hkey

/-- A container of the class with an item in it is an instance that matches. -/
theorem exists_container {origin : PyClass κ} (h : origin.Walked) {args : List (TypeHint κ)}
    {v : Held κ σ} (htrusted : v.Trusted program keys)
    (hitem : ∀ arg, args[0]? = some arg → Matches program v arg)
    (hkey : v.holds_key every_field = true) : ∃ w : Held κ σ, w.Trusted program keys ∧
      Matches program w (.generic origin args) ∧ origin.instances w.shape = true ∧
        w.holds_key every_field = true := by
  have hitems : ∀ arg, args[0]? = some arg → ∀ member ∈ [v], Matches program member arg :=
    fun arg harg => List.forall_mem_singleton.mpr (hitem arg harg)
  rcases h with hlist | htuple
  · exact ⟨.list [v], .list (List.forall_mem_singleton.mpr htrusted), .generic hlist hitems nofun,
      hlist, by simpa using hkey⟩
  · exact ⟨.tuple [v], .tuple (List.forall_mem_singleton.mpr htrusted), .generic htuple hitems nofun,
      htuple, by simpa using hkey⟩

/-- Where each annotation has a value, a tuple of such values can have a given one among them. -/
theorem exists_items {args : List (TypeHint κ)} (h : ∀ arg ∈ args, arg.Inhabited program keys)
    {arg : TypeHint κ} (harg : arg ∈ args) {v : Held κ σ} (htrusted : v.Trusted program keys)
    (hmatches : Matches program v arg) : ∃ items, (Held.tuple items).Trusted program keys ∧
      Matches program (.tuple items) (.tuple_of args) ∧ v ∈ items := by
  have hall : ∃ items : List (Held κ σ), items.length = args.length ∧ v ∈ items ∧
      ∀ (n : Nat) w other, items[n]? = some w → args[n]? = some other →
        w.Trusted program keys ∧ Matches program w other := by
    have : Nonempty (Held κ σ) := ⟨v⟩
    choose! w hw using h
    obtain ⟨n, hn⟩ := List.mem_iff_getElem?.mp harg
    have hbound := (List.getElem?_eq_some_iff.mp hn).1
    refine ⟨(args.map w).set n v, by simp, ?_, ?_⟩
    · exact List.mem_set (by simpa using hbound) v
    · intro k u other hu hother
      rw [List.getElem?_set] at hu
      split at hu
      · rename_i hkn
        subst hkn
        simp only [List.length_map, hbound, if_true, Option.some.injEq] at hu
        rw [hn] at hother
        cases hother
        exact hu ▸ ⟨htrusted, hmatches⟩
      · rw [List.getElem?_map, hother] at hu
        cases hu
        exact hw other (List.mem_of_getElem? hother)
  obtain ⟨items, hlength, hv, hitems⟩ := hall
  refine ⟨items, .tuple fun w hw => ?_, .tuple_of hlength fun n w other hn hother =>
    (hitems n w other hn hother).2, hv⟩
  obtain ⟨n, hn⟩ := List.mem_iff_getElem?.mp hw
  have hbound : n < args.length := by
    have := (List.getElem?_eq_some_iff.mp hn).1
    omega
  exact (hitems n w _ hn (List.getElem?_eq_getElem hbound)).1

/-- A value for the argument at a place, if there is an argument there. -/
theorem exists_argument {args : List (TypeHint κ)} {n : Nat} {P : Held κ σ → Prop}
    (hany : ∃ v, P v) (h : ∀ arg, args[n]? = some arg → ∃ v, P v ∧ Matches program v arg) :
    ∃ v, P v ∧ ∀ arg, args[n]? = some arg → Matches program v arg := by
  cases harg : args[n]? with
  | none =>
      obtain ⟨v, hv⟩ := hany
      exact ⟨v, hv, nofun⟩
  | some arg =>
      obtain ⟨v, hv, hmatches⟩ := h arg harg
      exact ⟨v, hv, fun _ hsome => Option.some.inj hsome ▸ hmatches⟩

/-- A mapping of one key matches where the key and what it leads to match the arguments. -/
theorem single_entry {origin : PyClass κ} {args : List (TypeHint κ)} {k v : Held κ σ}
    (hmapping : origin.instances .mapping = true) (hk : keys k) (hv : v.Trusted program keys)
    (hkey : ∀ arg, args[0]? = some arg → Matches program k arg)
    (hvalue : ∀ arg, args[1]? = some arg → Matches program v arg) :
    (Held.mapping [(k, v)]).Trusted program keys ∧
      Matches program (Held.mapping [(k, v)]) (.generic origin args) := by
  constructor
  · exact .mapping (List.nodup_singleton _) (List.forall_mem_singleton.mpr hk)
      (List.forall_mem_singleton.mpr hv)
  · exact .generic hmapping (fun arg harg => List.forall_mem_singleton.mpr (hkey arg harg))
      fun arg harg => List.forall_mem_singleton.mpr (hvalue arg harg)

/-- What can hold a key does so in some value. -/
theorem TypeHint.HoldsKey.exists_value (hkeys : StringsAllowed keys) {arg : TypeHint κ}
    (h : arg.HoldsKey program keys) : ∃ v : Held κ σ, v.Trusted program keys ∧
      Matches program v arg ∧ v.holds_key every_field = true := by
  induction h with
  | any => exact ⟨sample, sample_trusted hkeys, .any _, sample_holds_key⟩
  | unresolved => exact ⟨sample, sample_trusted hkeys, .unresolved _, sample_holds_key⟩
  | annotated _ ih =>
      obtain ⟨v, htrusted, hmatches, hkey⟩ := ih
      exact ⟨v, htrusted, .annotated hmatches, hkey⟩
  | union harg _ ih =>
      obtain ⟨v, htrusted, hmatches, hkey⟩ := ih
      exact ⟨v, htrusted, .union harg hmatches, hkey⟩
  | of_class hwalked =>
      rcases hwalked with hwalked | hmapping
      · obtain ⟨v, htrusted, -, hinstance, hkey⟩ := @exists_container _ _ program keys _ hwalked []
          sample (sample_trusted hkeys) nofun sample_holds_key
        exact ⟨v, htrusted, .of_class hinstance, hkey⟩
      · exact ⟨sample, sample_trusted hkeys, .of_class hmapping, sample_holds_key⟩
  | of_model_class hinstance hm harg _ ih =>
      obtain ⟨v, htrusted, hmatches, hkey⟩ := ih
      obtain ⟨fields, hfields, hkey⟩ := exists_holding_record hm harg htrusted hmatches hkey
      exact ⟨.record _ fields, hfields, .of_class hinstance, hkey⟩
  | model hsubclass hm harg _ ih =>
      obtain ⟨v, htrusted, hmatches, hkey⟩ := ih
      obtain ⟨fields, hfields, hkey⟩ := exists_holding_record hm harg htrusted hmatches hkey
      refine ⟨.record _ fields, hfields, ?_, hkey⟩
      cases hfields with
      | record hrecord _ =>
          cases hrecord with
          | record _ hnames hmatch => exact .record hsubclass hnames hmatch
  | bare hwalked =>
      obtain ⟨v, htrusted, hmatches, -, hkey⟩ := @exists_container _ _ program keys _ hwalked []
        sample (sample_trusted hkeys) nofun sample_holds_key
      exact ⟨v, htrusted, hmatches, hkey⟩
  | @item origin arg args hwalked _ ih =>
      obtain ⟨v, htrusted, hmatches, hkey⟩ := ih
      obtain ⟨w, hw, hmatches, -, hkey⟩ := @exists_container _ _ program keys _ hwalked (arg :: args)
        v htrusted (fun _ hfirst => Option.some.inj hfirst ▸ hmatches) hkey
      exact ⟨w, hw, hmatches, hkey⟩
  | @position arg args hinhabited harg _ ih =>
      obtain ⟨v, htrusted, hmatches, hkey⟩ := ih
      obtain ⟨items, hitems, hform, hv⟩ := exists_items hinhabited harg htrusted hmatches
      refine ⟨.tuple items, hitems, hform, ?_⟩
      rw [holds_key_tuple, List.any_eq_true]
      exact ⟨v, hv, hkey⟩
  | @key origin args hmapping hkey hvalue =>
      obtain ⟨v, hv, hmatches⟩ := exists_argument ⟨.text [], .text _⟩ hvalue
      have hentry := single_entry hmapping (hkeys [0xDCFF]) hv hkey hmatches
      refine ⟨_, hentry.1, hentry.2, ?_⟩
      rw [holds_key_mapping]
      rfl
  | @value origin args hmapping hkey _ ih =>
      have hbelow : ∀ arg, args[1]? = some arg → ∃ v : Held κ σ,
          (v.Trusted program keys ∧ v.holds_key every_field = true) ∧ Matches program v arg := by
        intro arg harg
        obtain ⟨v, htrusted, hmatches, hholds⟩ := ih arg harg
        exact ⟨v, ⟨htrusted, hholds⟩, hmatches⟩
      obtain ⟨v, ⟨hv, hholds⟩, hmatches⟩ :=
        exists_argument ⟨sample, sample_trusted hkeys, sample_holds_key⟩ hbelow
      obtain ⟨k, hk, hkmatches⟩ := exists_argument ⟨.text [], hkeys _⟩ hkey
      have hentry := single_entry hmapping hk hv hkmatches hmatches
      exact ⟨_, hentry.1, hentry.2, by simp [hholds]⟩
  | iterated hinstance htrusted hpairs hkey =>
      exact ⟨_, htrusted, .generic hinstance hpairs nofun, hkey⟩

/-- One text matches like another, the empty one apart. -/
theorem Matches.other_text {v : Held κ σ} {arg : TypeHint κ} (h : Matches program v arg)
    {t t' : PyStr} (hv : v = .text t) (hempty : t = [] → t' = []) :
    Matches program (.text t' : Held κ σ) arg := by
  induction h generalizing t t' with
  | any v => exact .any _
  | unresolved v => exact .unresolved _
  | literal_text s => exact .literal_text t'
  | literal_other s => cases hv
  | annotated _ ih => exact .annotated (ih hv hempty)
  | union harg _ ih => exact .union harg (ih hv hempty)
  | @generic v origin args hinstance hmembers hvalues ih _ =>
      subst hv
      refine .generic hinstance ?_ ?_
      · intro arg harg member hmember
        obtain ⟨c', hc', rfl⟩ := List.mem_map.mp hmember
        cases t with
        | nil =>
            rw [hempty rfl] at hc'
            cases hc'
        | cons c rest =>
            have hfirst : (.text [c] : Held κ σ) ∈ (Held.text (c :: rest)).members :=
              List.mem_cons_self
            exact ih arg harg _ hfirst rfl (fun h => by cases h)
      · intro arg _ value hvalue
        cases hvalue
  | tuple_of _ _ _ => cases hv
  | of_class hinstance =>
      subst hv
      exact .of_class hinstance
  | record _ _ _ _ => cases hv

theorem Matches.of_surrogate {v : Held κ σ} {arg : TypeHint κ} (h : Matches program v arg)
    (hkey : v.surrogate_key = true) : Matches program (.text [0xDCFF] : Held κ σ) arg := by
  cases v with
  | text t =>
      refine h.other_text rfl fun hempty => ?_
      subst hempty
      cases hkey
  | other s => cases hkey
  | list items => cases hkey
  | tuple items => cases hkey
  | mapping entries => cases hkey
  | record m fields => cases hkey

/-- An annotation that a key-holding value matches can hold a key if it can in each plain form that
the value matches: as a class, with arguments, by positions, as a model. -/
theorem Matches.holdsKey_of_form {v : Held κ σ} {arg : TypeHint κ} (h : Matches program v arg)
    (hkey : v.holds_key every_field = true)
    (hclass : ∀ c : PyClass κ, c.instances v.shape = true →
      (TypeHint.of_class c).HoldsKey program keys)
    (hgeneric : ∀ (origin : PyClass κ) args, origin.instances v.shape = true →
      (∀ arg, args[0]? = some arg → ∀ member ∈ v.members, Matches program member arg) →
      (∀ arg, args[1]? = some arg → ∀ value ∈ v.values, Matches program value arg) →
      (TypeHint.generic origin args).HoldsKey program keys)
    (htuple : ∀ items args, v = .tuple items → items.length = args.length →
      (∀ (n : Nat) w arg, items[n]? = some w → args[n]? = some arg → Matches program w arg) →
      (TypeHint.tuple_of args).HoldsKey program keys)
    (hmodel : ∀ m m' fields, v = .record m' fields → program.issubclass m' m = true →
      (TypeHint.model m).HoldsKey program keys) : arg.HoldsKey program keys := by
  induction h with
  | any v => exact .any
  | unresolved v => exact .unresolved
  | literal_text t => cases hkey
  | literal_other s => cases hkey
  | annotated _ ih => exact .annotated (ih hkey hclass hgeneric htuple hmodel)
  | union harg _ ih => exact .union harg (ih hkey hclass hgeneric htuple hmodel)
  | generic hinstance hmembers hvalues _ _ => exact hgeneric _ _ hinstance hmembers hvalues
  | tuple_of hlength hitems _ => exact htuple _ _ rfl hlength hitems
  | of_class hinstance => exact hclass _ hinstance
  | record hsubclass _ _ _ => exact hmodel _ _ _ rfl hsubclass

/-- A list or a tuple can hold what its first argument can. -/
theorem TypeHint.HoldsKey.of_first {origin : PyClass κ} {args : List (TypeHint κ)}
    (hwalked : origin.Walked) (hfirst : ∀ arg, args[0]? = some arg → arg.HoldsKey program keys) :
    (TypeHint.generic origin args).HoldsKey program keys := by
  cases args with
  | nil => exact .bare hwalked
  | cons arg args => exact .item hwalked (hfirst arg rfl)

/-- A tuple with positions can hold what the argument at an item's position can. -/
theorem TypeHint.HoldsKey.of_position {items : List (Held κ σ)} {args : List (TypeHint κ)}
    (hitems : ∀ v ∈ items, v.Trusted program keys) (hlength : items.length = args.length)
    (hmatch : ∀ (n : Nat) v arg, items[n]? = some v → args[n]? = some arg → Matches program v arg)
    {v : Held κ σ} (hv : v ∈ items) (h : ∀ arg, Matches program v arg → arg.HoldsKey program keys) :
    (TypeHint.tuple_of args).HoldsKey program keys := by
  obtain ⟨n, hn⟩ := List.mem_iff_getElem?.mp hv
  have hbound : n < args.length := by
    have := (List.getElem?_eq_some_iff.mp hn).1
    omega
  have harg : args[n]? = some args[n] := List.getElem?_eq_getElem hbound
  refine .position ?_ (List.getElem_mem hbound) (h _ (hmatch n v _ hn harg))
  intro other hother
  obtain ⟨k, hk⟩ := List.mem_iff_getElem?.mp hother
  have hitem : k < items.length := by
    have := (List.getElem?_eq_some_iff.mp hk).1
    omega
  exact ⟨items[k], hitems _ (List.getElem_mem hitem),
    hmatch k _ other (List.getElem?_eq_getElem hitem) hk⟩

/-- A mapping can hold its own key, or what its second argument can. -/
theorem TypeHint.HoldsKey.of_entry {origin : PyClass κ} {args : List (TypeHint κ)}
    {entry : Held κ σ × Held κ σ} (hmapping : origin.instances .mapping = true)
    (hname : keys entry.1) (htrusted : entry.2.Trusted program keys)
    (hkey : ∀ arg, args[0]? = some arg → Matches program entry.1 arg)
    (hvalue : ∀ arg, args[1]? = some arg → Matches program entry.2 arg)
    (h : entry.1.surrogate_key = true ∨
      ∀ arg, Matches program entry.2 arg → arg.HoldsKey program keys) :
    (TypeHint.generic origin args).HoldsKey program keys := by
  cases h with
  | inl hsurrogate =>
      exact .key hmapping (fun arg harg => (hkey arg harg).of_surrogate hsurrogate)
        fun arg harg => ⟨entry.2, htrusted, hvalue arg harg⟩
  | inr hbelow =>
      exact .value hmapping (fun arg harg => ⟨entry.1, hname, hkey arg harg⟩)
        fun arg harg => hbelow arg (hvalue arg harg)

/-- A value that holds a key has an annotation that can hold one. -/
theorem Matches.holdsKey {v : Held κ σ} (htrusted : v.Trusted program keys)
    (hkey : v.holds_key every_field = true) {arg : TypeHint κ} (h : Matches program v arg) :
    arg.HoldsKey program keys := by
  induction htrusted generalizing arg with
  | text t => cases hkey
  | other s => cases hkey
  | @list items hitems ih =>
      have hitem := hkey
      rw [holds_key_list, List.any_eq_true] at hitem
      obtain ⟨v, hv, hheld⟩ := hitem
      refine h.holdsKey_of_form hkey (fun c hinstance => .of_class (.inl (.inl hinstance))) ?_ nofun nofun
      intro origin args hinstance hmembers _
      exact .of_first (.inl hinstance) fun arg harg => ih v hv hheld (hmembers arg harg v hv)
  | @tuple items hitems ih =>
      have hitem := hkey
      rw [holds_key_tuple, List.any_eq_true] at hitem
      obtain ⟨v, hv, hheld⟩ := hitem
      refine h.holdsKey_of_form hkey (fun c hinstance => .of_class (.inl (.inr hinstance))) ?_ ?_ nofun
      · intro origin args hinstance hmembers _
        exact .of_first (.inr hinstance) fun arg harg => ih v hv hheld (hmembers arg harg v hv)
      · intro others args heq hlength hmatch
        cases heq
        exact .of_position hitems hlength hmatch hv fun arg => ih v hv hheld
  | @mapping entries hnodup hkeys hentries ih =>
      have hentry := hkey
      rw [holds_key_mapping, List.any_eq_true] at hentry
      obtain ⟨entry, hmem, hheld⟩ := hentry
      rw [Bool.or_eq_true] at hheld
      refine h.holdsKey_of_form hkey (fun c hinstance => .of_class (.inr hinstance)) ?_ nofun nofun
      intro origin args hinstance hmembers hvalues
      have hname : entry.1 ∈ (Held.mapping entries).members := List.mem_map.mpr ⟨entry, hmem, rfl⟩
      have hvalue : entry.2 ∈ (Held.mapping entries).values := List.mem_map.mpr ⟨entry, hmem, rfl⟩
      exact .of_entry hinstance (hkeys entry hmem) (hentries entry hmem)
        (fun arg harg => hmembers arg harg _ hname) (fun arg harg => hvalues arg harg _ hvalue)
        (hheld.imp_right fun hbelow arg => ih entry hmem hbelow)
  | @record m fields hrecord hfields ih =>
      have hwhole : (Held.record m fields).Trusted program keys := .record hrecord hfields
      have hm : program.Constructible keys m := fun name arg harg => by
        obtain ⟨v, -, htrusted, hmatches⟩ := hwhole.declared harg
        exact ⟨v, htrusted, hmatches⟩
      have hfield := hkey
      rw [holds_key_every_record, List.any_eq_true] at hfield
      obtain ⟨field, hmem, hheld⟩ := hfield
      obtain ⟨-, inner, hinner, hmatches⟩ := hwhole.field hmem
      have hinside := ih field hmem hheld hmatches
      refine h.holdsKey_of_form hkey (fun c hinstance => .of_model_class hinstance hm hinner hinside)
        ?_ nofun ?_
      · intro origin args hinstance hmembers _
        exact .iterated hinstance hwhole hmembers hkey
      · intro m' m'' others heq hsubclass
        cases heq
        exact .model hsubclass hm hinner hinside

end HoldsKey

end PwshPy.Records
