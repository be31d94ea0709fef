import PwshPy.Records.Dumping

/-! # Values against annotations

What a record's fields are annotated with, what Python's `isinstance` says of the classes named
there, and which values match. A field is searched for a mapping exactly where its annotation names
one, at any depth.
-/

namespace PwshPy.Records

variable {κ σ : Type}

/-! ## Values -/

/-- A value of a record: the walks tell these apart, and a mapping's keys may be any values. -/
inductive Held (κ σ : Type) where
  | text (text : PyStr)
  | other (s : σ)
  | list (items : List (Held κ σ))
  | tuple (items : List (Held κ σ))
  | mapping (entries : List (Held κ σ × Held κ σ))
  | record (model : κ) (fields : List (PyStr × Held κ σ))

/-- Induction on what a value holds, keys apart. -/
@[elab_as_elim, induction_eliminator]
theorem Held.induct {P : Held κ σ → Prop} (text : ∀ t, P (.text t)) (other : ∀ s, P (.other s))
    (list : ∀ items, (∀ v ∈ items, P v) → P (.list items))
    (tuple : ∀ items, (∀ v ∈ items, P v) → P (.tuple items))
    (mapping : ∀ entries : List (Held κ σ × Held κ σ), (∀ entry ∈ entries, P entry.2) →
      P (.mapping entries))
    (record : ∀ m (fields : List (PyStr × Held κ σ)), (∀ field ∈ fields, P field.2) →
      P (.record m fields)) (v : Held κ σ) : P v := by
  refine @Held.rec κ σ P (fun items => ∀ v ∈ items, P v)
    (fun entries => ∀ entry ∈ entries, P entry.2) (fun fields => ∀ field ∈ fields, P field.2)
    (fun entry => P entry.2) (fun field => P field.2) text other list tuple mapping record
    ?_ ?_ ?_ ?_ ?_ ?_ ?_ ?_ v
  · simp
  · intro item rest hitem hrest
    exact List.forall_mem_cons.mpr ⟨hitem, hrest⟩
  · simp
  · intro entry rest hentry hrest
    exact List.forall_mem_cons.mpr ⟨hentry, hrest⟩
  · simp
  · intro field rest hfield hrest
    exact List.forall_mem_cons.mpr ⟨hfield, hrest⟩
  · exact fun _ _ _ hitem => hitem
  · exact fun _ _ hitem => hitem

/-- `has_surrogate(key)` -/
def Held.surrogate_key : Held κ σ → Bool
  | .text t => has_surrogate t
  | _ => false

mutual

/-- `_holds_surrogate_key`, where of a record only certain fields are walked. -/
def Held.holds_key (walked : κ → PyStr → Bool) : Held κ σ → Bool
  | .text _ => false
  | .other _ => false
  | .list items => items_hold_key walked items
  | .tuple items => items_hold_key walked items
  | .mapping entries => entries_hold_key walked entries
  | .record m fields => fields_hold_key walked (walked m) fields

def items_hold_key (walked : κ → PyStr → Bool) : List (Held κ σ) → Bool
  | [] => false
  | item :: rest => item.holds_key walked || items_hold_key walked rest

def entries_hold_key (walked : κ → PyStr → Bool) : List (Held κ σ × Held κ σ) → Bool
  | [] => false
  | (key, item) :: rest =>
      (key.surrogate_key || item.holds_key walked) || entries_hold_key walked rest

def fields_hold_key (walked : κ → PyStr → Bool) (listed : PyStr → Bool) :
    List (PyStr × Held κ σ) → Bool
  | [] => false
  | (name, item) :: rest =>
      (listed name && item.holds_key walked) || fields_hold_key walked listed rest

end

section Walk

variable {walked : κ → PyStr → Bool}

theorem items_hold_key_eq (items : List (Held κ σ)) :
    items_hold_key walked items = items.any (·.holds_key walked) := by
  induction items with
  | nil => rfl
  | cons item rest ih => rw [items_hold_key, ih, List.any_cons]

theorem entries_hold_key_eq (entries : List (Held κ σ × Held κ σ)) :
    entries_hold_key walked entries =
      entries.any fun entry => entry.1.surrogate_key || entry.2.holds_key walked := by
  induction entries with
  | nil => rfl
  | cons entry rest ih => rw [entries_hold_key, ih, List.any_cons]

theorem fields_hold_key_eq (listed : PyStr → Bool) (fields : List (PyStr × Held κ σ)) :
    fields_hold_key walked listed fields =
      fields.any fun field => listed field.1 && field.2.holds_key walked := by
  induction fields with
  | nil => rfl
  | cons field rest ih => rw [fields_hold_key, ih, List.any_cons]

@[simp]
theorem holds_key_list (items : List (Held κ σ)) :
    (Held.list items).holds_key walked = items.any (·.holds_key walked) := by
  rw [Held.holds_key, items_hold_key_eq]

@[simp]
theorem holds_key_tuple (items : List (Held κ σ)) :
    (Held.tuple items).holds_key walked = items.any (·.holds_key walked) := by
  rw [Held.holds_key, items_hold_key_eq]

@[simp]
theorem holds_key_mapping (entries : List (Held κ σ × Held κ σ)) :
    (Held.mapping entries).holds_key walked =
      entries.any fun entry => entry.1.surrogate_key || entry.2.holds_key walked := by
  rw [Held.holds_key, entries_hold_key_eq]

@[simp]
theorem holds_key_record (m : κ) (fields : List (PyStr × Held κ σ)) :
    (Held.record m fields).holds_key walked =
      fields.any fun field => walked m field.1 && field.2.holds_key walked := by
  rw [Held.holds_key, fields_hold_key_eq]

end Walk

/-- No field is left out of the walk. -/
def every_field (_ : κ) (_ : PyStr) : Bool := true

theorem holds_key_every_record (m : κ) (fields : List (PyStr × Held κ σ)) :
    (Held.record m fields).holds_key every_field =
      fields.any fun field => field.2.holds_key every_field := by
  rw [holds_key_record]
  rfl

/-- A walk that leaves fields out finds no more. -/
theorem holds_key_every_field {walked : κ → PyStr → Bool} {v : Held κ σ}
    (h : v.holds_key walked = true) : v.holds_key every_field = true := by
  induction v with
  | text t => exact h
  | other s => exact h
  | list items ih =>
      rw [holds_key_list, List.any_eq_true] at h ⊢
      obtain ⟨v, hv, hkey⟩ := h
      exact ⟨v, hv, ih v hv hkey⟩
  | tuple items ih =>
      rw [holds_key_tuple, List.any_eq_true] at h ⊢
      obtain ⟨v, hv, hkey⟩ := h
      exact ⟨v, hv, ih v hv hkey⟩
  | mapping entries ih =>
      rw [holds_key_mapping, List.any_eq_true] at h ⊢
      obtain ⟨entry, hentry, hkey⟩ := h
      rw [Bool.or_eq_true] at hkey
      refine ⟨entry, hentry, ?_⟩
      rw [Bool.or_eq_true]
      exact hkey.imp_right (ih entry hentry)
  | record m fields ih =>
      rw [holds_key_record, List.any_eq_true] at h
      rw [holds_key_every_record, List.any_eq_true]
      obtain ⟨field, hfield, hkey⟩ := h
      rw [Bool.and_eq_true] at hkey
      exact ⟨field, hfield, ih field hfield hkey.2⟩

/-! ## Annotations -/

/-- How a value looks to `isinstance`. -/
inductive Shape (κ : Type) where
  | text
  | other
  | list
  | tuple
  | mapping
  | record (model : κ)

def Held.shape : Held κ σ → Shape κ
  | .text _ => .text
  | .other _ => .other
  | .list _ => .list
  | .tuple _ => .tuple
  | .mapping _ => .mapping
  | .record m _ => .record m

/-- What is asked of a class that is no record class. -/
structure PyClass (κ : Type) where
  /-- `issubclass(c, Mapping)` -/
  is_mapping : Bool
  /-- `issubclass(c, Collection)` -/
  is_collection : Bool
  /-- `issubclass(c, (str, bytes, bytearray))` -/
  is_text : Bool
  /-- what is among its instances, those of its subclasses included -/
  instances : Shape κ → Bool

inductive TypeHint (κ : Type) where
  /-- `Any` and `object` -/
  | any
  /-- `None` and `Literal[…]`; which values are listed is not told apart -/
  | literal
  /-- `Annotated[arg, …]` -/
  | annotated (arg : TypeHint κ)
  /-- `X | Y` -/
  | union (args : List (TypeHint κ))
  /-- `origin[args]`, `tuple[X, ...]` included; a bare alias of `typing` has no args -/
  | generic (origin : PyClass κ) (args : List (TypeHint κ))
  /-- `tuple[X, Y]` -/
  | tuple_of (args : List (TypeHint κ))
  /-- a type variable, an unresolved forward reference -/
  | unresolved
  /-- a `BaseModel` class -/
  | model (m : κ)
  | of_class (c : PyClass κ)

mutual

/-- What `_can_hold_mapping` sees of an annotation. -/
def TypeHint.asked : TypeHint κ → FieldType κ
  | .any => .any
  | .literal => .literal
  | .annotated arg => .annotated arg.asked
  | .union args => .generic (args_asked args)
  | .generic origin args =>
      if origin.is_mapping then .mappingOf (args_asked args) else .generic (args_asked args)
  | .tuple_of args => .generic (args_asked args)
  | .unresolved => .unresolved
  | .model m => .model m
  | .of_class c => if c.is_collection && !c.is_text then .container else .plain

def args_asked : List (TypeHint κ) → List (FieldType κ)
  | [] => []
  | arg :: args => arg.asked :: args_asked args

end

theorem args_asked_eq (args : List (TypeHint κ)) : args_asked args = args.map (·.asked) := by
  induction args with
  | nil => rfl
  | cons arg args ih => rw [args_asked, ih, List.map_cons]

theorem mem_args_asked {arg : TypeHint κ} {args : List (TypeHint κ)} (h : arg ∈ args) :
    arg.asked ∈ args_asked args := by
  rw [args_asked_eq]
  exact List.mem_map.mpr ⟨arg, h, rfl⟩

/-- The record classes of a program with their annotations. -/
structure Program (κ : Type) where
  classes : List κ
  all_classes : ∀ m, m ∈ classes
  fields : κ → List (PyStr × TypeHint κ)
  names_nodup : ∀ m, ((fields m).map Prod.fst).Nodup
  /-- names are identifiers: no surrogate and no NUL is in them -/
  names_plain : ∀ m, ∀ name ∈ (fields m).map Prod.fst, has_surrogate name = false ∧ 0 ∉ name
  /-- `issubclass` among the record classes -/
  issubclass : κ → κ → Bool
  issubclass_refl : ∀ m, issubclass m m = true

namespace Program

variable (program : Program κ)

/-- The fields of a class as `_can_hold_mapping` sees them. -/
def fields_asked (m : κ) : List (PyStr × FieldType κ) :=
  (program.fields m).map fun field => (field.1, field.2.asked)

theorem fields_asked_names (m : κ) :
    (program.fields_asked m).map Prod.fst = (program.fields m).map Prod.fst := by
  rw [fields_asked, List.map_map]
  rfl

theorem fields_asked_nodup (m : κ) : ((program.fields_asked m).map Prod.fst).Nodup := by
  rw [fields_asked_names]
  exact program.names_nodup m

theorem fields_asked_plain (m : κ) : ∀ name ∈ (program.fields_asked m).map Prod.fst,
    has_surrogate name = false ∧ 0 ∉ name := by
  rw [fields_asked_names]
  exact program.names_plain m

def models : Models κ where
  classes := program.classes
  all_classes := program.all_classes
  fields := program.fields_asked
  names_nodup := program.fields_asked_nodup
  names_plain := program.fields_asked_plain

end Program

/-! ## Matching -/

/-- What iterating over a value gives. -/
def Held.members : Held κ σ → List (Held κ σ)
  | .text t => t.map fun c => .text [c]
  | .other _ => []
  | .list items => items
  | .tuple items => items
  | .mapping entries => entries.map Prod.fst
  | .record _ fields => fields.map fun field => .tuple [.text field.1, field.2]

/-- What a mapping's keys lead to. -/
def Held.values : Held κ σ → List (Held κ σ)
  | .mapping entries => entries.map Prod.snd
  | _ => []

/-- The value matches what is annotated: an instance of a subclass is an instance of its class. -/
inductive Matches (program : Program κ) : Held κ σ → TypeHint κ → Prop
  | any (v : Held κ σ) : Matches program v .any
  | unresolved (v : Held κ σ) : Matches program v .unresolved
  | literal_text (t : PyStr) : Matches program (.text t) .literal
  | literal_other (s : σ) : Matches program (.other s) .literal
  | annotated {v : Held κ σ} {arg : TypeHint κ} : Matches program v arg →
      Matches program v (.annotated arg)
  | union {v : Held κ σ} {arg : TypeHint κ} {args : List (TypeHint κ)} : arg ∈ args →
      Matches program v arg → Matches program v (.union args)
  | generic {v : Held κ σ} {origin : PyClass κ} {args : List (TypeHint κ)} :
      origin.instances v.shape = true →
      (∀ arg, args[0]? = some arg → ∀ member ∈ v.members, Matches program member arg) →
      (∀ arg, args[1]? = some arg → ∀ value ∈ v.values, Matches program value arg) →
      Matches program v (.generic origin args)
  | tuple_of {items : List (Held κ σ)} {args : List (TypeHint κ)} :
      items.length = args.length →
      (∀ (n : Nat) v arg, items[n]? = some v → args[n]? = some arg → Matches program v arg) →
      Matches program (.tuple items) (.tuple_of args)
  | of_class {v : Held κ σ} {c : PyClass κ} : c.instances v.shape = true →
      Matches program v (.of_class c)
  | record {m m' : κ} {fields : List (PyStr × Held κ σ)} : program.issubclass m' m = true →
      fields.map Prod.fst = (program.fields m').map Prod.fst →
      (∀ name arg v, (name, arg) ∈ program.fields m' → (name, v) ∈ fields → Matches program v arg) →
      Matches program (.record m' fields) (.model m)

/-- Any key at all. -/
def any_key (_ : Held κ σ) : Prop := True

/-- A key that is a string. -/
def string_key : Held κ σ → Prop
  | .text _ => True
  | _ => False

/-- Every record in the value matches the annotations of its class; the keys of each mapping are
distinct, and of the kind that is asked for. -/
inductive Held.Trusted (program : Program κ) (keys : Held κ σ → Prop) : Held κ σ → Prop
  | text (t : PyStr) : Trusted program keys (.text t)
  | other (s : σ) : Trusted program keys (.other s)
  | list {items : List (Held κ σ)} : (∀ v ∈ items, Trusted program keys v) →
      Trusted program keys (.list items)
  | tuple {items : List (Held κ σ)} : (∀ v ∈ items, Trusted program keys v) →
      Trusted program keys (.tuple items)
  | mapping {entries : List (Held κ σ × Held κ σ)} : (entries.map Prod.fst).Nodup →
      (∀ entry ∈ entries, keys entry.1) → (∀ entry ∈ entries, Trusted program keys entry.2) →
      Trusted program keys (.mapping entries)
  | record {m : κ} {fields : List (PyStr × Held κ σ)} :
      Matches program (.record m fields) (.model m) →
      (∀ field ∈ fields, Trusted program keys field.2) → Trusted program keys (.record m fields)

section Trusted

variable {program : Program κ} {keys : Held κ σ → Prop}

/-- What stands in a field of a trusted record. -/
theorem Held.Trusted.field {m : κ} {fields : List (PyStr × Held κ σ)}
    (h : (Held.record m fields).Trusted program keys) {name : PyStr} {v : Held κ σ}
    (hv : (name, v) ∈ fields) : v.Trusted program keys ∧
      ∃ arg, (name, arg) ∈ program.fields m ∧ Matches program v arg := by
  cases h with
  | record hmatches hfields =>
      refine ⟨hfields _ hv, ?_⟩
      cases hmatches with
      | record _ hnames hmatch =>
          have hname : name ∈ (program.fields m).map Prod.fst :=
            hnames ▸ List.mem_map.mpr ⟨_, hv, rfl⟩
          obtain ⟨declared, hdeclared, rfl⟩ := List.mem_map.mp hname
          exact ⟨declared.2, hdeclared, hmatch _ _ v hdeclared hv⟩

/-- A trusted record has every field that is declared. -/
theorem Held.Trusted.declared {m : κ} {fields : List (PyStr × Held κ σ)}
    (h : (Held.record m fields).Trusted program keys) {name : PyStr} {arg : TypeHint κ}
    (harg : (name, arg) ∈ program.fields m) :
    ∃ v, (name, v) ∈ fields ∧ v.Trusted program keys ∧ Matches program v arg := by
  cases h with
  | record hmatches hfields =>
      cases hmatches with
      | record _ hnames hmatch =>
          have hname : name ∈ fields.map Prod.fst := hnames ▸ List.mem_map.mpr ⟨_, harg, rfl⟩
          obtain ⟨⟨other, v⟩, hv, rfl⟩ := List.mem_map.mp hname
          exact ⟨v, hv, hfields _ hv, hmatch _ _ v harg hv⟩

/-- A class has a trusted record as soon as each of its fields has a value of its own. -/
theorem exists_record {m : κ} {P : PyStr → Held κ σ → Prop}
    (h : ∀ name arg, (name, arg) ∈ program.fields m →
      ∃ v : Held κ σ, v.Trusted program keys ∧ Matches program v arg ∧ P name v) :
    ∃ fields, (Held.record m fields).Trusted program keys ∧ ∀ field ∈ fields, P field.1 field.2 := by
  have hlist : ∀ declared : List (PyStr × TypeHint κ), (∀ field ∈ declared, field ∈ program.fields m) →
      ∃ fields : List (PyStr × Held κ σ), fields.map Prod.fst = declared.map Prod.fst ∧
        ∀ field ∈ fields, ∃ arg, (field.1, arg) ∈ program.fields m ∧
          field.2.Trusted program keys ∧ Matches program field.2 arg ∧ P field.1 field.2 := by
    intro declared hdeclared
    induction declared with
    | nil => exact ⟨[], rfl, nofun⟩
    | cons field rest ih =>
        obtain ⟨hfield, hrest⟩ := List.forall_mem_cons.mp hdeclared
        obtain ⟨v, hv⟩ := h field.1 field.2 hfield
        obtain ⟨fields, hnames, hfields⟩ := ih hrest
        refine ⟨(field.1, v) :: fields, by simp [hnames], ?_⟩
        exact List.forall_mem_cons.mpr ⟨⟨field.2, hfield, hv⟩, hfields⟩
  obtain ⟨fields, hnames, hfields⟩ := hlist (program.fields m) fun _ hfield => hfield
  refine ⟨fields, .record (.record (program.issubclass_refl m) hnames ?_) fun field hfield => ?_,
    fun field hfield => ?_⟩
  · intro name arg v harg hv
    obtain ⟨arg', harg', -, hmatches, -⟩ := hfields (name, v) hv
    have hsame : (name, arg) = (name, arg') :=
      List.inj_on_of_nodup_map (program.names_nodup m) harg harg' rfl
    cases hsame
    exact hmatches
  · obtain ⟨-, -, htrusted, -, -⟩ := hfields field hfield
    exact htrusted
  · obtain ⟨-, -, -, -, hfield⟩ := hfields field hfield
    exact hfield

end Trusted

/-! ## What an annotation names -/

/-- The annotation names something that can be a mapping, at any depth: `Any`, a mapping's generic,
a bare collection, or what is not resolved. -/
inductive Names (models : Models κ) : FieldType κ → Prop
  | any : Names models .any
  | annotated {arg : FieldType κ} : Names models arg → Names models (.annotated arg)
  | mappingOf (args : List (FieldType κ)) : Names models (.mappingOf args)
  | generic {arg : FieldType κ} {args : List (FieldType κ)} : arg ∈ args → Names models arg →
      Names models (.generic args)
  | unresolved : Names models .unresolved
  | model {m : κ} {type : FieldType κ} : type ∈ (models.fields m).map Prod.snd →
      Names models type → Names models (.model m)
  | container : Names models .container

section Search

variable [DecidableEq κ] {models : Models κ}

/-- What the search finds is named. -/
theorem names_of_can_hold_mapping {seen : List κ} {type : FieldType κ}
    (h : can_hold_mapping models seen type = true) : Names models type := by
  refine can_hold_mapping.induct models
    (fun seen type => can_hold_mapping models seen type = true → Names models type)
    (fun seen args => any_can_hold_mapping models seen args = true →
      ∃ arg ∈ args, Names models arg) ?any ?literal ?annotated ?mappingOf ?generic ?unresolved
    ?again ?model ?container ?plain ?nil ?cons seen type h
  case any => exact fun _ _ => .any
  case literal =>
    intro seen h
    rw [can_hold_mapping] at h
    cases h
  case annotated =>
    intro seen arg ih h
    rw [can_hold_mapping] at h
    exact .annotated (ih h)
  case mappingOf => exact fun _ args _ => .mappingOf args
  case generic =>
    intro seen args ih h
    rw [can_hold_mapping] at h
    obtain ⟨arg, harg, hnames⟩ := ih h
    exact .generic harg hnames
  case unresolved => exact fun _ _ => .unresolved
  case again =>
    intro seen m hm h
    rw [can_hold_mapping, dif_pos hm] at h
    cases h
  case model =>
    intro seen m hm _ ih h
    rw [can_hold_mapping, dif_neg hm] at h
    obtain ⟨type, htype, hnames⟩ := ih h
    exact .model htype hnames
  case container => exact fun _ _ => .container
  case plain =>
    intro seen h
    rw [can_hold_mapping] at h
    cases h
  case nil =>
    intro seen h
    rw [any_can_hold_mapping] at h
    cases h
  case cons =>
    intro seen arg args ih ihs h
    rw [any_can_hold_mapping, Bool.or_eq_true] at h
    cases h with
    | inl h => exact ⟨arg, List.mem_cons_self, ih h⟩
    | inr h =>
        obtain ⟨later, hlater, hnames⟩ := ihs h
        exact ⟨later, List.mem_cons_of_mem _ hlater, hnames⟩

/-- What is named the search finds: a class met again on the path was searched before. -/
theorem can_hold_mapping_of_names {type : FieldType κ} (h : Names models type) {seen : List κ}
    (hseen : Barren models seen) : can_hold_mapping models seen type = true := by
  induction h generalizing seen with
  | any => rw [can_hold_mapping]
  | annotated _ ih =>
      rw [can_hold_mapping]
      exact ih hseen
  | mappingOf args => rw [can_hold_mapping]
  | generic harg _ ih =>
      rw [can_hold_mapping, any_can_hold_mapping_eq, List.any_eq_true]
      exact ⟨_, harg, ih hseen⟩
  | unresolved => rw [can_hold_mapping]
  | @model m type htype _ ih =>
      by_contra hno
      rw [Bool.not_eq_true] at hno
      obtain ⟨before, hbefore, hfields⟩ := hseen.of_model hno
      rw [any_can_hold_mapping_eq, List.any_eq_false] at hfields
      exact hfields type htype (ih hbefore)
  | container => rw [can_hold_mapping]

end Search

end PwshPy.Records
