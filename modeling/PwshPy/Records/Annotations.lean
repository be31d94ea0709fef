import PwshPy.Records.Values

/-! # Records and their annotations

A record's fields are searched for mappings only where their annotations can
hold one.
-/

namespace PwshPy.Records

/-- A field's annotation, as far as `_can_hold_mapping` tells them apart; `κ` names the record classes. -/
inductive FieldType (κ : Type) where
  /-- `Any` and `object` -/
  | any
  /-- `None` and `Literal[…]` -/
  | literal
  /-- `Annotated[X, …]` -/
  | annotated (arg : FieldType κ)
  /-- `dict[…]` and every other generic mapping -/
  | mappingOf (args : List (FieldType κ))
  /-- `list[…]`, `tuple[…]`, `X | Y` -/
  | generic (args : List (FieldType κ))
  /-- a type variable, an unresolved forward reference -/
  | unresolved
  /-- a `BaseModel` class -/
  | model (m : κ)
  /-- a bare collection class other than text and bytes -/
  | container
  /-- any other class -/
  | plain

/-- The record classes of a program, each with the names and annotations of its fields. -/
structure Models (κ : Type) where
  classes : List κ
  all_classes : ∀ m, m ∈ classes
  fields : κ → List (PyStr × FieldType κ)
  names_nodup : ∀ m, ((fields m).map Prod.fst).Nodup
  /-- names are identifiers: no surrogate and no NUL is in them -/
  names_plain : ∀ m, ∀ name ∈ (fields m).map Prod.fst, has_surrogate name = false ∧ 0 ∉ name

/-- A value a record can hold. A scalar is whatever holds no other value. -/
inductive Datum (κ σ : Type) where
  | text (text : PyStr)
  | scalar (s : σ)
  | list (items : List (Datum κ σ))
  | tuple (items : List (Datum κ σ))
  | mapping (entries : List (PyStr × Datum κ σ))
  | record (model : κ) (fields : List (PyStr × Datum κ σ))

variable {κ σ : Type}

/-- Induction on what a record holds, the members of a container at once. -/
@[elab_as_elim, induction_eliminator]
theorem Datum.induct {P : Datum κ σ → Prop} (text : ∀ t, P (.text t)) (scalar : ∀ s, P (.scalar s))
    (list : ∀ items, (∀ v ∈ items, P v) → P (.list items))
    (tuple : ∀ items, (∀ v ∈ items, P v) → P (.tuple items))
    (mapping : ∀ entries : List (PyStr × Datum κ σ), (∀ entry ∈ entries, P entry.2) →
      P (.mapping entries))
    (record : ∀ m (fields : List (PyStr × Datum κ σ)), (∀ field ∈ fields, P field.2) →
      P (.record m fields)) (v : Datum κ σ) : P v := by
  refine @Datum.rec κ σ P (fun items => ∀ v ∈ items, P v)
    (fun entries => ∀ entry ∈ entries, P entry.2) (fun entry => P entry.2) text scalar list tuple
    mapping record ?_ ?_ ?_ ?_ ?_ v
  · simp
  · intro item rest hitem hrest
    exact List.forall_mem_cons.mpr ⟨hitem, hrest⟩
  · simp
  · intro entry rest hentry hrest
    exact List.forall_mem_cons.mpr ⟨hentry, hrest⟩
  · exact fun _ _ hitem => hitem

/-! ## Where a mapping can be -/

section CanHold

variable [DecidableEq κ] (models : Models κ)

/-- How many classes are not on the path yet. -/
def unseen (seen : List κ) : Nat := (models.classes.filter (· ∉ seen)).length

theorem unseen_cons_lt {m : κ} {seen : List κ} (h : m ∉ seen) :
    unseen models (m :: seen) < unseen models seen := by
  have hm : m ∈ models.classes.filter (· ∉ seen) :=
    List.mem_filter.mpr ⟨models.all_classes m, by simpa using h⟩
  have hsplit : models.classes.filter (· ∉ m :: seen) =
      (models.classes.filter (· ∉ seen)).filter (· ≠ m) := by
    rw [List.filter_filter]
    congr 1
    funext x
    simp [not_or]
  rw [unseen, unseen, hsplit]
  exact List.length_filter_lt_length_iff_exists.mpr ⟨m, hm, by simp⟩

mutual

/-- `_can_hold_mapping` -/
def can_hold_mapping (seen : List κ) : FieldType κ → Bool
  | .any => true
  | .literal => false
  | .annotated arg => can_hold_mapping seen arg
  | .mappingOf _ => true
  | .generic args => any_can_hold_mapping seen args
  | .unresolved => true
  | .model m =>
      if h : m ∈ seen then false
      else
        have := unseen_cons_lt models h
        any_can_hold_mapping (m :: seen) ((models.fields m).map Prod.snd)
  | .container => true
  | .plain => false
termination_by type => (unseen models seen, sizeOf type)

def any_can_hold_mapping (seen : List κ) : List (FieldType κ) → Bool
  | [] => false
  | arg :: args => can_hold_mapping seen arg || any_can_hold_mapping seen args
termination_by args => (unseen models seen, sizeOf args)

end

/-- `_mapping_fields` -/
def mapping_fields (m : κ) : List PyStr :=
  ((models.fields m).filter fun field => can_hold_mapping models [] field.2).map Prod.fst

theorem any_can_hold_mapping_eq (seen : List κ) (args : List (FieldType κ)) :
    any_can_hold_mapping models seen args = args.any (can_hold_mapping models seen) := by
  induction args with
  | nil => rw [any_can_hold_mapping, List.any_nil]
  | cons arg args ih => rw [any_can_hold_mapping, ih, List.any_cons]

end CanHold

section Barren

variable [DecidableEq κ] {models : Models κ}

/-- A path on which the search entered each class and found nothing in its fields. -/
inductive Barren (models : Models κ) : List κ → Prop
  | nil : Barren models []
  | cons {m : κ} {seen : List κ} : Barren models seen →
      any_can_hold_mapping models (m :: seen) ((models.fields m).map Prod.snd) = false →
      Barren models (m :: seen)

/-- A class on such a path was entered with such a path behind it. -/
theorem Barren.entered {m : κ} {seen : List κ} (h : Barren models seen) (hm : m ∈ seen) :
    ∃ before, Barren models (m :: before) ∧
      any_can_hold_mapping models (m :: before) ((models.fields m).map Prod.snd) = false := by
  induction h with
  | nil => cases hm
  | cons hseen hfields ih =>
      cases List.mem_cons.mp hm with
      | inl heq =>
          subst heq
          exact ⟨_, .cons hseen hfields, hfields⟩
      | inr hearlier => exact ih hearlier

/-- A class in which nothing is found was entered here or before on the path. -/
theorem Barren.of_model {m : κ} {seen : List κ} (h : Barren models seen)
    (hcan : can_hold_mapping models seen (.model m) = false) : ∃ before, Barren models (m :: before) ∧
      any_can_hold_mapping models (m :: before) ((models.fields m).map Prod.snd) = false := by
  by_cases hm : m ∈ seen
  · exact h.entered hm
  · rw [can_hold_mapping, dif_neg hm] at hcan
    exact ⟨seen, .cons h hcan, hcan⟩

end Barren

/-! ## Keys -/

/-- What holds of the keys of every mapping in a value. -/
inductive Datum.Keys (K : List PyStr → Prop) : Datum κ σ → Prop
  | text (t : PyStr) : Keys K (.text t)
  | scalar (s : σ) : Keys K (.scalar s)
  | list {items : List (Datum κ σ)} : (∀ v ∈ items, Keys K v) → Keys K (.list items)
  | tuple {items : List (Datum κ σ)} : (∀ v ∈ items, Keys K v) → Keys K (.tuple items)
  | mapping {entries : List (PyStr × Datum κ σ)} : K (entries.map Prod.fst) →
      (∀ entry ∈ entries, Keys K entry.2) → Keys K (.mapping entries)
  | record {model : κ} {fields : List (PyStr × Datum κ σ)} :
      (∀ field ∈ fields, Keys K field.2) → Keys K (.record model fields)

section Keys

variable {K : List PyStr → Prop}

theorem Datum.keys_list {items : List (Datum κ σ)} :
    (Datum.list items).Keys K ↔ ∀ v ∈ items, v.Keys K :=
  ⟨fun h => by cases h; assumption, .list⟩

theorem Datum.keys_tuple {items : List (Datum κ σ)} :
    (Datum.tuple items).Keys K ↔ ∀ v ∈ items, v.Keys K :=
  ⟨fun h => by cases h; assumption, .tuple⟩

theorem Datum.keys_mapping {entries : List (PyStr × Datum κ σ)} :
    (Datum.mapping entries).Keys K ↔
      K (entries.map Prod.fst) ∧ ∀ entry ∈ entries, entry.2.Keys K :=
  ⟨fun h => by cases h; exact ⟨by assumption, by assumption⟩, fun h => .mapping h.1 h.2⟩

theorem Datum.keys_record {m : κ} {fields : List (PyStr × Datum κ σ)} :
    (Datum.record m fields).Keys K ↔ ∀ field ∈ fields, field.2.Keys K :=
  ⟨fun h => by cases h; assumption, .record⟩

theorem Datum.Keys.imp {K' : List PyStr → Prop} (himp : ∀ keys, K keys → K' keys) {v : Datum κ σ}
    (h : v.Keys K) : v.Keys K' := by
  induction h with
  | text t => exact .text t
  | scalar s => exact .scalar s
  | list _ ih => exact .list ih
  | tuple _ ih => exact .tuple ih
  | mapping hkeys _ ih => exact .mapping (himp _ hkeys) ih
  | record _ ih => exact .record ih

end Keys

end PwshPy.Records
