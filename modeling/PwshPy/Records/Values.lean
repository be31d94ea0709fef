import PwshPy.Text.Surrogates

/-! # Plain data

What a dumped record or a decoded document is made of: text, other scalars,
lists, tuples, and mappings with text keys, at any depth.
-/

namespace PwshPy.Records

inductive Value (σ : Type) where
  | text (text : PyStr)
  | scalar (s : σ)
  | list (items : List (Value σ))
  | tuple (items : List (Value σ))
  | mapping (entries : List (PyStr × Value σ))

namespace Value

variable {σ : Type}

/-- Induction on plain data, the members of a container at once. -/
@[elab_as_elim, induction_eliminator]
theorem induct {P : Value σ → Prop} (text : ∀ t, P (.text t)) (scalar : ∀ s, P (.scalar s))
    (list : ∀ items, (∀ v ∈ items, P v) → P (.list items))
    (tuple : ∀ items, (∀ v ∈ items, P v) → P (.tuple items))
    (mapping : ∀ entries : List (PyStr × Value σ), (∀ entry ∈ entries, P entry.2) →
      P (.mapping entries)) (v : Value σ) : P v := by
  refine @Value.rec σ P (fun items => ∀ v ∈ items, P v) (fun entries => ∀ entry ∈ entries, P entry.2)
    (fun entry => P entry.2) text scalar list tuple mapping ?_ ?_ ?_ ?_ ?_ v
  · simp
  · intro item rest hitem hrest
    exact List.forall_mem_cons.mpr ⟨hitem, hrest⟩
  · simp
  · intro entry rest hentry hrest
    exact List.forall_mem_cons.mpr ⟨hentry, hrest⟩
  · exact fun _ _ hitem => hitem

/-! ## What holds of every text and every mapping -/

inductive Forall (T : PyStr → Prop) (K : List PyStr → Prop) : Value σ → Prop
  | text {t : PyStr} : T t → Forall T K (.text t)
  | scalar (s : σ) : Forall T K (.scalar s)
  | list {items : List (Value σ)} : (∀ v ∈ items, Forall T K v) → Forall T K (.list items)
  | tuple {items : List (Value σ)} : (∀ v ∈ items, Forall T K v) → Forall T K (.tuple items)
  | mapping {entries : List (PyStr × Value σ)} : K (entries.map Prod.fst) →
      (∀ entry ∈ entries, Forall T K entry.2) → Forall T K (.mapping entries)

/-- The keys of each mapping are distinct, as in every `dict`. -/
abbrev Keyed (v : Value σ) : Prop := v.Forall (fun _ => True) List.Nodup

/-- No text and no key holds a surrogate. -/
abbrev Clean (v : Value σ) : Prop :=
  v.Forall (fun t => has_surrogate t = false) fun keys => ∀ key ∈ keys, has_surrogate key = false

section Forall

variable {T : PyStr → Prop} {K : List PyStr → Prop}

theorem forall_text {t : PyStr} : (text t : Value σ).Forall T K ↔ T t :=
  ⟨fun h => by cases h; assumption, .text⟩

theorem forall_list {items : List (Value σ)} :
    (list items).Forall T K ↔ ∀ v ∈ items, v.Forall T K :=
  ⟨fun h => by cases h; assumption, .list⟩

theorem forall_tuple {items : List (Value σ)} :
    (tuple items).Forall T K ↔ ∀ v ∈ items, v.Forall T K :=
  ⟨fun h => by cases h; assumption, .tuple⟩

theorem forall_mapping {entries : List (PyStr × Value σ)} : (mapping entries).Forall T K ↔
    K (entries.map Prod.fst) ∧ ∀ entry ∈ entries, entry.2.Forall T K :=
  ⟨fun h => by cases h; exact ⟨by assumption, by assumption⟩, fun h => .mapping h.1 h.2⟩

theorem Forall.imp {T' : PyStr → Prop} {K' : List PyStr → Prop} {v : Value σ} (h : v.Forall T K)
    (htext : ∀ t, T t → T' t) (hkeys : ∀ keys, K keys → K' keys) : v.Forall T' K' := by
  induction h with
  | text ht => exact .text (htext _ ht)
  | scalar s => exact .scalar s
  | list _ ih => exact .list ih
  | tuple _ ih => exact .tuple ih
  | mapping hk _ ih => exact .mapping (hkeys _ hk) ih

end Forall

/-! ## Tuples read as lists -/

mutual

/-- The data with each tuple read as a list, as in JSON. -/
def listed : Value σ → Value σ
  | .text t => .text t
  | .scalar s => .scalar s
  | .list items => .list (listedItems items)
  | .tuple items => .list (listedItems items)
  | .mapping entries => .mapping (listedEntries entries)

def listedItems : List (Value σ) → List (Value σ)
  | [] => []
  | v :: rest => v.listed :: listedItems rest

def listedEntries : List (PyStr × Value σ) → List (PyStr × Value σ)
  | [] => []
  | (key, v) :: rest => (key, v.listed) :: listedEntries rest

end

theorem listedItems_eq (items : List (Value σ)) : listedItems items = items.map listed := by
  induction items with
  | nil => rfl
  | cons v rest ih => rw [listedItems, ih, List.map_cons]

theorem listedEntries_eq (entries : List (PyStr × Value σ)) :
    listedEntries entries = entries.map fun entry => (entry.1, entry.2.listed) := by
  induction entries with
  | nil => rfl
  | cons entry rest ih => rw [listedEntries, ih, List.map_cons]

@[simp]
theorem listed_list (items : List (Value σ)) : (list items).listed = list (items.map listed) := by
  rw [listed, listedItems_eq]

@[simp]
theorem listed_tuple (items : List (Value σ)) : (tuple items).listed = list (items.map listed) := by
  rw [listed, listedItems_eq]

@[simp]
theorem listed_mapping (entries : List (PyStr × Value σ)) : (mapping entries).listed =
    mapping (entries.map fun entry => (entry.1, entry.2.listed)) := by
  rw [listed, listedEntries_eq]

/-! ## Places -/

def children : Value σ → List (Value σ)
  | .text _ => []
  | .scalar _ => []
  | .list items => items
  | .tuple items => items
  | .mapping entries => entries.map Prod.snd

/-- What stands at a place: the position in each container on the way down. -/
def at_place (v : Value σ) : List Nat → Option (Value σ)
  | [] => some v
  | n :: place => (v.children[n]?).bind (·.at_place place)

theorem children_listed (v : Value σ) : v.listed.children = v.children.map listed := by
  cases v <;> simp [children, listed, listedItems_eq, listedEntries_eq]

theorem at_place_listed (v : Value σ) (place : List Nat) :
    v.listed.at_place place = (v.at_place place).map listed := by
  induction place generalizing v with
  | nil => rfl
  | cons n place ih =>
      rw [at_place, at_place, children_listed, List.getElem?_map]
      cases v.children[n]? with
      | none => rfl
      | some child => exact ih child

end Value

end PwshPy.Records
