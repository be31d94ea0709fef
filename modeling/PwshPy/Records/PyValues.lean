import PwshPy.Records.Repair

/-! # Python values and what orjson reads of them

A value is met twice: orjson tells its class apart in its own way, and the repair asks
`isinstance`. With `default=str` an object that orjson does not write is its own text, so a reading
holds nothing but texts, scalars, arrays and objects.
-/

namespace PwshPy.Records

open Storage

/-- A key of a mapping. A `str` of a subclass is a text if it holds a surrogate; else it is any
other key, which orjson refuses. -/
inductive Key (κ : Type) where
  | text (t : PyStr)
  | other (k : κ)
  deriving DecidableEq

/-- What orjson reads a value as: an enum as its value, a dataclass as its fields, an object it does
not write as its text. -/
inductive Reading (κ σ : Type) where
  | text (t : PyStr)
  | scalar (s : σ)
  | list (items : List (Reading κ σ))
  /-- in the order the entries are stored in -/
  | mapping (entries : List (Key κ × Reading κ σ))

/-- A value as `isinstance` tells it apart, with what orjson reads it as where that is not what the
members are read as. -/
inductive PyValue (κ σ : Type) where
  /-- a `str`, an enum among them read as its value -/
  | text (own : Option (Reading κ σ)) (t : PyStr)
  /-- a `Mapping` and its `items()`; one that is no `dict` is read as its text, an `OrderedDict`
  in another order once its entries were moved -/
  | mapping (own : Option (Reading κ σ)) (entries : List (Key κ × PyValue κ σ))
  /-- a `list` or a `tuple`; a tuple of a subclass is read as its text -/
  | sequence (own : Option (Reading κ σ)) (items : List (PyValue κ σ))
  /-- `None`, a `bool`, an `int` or a `float`; a float of a subclass is read as its text -/
  | number (own : Reading κ σ)
  /-- any other object, with its `str()` unless that raises -/
  | leaf (shown : Option PyStr) (own : Reading κ σ)

variable {κ σ : Type}

/-- Induction on readings, the members of a container at once. -/
@[elab_as_elim, induction_eliminator]
theorem Reading.induct {P : Reading κ σ → Prop} (text : ∀ t, P (.text t))
    (scalar : ∀ s, P (.scalar s)) (list : ∀ items, (∀ r ∈ items, P r) → P (.list items))
    (mapping : ∀ entries : List (Key κ × Reading κ σ), (∀ entry ∈ entries, P entry.2) →
      P (.mapping entries)) (r : Reading κ σ) : P r := by
  refine @Reading.rec κ σ P (fun items => ∀ r ∈ items, P r)
    (fun entries => ∀ entry ∈ entries, P entry.2) (fun entry => P entry.2) text scalar list mapping ?_ ?_ ?_ ?_ ?_ r
  · simp
  · intro item rest hitem hrest
    exact List.forall_mem_cons.mpr ⟨hitem, hrest⟩
  · simp
  · intro entry rest hentry hrest
    exact List.forall_mem_cons.mpr ⟨hentry, hrest⟩
  · exact fun _ _ hitem => hitem

namespace PyValue

/-- Induction on Python values, the members of a container at once. -/
@[elab_as_elim, induction_eliminator]
theorem induct {P : PyValue κ σ → Prop} (text : ∀ own t, P (.text own t))
    (mapping : ∀ own (entries : List (Key κ × PyValue κ σ)), (∀ entry ∈ entries, P entry.2) →
      P (.mapping own entries))
    (sequence : ∀ own items, (∀ v ∈ items, P v) → P (.sequence own items))
    (number : ∀ own, P (.number own)) (leaf : ∀ shown own, P (.leaf shown own))
    (v : PyValue κ σ) : P v := by
  refine @PyValue.rec κ σ P (fun entries => ∀ entry ∈ entries, P entry.2)
    (fun items => ∀ v ∈ items, P v) (fun entry => P entry.2) text mapping sequence number leaf ?_ ?_ ?_ ?_ ?_ v
  · simp
  · intro entry rest hentry hrest
    exact List.forall_mem_cons.mpr ⟨hentry, hrest⟩
  · simp
  · intro item rest hitem hrest
    exact List.forall_mem_cons.mpr ⟨hitem, hrest⟩
  · exact fun _ _ hitem => hitem

/-- The keys that each mapping's `items()` gives are distinct. -/
inductive Keyed : PyValue κ σ → Prop
  | text (own : Option (Reading κ σ)) (t : PyStr) : Keyed (.text own t)
  | mapping (own : Option (Reading κ σ)) {entries : List (Key κ × PyValue κ σ)}
      (keys : (entries.map Prod.fst).Nodup) (each : ∀ entry ∈ entries, Keyed entry.2) :
      Keyed (.mapping own entries)
  | sequence (own : Option (Reading κ σ)) {items : List (PyValue κ σ)}
      (each : ∀ v ∈ items, Keyed v) : Keyed (.sequence own items)
  | number (own : Reading κ σ) : Keyed (.number own)
  | leaf (shown : Option PyStr) (own : Reading κ σ) : Keyed (.leaf shown own)

mutual

/-- What orjson reads. -/
def read : PyValue κ σ → Reading κ σ
  | .text own t => own.getD (.text t)
  | .mapping own entries => own.getD (.mapping (read_entries entries))
  | .sequence own items => own.getD (.list (read_items items))
  | .number own => own
  | .leaf _ own => own

def read_entries : List (Key κ × PyValue κ σ) → List (Key κ × Reading κ σ)
  | [] => []
  | (key, item) :: rest => (key, read item) :: read_entries rest

def read_items : List (PyValue κ σ) → List (Reading κ σ)
  | [] => []
  | item :: rest => read item :: read_items rest

end

theorem read_entries_eq (entries : List (Key κ × PyValue κ σ)) :
    read_entries entries = entries.map fun entry => (entry.1, entry.2.read) := by
  induction entries with
  | nil => rfl
  | cons entry rest ih => rw [read_entries, ih, List.map_cons]

theorem read_items_eq (items : List (PyValue κ σ)) : read_items items = items.map read := by
  induction items with
  | nil => rfl
  | cons item rest ih => rw [read_items, ih, List.map_cons]

end PyValue

/-! ## `orjson.dumps(value, default=str)` -/

/-- A text, unless it holds a surrogate. -/
def write_text (t : PyStr) : Option (Value σ) := if has_surrogate t then none else some (.text t)

def write_key : Key κ → Option PyStr
  | .text t => if has_surrogate t then none else some t
  | .other _ => none

section Dumps

-- The scalars that orjson writes: an integer has 64 bits at most.
variable (fits : σ → Bool)

mutual

/-- What is written; its bytes, compact or indented, are those of this and of nothing else. `none`
for a `JSONEncodeError`. -/
def dumps : Reading κ σ → Option (Value σ)
  | .text t => write_text t
  | .scalar s => if fits s then some (.scalar s) else none
  | .list items => (dumps_items items).map .list
  | .mapping entries => (dumps_entries entries).map .mapping

def dumps_items : List (Reading κ σ) → Option (List (Value σ))
  | [] => some []
  | item :: rest => do
      let first ← dumps item
      let later ← dumps_items rest
      some (first :: later)

def dumps_entries : List (Key κ × Reading κ σ) → Option (List (PyStr × Value σ))
  | [] => some []
  | (key, item) :: rest => do
      let name ← write_key key
      let first ← dumps item
      let later ← dumps_entries rest
      some ((name, first) :: later)

end

variable {fits}

theorem dumps_items_eq_some {items : List (Reading κ σ)} {docs : List (Value σ)} :
    dumps_items fits items = some docs ↔
      List.Forall₂ (fun r doc => dumps fits r = some doc) items docs := by
  induction items generalizing docs with
  | nil =>
      rw [dumps_items, List.forall₂_nil_left_iff, Option.some.injEq]
      exact eq_comm
  | cons item rest ih =>
      simp only [dumps_items, Option.bind_eq_bind, Option.bind_eq_some_iff, Option.some.injEq,
        List.forall₂_cons_left_iff, ih]
      constructor
      · rintro ⟨first, hfirst, later, hlater, rfl⟩
        exact ⟨first, later, hfirst, hlater, rfl⟩
      · rintro ⟨first, later, hfirst, hlater, rfl⟩
        exact ⟨first, hfirst, later, hlater, rfl⟩

theorem dumps_entries_eq_some {entries : List (Key κ × Reading κ σ)}
    {docs : List (PyStr × Value σ)} :
    dumps_entries fits entries = some docs ↔ List.Forall₂ (fun entry doc =>
      write_key entry.1 = some doc.1 ∧ dumps fits entry.2 = some doc.2) entries docs := by
  induction entries generalizing docs with
  | nil =>
      rw [dumps_entries, List.forall₂_nil_left_iff, Option.some.injEq]
      exact eq_comm
  | cons entry rest ih =>
      simp only [dumps_entries, Option.bind_eq_bind, Option.bind_eq_some_iff, Option.some.injEq,
        List.forall₂_cons_left_iff, ih]
      constructor
      · rintro ⟨name, hname, first, hfirst, later, hlater, rfl⟩
        exact ⟨(name, first), later, ⟨hname, hfirst⟩, hlater, rfl⟩
      · rintro ⟨⟨name, first⟩, later, ⟨hname, hfirst⟩, hlater, rfl⟩
        exact ⟨name, hname, first, hfirst, later, hlater, rfl⟩

end Dumps

/-! ## The same reading without surrogates -/

/-- The keys that are a `str`. -/
def texts (keys : List (Key κ)) : List PyStr :=
  keys.filterMap fun
    | .text t => some t
    | .other _ => none

/-- `repaired_key_names` of a mapping's keys -/
def renamed_of (keys : List (Key κ)) : List (PyStr × PyStr) := repaired_key_names (texts keys)

/-- `renamed.get(key, key)` -/
def renamed_key (renamed : List (PyStr × PyStr)) : Key κ → Key κ
  | .text t => .text (Dict.getSelf renamed t)
  | .other k => .other k

/-- The names of a mapping's keys, as they are repaired. -/
def repaired_names (keys : List (Key κ)) : List (Key κ) := keys.map (renamed_key (renamed_of keys))

mutual

/-- The reading with the surrogates of its texts and its keys replaced. -/
def mended : Reading κ σ → Reading κ σ
  | .text t => .text (replace_surrogates t)
  | .scalar s => .scalar s
  | .list items => .list (mended_items items)
  | .mapping entries => .mapping (mended_entries (renamed_of (entries.map Prod.fst)) entries)

def mended_items : List (Reading κ σ) → List (Reading κ σ)
  | [] => []
  | item :: rest => mended item :: mended_items rest

def mended_entries (renamed : List (PyStr × PyStr)) :
    List (Key κ × Reading κ σ) → List (Key κ × Reading κ σ)
  | [] => []
  | (key, item) :: rest => (renamed_key renamed key, mended item) :: mended_entries renamed rest

end

theorem mended_items_eq (items : List (Reading κ σ)) : mended_items items = items.map mended := by
  induction items with
  | nil => rfl
  | cons item rest ih => rw [mended_items, ih, List.map_cons]

theorem mended_entries_eq (renamed : List (PyStr × PyStr)) (entries : List (Key κ × Reading κ σ)) :
    mended_entries renamed entries =
      entries.map fun entry => (renamed_key renamed entry.1, mended entry.2) := by
  induction entries with
  | nil => rfl
  | cons entry rest ih => rw [mended_entries, ih, List.map_cons]

end PwshPy.Records
