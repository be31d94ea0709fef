import PwshPy.Hosted.Marshal

/-! # What a graph unfolds to

A value from which every call answers and no cycle is met is a finite tree. Marshaling returns that
tree, as dicts store it, exactly where the frames are enough for it.
-/

namespace PwshPy.Hosted

open Storage Raises

/-! ## What a value unfolds to -/

/-- What `_marshal_value` and `_marshal` are called on. -/
inductive Subject (size : Nat) where
  | value (v : NetValue size)
  | ps_object (o : PSObject size)

/-- A name or key, the value under it and what that unfolds to. -/
structure Entry (size : Nat) where
  key : PyStr
  value : NetValue size
  tree : Marshaled

/-- The calls that answered. -/
def Entry.answers {size : Nat} (e : Entry size) : Read PyStr × Read (NetValue size) :=
  (.ok e.key, .ok e.value)

def Entry.returned {size : Nat} (e : Entry size) : PyStr × Marshaled := (e.key, e.tree)

structure Item (size : Nat) where
  value : NetValue size
  tree : Marshaled

section Unfolds

variable (graph : Graph) (comprehension : Nat)

/-- Every call below answers and no cycle is met: the value is a finite tree, and so many frames are
enough to walk it. Names, nesting and order are those of the graph. -/
inductive Unfolds : Nat → Subject graph.size → Marshaled → Prop
  | primitive {frames : Nat} (p : Primitive) : 0 < frames →
      Unfolds frames (.value (.primitive p)) (.primitive p)
  | object {frames left : Nat} {place : Fin graph.size} {o : PSObject graph.size} {t : Marshaled} :
      graph.object place = .ps_object o → left + 1 = frames → Unfolds left (.ps_object o) t →
      Unfolds frames (.value (.object place)) t
  | dictionary {frames left : Nat} {place : Fin graph.size} (entries : List (Entry graph.size)) :
      graph.object place = .dictionary (entries.map (·.answers)) →
      left + comprehension + 1 = frames →
      (∀ e ∈ entries, Unfolds left (.value e.value) e.tree) →
      Unfolds frames (.value (.object place)) (.dict (entries.map (·.returned)))
  | enumerable {frames left : Nat} {place : Fin graph.size} (items : List (Item graph.size)) :
      graph.object place = .enumerable (items.map fun item => .ok item.value) →
      left + comprehension + 1 = frames →
      (∀ item ∈ items, Unfolds left (.value item.value) item.tree) →
      Unfolds frames (.value (.object place)) (.list (items.map (·.tree)))
  | other {frames : Nat} {place : Fin graph.size} {text : PyStr} :
      graph.object place = .other (.ok text) → 0 < frames →
      Unfolds frames (.value (.object place)) (.primitive (.str text))
  | wrapped {frames : Nat} {o : PSObject graph.size} {p : Primitive} : o.base = some p →
      0 < frames → Unfolds frames (.ps_object o) (.primitive p)
  | record {frames left : Nat} {o : PSObject graph.size} (entries : List (Entry graph.size)) :
      o.base = none → o.properties = entries.map (·.answers) → left + comprehension + 1 = frames →
      (∀ e ∈ entries, Unfolds left (.value e.value) e.tree) →
      Unfolds frames (.ps_object o) (.record o.type_name (entries.map (·.returned)))

end Unfolds

section Inversion

variable {graph : Graph} {comprehension frames : Nat} {place : Fin graph.size} {t : Marshaled}

theorem Unfolds.frames_pos {subject : Subject graph.size}
    (h : Unfolds graph comprehension frames subject t) : 0 < frames := by
  cases h <;> omega

theorem Unfolds.frames_succ {subject : Subject graph.size}
    (h : Unfolds graph comprehension frames subject t) : ∃ left, frames = left + 1 :=
  Nat.exists_eq_add_one.mpr h.frames_pos

theorem Unfolds.of_ps_object {o : PSObject graph.size}
    (h : Unfolds graph comprehension (frames + 1) (.value (.object place)) t)
    (hobject : graph.object place = .ps_object o) :
    Unfolds graph comprehension frames (.ps_object o) t := by
  cases h with
  | object hplace hframes hunfolds =>
      rw [hobject] at hplace
      cases hplace
      cases hframes
      exact hunfolds
  | dictionary _ hplace _ _ =>
      rw [hobject] at hplace
      cases hplace
  | enumerable _ hplace _ _ =>
      rw [hobject] at hplace
      cases hplace
  | other hplace _ =>
      rw [hobject] at hplace
      cases hplace

theorem Unfolds.of_dictionary {pairs : List (Read PyStr × Read (NetValue graph.size))}
    (h : Unfolds graph comprehension (frames + 1) (.value (.object place)) t)
    (hobject : graph.object place = .dictionary pairs) :
    comprehension ≤ frames ∧ ∃ entries : List (Entry graph.size), pairs = entries.map (·.answers) ∧
      (∀ e ∈ entries, Unfolds graph comprehension (frames - comprehension) (.value e.value) e.tree) ∧
      t = .dict (entries.map (·.returned)) := by
  cases h with
  | object hplace _ _ =>
      rw [hobject] at hplace
      cases hplace
  | @dictionary _ left _ entries hplace hframes hall =>
      rw [hobject] at hplace
      cases hplace
      have hleft : left = frames - comprehension := by omega
      subst hleft
      exact ⟨by omega, entries, rfl, hall, rfl⟩
  | enumerable _ hplace _ _ =>
      rw [hobject] at hplace
      cases hplace
  | other hplace _ =>
      rw [hobject] at hplace
      cases hplace

theorem Unfolds.of_enumerable {values : List (Read (NetValue graph.size))}
    (h : Unfolds graph comprehension (frames + 1) (.value (.object place)) t)
    (hobject : graph.object place = .enumerable values) :
    comprehension ≤ frames ∧ ∃ held : List (Item graph.size),
      values = held.map (fun item => .ok item.value) ∧
      (∀ item ∈ held,
        Unfolds graph comprehension (frames - comprehension) (.value item.value) item.tree) ∧
      t = .list (held.map (·.tree)) := by
  cases h with
  | object hplace _ _ =>
      rw [hobject] at hplace
      cases hplace
  | dictionary _ hplace _ _ =>
      rw [hobject] at hplace
      cases hplace
  | @enumerable _ left _ held hplace hframes hall =>
      rw [hobject] at hplace
      cases hplace
      have hleft : left = frames - comprehension := by omega
      subst hleft
      exact ⟨by omega, held, rfl, hall, rfl⟩
  | other hplace _ =>
      rw [hobject] at hplace
      cases hplace

theorem Unfolds.of_other {text : Read PyStr}
    (h : Unfolds graph comprehension (frames + 1) (.value (.object place)) t)
    (hobject : graph.object place = .other text) :
    ∃ s, text = .ok s ∧ t = .primitive (.str s) := by
  cases h with
  | object hplace _ _ =>
      rw [hobject] at hplace
      cases hplace
  | dictionary _ hplace _ _ =>
      rw [hobject] at hplace
      cases hplace
  | enumerable _ hplace _ _ =>
      rw [hobject] at hplace
      cases hplace
  | other hplace _ =>
      rw [hobject] at hplace
      cases hplace
      exact ⟨_, rfl, rfl⟩

theorem Unfolds.of_wrapped {o : PSObject graph.size} {p : Primitive}
    (h : Unfolds graph comprehension frames (.ps_object o) t) (hbase : o.base = some p) :
    t = .primitive p := by
  cases h with
  | wrapped hother _ =>
      rw [hbase] at hother
      cases hother
      rfl
  | record _ hnone _ _ _ =>
      rw [hbase] at hnone
      cases hnone

theorem Unfolds.of_record {o : PSObject graph.size}
    (h : Unfolds graph comprehension (frames + 1) (.ps_object o) t) (hbase : o.base = none) :
    comprehension ≤ frames ∧ ∃ entries : List (Entry graph.size),
      o.properties = entries.map (·.answers) ∧
      (∀ e ∈ entries, Unfolds graph comprehension (frames - comprehension) (.value e.value) e.tree) ∧
      t = .record o.type_name (entries.map (·.returned)) := by
  cases h with
  | wrapped hsome _ =>
      rw [hbase] at hsome
      cases hsome
  | @record _ left _ entries _ hproperties hframes hall =>
      have hleft : left = frames - comprehension := by omega
      subst hleft
      exact ⟨by omega, entries, hproperties, hall, rfl⟩

end Inversion

mutual

/-- The tree as dicts hold it: of equal keys the first stays, with the last value. -/
def Marshaled.stored : Marshaled → Marshaled
  | .primitive p => .primitive p
  | .record type_name properties => .record type_name (Dict.ofPairs (stored_entries properties))
  | .dict entries => .dict (Dict.ofPairs (stored_entries entries))
  | .list items => .list (stored_items items)

def stored_entries : List (PyStr × Marshaled) → List (PyStr × Marshaled)
  | [] => []
  | (key, t) :: rest => (key, t.stored) :: stored_entries rest

def stored_items : List Marshaled → List Marshaled
  | [] => []
  | t :: rest => t.stored :: stored_items rest

end

theorem stored_entries_eq (entries : List (PyStr × Marshaled)) :
    stored_entries entries = entries.map fun entry => (entry.1, entry.2.stored) := by
  induction entries with
  | nil => rfl
  | cons entry rest ih => rw [stored_entries, ih, List.map_cons]

theorem stored_items_eq (items : List Marshaled) :
    stored_items items = items.map (·.stored) := by
  induction items with
  | nil => rfl
  | cons t rest ih => rw [stored_items, ih, List.map_cons]

/-! ## Marshaling returns what unfolds -/

theorem read_eq_ok {α : Type} {x : Read α} {a : α} : read x = .ok a ↔ x = .ok a := by
  cases x with
  | error e => simp [read]
  | ok b => simp [read]

theorem stopped_eq_ok {α : Type} {enough : Prop} [Decidable enough] {x : Except Raised α} {a : α} :
    (if enough then x else .error .recursion_error) = .ok a ↔ enough ∧ x = .ok a := by
  by_cases h : enough <;> simp [h]

section Members

variable {size : Nat} {inner : NetValue size → Except Raised Marshaled}
  {Q : NetValue size → Marshaled → Prop}

theorem members_eq_ok
    (hvalue : ∀ v m, inner v = .ok m ↔ ∃ t, Q v t ∧ m = t.stored)
    {pairs : List (Read PyStr × Read (NetValue size))} {out : List (PyStr × Marshaled)} :
    members inner pairs = .ok out ↔ ∃ entries : List (Entry size),
      pairs = entries.map (·.answers) ∧ (∀ e ∈ entries, Q e.value e.tree) ∧
        out = stored_entries (entries.map (·.returned)) := by
  induction pairs generalizing out with
  | nil =>
      constructor
      · intro h
        cases h
        exact ⟨[], rfl, by simp, rfl⟩
      · intro h
        obtain ⟨entries, hpairs, -, rfl⟩ := h
        rw [List.map_eq_nil_iff.mp hpairs.symm]
        rfl
  | cons pair rest ih =>
      obtain ⟨key, value⟩ := pair
      rw [members]
      simp only [bind_eq_ok, read_eq_ok, hvalue, ih]
      constructor
      · intro h
        obtain ⟨key, rfl, value, rfl, m, ⟨t, ht, rfl⟩, out, ⟨entries, rfl, hall, rfl⟩, h⟩ := h
        cases h
        exact ⟨⟨key, value, t⟩ :: entries, rfl, List.forall_mem_cons.mpr ⟨ht, hall⟩, rfl⟩
      · intro h
        obtain ⟨entries, hpairs, hall, rfl⟩ := h
        cases entries with
        | nil => cases hpairs
        | cons e entries =>
            cases hpairs
            have hall := List.forall_mem_cons.mp hall
            exact ⟨e.key, rfl, e.value, rfl, _, ⟨e.tree, hall.1, rfl⟩, _,
              ⟨entries, rfl, hall.2, rfl⟩, rfl⟩

theorem items_eq_ok
    (hvalue : ∀ v m, inner v = .ok m ↔ ∃ t, Q v t ∧ m = t.stored)
    {values : List (Read (NetValue size))} {out : List Marshaled} :
    items inner values = .ok out ↔ ∃ held : List (Item size),
      values = held.map (fun item => .ok item.value) ∧ (∀ item ∈ held, Q item.value item.tree) ∧
        out = stored_items (held.map (·.tree)) := by
  induction values generalizing out with
  | nil =>
      constructor
      · intro h
        cases h
        exact ⟨[], rfl, by simp, rfl⟩
      · intro h
        obtain ⟨held, hvalues, -, rfl⟩ := h
        rw [List.map_eq_nil_iff.mp hvalues.symm]
        rfl
  | cons value rest ih =>
      rw [items]
      simp only [bind_eq_ok, read_eq_ok, hvalue, ih]
      constructor
      · intro h
        obtain ⟨value, rfl, m, ⟨t, ht, rfl⟩, out, ⟨held, rfl, hall, rfl⟩, h⟩ := h
        cases h
        exact ⟨⟨value, t⟩ :: held, rfl, List.forall_mem_cons.mpr ⟨ht, hall⟩, rfl⟩
      · intro h
        obtain ⟨held, hvalues, hall, rfl⟩ := h
        cases held with
        | nil => cases hvalues
        | cons item held =>
            cases hvalues
            have hall := List.forall_mem_cons.mp hall
            exact ⟨item.value, rfl, _, ⟨item.tree, hall.1, rfl⟩, _, ⟨held, rfl, hall.2, rfl⟩, rfl⟩

end Members

section Exact

variable {graph : Graph} {comprehension frames : Nat}

/-- `_marshal_value` returns what unfolds, and nothing where the frames run out. -/
def ValuesExact (graph : Graph) (comprehension frames : Nat) : Prop :=
  ∀ v m, marshal_value graph comprehension frames v = .ok m ↔
    ∃ t, Unfolds graph comprehension frames (.value v) t ∧ m = t.stored

/-- `_marshal` does. -/
def ObjectsExact (graph : Graph) (comprehension frames : Nat) : Prop :=
  ∀ o m, marshal graph comprehension frames o = .ok m ↔
    ∃ t, Unfolds graph comprehension frames (.ps_object o) t ∧ m = t.stored

theorem valuesExact_zero : ValuesExact graph comprehension 0 := by
  intro v m
  rw [marshal_value]
  constructor
  · intro h
    cases h
  · intro h
    obtain ⟨t, hunfolds, -⟩ := h
    exact absurd hunfolds.frames_pos (Nat.lt_irrefl 0)

theorem objectsExact_zero : ObjectsExact graph comprehension 0 := by
  intro o m
  rw [marshal]
  constructor
  · intro h
    cases h
  · intro h
    obtain ⟨t, hunfolds, -⟩ := h
    exact absurd hunfolds.frames_pos (Nat.lt_irrefl 0)

theorem objectsExact_succ (hinner : ValuesExact graph comprehension (frames - comprehension)) :
    ObjectsExact graph comprehension (frames + 1) := by
  intro o m
  rw [marshal]
  split
  · rename_i p hbase
    constructor
    · intro h
      cases h
      exact ⟨_, .wrapped hbase (Nat.succ_pos _), rfl⟩
    · intro h
      obtain ⟨t, hunfolds, rfl⟩ := h
      rw [hunfolds.of_wrapped hbase]
      rfl
  · rename_i hbase
    rw [stopped_eq_ok, bind_eq_ok]
    constructor
    · intro h
      obtain ⟨hframes, out, hout, h⟩ := h
      cases h
      obtain ⟨entries, hproperties, hall, rfl⟩ := (members_eq_ok hinner).mp hout
      refine ⟨_, .record entries hbase hproperties (by omega) hall, ?_⟩
      rw [Marshaled.stored]
    · intro h
      obtain ⟨t, hunfolds, rfl⟩ := h
      obtain ⟨hframes, entries, hproperties, hall, rfl⟩ := hunfolds.of_record hbase
      refine ⟨hframes, _, (members_eq_ok hinner).mpr ⟨entries, hproperties, hall, rfl⟩, ?_⟩
      rw [Marshaled.stored]

theorem marshal_value_dictionary {place : Fin graph.size}
    {pairs : List (Read PyStr × Read (NetValue graph.size))} {m : Marshaled}
    (hinner : ValuesExact graph comprehension (frames - comprehension))
    (hobject : graph.object place = .dictionary pairs) :
    marshal_value graph comprehension (frames + 1) (.object place) = .ok m ↔
      ∃ t, Unfolds graph comprehension (frames + 1) (.value (.object place)) t ∧ m = t.stored := by
  rw [marshal_value, hobject]
  dsimp only
  rw [stopped_eq_ok, bind_eq_ok]
  constructor
  · intro h
    obtain ⟨hframes, out, hout, h⟩ := h
    cases h
    obtain ⟨entries, rfl, hall, rfl⟩ := (members_eq_ok hinner).mp hout
    refine ⟨_, .dictionary entries hobject (by omega) hall, ?_⟩
    rw [Marshaled.stored]
  · intro h
    obtain ⟨t, hunfolds, rfl⟩ := h
    obtain ⟨hframes, entries, rfl, hall, rfl⟩ := hunfolds.of_dictionary hobject
    refine ⟨hframes, _, (members_eq_ok hinner).mpr ⟨entries, rfl, hall, rfl⟩, ?_⟩
    rw [Marshaled.stored]

theorem marshal_value_enumerable {place : Fin graph.size}
    {values : List (Read (NetValue graph.size))} {m : Marshaled}
    (hinner : ValuesExact graph comprehension (frames - comprehension))
    (hobject : graph.object place = .enumerable values) :
    marshal_value graph comprehension (frames + 1) (.object place) = .ok m ↔
      ∃ t, Unfolds graph comprehension (frames + 1) (.value (.object place)) t ∧ m = t.stored := by
  rw [marshal_value, hobject]
  dsimp only
  rw [stopped_eq_ok, bind_eq_ok]
  constructor
  · intro h
    obtain ⟨hframes, out, hout, h⟩ := h
    cases h
    obtain ⟨held, rfl, hall, rfl⟩ := (items_eq_ok hinner).mp hout
    refine ⟨_, .enumerable held hobject (by omega) hall, ?_⟩
    rw [Marshaled.stored]
  · intro h
    obtain ⟨t, hunfolds, rfl⟩ := h
    obtain ⟨hframes, held, rfl, hall, rfl⟩ := hunfolds.of_enumerable hobject
    refine ⟨hframes, _, (items_eq_ok hinner).mpr ⟨held, rfl, hall, rfl⟩, ?_⟩
    rw [Marshaled.stored]

theorem valuesExact_succ (hobjects : ObjectsExact graph comprehension frames)
    (hinner : ValuesExact graph comprehension (frames - comprehension)) :
    ValuesExact graph comprehension (frames + 1) := by
  intro v m
  cases v with
  | primitive p =>
      rw [marshal_value]
      constructor
      · intro h
        cases h
        exact ⟨_, .primitive p (Nat.succ_pos _), rfl⟩
      · intro h
        obtain ⟨t, hunfolds, rfl⟩ := h
        cases hunfolds
        rfl
  | object place =>
      cases hobject : graph.object place with
      | ps_object o =>
          rw [marshal_value, hobject]
          dsimp only
          rw [hobjects]
          constructor
          · intro h
            obtain ⟨t, hunfolds, hm⟩ := h
            exact ⟨t, .object hobject rfl hunfolds, hm⟩
          · intro h
            obtain ⟨t, hunfolds, hm⟩ := h
            exact ⟨t, hunfolds.of_ps_object hobject, hm⟩
      | dictionary pairs => exact marshal_value_dictionary hinner hobject
      | enumerable values => exact marshal_value_enumerable hinner hobject
      | other text =>
          rw [marshal_value, hobject]
          dsimp only
          rw [bind_eq_ok]
          constructor
          · intro h
            obtain ⟨s, hs, h⟩ := h
            cases h
            rw [read_eq_ok.mp hs] at hobject
            exact ⟨_, .other hobject (Nat.succ_pos _), rfl⟩
          · intro h
            obtain ⟨t, hunfolds, rfl⟩ := h
            obtain ⟨s, rfl, rfl⟩ := hunfolds.of_other hobject
            exact ⟨s, rfl, rfl⟩

/-- Marshaling returns a value exactly when the frames are enough for the tree it unfolds to. -/
theorem marshal_exact (graph : Graph) (comprehension frames : Nat) :
    ValuesExact graph comprehension frames ∧ ObjectsExact graph comprehension frames := by
  induction frames using Nat.strong_induction_on with
  | _ frames ih =>
      cases frames with
      | zero => exact ⟨valuesExact_zero, objectsExact_zero⟩
      | succ frames =>
          have hinner := (ih (frames - comprehension) (by omega)).1
          exact ⟨valuesExact_succ (ih frames (Nat.lt_succ_self _)).2 hinner,
            objectsExact_succ hinner⟩

end Exact

end PwshPy.Hosted
