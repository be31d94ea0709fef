import Mathlib.Data.List.Nodup

/-! # Ordered mappings

A mapping as the list of its entries, in the order their keys first came. An
assignment to a key that is there replaces its value where it stands.
-/

namespace PwshPy.Storage.Dict

variable {κ α : Type} [DecidableEq κ]

/-- `d[key] = value` -/
def store (key : κ) (value : α) : List (κ × α) → List (κ × α)
  | [] => [(key, value)]
  | (other, old) :: rest =>
      if other = key then (other, value) :: rest else (other, old) :: store key value rest

/-- The mapping that assigning the pairs in turn builds. -/
def ofPairs (pairs : List (κ × α)) : List (κ × α) :=
  pairs.foldl (fun d pair => store pair.1 pair.2 d) []

/-- `dict.fromkeys(keys)`, read back as a sequence: each key once, where it first came. -/
def fromkeys (keys : List κ) : List κ := (ofPairs (keys.map fun key => (key, ()))).map Prod.fst

/-- `d.get(key, key)` -/
def getSelf (d : List (κ × κ)) (key : κ) : κ := (d.lookup key).getD key

variable {d : List (κ × α)} {key : κ} {value : α}

theorem store_of_not_mem (h : key ∉ d.map Prod.fst) : store key value d = d ++ [(key, value)] := by
  induction d with
  | nil => rfl
  | cons entry rest ih =>
      obtain ⟨other, old⟩ := entry
      simp only [List.map_cons, List.mem_cons, not_or] at h
      rw [store, if_neg (Ne.symm h.1), ih h.2]
      rfl

omit [DecidableEq κ] in
theorem nodup_append_of_not_mem (hd : (d.map Prod.fst).Nodup) (h : key ∉ d.map Prod.fst) :
    ((d ++ [(key, value)]).map Prod.fst).Nodup := by
  rw [List.map_append, List.nodup_append]
  refine ⟨hd, List.nodup_singleton _, ?_⟩
  intro a ha b hb hab
  rw [hab, List.mem_singleton.mp hb] at ha
  exact h ha

theorem ofPairs_of_nodup {pairs : List (κ × α)} (h : (pairs.map Prod.fst).Nodup) :
    ofPairs pairs = pairs := by
  suffices hfold : ∀ d : List (κ × α), ((d ++ pairs).map Prod.fst).Nodup →
      pairs.foldl (fun d pair => store pair.1 pair.2 d) d = d ++ pairs from hfold [] h
  intro d hd
  induction pairs generalizing d with
  | nil => simp
  | cons pair rest ih =>
      have hnew : pair.1 ∉ d.map Prod.fst := by
        intro hmem
        rw [List.map_append, List.nodup_append] at hd
        exact hd.2.2 _ hmem _ (by simp) rfl
      have hd' : ((d ++ [pair] ++ rest).map Prod.fst).Nodup := by simpa using hd
      have hrest : (rest.map Prod.fst).Nodup := (List.nodup_cons.mp h).2
      rw [List.foldl_cons, store_of_not_mem hnew, ih hrest _ hd', List.append_assoc]
      rfl

theorem keys_store : (store key value d).map Prod.fst =
    if key ∈ d.map Prod.fst then d.map Prod.fst else d.map Prod.fst ++ [key] := by
  induction d with
  | nil => rfl
  | cons entry rest ih =>
      obtain ⟨other, old⟩ := entry
      by_cases hkey : other = key
      · simp [store, hkey]
      · have hne : key ≠ other := Ne.symm hkey
        simp only [store, if_neg hkey, List.map_cons, ih, List.mem_cons, hne, false_or]
        split <;> rfl

theorem ofPairs_spec (pairs : List (κ × α)) :
    ((ofPairs pairs).map Prod.fst).Nodup ∧
      ∀ key, key ∈ (ofPairs pairs).map Prod.fst ↔ key ∈ pairs.map Prod.fst := by
  suffices hfold : ∀ d : List (κ × α), (d.map Prod.fst).Nodup →
      let built := pairs.foldl (fun d pair => store pair.1 pair.2 d) d
      (built.map Prod.fst).Nodup ∧
        ∀ key, key ∈ built.map Prod.fst ↔ key ∈ d.map Prod.fst ∨ key ∈ pairs.map Prod.fst by
    obtain ⟨hnodup, hmem⟩ := hfold [] List.nodup_nil
    refine ⟨hnodup, ?_⟩
    intro key
    have hkey := hmem key
    rw [List.map_nil] at hkey
    simpa only [ofPairs, List.not_mem_nil, false_or] using hkey
  intro d hd
  induction pairs generalizing d with
  | nil => simp [hd]
  | cons pair rest ih =>
      have hkeys := @keys_store _ _ _ d pair.1 pair.2
      by_cases hpair : pair.1 ∈ d.map Prod.fst
      · rw [if_pos hpair] at hkeys
        obtain ⟨hnodup, hmem⟩ := ih (store pair.1 pair.2 d) (by rwa [hkeys])
        refine ⟨hnodup, ?_⟩
        intro key
        rw [List.foldl_cons, hmem key, hkeys, List.map_cons, List.mem_cons]
        constructor
        · tauto
        · intro h
          by_cases hkey : key = pair.1
          · exact Or.inl (by rwa [hkey])
          · tauto
      · rw [if_neg hpair] at hkeys
        have hnew : ((store pair.1 pair.2 d).map Prod.fst).Nodup := by
          rw [store_of_not_mem hpair]
          exact nodup_append_of_not_mem hd hpair
        obtain ⟨hnodup, hmem⟩ := ih _ hnew
        refine ⟨hnodup, ?_⟩
        intro key
        rw [List.foldl_cons, hmem key, hkeys, List.mem_append, List.mem_singleton, List.map_cons,
          List.mem_cons, or_assoc]

theorem fromkeys_nodup (keys : List κ) : (fromkeys keys).Nodup := (ofPairs_spec _).1

theorem mem_fromkeys {keys : List κ} : key ∈ fromkeys keys ↔ key ∈ keys := by
  rw [fromkeys, (ofPairs_spec _).2 key, List.map_map]
  simp

theorem lookup_of_mem (hnodup : (d.map Prod.fst).Nodup) (h : (key, value) ∈ d) :
    d.lookup key = some value := by
  induction d with
  | nil => cases h
  | cons entry rest ih =>
      obtain ⟨other, old⟩ := entry
      obtain ⟨hfresh, hrest⟩ := List.nodup_cons.mp hnodup
      by_cases hkey : key = other
      · cases List.mem_cons.mp h with
        | inl hhead =>
            cases hhead
            exact List.lookup_cons_self
        | inr hlater =>
            subst hkey
            exact (hfresh (List.mem_map.mpr ⟨(key, value), hlater, rfl⟩)).elim
      · have hmem : (key, value) ∈ rest := by
          cases List.mem_cons.mp h with
          | inl h =>
              cases h
              exact absurd rfl hkey
          | inr h => exact h
        have hbeq : (key == other) = false := beq_eq_false_iff_ne.mpr hkey
        rw [List.lookup_cons, hbeq]
        exact ih hrest hmem

theorem lookup_of_not_mem (h : key ∉ d.map Prod.fst) : d.lookup key = none := by
  rw [List.lookup_eq_none_iff]
  intro pair hpair
  have hne : key ≠ pair.1 := by
    intro heq
    exact h (List.mem_map.mpr ⟨pair, hpair, heq.symm⟩)
  simpa using hne

theorem lookup_store_self : (store key value d).lookup key = some value := by
  induction d with
  | nil => simp [store]
  | cons entry rest ih =>
      obtain ⟨other, old⟩ := entry
      by_cases hkey : other = key
      · simp [store, hkey]
      · have hbeq : (key == other) = false := beq_eq_false_iff_ne.mpr (Ne.symm hkey)
        rw [store, if_neg hkey, List.lookup_cons, hbeq]
        exact ih

theorem lookup_store_of_ne {other : κ} (h : other ≠ key) :
    (store key value d).lookup other = d.lookup other := by
  induction d with
  | nil =>
      have hbeq : (other == key) = false := beq_eq_false_iff_ne.mpr h
      simp [store, List.lookup_cons, hbeq]
  | cons entry rest ih =>
      obtain ⟨name, old⟩ := entry
      by_cases hkey : name = key
      · have hbeq : (other == name) = false := beq_eq_false_iff_ne.mpr (hkey ▸ h)
        rw [store, if_pos hkey, List.lookup_cons, List.lookup_cons, hbeq]
      · rw [store, if_neg hkey, List.lookup_cons, List.lookup_cons, ih]

theorem getSelf_of_mem {d : List (κ × κ)} {name : κ} (hnodup : (d.map Prod.fst).Nodup)
    (h : (key, name) ∈ d) : getSelf d key = name := by
  rw [getSelf, lookup_of_mem hnodup h]
  rfl

theorem getSelf_of_not_mem {d : List (κ × κ)} (h : key ∉ d.map Prod.fst) : getSelf d key = key := by
  rw [getSelf, lookup_of_not_mem h]
  rfl

end PwshPy.Storage.Dict
