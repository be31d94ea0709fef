import PwshPy.Records.Values

/-! # Repairing plain data

The output layer writes each lone surrogate in a text or a key as U+FFFD and
collects the dotted paths of what it replaced. A tuple comes back as a list.
-/

namespace PwshPy.Records

open Storage

/-! ## The repairer -/

/-- `str.isprintable` of an ASCII character. -/
def isprintable (c : Nat) : Bool := 0x20 ≤ c && c ≤ 0x7e

/-- `_ascii` -/
def ascii (segment : PyStr) : PyStr :=
  segment.map fun c => if c < 0x80 && isprintable c then c else 0x3f

/-- `_join` -/
def join (path segment : PyStr) : PyStr :=
  if path ≠ [] then path ++ py "." ++ segment else segment

variable {σ : Type}

namespace Repairer

/-- `_text` -/
def text (path text : PyStr) : PyStr × List PyStr :=
  let repaired := replace_surrogates text
  (repaired, if repaired ≠ text then [path] else [])

mutual

/-- `value`, with no `default` hook: the repaired value and the paths it replaced. -/
def value (path : PyStr) : Value σ → Value σ × List PyStr
  | .text t =>
      let out := text path t
      (.text out.1, out.2)
  | .scalar s => (.scalar s, [])
  | .list items =>
      let out := value_items path 0 items
      (.list out.1, out.2)
  | .tuple items =>
      let out := value_items path 0 items
      (.list out.1, out.2)
  | .mapping entries =>
      -- `_mapping`
      let renamed := repaired_key_names (entries.map Prod.fst)
      let out := value_entries path renamed entries
      (.mapping (Dict.ofPairs out.1), out.2)

def value_items (path : PyStr) (index : Nat) : List (Value σ) → List (Value σ) × List PyStr
  | [] => ([], [])
  | item :: rest =>
      let out := value (join path (decimal index)) item
      let more := value_items path (index + 1) rest
      (out.1 :: more.1, out.2 ++ more.2)

def value_entries (path : PyStr) (renamed : List (PyStr × PyStr)) :
    List (PyStr × Value σ) → List (PyStr × Value σ) × List PyStr
  | [] => ([], [])
  | (key, item) :: rest =>
      let new := Dict.getSelf renamed key
      let place := join path (ascii new)
      let out := value place item
      let more := value_entries path renamed rest
      ((new, out.1) :: more.1,
        (if key ∈ renamed.map Prod.fst then [place] else []) ++ out.2 ++ more.2)

end

end Repairer

structure Repaired (σ : Type) where
  value : Value σ
  replaced : List PyStr

def repair_surrogates (value : Value σ) : Repaired σ :=
  let out := Repairer.value [] value
  if out.2 = [] then { value, replaced := [] }
  else { value := out.1, replaced := Dict.fromkeys out.2 }

/-! ## What is repaired -/

/-- What the walk makes of a value, wherever it starts. -/
def repaired (v : Value σ) : Value σ := (Repairer.value [] v).1

theorem value_items_fst (path : PyStr) (index : Nat) (items : List (Value σ))
    (h : ∀ v ∈ items, ∀ p, (Repairer.value p v).1 = repaired v) :
    (Repairer.value_items path index items).1 = items.map repaired := by
  induction items generalizing index with
  | nil => rfl
  | cons v rest ih =>
      simp only [Repairer.value_items, List.map_cons, h v List.mem_cons_self,
        ih (index + 1) fun v hv => h v (List.mem_cons_of_mem _ hv)]

theorem value_entries_fst (path : PyStr) (renamed : List (PyStr × PyStr))
    (entries : List (PyStr × Value σ))
    (h : ∀ entry ∈ entries, ∀ p, (Repairer.value p entry.2).1 = repaired entry.2) :
    (Repairer.value_entries path renamed entries).1 =
      entries.map fun entry => (Dict.getSelf renamed entry.1, repaired entry.2) := by
  induction entries with
  | nil => rfl
  | cons entry rest ih =>
      simp only [Repairer.value_entries, List.map_cons, h entry List.mem_cons_self,
        ih fun entry hentry => h entry (List.mem_cons_of_mem _ hentry)]

theorem value_fst (v : Value σ) : ∀ path, (Repairer.value path v).1 = repaired v := by
  induction v with
  | text t => exact fun _ => rfl
  | scalar s => exact fun _ => rfl
  | list items ih =>
      intro path
      simp only [repaired, Repairer.value, value_items_fst _ _ items ih]
  | tuple items ih =>
      intro path
      simp only [repaired, Repairer.value, value_items_fst _ _ items ih]
  | mapping entries ih =>
      intro path
      simp only [repaired, Repairer.value, value_entries_fst _ _ entries ih]

theorem repaired_text (t : PyStr) : repaired (.text t : Value σ) = .text (replace_surrogates t) := rfl

theorem repaired_list (items : List (Value σ)) :
    repaired (.list items) = .list (items.map repaired) := by
  rw [repaired, Repairer.value, value_items_fst _ _ items fun v _ => value_fst v]

theorem repaired_tuple (items : List (Value σ)) :
    repaired (.tuple items) = .list (items.map repaired) := by
  rw [repaired, Repairer.value, value_items_fst _ _ items fun v _ => value_fst v]

theorem map_new_key_keys (keys : List PyStr) (entries : List (PyStr × Value σ)) :
    (entries.map fun entry => (new_key keys entry.1, repaired entry.2)).map Prod.fst =
      (entries.map Prod.fst).map (new_key keys) := by
  simp only [List.map_map, Function.comp_def]

theorem repaired_mapping {entries : List (PyStr × Value σ)} (hkeys : (entries.map Prod.fst).Nodup) :
    repaired (.mapping entries) =
      .mapping (entries.map fun entry => (new_key (entries.map Prod.fst) entry.1, repaired entry.2)) := by
  rw [repaired, Repairer.value]
  simp only [value_entries_fst _ _ entries fun entry _ => value_fst entry.2]
  rw [Dict.ofPairs_of_nodup]
  · rfl
  · exact (map_new_key_keys _ entries) ▸ new_keys_nodup hkeys

theorem repaired_listed {v : Value σ} (hkeyed : v.Keyed) : (repaired v).listed = repaired v := by
  induction v with
  | text t => rfl
  | scalar s => rfl
  | list items ih =>
      rw [repaired_list, Value.listed_list, List.map_map]
      congr 1
      exact List.map_congr_left fun v hv => ih v hv (Value.forall_list.mp hkeyed v hv)
  | tuple items ih =>
      rw [repaired_tuple, Value.listed_list, List.map_map]
      congr 1
      exact List.map_congr_left fun v hv => ih v hv (Value.forall_tuple.mp hkeyed v hv)
  | mapping entries ih =>
      obtain ⟨hkeys, hitems⟩ := Value.forall_mapping.mp hkeyed
      rw [repaired_mapping hkeys, Value.listed_mapping, List.map_map]
      congr 1
      refine List.map_congr_left fun entry hentry => ?_
      show (_, (repaired entry.2).listed) = (_, repaired entry.2)
      rw [ih entry hentry (hitems entry hentry)]

theorem repaired_clean {v : Value σ} (hkeyed : v.Keyed) : (repaired v).Clean := by
  induction v with
  | text t => exact .text (replace_surrogates_clean t)
  | scalar s => exact .scalar s
  | list items ih =>
      rw [repaired_list]
      refine .list ?_
      intro w hw
      obtain ⟨v, hv, rfl⟩ := List.mem_map.mp hw
      exact ih v hv (Value.forall_list.mp hkeyed v hv)
  | tuple items ih =>
      rw [repaired_tuple]
      refine .list ?_
      intro w hw
      obtain ⟨v, hv, rfl⟩ := List.mem_map.mp hw
      exact ih v hv (Value.forall_tuple.mp hkeyed v hv)
  | mapping entries ih =>
      obtain ⟨hkeys, hitems⟩ := Value.forall_mapping.mp hkeyed
      rw [repaired_mapping hkeys]
      refine .mapping ?_ ?_
      · rw [map_new_key_keys]
        intro name hname
        obtain ⟨key, hkey, rfl⟩ := List.mem_map.mp hname
        exact new_key_clean hkeys hkey
      · intro entry' hentry'
        obtain ⟨entry, hentry, rfl⟩ := List.mem_map.mp hentry'
        exact ih entry hentry (hitems entry hentry)

end PwshPy.Records
