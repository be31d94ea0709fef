import PwshPy.Naming.FirstFree
import PwshPy.Storage.Dict
import PwshPy.Text.PyStr

/-! # Undecodable bytes in text

A byte that is not valid UTF-8 reaches the program as a lone surrogate. Each is
written as U+FFFD; a mapping key repaired so can equal another key, and then
takes the next free name behind `~2`, `~3`, …
-/

namespace PwshPy

open Naming Storage

def isSurrogate (c : Nat) : Bool := 0xd800 ≤ c && c ≤ 0xdfff

/-- U+FFFD -/
def REPLACEMENT : Nat := 0xfffd

def isascii (text : PyStr) : Bool := text.all (· < 0x80)

def has_surrogate (text : PyStr) : Bool := !isascii text && text.any isSurrogate

def replace_surrogates (text : PyStr) : PyStr :=
  text.map fun c => if isSurrogate c then REPLACEMENT else c

theorem has_surrogate_eq_false {text : PyStr} :
    has_surrogate text = false ↔ ∀ c ∈ text, isSurrogate c = false := by
  constructor
  · intro h c hc
    by_contra hsurrogate
    rw [Bool.not_eq_false] at hsurrogate
    have hlow : ¬c < 0x80 := by
      simp only [isSurrogate, Bool.and_eq_true, decide_eq_true_eq] at hsurrogate
      omega
    have hascii : isascii text = false := List.all_eq_false.mpr ⟨c, hc, by simpa using hlow⟩
    have hany : text.any isSurrogate = true := List.any_eq_true.mpr ⟨c, hc, hsurrogate⟩
    rw [has_surrogate, hascii, hany] at h
    cases h
  · intro h
    have hany : text.any isSurrogate = false :=
      List.any_eq_false.mpr fun c hc => by rw [h c hc]; exact Bool.false_ne_true
    rw [has_surrogate, hany, Bool.and_false]

theorem replace_surrogates_clean (text : PyStr) :
    has_surrogate (replace_surrogates text) = false := by
  rw [has_surrogate_eq_false]
  intro c hc
  obtain ⟨old, -, rfl⟩ := List.mem_map.mp hc
  by_cases h : isSurrogate old = true
  · rw [if_pos h]
    rfl
  · rw [if_neg h]
    exact Bool.not_eq_true _ ▸ h

theorem replace_surrogates_eq_self {text : PyStr} :
    replace_surrogates text = text ↔ has_surrogate text = false := by
  constructor
  · intro h
    rw [← h]
    exact replace_surrogates_clean text
  · intro h
    rw [has_surrogate_eq_false] at h
    have hsame : ∀ c ∈ text, (if isSurrogate c then REPLACEMENT else c) = id c := by
      intro c hc
      rw [h c hc]
      rfl
    rw [replace_surrogates, List.map_congr_left hsame, List.map_id]

theorem has_surrogate_append {a b : PyStr} :
    has_surrogate (a ++ b) = false ↔ has_surrogate a = false ∧ has_surrogate b = false := by
  simp only [has_surrogate_eq_false, List.mem_append, or_imp, forall_and]

theorem has_surrogate_decimal (n : Nat) : has_surrogate (decimal n) = false := by
  rw [has_surrogate_eq_false]
  intro c hc
  have hdigit := isDigit_of_mem_decimal hc
  simp only [isDigit, Bool.and_eq_true, decide_eq_true_eq] at hdigit
  simp only [isSurrogate, Bool.and_eq_false_iff, decide_eq_false_iff_not]
  omega

/-! ## The names of repaired keys -/

/-- What `_free_name` tries in turn: the name, then the name behind `~2`, `~3`, … -/
def candidate (name : PyStr) : Nat → PyStr
  | 0 => name
  | n + 1 => name ++ py "~" ++ decimal (n + 2)

/-- `_free_name` -/
def free_name (name : PyStr) (taken : List PyStr) : PyStr := firstFree (candidate name) taken 0

/-- The repaired keys with their names, the keys before them having taken theirs. -/
def name_keys (taken : List PyStr) : List PyStr → List (PyStr × PyStr)
  | [] => []
  | key :: keys =>
      if has_surrogate key then
        let name := free_name (replace_surrogates key) taken
        (key, name) :: name_keys (name :: taken) keys
      else name_keys taken keys

def repaired_key_names (keys : List PyStr) : List (PyStr × PyStr) :=
  Dict.ofPairs (name_keys (keys.filter fun key => !has_surrogate key) keys)

theorem candidate_injective (name : PyStr) : Function.Injective (candidate name) := by
  intro i j h
  cases i with
  | zero =>
      cases j with
      | zero => rfl
      | succ j =>
          have hlength := congrArg List.length h
          simp [candidate, py] at hlength
  | succ i =>
      cases j with
      | zero =>
          have hlength := congrArg List.length h
          simp [candidate, py] at hlength
      | succ j =>
          have hnumber : i + 2 = j + 2 := decimal_injective (List.append_cancel_left h)
          omega

theorem candidate_clean {name : PyStr} (h : has_surrogate name = false) (n : Nat) :
    has_surrogate (candidate name n) = false := by
  cases n with
  | zero => exact h
  | succ n =>
      have htilde : has_surrogate (py "~") = false := by decide
      exact has_surrogate_append.mpr
        ⟨has_surrogate_append.mpr ⟨h, htilde⟩, has_surrogate_decimal _⟩

theorem free_name_not_mem (name : PyStr) (taken : List PyStr) : free_name name taken ∉ taken :=
  firstFree_not_mem (candidate_injective name) 0

theorem free_name_clean {name : PyStr} (h : has_surrogate name = false) (taken : List PyStr) :
    has_surrogate (free_name name taken) = false := by
  obtain ⟨k, hk⟩ := @firstFree_eq_name _ _ _ taken (candidate_injective name) 0
  rw [free_name, hk]
  exact candidate_clean h k

theorem name_keys_keys (taken keys : List PyStr) :
    (name_keys taken keys).map Prod.fst = keys.filter has_surrogate := by
  induction keys generalizing taken with
  | nil => rfl
  | cons key keys ih =>
      by_cases h : has_surrogate key = true
      · simp [name_keys, h, ih]
      · simp [name_keys, h, ih]

/-- Repaired keys get names of their own: not taken, free of surrogates, no two alike. -/
theorem name_keys_spec (taken keys : List PyStr) :
    (∀ pair ∈ name_keys taken keys, pair.2 ∉ taken ∧ has_surrogate pair.2 = false) ∧
      ((name_keys taken keys).map Prod.snd).Nodup := by
  induction keys generalizing taken with
  | nil => simp [name_keys]
  | cons key keys ih =>
      by_cases h : has_surrogate key = true
      · simp only [name_keys, if_pos h]
        obtain ⟨hnames, hnodup⟩ := ih (free_name (replace_surrogates key) taken :: taken)
        have hfree := free_name_not_mem (replace_surrogates key) taken
        have hclean := free_name_clean (replace_surrogates_clean key) taken
        constructor
        · intro pair hpair
          cases List.mem_cons.mp hpair with
          | inl hhead => exact hhead ▸ ⟨hfree, hclean⟩
          | inr hlater =>
              obtain ⟨hnew, hpair⟩ := hnames pair hlater
              exact ⟨fun hold => hnew (List.mem_cons_of_mem _ hold), hpair⟩
        · rw [List.map_cons, List.nodup_cons]
          refine ⟨?_, hnodup⟩
          intro hmem
          obtain ⟨pair, hpair, hname⟩ := List.mem_map.mp hmem
          exact (hnames pair hpair).1 (hname ▸ List.mem_cons_self)
      · simp only [name_keys, if_neg h]
        exact ih taken

/-- What a mapping calls the entry of a key, once its keys are repaired. -/
def new_key (keys : List PyStr) (key : PyStr) : PyStr := Dict.getSelf (repaired_key_names keys) key

section NewKey

variable {keys : List PyStr} {key : PyStr}

theorem repaired_key_names_eq (hkeys : keys.Nodup) : repaired_key_names keys =
    name_keys (keys.filter fun key => !has_surrogate key) keys := by
  refine Dict.ofPairs_of_nodup ?_
  rw [name_keys_keys]
  exact hkeys.filter _

theorem new_key_of_clean (h : has_surrogate key = false) : new_key keys key = key := by
  refine Dict.getSelf_of_not_mem ?_
  rw [repaired_key_names, (Dict.ofPairs_spec _).2, name_keys_keys]
  simp [h]

theorem new_key_mem (hkeys : keys.Nodup) (hkey : key ∈ keys) (h : has_surrogate key = true) :
    (key, new_key keys key) ∈ name_keys (keys.filter fun key => !has_surrogate key) keys := by
  have hmem : key ∈ (name_keys (keys.filter fun key => !has_surrogate key) keys).map Prod.fst := by
    rw [name_keys_keys]
    exact List.mem_filter.mpr ⟨hkey, h⟩
  obtain ⟨⟨key', name⟩, hpair, rfl⟩ := List.mem_map.mp hmem
  have hnodup : ((repaired_key_names keys).map Prod.fst).Nodup := (Dict.ofPairs_spec _).1
  have hname : new_key keys key' = name :=
    Dict.getSelf_of_mem hnodup (by rwa [repaired_key_names_eq hkeys])
  rwa [hname]

theorem new_key_clean (hkeys : keys.Nodup) (hkey : key ∈ keys) :
    has_surrogate (new_key keys key) = false := by
  by_cases h : has_surrogate key = true
  · exact ((name_keys_spec _ _).1 _ (new_key_mem hkeys hkey h)).2
  · rw [Bool.not_eq_true] at h
    rwa [new_key_of_clean h]

/-- No repaired key takes the name of a key that was valid. -/
theorem new_key_ne (hkeys : keys.Nodup) (hkey : key ∈ keys) (h : has_surrogate key = true)
    {other : PyStr} (hother : other ∈ keys) (hclean : has_surrogate other = false) :
    new_key keys key ≠ other := by
  intro heq
  have hfree := ((name_keys_spec _ _).1 _ (new_key_mem hkeys hkey h)).1
  refine hfree (List.mem_filter.mpr ⟨heq ▸ hother, ?_⟩)
  simp [heq, hclean]

theorem new_key_injOn (hkeys : keys.Nodup) : Set.InjOn (new_key keys) {key | key ∈ keys} := by
  intro a ha b hb hab
  by_cases hsa : has_surrogate a = true
  · by_cases hsb : has_surrogate b = true
    · have hpairs := List.inj_on_of_nodup_map (name_keys_spec _ _).2
        (new_key_mem hkeys ha hsa) (new_key_mem hkeys hb hsb) hab
      exact (Prod.mk.inj hpairs).1
    · rw [Bool.not_eq_true] at hsb
      rw [new_key_of_clean hsb] at hab
      exact absurd hab (new_key_ne hkeys ha hsa hb hsb)
  · rw [Bool.not_eq_true] at hsa
    by_cases hsb : has_surrogate b = true
    · rw [new_key_of_clean hsa] at hab
      exact absurd hab.symm (new_key_ne hkeys hb hsb ha hsa)
    · rw [Bool.not_eq_true] at hsb
      rwa [new_key_of_clean hsa, new_key_of_clean hsb] at hab

theorem new_keys_nodup (hkeys : keys.Nodup) : (keys.map (new_key keys)).Nodup :=
  hkeys.map_on fun _ ha _ hb h => new_key_injOn hkeys ha hb h

end NewKey

end PwshPy
