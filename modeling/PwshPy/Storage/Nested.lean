import PwshPy.Storage.Dict

/-! # Nested tables

Tables of tables, a value written at a path whose tables are made on the way.
Each table says whether it was given, as part of a value, or made.
-/

namespace PwshPy.Storage

variable {κ σ : Type} [DecidableEq κ]

inductive Item (κ σ : Type) where
  | scalar (s : σ)
  | table (given : Bool) (entries : List (κ × Item κ σ))

namespace Item

/-- An empty table made on the way. -/
def fresh : Item κ σ := .table false []

/-- A value is not entered, a table is under each of its keys. -/
def at_path : Item κ σ → List κ → Option (Item κ σ)
  | item, [] => some item
  | .scalar _, _ :: _ => none
  | .table _ entries, part :: rest => (entries.lookup part).bind (·.at_path rest)

/-- Write a value at a path. What is met on the way has to be a table; of each table entered or
written into, say whether it was given. -/
def write : Item κ σ → List κ → Item κ σ → Option (Item κ σ × List Bool)
  | _, [], value => some (value, [])
  | .scalar _, _ :: _, _ => none
  | .table given entries, part :: rest, value =>
      match write ((entries.lookup part).getD fresh) rest value with
      | none => none
      | some (child, entered) => some (.table given (Dict.store part child entries), given :: entered)

mutual

/-- The value as one that was given: so are all tables in it. -/
def given : Item κ σ → Item κ σ
  | .scalar s => .scalar s
  | .table _ entries => .table true (given_entries entries)

def given_entries : List (κ × Item κ σ) → List (κ × Item κ σ)
  | [] => []
  | (key, item) :: rest => (key, item.given) :: given_entries rest

end

variable {item item' value : Item κ σ} {path : List κ} {entered : List Bool}

theorem at_path_append (item : Item κ σ) (p q : List κ) :
    item.at_path (p ++ q) = (item.at_path p).bind (·.at_path q) := by
  induction p generalizing item with
  | nil => cases item <;> rfl
  | cons part p ih =>
      cases item with
      | scalar s => rfl
      | table given entries =>
          show (entries.lookup part).bind (·.at_path (p ++ q)) = _
          cases hchild : entries.lookup part with
          | none => simp [at_path, hchild]
          | some child => simp [at_path, hchild, ih]

/-- How one level is written. -/
theorem write_cons {part : κ} {rest : List κ} (h : item.write (part :: rest) value = some (item', entered)) :
    ∃ given entries child entered', item = .table given entries ∧
      ((entries.lookup part).getD fresh).write rest value = some (child, entered') ∧
      item' = .table given (Dict.store part child entries) ∧ entered = given :: entered' := by
  cases item with
  | scalar s => cases h
  | table given entries =>
      rw [write] at h
      cases hchild : ((entries.lookup part).getD fresh).write rest value with
      | none => simp [hchild] at h
      | some out =>
          obtain ⟨child, entered'⟩ := out
          simp only [hchild, Option.some.injEq, Prod.mk.injEq] at h
          exact ⟨given, entries, child, entered', rfl, hchild, h.1.symm, h.2.symm⟩

/-- The value is where it was written. -/
theorem at_path_written (h : item.write path value = some (item', entered)) (rest : List κ) :
    item'.at_path (path ++ rest) = value.at_path rest := by
  induction path generalizing item item' entered with
  | nil =>
      cases item with
      | scalar s => cases h; rfl
      | table given entries => cases h; rfl
  | cons part path ih =>
      obtain ⟨given, entries, child, entered', -, hchild, rfl, -⟩ := write_cons h
      show ((Dict.store part child entries).lookup part).bind (·.at_path (path ++ rest)) = _
      rw [Dict.lookup_store_self]
      exact ih hchild

/-- A place off the path is as it was. -/
theorem at_path_other (h : item.write path value = some (item', entered)) {p : List κ}
    (hunder : ¬path <+: p) (hover : ¬p <+: path) : item'.at_path p = item.at_path p := by
  induction path generalizing item item' entered p with
  | nil => exact absurd List.nil_prefix hunder
  | cons part path ih =>
      obtain ⟨given, entries, child, entered', rfl, hchild, rfl, -⟩ := write_cons h
      cases p with
      | nil => exact absurd List.nil_prefix hover
      | cons other p =>
          show ((Dict.store part child entries).lookup other).bind (·.at_path p) =
            (entries.lookup other).bind (·.at_path p)
          by_cases hpart : other = part
          · subst hpart
            have hunder' : ¬path <+: p := fun h => hunder (List.cons_prefix_cons.mpr ⟨rfl, h⟩)
            have hover' : ¬p <+: path := fun h => hover (List.cons_prefix_cons.mpr ⟨rfl, h⟩)
            have hrest := ih hchild hunder' hover'
            rw [Dict.lookup_store_self]
            cases hold : entries.lookup other with
            | some old => simpa [hold] using hrest
            | none =>
                cases p with
                | nil => exact absurd List.nil_prefix hover'
                | cons next p => simpa [hold, fresh, at_path] using hrest
          · rw [Dict.lookup_store_of_ne hpart]

/-- Above the value there are tables, made ones where there was nothing. -/
theorem at_path_above (h : item.write path value = some (item', entered)) {p rest : List κ}
    (hpath : path = p ++ rest) (hrest : rest ≠ []) :
    ∃ given entries, item'.at_path p = some (.table given entries) ∧
      (item.at_path p = none → given = false) ∧
      ∀ old, item.at_path p = some old → ∃ entries, old = .table given entries := by
  induction path generalizing item item' entered p with
  | nil =>
      have hnil := List.append_eq_nil_iff.mp hpath.symm
      exact absurd hnil.2 hrest
  | cons part path ih =>
      obtain ⟨given, entries, child, entered', rfl, hchild, rfl, -⟩ := write_cons h
      cases p with
      | nil =>
          refine ⟨given, _, rfl, ?_, ?_⟩
          · intro hnone
            cases hnone
          · intro old hold
            cases hold
            exact ⟨entries, rfl⟩
      | cons other p =>
          obtain ⟨rfl, htail⟩ := List.cons.inj hpath
          obtain ⟨given', entries', hat, hnone, hsome⟩ := ih hchild htail
          refine ⟨given', entries', ?_, ?_, ?_⟩
          · show ((Dict.store part child entries).lookup part).bind (·.at_path p) = _
            rw [Dict.lookup_store_self]
            exact hat
          · intro hold
            replace hold : (entries.lookup part).bind (·.at_path p) = none := hold
            cases hlookup : entries.lookup part with
            | some old =>
                rw [hlookup] at hold hnone
                exact hnone hold
            | none =>
                rw [hlookup] at hnone hsome
                cases p with
                | nil =>
                    obtain ⟨_, hfresh⟩ := hsome fresh rfl
                    cases hfresh
                    rfl
                | cons next p => exact hnone rfl
          · intro old hold
            replace hold : (entries.lookup part).bind (·.at_path p) = some old := hold
            cases hlookup : entries.lookup part with
            | none => simp [hlookup] at hold
            | some child =>
                rw [hlookup] at hold hsome
                exact hsome old hold

/-- A write goes through where only made tables, or nothing, are above the path, and enters no
other. -/
theorem write_succeeds (h : ∀ p rest, path = p ++ rest → rest ≠ [] →
    item.at_path p = none ∨ ∃ entries, item.at_path p = some (.table false entries)) :
    ∃ item' entered, item.write path value = some (item', entered) ∧ ∀ given ∈ entered, given = false := by
  induction path generalizing item with
  | nil => exact ⟨value, [], by cases item <;> rfl, by simp⟩
  | cons part path ih =>
      have hroot := h [] (part :: path) rfl (List.cons_ne_nil _ _)
      cases item with
      | scalar s =>
          cases hroot with
          | inl hnone => cases hnone
          | inr hsome =>
              obtain ⟨entries, hsome⟩ := hsome
              cases hsome
      | table given entries =>
          have hgiven : given = false := by
            cases hroot with
            | inl hnone => cases hnone
            | inr hsome =>
                obtain ⟨entries, hsome⟩ := hsome
                cases hsome
                rfl
          have hchild : ∀ p rest, path = p ++ rest → rest ≠ [] →
              ((entries.lookup part).getD fresh).at_path p = none ∨
                ∃ made, ((entries.lookup part).getD fresh).at_path p = some (.table false made) := by
            intro p rest hpath hrest
            have hbelow := h (part :: p) rest (by rw [hpath]; rfl) hrest
            replace hbelow : (entries.lookup part).bind (·.at_path p) = none ∨
              ∃ made, (entries.lookup part).bind (·.at_path p) = some (.table false made) := hbelow
            cases hlookup : entries.lookup part with
            | some child => simpa [hlookup] using hbelow
            | none =>
                cases p with
                | nil => exact Or.inr ⟨[], rfl⟩
                | cons next p => exact Or.inl rfl
          obtain ⟨child, entered, hwrite, hentered⟩ := ih hchild
          refine ⟨_, given :: entered, by rw [write, hwrite], ?_⟩
          exact List.forall_mem_cons.mpr ⟨hgiven, hentered⟩

/-- What a mapping shows at a place: a scalar, or that there is a table. -/
def shape : Item κ σ → Option σ
  | .scalar s => some s
  | .table _ _ => none

/-- Equal as mappings, whatever the order of their entries. -/
def Same (a b : Item κ σ) : Prop := ∀ p, (a.at_path p).map shape = (b.at_path p).map shape

end Item

/-! ## Tables that hold values at paths -/

/-- The values at the paths, made tables above them, and nothing else. -/
structure Describes (values : List κ → Option (Item κ σ)) (tree : Item κ σ) : Prop where
  root : ∃ entries, tree = .table false entries
  at_key : ∀ k v, values k = some v → tree.at_path k = some v
  above : ∀ k, (values k).isSome → ∀ p rest, k = p ++ rest → rest ≠ [] →
    ∃ entries, tree.at_path p = some (.table false entries)
  nothing_else : ∀ p item, p ≠ [] → tree.at_path p = some item →
    ∃ k, (values k).isSome ∧ (k <+: p ∨ p <+: k)

namespace Describes

variable {values : List κ → Option (Item κ σ)} {tree : Item κ σ}

theorem empty : Describes (fun _ => none) (Item.fresh : Item κ σ) where
  root := ⟨[], rfl⟩
  at_key := fun _ _ h => nomatch h
  above := fun _ h => nomatch h
  nothing_else := by
    intro p item hp hat
    cases p with
    | nil => exact absurd rfl hp
    | cons part rest => cases hat

theorem at_root (h : Describes values tree) : ∃ entries, tree.at_path [] = some (.table false entries) := by
  obtain ⟨entries, rfl⟩ := h.root
  exact ⟨entries, rfl⟩

/-- Above a key that is apart from all others there are made tables or nothing. -/
theorem above_key (h : Describes values tree) {k : List κ}
    (hapart : ∀ k', (values k').isSome → k <+: k' ∨ k' <+: k → k' = k) {p rest : List κ}
    (hk : k = p ++ rest) (hrest : rest ≠ []) :
    tree.at_path p = none ∨ ∃ entries, tree.at_path p = some (.table false entries) := by
  have hshort : ¬k <+: p := by
    intro hbegins
    have hlength := hbegins.length_le
    have := List.length_pos_iff.mpr hrest
    rw [hk, List.length_append] at hlength
    omega
  cases hat : tree.at_path p with
  | none => exact Or.inl rfl
  | some item =>
      right
      rw [← hat]
      by_cases hroot : p = []
      · exact hroot ▸ h.at_root
      · obtain ⟨k', hvalue, hnear⟩ := h.nothing_else p item hroot hat
        have hbelow : ¬k' <+: p := by
          intro hbegins
          have hsame := hapart k' hvalue (Or.inr (hbegins.trans ⟨rest, hk.symm⟩))
          exact hshort (hsame ▸ hbegins)
        obtain ⟨rest', hk'⟩ := hnear.resolve_left hbelow
        refine h.above k' hvalue p rest' hk'.symm ?_
        intro hnil
        rw [hnil, List.append_nil] at hk'
        exact hbelow (hk' ▸ List.prefix_refl p)

/-- Writing a value at a key that is apart from all others. -/
theorem write (h : Describes values tree) {k : List κ} (hk : k ≠ [])
    (hapart : ∀ k', (values k').isSome → k <+: k' ∨ k' <+: k → k' = k) (v : Item κ σ) :
    ∃ tree' entered, tree.write k v = some (tree', entered) ∧ (∀ given ∈ entered, given = false) ∧
      Describes (fun key => if key = k then some v else values key) tree' := by
  obtain ⟨tree', entered, hwrite, hentered⟩ :=
    @Item.write_succeeds _ _ _ tree v k fun p rest hp hrest => h.above_key hapart hp hrest
  have hmade : ∀ p rest, k = p ++ rest → rest ≠ [] →
      ∃ entries, tree'.at_path p = some (.table false entries) := by
    intro p rest hp hrest
    obtain ⟨given, entries, hat, hnone, hsome⟩ := Item.at_path_above hwrite hp hrest
    cases h.above_key hapart hp hrest with
    | inl hold => exact ⟨entries, hnone hold ▸ hat⟩
    | inr hold =>
        obtain ⟨made, hold⟩ := hold
        obtain ⟨_, hgiven⟩ := hsome _ hold
        cases hgiven
        exact ⟨entries, hat⟩
  refine ⟨tree', entered, hwrite, hentered, ?_, ?_, ?_, ?_⟩
  · obtain ⟨entries, hroot⟩ := hmade [] k rfl hk
    refine ⟨entries, ?_⟩
    cases tree' <;> exact Option.some.inj hroot
  · intro key w hvalue
    by_cases hkey : key = k
    · rw [if_pos hkey] at hvalue
      cases hvalue
      have hat := Item.at_path_written hwrite []
      rw [List.append_nil] at hat
      rw [hkey, hat]
      cases v <;> rfl
    · rw [if_neg hkey] at hvalue
      have hsome : (values key).isSome := by rw [hvalue]; rfl
      rw [Item.at_path_other hwrite (fun hp => hkey (hapart key hsome (Or.inl hp)))
        (fun hp => hkey (hapart key hsome (Or.inr hp)))]
      exact h.at_key key w hvalue
  · intro key hvalue p rest hp hrest
    by_cases hkey : key = k
    · exact hmade p rest (hkey ▸ hp) hrest
    · rw [if_neg hkey] at hvalue
      have hunder : ¬k <+: p := by
        intro hbegins
        exact hkey (hapart key hvalue (Or.inl (hbegins.trans ⟨rest, hp.symm⟩)))
      by_cases hover : p <+: k
      · obtain ⟨rest', hk'⟩ := hover
        refine hmade p rest' hk'.symm ?_
        intro hnil
        rw [hnil, List.append_nil] at hk'
        exact hunder (hk' ▸ List.prefix_refl p)
      · rw [Item.at_path_other hwrite hunder hover]
        exact h.above key hvalue p rest hp hrest
  · intro p item hp hat
    by_cases hnear : k <+: p ∨ p <+: k
    · exact ⟨k, by simp, hnear⟩
    · rw [not_or] at hnear
      rw [Item.at_path_other hwrite hnear.1 hnear.2] at hat
      obtain ⟨k', hvalue, hk'⟩ := h.nothing_else p item hp hat
      refine ⟨k', ?_, hk'⟩
      by_cases hkey : k' = k
      · rw [if_pos hkey]
        rfl
      · rwa [if_neg hkey]

/-- The values say what the tables show. -/
theorem same {tree' : Item κ σ} (h : Describes values tree) (h' : Describes values tree') :
    tree.Same tree' := by
  intro p
  by_cases hunder : ∃ k, (values k).isSome ∧ k <+: p
  · obtain ⟨k, hvalue, rest, rfl⟩ := hunder
    obtain ⟨v, hv⟩ := Option.isSome_iff_exists.mp hvalue
    rw [Item.at_path_append, Item.at_path_append, h.at_key k v hv, h'.at_key k v hv]
  · by_cases habove : p = [] ∨ ∃ k, (values k).isSome ∧ p <+: k
    · have htables : (∃ entries, tree.at_path p = some (.table false entries)) ∧
          ∃ entries, tree'.at_path p = some (.table false entries) := by
        cases habove with
        | inl hroot => exact hroot ▸ ⟨h.at_root, h'.at_root⟩
        | inr hkey =>
            obtain ⟨k, hvalue, rest, hk⟩ := hkey
            have hrest : rest ≠ [] := by
              intro hnil
              rw [hnil, List.append_nil] at hk
              exact hunder ⟨k, hvalue, hk ▸ List.prefix_refl p⟩
            exact ⟨h.above k hvalue p rest hk.symm hrest, h'.above k hvalue p rest hk.symm hrest⟩
      obtain ⟨⟨entries, hat⟩, entries', hat'⟩ := htables
      rw [hat, hat']
      rfl
    · rw [not_or] at habove
      have hnone : ∀ {t : Item κ σ}, Describes values t → t.at_path p = none := by
        intro t ht
        cases hat : t.at_path p with
        | none => rfl
        | some item =>
            obtain ⟨k, hvalue, hk⟩ := ht.nothing_else p item habove.1 hat
            cases hk with
            | inl hbelow => exact absurd ⟨k, hvalue, hbelow⟩ hunder
            | inr hover => exact absurd ⟨k, hvalue, hover⟩ habove.2
      rw [hnone h, hnone h']

end Describes

end PwshPy.Storage
