import Mathlib.Data.Fintype.Card
import Mathlib.Data.Fintype.EquivFin
import Mathlib.Logic.Relation
import PwshPy.Hosted.Unfolding

/-! # Trees

What is stored is the whole tree where keys stay apart. A value unfolds to one tree at most, and in
a graph without cycles whose calls all answer it unfolds to one.
-/

namespace PwshPy.Hosted

open Storage

/-! ## Keys that stay apart -/

/-- Induction on what a marshaled value holds. -/
@[elab_as_elim, induction_eliminator]
theorem Marshaled.induct {P : Marshaled → Prop} (primitive : ∀ p, P (.primitive p))
    (record : ∀ type_name (properties : List (PyStr × Marshaled)),
      (∀ entry ∈ properties, P entry.2) → P (.record type_name properties))
    (dict : ∀ entries : List (PyStr × Marshaled), (∀ entry ∈ entries, P entry.2) →
      P (.dict entries))
    (list : ∀ items, (∀ t ∈ items, P t) → P (.list items)) (t : Marshaled) : P t := by
  refine @Marshaled.rec P (fun entries => ∀ entry ∈ entries, P entry.2)
    (fun items => ∀ t ∈ items, P t) (fun entry => P entry.2) primitive record dict list
    ?_ ?_ ?_ ?_ ?_ t
  · simp
  · intro entry rest hentry hrest
    exact List.forall_mem_cons.mpr ⟨hentry, hrest⟩
  · simp
  · intro item rest hitem hrest
    exact List.forall_mem_cons.mpr ⟨hitem, hrest⟩
  · exact fun _ _ hitem => hitem

/-- No two keys of one dictionary have the same text, nor two names of one object. -/
inductive Marshaled.Distinct : Marshaled → Prop
  | primitive (p : Primitive) : Distinct (.primitive p)
  | record {type_name : PyStr} {properties : List (PyStr × Marshaled)} :
      (properties.map Prod.fst).Nodup → (∀ entry ∈ properties, Distinct entry.2) →
      Distinct (.record type_name properties)
  | dict {entries : List (PyStr × Marshaled)} : (entries.map Prod.fst).Nodup →
      (∀ entry ∈ entries, Distinct entry.2) → Distinct (.dict entries)
  | list {items : List Marshaled} : (∀ t ∈ items, Distinct t) → Distinct (.list items)

theorem stored_entries_eq_self {entries : List (PyStr × Marshaled)} :
    stored_entries entries = entries ↔ ∀ entry ∈ entries, entry.2.stored = entry.2 := by
  induction entries with
  | nil => simp [stored_entries]
  | cons entry rest ih =>
      obtain ⟨key, t⟩ := entry
      simp [stored_entries, ih]

theorem stored_items_eq_self {items : List Marshaled} :
    stored_items items = items ↔ ∀ t ∈ items, t.stored = t := by
  induction items with
  | nil => simp [stored_items]
  | cons t rest ih => simp [stored_items, ih]

/-- A dict keeps all entries exactly when their keys are apart. -/
theorem ofPairs_stored_eq_self {entries : List (PyStr × Marshaled)} :
    Dict.ofPairs (stored_entries entries) = entries ↔
      (entries.map Prod.fst).Nodup ∧ ∀ entry ∈ entries, entry.2.stored = entry.2 := by
  have hkeys : (stored_entries entries).map Prod.fst = entries.map Prod.fst := by
    rw [stored_entries_eq, List.map_map]
    rfl
  constructor
  · intro h
    have hnodup := (Dict.ofPairs_spec (stored_entries entries)).1
    rw [h] at hnodup
    rw [Dict.ofPairs_of_nodup (hkeys ▸ hnodup)] at h
    exact ⟨hnodup, stored_entries_eq_self.mp h⟩
  · intro h
    rw [Dict.ofPairs_of_nodup (hkeys ▸ h.1)]
    exact stored_entries_eq_self.mpr h.2

theorem stored_eq_self_iff {t : Marshaled} : t.stored = t ↔ t.Distinct := by
  induction t with
  | primitive p => exact ⟨fun _ => .primitive p, fun _ => rfl⟩
  | record type_name properties ih =>
      rw [Marshaled.stored, Marshaled.record.injEq, ofPairs_stored_eq_self]
      constructor
      · intro h
        exact .record h.2.1 fun entry hentry => (ih entry hentry).mp (h.2.2 entry hentry)
      · intro h
        cases h with
        | record hkeys hall =>
            exact ⟨rfl, hkeys, fun entry hentry => (ih entry hentry).mpr (hall entry hentry)⟩
  | dict entries ih =>
      rw [Marshaled.stored, Marshaled.dict.injEq, ofPairs_stored_eq_self]
      constructor
      · intro h
        exact .dict h.1 fun entry hentry => (ih entry hentry).mp (h.2 entry hentry)
      · intro h
        cases h with
        | dict hkeys hall =>
            exact ⟨hkeys, fun entry hentry => (ih entry hentry).mpr (hall entry hentry)⟩
  | list items ih =>
      rw [Marshaled.stored, Marshaled.list.injEq, stored_items_eq_self]
      constructor
      · intro h
        exact .list fun t ht => (ih t ht).mp (h t ht)
      · intro h
        cases h with
        | list hall => exact fun t ht => (ih t ht).mpr (hall t ht)

/-! ## One tree -/

section Unique

variable {graph : Graph} {comprehension : Nat}

theorem answers_inj {size : Nat} {entries others : List (Entry size)}
    (h : entries.map (·.answers) = others.map (·.answers))
    (htree : ∀ e ∈ entries, ∀ e' ∈ others, e.value = e'.value → e.tree = e'.tree) :
    entries.map (·.returned) = others.map (·.returned) := by
  induction entries generalizing others with
  | nil =>
      rw [List.map_eq_nil_iff.mp h.symm]
  | cons e rest ih =>
      cases others with
      | nil => cases h
      | cons e' others =>
          rw [List.map_cons, List.map_cons, List.cons.injEq, Entry.answers, Entry.answers,
            Prod.mk.injEq] at h
          obtain ⟨⟨hkey, hvalue⟩, hrest⟩ := h
          have hsame := htree e List.mem_cons_self e' List.mem_cons_self (Except.ok.inj hvalue)
          rw [List.map_cons, List.map_cons, Entry.returned, Entry.returned, hsame,
            Except.ok.inj hkey, ih hrest fun e he e' he' =>
              htree e (List.mem_cons_of_mem _ he) e' (List.mem_cons_of_mem _ he')]

theorem items_inj {size : Nat} {held others : List (Item size)}
    (h : held.map (fun item => (.ok item.value : Read (NetValue size))) =
      others.map fun item => .ok item.value)
    (htree : ∀ item ∈ held, ∀ item' ∈ others, item.value = item'.value → item.tree = item'.tree) :
    held.map (·.tree) = others.map (·.tree) := by
  induction held generalizing others with
  | nil =>
      rw [List.map_eq_nil_iff.mp h.symm]
  | cons item rest ih =>
      cases others with
      | nil => cases h
      | cons item' others =>
          rw [List.map_cons, List.map_cons, List.cons.injEq] at h
          have hsame := htree item List.mem_cons_self item' List.mem_cons_self
            (Except.ok.inj h.1)
          rw [List.map_cons, List.map_cons, hsame, ih h.2 fun item hitem item' hitem' =>
            htree item (List.mem_cons_of_mem _ hitem) item' (List.mem_cons_of_mem _ hitem')]

/-- A value unfolds to one tree, whatever the frames. -/
theorem Unfolds.unique {frames frames' : Nat} {subject : Subject graph.size} {t t' : Marshaled}
    (h : Unfolds graph comprehension frames subject t)
    (h' : Unfolds graph comprehension frames' subject t') : t = t' := by
  induction h generalizing frames' t' with
  | primitive p _ =>
      cases h'
      rfl
  | object hplace _ _ ih =>
      obtain ⟨left', rfl⟩ := h'.frames_succ
      exact ih (h'.of_ps_object hplace)
  | dictionary entries hplace _ _ ih =>
      obtain ⟨left', rfl⟩ := h'.frames_succ
      obtain ⟨-, others, hanswers, hall, rfl⟩ := h'.of_dictionary hplace
      rw [answers_inj hanswers fun e he e' he' hvalue => ih e he (hvalue ▸ hall e' he')]
  | enumerable held hplace _ _ ih =>
      obtain ⟨left', rfl⟩ := h'.frames_succ
      obtain ⟨-, others, hanswers, hall, rfl⟩ := h'.of_enumerable hplace
      rw [items_inj hanswers fun e he e' he' hvalue => ih e he (hvalue ▸ hall e' he')]
  | other hplace _ =>
      obtain ⟨left', rfl⟩ := h'.frames_succ
      obtain ⟨s, hs, rfl⟩ := h'.of_other hplace
      cases hs
      rfl
  | wrapped hbase _ => exact (h'.of_wrapped hbase).symm
  | record entries hbase hproperties _ _ ih =>
      obtain ⟨left', rfl⟩ := h'.frames_succ
      obtain ⟨-, others, hanswers, hall, rfl⟩ := h'.of_record hbase
      rw [hproperties] at hanswers
      rw [answers_inj hanswers fun e he e' he' hvalue => ih e he (hvalue ▸ hall e' he')]

/-- More frames do no harm. -/
theorem Unfolds.mono {frames more : Nat} {subject : Subject graph.size} {t : Marshaled}
    (h : Unfolds graph comprehension frames subject t) (hmore : frames ≤ more) :
    Unfolds graph comprehension more subject t := by
  induction h generalizing more with
  | primitive p hframes => exact .primitive p (by omega)
  | object hplace hframes _ ih =>
      have hmore' : more - 1 + 1 = more := by omega
      exact .object hplace hmore' (ih (by omega))
  | dictionary entries hplace hframes _ ih =>
      have hmore' : more - comprehension - 1 + comprehension + 1 = more := by omega
      exact .dictionary entries hplace hmore' fun e he => ih e he (by omega)
  | enumerable held hplace hframes _ ih =>
      have hmore' : more - comprehension - 1 + comprehension + 1 = more := by omega
      exact .enumerable held hplace hmore' fun e he => ih e he (by omega)
  | other hplace hframes => exact .other hplace (by omega)
  | wrapped hbase hframes => exact .wrapped hbase (by omega)
  | record entries hbase hproperties hframes _ ih =>
      have hmore' : more - comprehension - 1 + comprehension + 1 = more := by omega
      exact .record entries hbase hproperties hmore' fun e he => ih e he (by omega)

end Unique

/-! ## Graphs without cycles -/

/-- What the calls on an object hand out. -/
inductive NetObject.Holds {size : Nat} (v : NetValue size) : NetObject size → Prop
  | property {o : PSObject size} {name : Read PyStr} : o.base = none →
      (name, .ok v) ∈ o.properties → Holds v (.ps_object o)
  | entry {entries : List (Read PyStr × Read (NetValue size))} {key : Read PyStr} :
      (key, .ok v) ∈ entries → Holds v (.dictionary entries)
  | item {items : List (Read (NetValue size))} : .ok v ∈ items → Holds v (.enumerable items)

/-- Each of the calls answers. -/
def pairs_answer {size : Nat} (pairs : List (Read PyStr × Read (NetValue size))) : Prop :=
  ∀ pair ∈ pairs, ∃ key v, pair = (.ok key, .ok v)

def NetObject.Answers {size : Nat} : NetObject size → Prop
  | .ps_object o => o.base = none → pairs_answer o.properties
  | .dictionary entries => pairs_answer entries
  | .enumerable items => ∀ item ∈ items, ∃ v, item = .ok v
  | .other text => ∃ s, text = .ok s

/-- One object leads to another. -/
def Graph.Leads (graph : Graph) (place next : Fin graph.size) : Prop :=
  (graph.object place).Holds (.object next)

section Acyclic

variable {graph : Graph} {comprehension : Nat}

theorem exists_entries {pairs : List (Read PyStr × Read (NetValue graph.size))}
    (hanswer : pairs_answer pairs)
    (hunfolds : ∀ key v, (key, .ok v) ∈ pairs →
      ∃ frames t, Unfolds graph comprehension frames (.value v) t) :
    ∃ frames, ∃ entries : List (Entry graph.size), pairs = entries.map (·.answers) ∧
      ∀ e ∈ entries, Unfolds graph comprehension frames (.value e.value) e.tree := by
  induction pairs with
  | nil => exact ⟨0, [], rfl, by simp⟩
  | cons pair rest ih =>
      obtain ⟨key, v, rfl⟩ := hanswer pair List.mem_cons_self
      obtain ⟨frames, t, ht⟩ := hunfolds _ v List.mem_cons_self
      obtain ⟨more, entries, rfl, hall⟩ := ih
        (fun pair hpair => hanswer pair (List.mem_cons_of_mem _ hpair))
        (fun key v hpair => hunfolds key v (List.mem_cons_of_mem _ hpair))
      refine ⟨max frames more, ⟨key, v, t⟩ :: entries, rfl, ?_⟩
      rw [List.forall_mem_cons]
      exact ⟨ht.mono (Nat.le_max_left _ _), fun e he => (hall e he).mono (Nat.le_max_right _ _)⟩

theorem exists_items {items : List (Read (NetValue graph.size))}
    (hanswer : ∀ item ∈ items, ∃ v, item = .ok v)
    (hunfolds : ∀ v, .ok v ∈ items → ∃ frames t, Unfolds graph comprehension frames (.value v) t) :
    ∃ frames, ∃ held : List (Item graph.size), items = held.map (fun item => .ok item.value) ∧
      ∀ item ∈ held, Unfolds graph comprehension frames (.value item.value) item.tree := by
  induction items with
  | nil => exact ⟨0, [], rfl, by simp⟩
  | cons item rest ih =>
      obtain ⟨v, rfl⟩ := hanswer item List.mem_cons_self
      obtain ⟨frames, t, ht⟩ := hunfolds v List.mem_cons_self
      obtain ⟨more, held, rfl, hall⟩ := ih
        (fun item hitem => hanswer item (List.mem_cons_of_mem _ hitem))
        (fun v hitem => hunfolds v (List.mem_cons_of_mem _ hitem))
      refine ⟨max frames more, ⟨v, t⟩ :: held, rfl, ?_⟩
      rw [List.forall_mem_cons]
      exact ⟨ht.mono (Nat.le_max_left _ _), fun e he => (hall e he).mono (Nat.le_max_right _ _)⟩

/-- An object unfolds once what its properties hold does. -/
theorem exists_unfolds_ps_object {o : PSObject graph.size}
    (hanswer : o.base = none → pairs_answer o.properties)
    (hunfolds : o.base = none → ∀ name v, (name, .ok v) ∈ o.properties →
      ∃ frames t, Unfolds graph comprehension frames (.value v) t) :
    ∃ frames t, Unfolds graph comprehension frames (.ps_object o) t := by
  cases hbase : o.base with
  | some p => exact ⟨1, _, .wrapped hbase Nat.one_pos⟩
  | none =>
      obtain ⟨frames, entries, hproperties, hall⟩ := exists_entries (hanswer hbase) (hunfolds hbase)
      exact ⟨_, _, .record entries hbase hproperties rfl hall⟩

/-- In a finite graph without cycles whose calls all answer, every value unfolds. -/
theorem exists_unfolds_of_acyclic (hacyclic : ∀ place, ¬ Relation.TransGen graph.Leads place place)
    (hanswers : ∀ place, (graph.object place).Answers) (v : NetValue graph.size) :
    ∃ frames t, Unfolds graph comprehension frames (.value v) t := by
  have htrans : IsTrans (Fin graph.size) fun next place =>
      Relation.TransGen graph.Leads place next := ⟨fun _ _ _ h h' => h'.trans h⟩
  have hirrefl : Std.Irrefl fun next place => Relation.TransGen graph.Leads place next :=
    ⟨hacyclic⟩
  have hwf : WellFounded fun next place => Relation.TransGen graph.Leads place next :=
    Finite.wellFounded_of_trans_of_irrefl _
  have hplace : ∀ place, ∃ frames t, Unfolds graph comprehension frames
      (.value (.object place)) t := by
    intro place
    induction place using hwf.induction with
    | _ place ih =>
        have hheld : ∀ v, (graph.object place).Holds v →
            ∃ frames t, Unfolds graph comprehension frames (.value v) t := by
          intro v hv
          cases v with
          | primitive p => exact ⟨1, _, .primitive p Nat.one_pos⟩
          | object next => exact ih next (.single hv)
        have hanswer := hanswers place
        cases hobject : graph.object place with
        | ps_object o =>
            rw [hobject] at hheld hanswer
            obtain ⟨frames, t, ht⟩ := exists_unfolds_ps_object hanswer fun hbase name v hv =>
              hheld v (.property hbase hv)
            exact ⟨_, t, .object hobject rfl ht⟩
        | dictionary entries =>
            rw [hobject] at hheld hanswer
            obtain ⟨frames, entries, rfl, hall⟩ := exists_entries hanswer fun key v hv =>
              hheld v (.entry hv)
            exact ⟨_, _, .dictionary entries hobject rfl hall⟩
        | enumerable items =>
            rw [hobject] at hheld hanswer
            obtain ⟨frames, held, rfl, hall⟩ := exists_items hanswer fun v hv =>
              hheld v (.item hv)
            exact ⟨_, _, .enumerable held hobject rfl hall⟩
        | other text =>
            rw [hobject] at hanswer
            obtain ⟨s, rfl⟩ := hanswer
            exact ⟨1, _, .other hobject Nat.one_pos⟩
  cases v with
  | primitive p => exact ⟨1, _, .primitive p Nat.one_pos⟩
  | object place => exact hplace place

/-- What an object that unfolds leads to unfolds in fewer frames. -/
theorem Unfolds.leads {frames : Nat} {place next : Fin graph.size} {t : Marshaled}
    (h : Unfolds graph comprehension frames (.value (.object place)) t)
    (hleads : graph.Leads place next) :
    ∃ left t', left < frames ∧ Unfolds graph comprehension left (.value (.object next)) t' := by
  obtain ⟨left, rfl⟩ := h.frames_succ
  rw [Graph.Leads] at hleads
  cases hobject : graph.object place with
  | ps_object o =>
      rw [hobject] at hleads
      cases hleads with
      | property hbase hv =>
          have hinner := h.of_ps_object hobject
          obtain ⟨left, rfl⟩ := hinner.frames_succ
          obtain ⟨hframes, entries, hproperties, hall, -⟩ := hinner.of_record hbase
          rw [hproperties] at hv
          obtain ⟨e, he, heq⟩ := List.mem_map.mp hv
          rw [← Except.ok.inj (congrArg Prod.snd heq)]
          exact ⟨_, e.tree, by omega, hall e he⟩
  | dictionary entries =>
      rw [hobject] at hleads
      cases hleads with
      | entry hv =>
          obtain ⟨hframes, entries, rfl, hall, -⟩ := h.of_dictionary hobject
          obtain ⟨e, he, heq⟩ := List.mem_map.mp hv
          rw [← Except.ok.inj (congrArg Prod.snd heq)]
          exact ⟨_, e.tree, by omega, hall e he⟩
  | enumerable items =>
      rw [hobject] at hleads
      cases hleads with
      | item hv =>
          obtain ⟨hframes, held, rfl, hall, -⟩ := h.of_enumerable hobject
          obtain ⟨e, he, heq⟩ := List.mem_map.mp hv
          rw [← Except.ok.inj heq]
          exact ⟨_, e.tree, by omega, hall e he⟩
  | other text =>
      rw [hobject] at hleads
      cases hleads

/-- Nothing on a cycle unfolds. -/
theorem Unfolds.no_cycle {frames : Nat} {place : Fin graph.size} {t : Marshaled}
    (h : Unfolds graph comprehension frames (.value (.object place)) t) :
    ¬ Relation.TransGen graph.Leads place place := by
  have hfewer : ∀ next, Relation.TransGen graph.Leads place next → ∀ frames t,
      Unfolds graph comprehension frames (.value (.object place)) t →
      ∃ left t', left < frames ∧ Unfolds graph comprehension left (.value (.object next)) t' := by
    intro next hnext
    induction hnext with
    | single hleads => exact fun frames t h => h.leads hleads
    | tail _ hleads ih =>
        intro frames t h
        obtain ⟨left, t', hlt, hunfolds⟩ := ih frames t h
        obtain ⟨fewer, t'', hless, hunfolds⟩ := hunfolds.leads hleads
        exact ⟨fewer, t'', by omega, hunfolds⟩
  intro hcycle
  induction frames using Nat.strong_induction_on generalizing t with
  | _ frames ih =>
      obtain ⟨left, t', hlt, hunfolds⟩ := hfewer place hcycle frames t h
      exact ih left hlt hunfolds

end Acyclic

end PwshPy.Hosted
