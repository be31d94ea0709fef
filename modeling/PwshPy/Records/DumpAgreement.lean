import PwshPy.Records.JsonBytes

/-! # When the repairing dump agrees with the plain one

The walk and orjson each read a value in their own way. What is written after a repair is what
orjson writes of its own reading, repaired, where the two readings are alike.
-/

namespace PwshPy.Records

open Storage

variable {κ σ : Type}

/-! ## Related lists -/

theorem forall₂_imp_of_mem {α β : Type} {R S : α → β → Prop} {items : List α} {docs : List β}
    (h : List.Forall₂ R items docs) (himp : ∀ v ∈ items, ∀ doc, R v doc → S v doc) :
    List.Forall₂ S items docs := by
  induction h with
  | nil => exact .nil
  | @cons v doc items docs hv _ ih =>
      exact .cons (himp v List.mem_cons_self doc hv)
        (ih fun w hw => himp w (List.mem_cons_of_mem _ hw))

theorem forall₂_congr_of_mem {α β : Type} {R S : α → β → Prop} {items : List α} {docs : List β}
    (h : ∀ v ∈ items, ∀ doc, R v doc ↔ S v doc) :
    List.Forall₂ R items docs ↔ List.Forall₂ S items docs := by
  constructor
  · exact fun hr => forall₂_imp_of_mem hr fun v hv doc => (h v hv doc).mp
  · exact fun hs => forall₂_imp_of_mem hs fun v hv doc => (h v hv doc).mpr

theorem forall₂_exists_of_mem {α β : Type} {R : α → β → Prop} {items : List α} {docs : List β}
    (h : List.Forall₂ R items docs) {v : α} (hv : v ∈ items) : ∃ doc, R v doc := by
  induction h with
  | nil => exact absurd hv List.not_mem_nil
  | cons hhead _ ih =>
      cases List.mem_cons.mp hv with
      | inl heq => exact ⟨_, heq ▸ hhead⟩
      | inr hrest => exact ih hrest

theorem forall₂_and_iff {α β : Type} {R S : α → β → Prop} {items : List α} {docs : List β} :
    List.Forall₂ (fun v doc => R v doc ∧ S v doc) items docs ↔
      List.Forall₂ R items docs ∧ List.Forall₂ S items docs := by
  constructor
  · exact fun h => ⟨h.imp fun _ _ hboth => hboth.1, h.imp fun _ _ hboth => hboth.2⟩
  · rintro ⟨hr, hs⟩
    induction hr with
    | nil => exact .nil
    | cons hhead _ ih =>
        cases hs with
        | cons hhead' hrest => exact .cons ⟨hhead, hhead'⟩ (ih hrest)

/-- Two related lists with the same images are related member by member. -/
theorem exists_forall₂_map_eq {α β γ δ : Type} {P : α → β → Prop} {f : β → γ} {g : δ → γ}
    {items : List α} {docs : List δ} :
    (∃ outs, List.Forall₂ P items outs ∧ outs.map f = docs.map g) ↔
      List.Forall₂ (fun v doc => ∃ out, P v out ∧ f out = g doc) items docs := by
  induction items generalizing docs with
  | nil => simp [List.forall₂_nil_left_iff, eq_comm]
  | cons item rest ih =>
      constructor
      · rintro ⟨outs, houts, hmap⟩
        cases houts with
        | @cons _ out _ outs hout hrest =>
            cases docs with
            | nil => cases hmap
            | cons doc docs =>
                rw [List.map_cons, List.map_cons, List.cons.injEq] at hmap
                exact .cons ⟨out, hout, hmap.1⟩ (ih.mp ⟨outs, hrest, hmap.2⟩)
      · intro h
        cases h with
        | @cons _ doc _ docs hhead hrest =>
            obtain ⟨out, hout, hsame⟩ := hhead
            obtain ⟨outs, houts, hmap⟩ := ih.mpr hrest
            exact ⟨out :: outs, .cons hout houts, by rw [List.map_cons, hsame, hmap, List.map_cons]⟩

/-! ## The names of a mapping's keys -/

theorem mem_texts {keys : List (Key κ)} {t : PyStr} : t ∈ texts keys ↔ .text t ∈ keys := by
  rw [texts, List.mem_filterMap]
  constructor
  · intro h
    obtain ⟨key, hkey, ht⟩ := h
    cases key with
    | text t' =>
        cases ht
        exact hkey
    | other k => cases ht
  · intro h
    exact ⟨.text t, h, rfl⟩

theorem texts_nodup {keys : List (Key κ)} (h : keys.Nodup) : (texts keys).Nodup := by
  refine h.filterMap ?_
  intro a b t ha hb
  cases a with
  | other k => cases ha
  | text a =>
      cases b with
      | other k => cases hb
      | text b =>
          cases ha
          cases hb
          rfl

theorem renamed_key_text (keys : List (Key κ)) (t : PyStr) :
    renamed_key (renamed_of keys) (.text t : Key κ) = .text (new_key (texts keys) t) := rfl

theorem renamed_key_injOn {keys : List (Key κ)} (hkeys : keys.Nodup) :
    Set.InjOn (renamed_key (renamed_of keys)) {key | key ∈ keys} := by
  intro a ha b hb hab
  cases a with
  | text a =>
      cases b with
      | text b =>
          rw [renamed_key_text, renamed_key_text, Key.text.injEq] at hab
          rw [new_key_injOn (texts_nodup hkeys) (mem_texts.mpr ha) (mem_texts.mpr hb) hab]
      | other k => cases hab
  | other k =>
      cases b with
      | text b => cases hab
      | other k' => exact hab

theorem repaired_names_nodup {keys : List (Key κ)} (hkeys : keys.Nodup) :
    (repaired_names keys).Nodup :=
  hkeys.map_on fun _ ha _ hb h => renamed_key_injOn hkeys ha hb h

/-- A key with no surrogate keeps its name. -/
theorem renamed_key_of_clean {keys : List (Key κ)} {key : Key κ}
    (h : ∀ t, key = .text t → has_surrogate t = false) :
    renamed_key (renamed_of keys) key = key := by
  cases key with
  | other k => rfl
  | text t => rw [renamed_key_text, new_key_of_clean (h t rfl)]

/-- The keys that the walk reports are the texts that hold a surrogate. -/
theorem mem_renamed_of {keys : List (Key κ)} {key : Key κ} (hkey : key ∈ keys) :
    key ∈ ((renamed_of keys).map Prod.fst).map Key.text ↔
      ∃ t, key = .text t ∧ has_surrogate t = true := by
  rw [renamed_of, repaired_key_names, List.mem_map]
  simp only [(Dict.ofPairs_spec _).2, name_keys_keys]
  constructor
  · rintro ⟨t, ht, rfl⟩
    exact ⟨t, rfl, (List.mem_filter.mp ht).2⟩
  · rintro ⟨t, rfl, ht⟩
    exact ⟨t, List.mem_filter.mpr ⟨mem_texts.mpr hkey, ht⟩, rfl⟩

/-! ## What the walk makes of a value -/

section Walk

variable [DecidableEq κ] (key_text : κ → PyStr)

/-- The repaired value, wherever the walk starts. -/
def walked (v : PyValue κ σ) : Option (PyValue κ σ) := (walk key_text [] v).map Prod.fst

variable {key_text}

theorem walk_items_fst {path : PyStr} {index : Nat} {items outs : List (PyValue κ σ)}
    (h : ∀ v ∈ items, ∀ p, (walk key_text p v).map Prod.fst = walked key_text v) :
    (walk_items key_text path index items).map Prod.fst = some outs ↔
      List.Forall₂ (fun v out => walked key_text v = some out) items outs := by
  induction items generalizing index outs with
  | nil =>
      rw [walk_items, Option.map_some, Option.some.injEq, List.forall₂_nil_left_iff]
      exact eq_comm
  | cons v rest ih =>
      have hrest := @ih (index + 1)
      have hitem := h v List.mem_cons_self (join path (decimal index))
      simp only [← hitem, List.forall₂_cons_left_iff,
        ← hrest fun v hv => h v (List.mem_cons_of_mem _ hv)]
      rw [walk_items]
      cases walk key_text (join path (decimal index)) v with
      | none => simp
      | some out =>
          cases walk_items key_text path (index + 1) rest with
          | none => simp
          | some more => simp [eq_comm]

theorem walk_entries_fst {path : PyStr} {renamed : List (PyStr × PyStr)}
    {entries outs : List (Key κ × PyValue κ σ)}
    (h : ∀ entry ∈ entries, ∀ p, (walk key_text p entry.2).map Prod.fst = walked key_text entry.2) :
    (walk_entries key_text path renamed entries).map Prod.fst = some outs ↔
      List.Forall₂ (fun entry out => out.1 = renamed_key renamed entry.1 ∧
        walked key_text entry.2 = some out.2) entries outs := by
  induction entries generalizing outs with
  | nil =>
      rw [walk_entries, Option.map_some, Option.some.injEq, List.forall₂_nil_left_iff]
      exact eq_comm
  | cons entry rest ih =>
      have hentry := h entry List.mem_cons_self
        (join path (ascii (shown_key key_text (renamed_key renamed entry.1))))
      simp only [← hentry, List.forall₂_cons_left_iff,
        ← ih fun entry hmem => h entry (List.mem_cons_of_mem _ hmem)]
      rw [walk_entries]
      cases walk key_text _ entry.2 with
      | none => simp
      | some out =>
          cases walk_entries key_text path renamed rest with
          | none => simp
          | some more => simpa using eq_comm

theorem walk_mapping_fst (path : PyStr) (own : Option (Reading κ σ))
    (entries : List (Key κ × PyValue κ σ)) :
    (walk key_text path (.mapping own entries)).map Prod.fst =
      ((walk_entries key_text path (renamed_of (entries.map Prod.fst)) entries).map Prod.fst).map
        fun outs => .mapping none (Dict.ofPairs outs) := by
  rw [walk]
  cases walk_entries key_text path (renamed_of (entries.map Prod.fst)) entries <;> rfl

theorem walk_sequence_fst (path : PyStr) (own : Option (Reading κ σ)) (items : List (PyValue κ σ)) :
    (walk key_text path (.sequence own items)).map Prod.fst =
      ((walk_items key_text path 0 items).map Prod.fst).map (.sequence none) := by
  rw [walk]
  cases walk_items key_text path 0 items <;> rfl

theorem walk_leaf_fst (path : PyStr) (shown : PyStr) (own : Reading κ σ) :
    (walk key_text path (.leaf (some shown) own : PyValue κ σ)).map Prod.fst =
      some (if has_surrogate shown then .text none (replace_surrogates shown)
        else .leaf (some shown) own) := by
  rw [walk]
  split <;> rfl

theorem walk_fst (v : PyValue κ σ) :
    ∀ path, (walk key_text path v).map Prod.fst = walked key_text v := by
  induction v with
  | text own t => exact fun _ => rfl
  | mapping own entries ih =>
      intro path
      rw [walked, walk_mapping_fst, walk_mapping_fst]
      congr 1
      ext outs
      exact (walk_entries_fst ih).trans (walk_entries_fst ih).symm
  | sequence own items ih =>
      intro path
      rw [walked, walk_sequence_fst, walk_sequence_fst]
      congr 1
      ext outs
      exact (walk_items_fst ih).trans (walk_items_fst ih).symm
  | number own => exact fun _ => rfl
  | leaf shown own =>
      intro path
      cases shown with
      | none => rfl
      | some shown => rw [walked, walk_leaf_fst, walk_leaf_fst]

theorem walked_mapping {own : Option (Reading κ σ)} {entries : List (Key κ × PyValue κ σ)}
    {out : PyValue κ σ} : walked key_text (.mapping own entries) = some out ↔ ∃ outs,
      List.Forall₂ (fun entry out =>
        out.1 = renamed_key (renamed_of (entries.map Prod.fst)) entry.1 ∧
          walked key_text entry.2 = some out.2) entries outs ∧
        .mapping none (Dict.ofPairs outs) = out := by
  rw [walked, walk_mapping_fst, Option.map_eq_some_iff]
  simp only [walk_entries_fst fun entry _ => walk_fst entry.2]

theorem walked_sequence {own : Option (Reading κ σ)} {items : List (PyValue κ σ)}
    {out : PyValue κ σ} : walked key_text (.sequence own items) = some out ↔
      ∃ outs, List.Forall₂ (fun v out => walked key_text v = some out) items outs ∧
        .sequence none outs = out := by
  rw [walked, walk_sequence_fst, Option.map_eq_some_iff]
  simp only [walk_items_fst fun v _ => walk_fst v]

/-- The names of a walked mapping's keys. -/
theorem walked_names {renamed : List (PyStr × PyStr)} {entries outs : List (Key κ × PyValue κ σ)}
    (h : List.Forall₂ (fun entry out => out.1 = renamed_key renamed entry.1 ∧
      walked key_text entry.2 = some out.2) entries outs) :
    outs.map Prod.fst = (entries.map Prod.fst).map (renamed_key renamed) := by
  induction h with
  | nil => rfl
  | cons hhead _ ih => rw [List.map_cons, hhead.1, ih, List.map_cons, List.map_cons]

end Walk

/-! ## Where the walk comes to a surrogate -/

/-- A text, a key or the `str()` of an object that the walk asks for holds a surrogate. -/
inductive Touched : PyValue κ σ → Prop
  | text (own : Option (Reading κ σ)) {t : PyStr} (surrogate : has_surrogate t = true) :
      Touched (.text own t)
  | key (own : Option (Reading κ σ)) {entries : List (Key κ × PyValue κ σ)} {t : PyStr}
      (key : .text t ∈ entries.map Prod.fst) (surrogate : has_surrogate t = true) :
      Touched (.mapping own entries)
  | entry (own : Option (Reading κ σ)) {entries : List (Key κ × PyValue κ σ)}
      {entry : Key κ × PyValue κ σ} (mem : entry ∈ entries) (touched : Touched entry.2) :
      Touched (.mapping own entries)
  | item (own : Option (Reading κ σ)) {items : List (PyValue κ σ)} {v : PyValue κ σ}
      (mem : v ∈ items) (touched : Touched v) : Touched (.sequence own items)
  | leaf {shown : PyStr} (own : Reading κ σ) (surrogate : has_surrogate shown = true) :
      Touched (.leaf (some shown) own)

section Paths

variable [DecidableEq κ] {key_text : κ → PyStr}

theorem text_paths_eq_nil {path t : PyStr} :
    (Repairer.text path t).2 = [] ↔ has_surrogate t = false := by
  rw [← replace_surrogates_eq_self, Repairer.text]
  by_cases hsame : replace_surrogates t = t
  · simp [hsame]
  · simp [hsame]

theorem walk_items_paths {path : PyStr} {index : Nat} {items : List (PyValue κ σ)}
    (h : ∀ v ∈ items, ∀ p out, walk key_text p v = some out → (out.2 = [] ↔ ¬Touched v))
    {out : List (PyValue κ σ) × List PyStr}
    (hout : walk_items key_text path index items = some out) :
    out.2 = [] ↔ ∀ v ∈ items, ¬Touched v := by
  induction items generalizing index out with
  | nil =>
      cases hout
      simp
  | cons v rest ih =>
      rw [walk_items, Option.bind_eq_bind, Option.bind_eq_some_iff] at hout
      obtain ⟨first, hfirst, hout⟩ := hout
      rw [Option.bind_eq_bind, Option.bind_eq_some_iff] at hout
      obtain ⟨more, hmore, hout⟩ := hout
      cases hout
      rw [List.append_eq_nil_iff, h v List.mem_cons_self _ _ hfirst,
        ih (fun v hv => h v (List.mem_cons_of_mem _ hv)) hmore, List.forall_mem_cons]

theorem walk_entries_paths {path : PyStr} {renamed : List (PyStr × PyStr)}
    {entries : List (Key κ × PyValue κ σ)}
    (h : ∀ entry ∈ entries, ∀ p out, walk key_text p entry.2 = some out →
      (out.2 = [] ↔ ¬Touched entry.2))
    {out : List (Key κ × PyValue κ σ) × List PyStr}
    (hout : walk_entries key_text path renamed entries = some out) :
    out.2 = [] ↔ ∀ entry ∈ entries,
      entry.1 ∉ (renamed.map Prod.fst).map Key.text ∧ ¬Touched entry.2 := by
  induction entries generalizing out with
  | nil =>
      cases hout
      simp
  | cons entry rest ih =>
      rw [walk_entries, Option.bind_eq_bind, Option.bind_eq_some_iff] at hout
      obtain ⟨first, hfirst, hout⟩ := hout
      rw [Option.bind_eq_bind, Option.bind_eq_some_iff] at hout
      obtain ⟨more, hmore, hout⟩ := hout
      cases hout
      rw [List.append_eq_nil_iff, List.append_eq_nil_iff, h entry List.mem_cons_self _ _ hfirst,
        ih (fun entry hmem => h entry (List.mem_cons_of_mem _ hmem)) hmore, List.forall_mem_cons]
      refine and_congr_left fun _ => and_congr_left fun _ => ?_
      by_cases hkey : entry.1 ∈ (renamed.map Prod.fst).map Key.text
      · rw [if_pos hkey]
        exact iff_of_false (List.cons_ne_nil _ _) (not_not_intro hkey)
      · rw [if_neg hkey]
        exact iff_of_true rfl hkey

/-- The walk reports a path exactly if it comes to a surrogate. -/
theorem walk_paths_eq_nil {v : PyValue κ σ} {path : PyStr} {out : PyValue κ σ × List PyStr}
    (h : walk key_text path v = some out) : out.2 = [] ↔ ¬Touched v := by
  induction v generalizing path out with
  | text own t =>
      cases h
      rw [text_paths_eq_nil]
      constructor
      · intro hclean htouched
        cases htouched with
        | text _ hdirty => exact absurd (hclean.symm.trans hdirty) Bool.false_ne_true
      · exact fun huntouched => (Bool.not_eq_true _).mp fun hdirty => huntouched (.text own hdirty)
  | mapping own entries ih =>
      rw [walk, Option.bind_eq_bind, Option.bind_eq_some_iff] at h
      obtain ⟨outs, houts, hout⟩ := h
      cases hout
      rw [walk_entries_paths (fun entry hentry p out => ih entry hentry) houts]
      constructor
      · intro hnone htouched
        cases htouched with
        | key _ hkey hsurrogate =>
            obtain ⟨entry, hentry, hname⟩ := List.mem_map.mp hkey
            exact (hnone entry hentry).1
              ((mem_renamed_of (hname ▸ hkey)).mpr ⟨_, hname, hsurrogate⟩)
        | entry _ hentry htouched => exact (hnone _ hentry).2 htouched
      · intro huntouched entry hentry
        have hkey : entry.1 ∈ entries.map Prod.fst := List.mem_map_of_mem hentry
        refine ⟨fun hrenamed => ?_, fun htouched => huntouched (.entry own hentry htouched)⟩
        obtain ⟨t, ht, hsurrogate⟩ := (mem_renamed_of hkey).mp hrenamed
        exact huntouched (.key own (ht ▸ hkey) hsurrogate)
  | sequence own items ih =>
      rw [walk, Option.bind_eq_bind, Option.bind_eq_some_iff] at h
      obtain ⟨outs, houts, hout⟩ := h
      cases hout
      rw [walk_items_paths (fun v hv p out => ih v hv) houts]
      constructor
      · intro hnone htouched
        cases htouched with
        | item _ hv htouched => exact hnone _ hv htouched
      · exact fun huntouched v hv htouched => huntouched (.item own hv htouched)
  | number own =>
      cases h
      refine iff_of_true rfl fun htouched => ?_
      cases htouched
  | leaf shown own =>
      cases shown with
      | none => cases h
      | some shown =>
          rw [walk] at h
          cases hshown : has_surrogate shown with
          | true =>
              rw [if_pos hshown] at h
              cases h
              rw [text_paths_eq_nil, hshown]
              exact iff_of_false (fun h => by cases h) (not_not_intro (.leaf own hshown))
          | false =>
              rw [if_neg (by rw [hshown]; exact Bool.false_ne_true)] at h
              cases h
              refine iff_of_true rfl fun htouched => ?_
              cases htouched with
              | leaf _ hdirty => exact absurd (hshown.symm.trans hdirty) Bool.false_ne_true

end Paths

/-! ## What orjson can write -/

/-- No text and no key that orjson reads holds a surrogate. -/
inductive Plain : Reading κ σ → Prop
  | text {t : PyStr} (clean : has_surrogate t = false) : Plain (.text t)
  | scalar (s : σ) : Plain (.scalar s)
  | list {items : List (Reading κ σ)} (each : ∀ r ∈ items, Plain r) : Plain (.list items)
  | mapping {entries : List (Key κ × Reading κ σ)}
      (keys : ∀ t, .text t ∈ entries.map Prod.fst → has_surrogate t = false)
      (each : ∀ entry ∈ entries, Plain entry.2) : Plain (.mapping entries)

/-- Where nothing holds a surrogate, nothing is mended. -/
theorem Plain.mended_eq {r : Reading κ σ} (h : Plain r) : mended r = r := by
  induction h with
  | text hclean => rw [mended, replace_surrogates_eq_self.mpr hclean]
  | scalar s => rfl
  | list _ ih => rw [mended, mended_items_eq, List.map_congr_left ih, List.map_id']
  | @mapping entries hkeys _ ih =>
      have hsame : ∀ entry ∈ entries, (renamed_key (renamed_of (entries.map Prod.fst)) entry.1,
          mended entry.2) = id entry := by
        intro entry hentry
        rw [ih entry hentry, renamed_key_of_clean]
        · rfl
        · exact fun t ht => hkeys t (ht ▸ List.mem_map_of_mem hentry)
      rw [mended, mended_entries_eq, List.map_congr_left hsame, List.map_id]

section Dumps

variable {fits : σ → Bool}

theorem write_text_eq_some {t : PyStr} {doc : Value σ} :
    write_text t = some doc ↔ has_surrogate t = false ∧ doc = .text t := by
  rw [write_text]
  cases h : has_surrogate t with
  | true => simp
  | false => simp [eq_comm]

theorem write_key_eq_some {key : Key κ} {name : PyStr} :
    write_key key = some name ↔ key = .text name ∧ has_surrogate name = false := by
  cases key with
  | other k => simp [write_key]
  | text t =>
      rw [write_key]
      cases h : has_surrogate t with
      | true =>
          simp only [if_true, reduceCtorEq, Key.text.injEq, false_iff, not_and]
          intro heq hclean
          rw [← heq, h] at hclean
          cases hclean
      | false =>
          simp only [Bool.false_eq_true, if_false, Option.some.injEq, Key.text.injEq, iff_self_and]
          intro heq
          exact heq ▸ h

theorem dumps_list_eq_some {items : List (Reading κ σ)} {doc : Value σ} :
    dumps fits (.list items) = some doc ↔ ∃ docs, doc = .list docs ∧
      List.Forall₂ (fun r doc => dumps fits r = some doc) items docs := by
  rw [dumps, Option.map_eq_some_iff]
  simp only [dumps_items_eq_some, @eq_comm _ doc, and_comm]

theorem dumps_mapping_eq_some {entries : List (Key κ × Reading κ σ)} {doc : Value σ} :
    dumps fits (.mapping entries) = some doc ↔ ∃ docs, doc = .mapping docs ∧
      List.Forall₂ (fun entry doc => write_key entry.1 = some doc.1 ∧
        dumps fits entry.2 = some doc.2) entries docs := by
  rw [dumps, Option.map_eq_some_iff]
  simp only [dumps_entries_eq_some, @eq_comm _ doc, and_comm]

/-- What is written holds no surrogate. -/
theorem plain_of_dumps {r : Reading κ σ} {doc : Value σ} (h : dumps fits r = some doc) :
    Plain r := by
  induction r generalizing doc with
  | text t => exact .text (write_text_eq_some.mp h).1
  | scalar s => exact .scalar s
  | list items ih =>
      obtain ⟨docs, -, hdocs⟩ := dumps_list_eq_some.mp h
      refine .list fun r hr => ?_
      obtain ⟨doc, hdoc⟩ := forall₂_exists_of_mem hdocs hr
      exact ih r hr hdoc
  | mapping entries ih =>
      obtain ⟨docs, -, hdocs⟩ := dumps_mapping_eq_some.mp h
      refine .mapping ?_ ?_
      · intro t ht
        obtain ⟨entry, hentry, hkey⟩ := List.mem_map.mp ht
        obtain ⟨doc, hname, -⟩ := forall₂_exists_of_mem hdocs hentry
        rw [hkey, write_key_eq_some] at hname
        cases hname.1
        exact hname.2
      · intro entry hentry
        obtain ⟨doc, -, hdoc⟩ := forall₂_exists_of_mem hdocs hentry
        exact ih entry hentry hdoc

theorem forall₂_unique {α β : Type} {R : α → β → Prop} {items others : List α} {docs : List β}
    (hunique : ∀ v ∈ items, ∀ w doc, R v doc → R w doc → v = w)
    (h : List.Forall₂ R items docs) (hother : List.Forall₂ R others docs) : items = others := by
  induction h generalizing others with
  | nil => exact (List.forall₂_nil_right_iff.mp hother).symm
  | cons hhead _ ih =>
      cases hother with
      | cons hhead' hrest =>
          rw [hunique _ List.mem_cons_self _ _ hhead hhead',
            ih (fun v hv => hunique v (List.mem_cons_of_mem _ hv)) hrest]

theorem read_of_text {r : Reading κ σ} {t : PyStr} (h : dumps fits r = some (.text t)) :
    r = .text t := by
  cases r with
  | text read => rw [Value.text.inj (write_text_eq_some.mp h).2]
  | scalar s =>
      rw [dumps] at h
      split at h <;> cases h
  | list items => cases (dumps_list_eq_some.mp h).choose_spec.1
  | mapping entries => cases (dumps_mapping_eq_some.mp h).choose_spec.1

theorem read_of_scalar {r : Reading κ σ} {s : σ} (h : dumps fits r = some (.scalar s)) :
    r = .scalar s := by
  cases r with
  | text read => cases (write_text_eq_some.mp h).2
  | scalar read =>
      rw [dumps] at h
      split at h
      · cases h
        rfl
      · cases h
  | list items => cases (dumps_list_eq_some.mp h).choose_spec.1
  | mapping entries => cases (dumps_mapping_eq_some.mp h).choose_spec.1

theorem read_of_list {r : Reading κ σ} {docs : List (Value σ)}
    (h : dumps fits r = some (.list docs)) :
    ∃ items, r = .list items ∧ List.Forall₂ (fun r doc => dumps fits r = some doc) items docs := by
  cases r with
  | text read => cases (write_text_eq_some.mp h).2
  | scalar read =>
      rw [dumps] at h
      split at h <;> cases h
  | list items =>
      obtain ⟨docs', hdocs, heach⟩ := dumps_list_eq_some.mp h
      cases hdocs
      exact ⟨items, rfl, heach⟩
  | mapping entries => cases (dumps_mapping_eq_some.mp h).choose_spec.1

theorem read_of_mapping {r : Reading κ σ} {docs : List (PyStr × Value σ)}
    (h : dumps fits r = some (.mapping docs)) : ∃ entries, r = .mapping entries ∧
      List.Forall₂ (fun entry doc => write_key entry.1 = some doc.1 ∧
        dumps fits entry.2 = some doc.2) entries docs := by
  cases r with
  | text read => cases (write_text_eq_some.mp h).2
  | scalar read =>
      rw [dumps] at h
      split at h <;> cases h
  | list items => cases (dumps_list_eq_some.mp h).choose_spec.1
  | mapping entries =>
      obtain ⟨docs', hdocs, heach⟩ := dumps_mapping_eq_some.mp h
      cases hdocs
      exact ⟨entries, rfl, heach⟩

/-- What is written tells what was read. -/
theorem dumps_injective {r s : Reading κ σ} {doc : Value σ} (hr : dumps fits r = some doc)
    (hs : dumps fits s = some doc) : r = s := by
  induction r generalizing s doc with
  | text t =>
      rw [(write_text_eq_some.mp hr).2] at hs
      exact (read_of_text hs).symm
  | scalar a =>
      rw [dumps] at hr
      split at hr
      · rw [← Option.some.inj hr] at hs
        exact (read_of_scalar hs).symm
      · cases hr
  | list items ih =>
      obtain ⟨docs, rfl, heach⟩ := dumps_list_eq_some.mp hr
      obtain ⟨others, rfl, hothers⟩ := read_of_list hs
      have hunique : ∀ r ∈ items, ∀ s doc,
          dumps fits r = some doc → dumps fits s = some doc → r = s :=
        fun r hitem _ _ => ih r hitem
      rw [forall₂_unique hunique heach hothers]
  | mapping entries ih =>
      obtain ⟨docs, rfl, heach⟩ := dumps_mapping_eq_some.mp hr
      obtain ⟨others, rfl, hothers⟩ := read_of_mapping hs
      rw [forall₂_unique ?_ heach hothers]
      rintro entry hentry other doc ⟨hname, hitem⟩ ⟨hname', hitem'⟩
      rw [write_key_eq_some] at hname hname'
      exact Prod.ext (hname.1.trans hname'.1.symm) (ih entry hentry hitem hitem')

end Dumps

/-! ## Where the two ways of reading a value meet -/

/-- The walk and orjson read the value alike, up to the surrogates: a `str` as a text, a `list` or a
`tuple` as an array, a `Mapping` as an object with the same names in the same order. What the walk
leaves alone holds no surrogate for orjson either. -/
inductive Alike : PyValue κ σ → Reading κ σ → Prop
  | text (own : Option (Reading κ σ)) {t read : PyStr}
      (same : replace_surrogates t = replace_surrogates read) : Alike (.text own t) (.text read)
  | mapping (own : Option (Reading κ σ)) {entries : List (Key κ × PyValue κ σ)}
      {reads : List (Key κ × Reading κ σ)}
      (names : repaired_names (entries.map Prod.fst) = repaired_names (reads.map Prod.fst))
      (each : List.Forall₂ (fun entry read => Alike entry.2 read.2) entries reads) :
      Alike (.mapping own entries) (.mapping reads)
  | sequence (own : Option (Reading κ σ)) {items : List (PyValue κ σ)} {reads : List (Reading κ σ)}
      (each : List.Forall₂ Alike items reads) : Alike (.sequence own items) (.list reads)
  | number {own read : Reading κ σ} (mended_read : mended read = own) : Alike (.number own) read
  | leaf {shown : PyStr} {own read : Reading κ σ} (clean : has_surrogate shown = false)
      (mended_read : mended read = own) : Alike (.leaf (some shown) own) read
  | shown {shown : PyStr} (own : Reading κ σ) {read : PyStr} (dirty : has_surrogate shown = true)
      (same : replace_surrogates shown = replace_surrogates read) :
      Alike (.leaf (some shown) own) (.text read)

theorem mended_eq_text {r : Reading κ σ} {t : PyStr} :
    .text t = mended r ↔ ∃ read, r = .text read ∧ t = replace_surrogates read := by
  cases r with
  | text read => simp [mended]
  | scalar s => simp [mended]
  | list items => simp [mended]
  | mapping entries => simp [mended]

theorem mended_eq_list {r : Reading κ σ} {items : List (Reading κ σ)} :
    .list items = mended r ↔ ∃ reads, r = .list reads ∧ items = reads.map mended := by
  cases r with
  | text read => simp [mended]
  | scalar s => simp [mended]
  | list reads => simp [mended, mended_items_eq]
  | mapping entries => simp [mended]

theorem mended_eq_mapping {r : Reading κ σ} {entries : List (Key κ × Reading κ σ)} :
    .mapping entries = mended r ↔ ∃ reads, r = .mapping reads ∧
      entries = mended_entries (renamed_of (reads.map Prod.fst)) reads := by
  cases r with
  | text read => simp [mended]
  | scalar s => simp [mended]
  | list reads => simp [mended]
  | mapping reads => simp [mended]

section Agreement

variable [DecidableEq κ] {key_text : κ → PyStr}

/-- What the walk makes of the value, where it is not stopped, is read as the mended reading. -/
def WalkedReads (key_text : κ → PyStr) (v : PyValue κ σ) (r : Reading κ σ) : Prop :=
  ∃ out, walked key_text v = some out ∧ out.read = mended r

theorem walked_reads_text {own : Option (Reading κ σ)} {t : PyStr} {r : Reading κ σ} :
    WalkedReads key_text (.text own t) r ↔ Alike (.text own t) r := by
  have hwalked : walked key_text (.text own t : PyValue κ σ) =
      some (.text none (replace_surrogates t)) := rfl
  simp only [WalkedReads, hwalked, Option.some.injEq, exists_eq_left', PyValue.read,
    Option.getD_none, mended_eq_text]
  constructor
  · rintro ⟨read, rfl, hsame⟩
    exact .text own hsame
  · intro halike
    cases halike with
    | text _ hsame => exact ⟨_, rfl, hsame⟩

theorem walked_reads_number {own r : Reading κ σ} :
    WalkedReads key_text (.number own) r ↔ Alike (.number own) r := by
  have hwalked : walked key_text (.number own : PyValue κ σ) = some (.number own) := rfl
  simp only [WalkedReads, hwalked, Option.some.injEq, exists_eq_left', PyValue.read]
  constructor
  · exact fun hsame => .number hsame.symm
  · intro halike
    cases halike with
    | number hsame => exact hsame.symm

theorem walked_reads_sequence {own : Option (Reading κ σ)} {items : List (PyValue κ σ)}
    {r : Reading κ σ} (ih : ∀ v ∈ items, ∀ r, WalkedReads key_text v r ↔ Alike v r) :
    WalkedReads key_text (.sequence own items) r ↔ Alike (.sequence own items) r := by
  have hitems (reads : List (Reading κ σ)) :
      (∃ outs, List.Forall₂ (fun v out => walked key_text v = some out) items outs ∧
        outs.map (·.read) = reads.map mended) ↔ List.Forall₂ Alike items reads := by
    rw [exists_forall₂_map_eq]
    exact forall₂_congr_of_mem ih
  constructor
  · intro h
    obtain ⟨out, hout, hread⟩ := h
    obtain ⟨outs, houts, rfl⟩ := walked_sequence.mp hout
    rw [PyValue.read, Option.getD_none, PyValue.read_items_eq, mended_eq_list] at hread
    obtain ⟨reads, rfl, hsame⟩ := hread
    exact .sequence own ((hitems reads).mp ⟨outs, houts, hsame⟩)
  · intro halike
    cases halike with
    | @sequence _ _ reads halike =>
        obtain ⟨outs, houts, hsame⟩ := (hitems reads).mpr halike
        refine ⟨_, walked_sequence.mpr ⟨outs, houts, rfl⟩, ?_⟩
        rw [PyValue.read, Option.getD_none, PyValue.read_items_eq, hsame, mended, mended_items_eq]

/-- The entries of a walked mapping are read as the mended ones where names and values are alike. -/
theorem walked_entries_read {entries : List (Key κ × PyValue κ σ)} {reads : List (Key κ × Reading κ σ)}
    (ih : ∀ entry ∈ entries, ∀ r, WalkedReads key_text entry.2 r ↔ Alike entry.2 r) :
    (∃ outs : List (Key κ × PyValue κ σ), List.Forall₂ (fun entry out =>
        out.1 = renamed_key (renamed_of (entries.map Prod.fst)) entry.1 ∧
          walked key_text entry.2 = some out.2) entries outs ∧
      outs.map (fun out => (out.1, out.2.read)) = reads.map fun read =>
        (renamed_key (renamed_of (reads.map Prod.fst)) read.1, mended read.2)) ↔
      repaired_names (entries.map Prod.fst) = repaired_names (reads.map Prod.fst) ∧
        List.Forall₂ (fun entry read => Alike entry.2 read.2) entries reads := by
  rw [exists_forall₂_map_eq, repaired_names, repaired_names, List.map_map, List.map_map,
    ← List.forall₂_eq_eq_eq, List.forall₂_map_left_iff, List.forall₂_map_right_iff, ← forall₂_and_iff]
  refine forall₂_congr_of_mem fun entry hentry read => ?_
  rw [← ih entry hentry]
  constructor
  · rintro ⟨out, ⟨hname, hout⟩, hsame⟩
    rw [Prod.mk.injEq] at hsame
    exact ⟨hname.symm.trans hsame.1, out.2, hout, hsame.2⟩
  · rintro ⟨hname, out, hout, hsame⟩
    exact ⟨(_, out), ⟨rfl, hout⟩, Prod.ext hname hsame⟩

/-- The walked mapping is a `dict`: its names are distinct, so none of its entries is lost. -/
theorem read_walked_entries {entries outs : List (Key κ × PyValue κ σ)}
    (hkeys : (entries.map Prod.fst).Nodup)
    (houts : List.Forall₂ (fun entry out =>
      out.1 = renamed_key (renamed_of (entries.map Prod.fst)) entry.1 ∧
        walked key_text entry.2 = some out.2) entries outs) :
    (PyValue.mapping none (Dict.ofPairs outs)).read =
      .mapping (outs.map fun out => (out.1, out.2.read)) := by
  rw [PyValue.read, Option.getD_none, PyValue.read_entries_eq, Dict.ofPairs_of_nodup]
  rw [walked_names houts]
  exact repaired_names_nodup hkeys

theorem walked_reads_mapping {own : Option (Reading κ σ)} {entries : List (Key κ × PyValue κ σ)}
    {r : Reading κ σ} (hkeys : (entries.map Prod.fst).Nodup)
    (ih : ∀ entry ∈ entries, ∀ r, WalkedReads key_text entry.2 r ↔ Alike entry.2 r) :
    WalkedReads key_text (.mapping own entries) r ↔ Alike (.mapping own entries) r := by
  constructor
  · intro h
    obtain ⟨out, hout, hsame⟩ := h
    obtain ⟨outs, houts, rfl⟩ := walked_mapping.mp hout
    rw [read_walked_entries hkeys houts, mended_eq_mapping] at hsame
    obtain ⟨reads, rfl, hsame⟩ := hsame
    rw [mended_entries_eq] at hsame
    obtain ⟨hnames, halike⟩ := (walked_entries_read ih).mp ⟨outs, houts, hsame⟩
    exact .mapping own hnames halike
  · intro halike
    cases halike with
    | @mapping _ _ reads hnames halike =>
        obtain ⟨outs, houts, hsame⟩ := (walked_entries_read ih).mpr ⟨hnames, halike⟩
        refine ⟨_, walked_mapping.mpr ⟨outs, houts, rfl⟩, ?_⟩
        rw [read_walked_entries hkeys houts, hsame, mended, mended_entries_eq]

/-- An object is left as it is, unless its `str()` holds a surrogate: then that text takes its place. -/
theorem walked_reads_leaf {shown : Option PyStr} {own r : Reading κ σ} :
    WalkedReads key_text (.leaf shown own) r ↔ Alike (.leaf shown own) r := by
  cases shown with
  | none =>
      have hwalked : walked key_text (.leaf none own : PyValue κ σ) = none := rfl
      rw [WalkedReads, hwalked]
      refine iff_of_false ?_ ?_
      · rintro ⟨out, hout, -⟩
        cases hout
      · intro halike
        cases halike
  | some shown =>
      have hwalked := @walk_leaf_fst κ σ _ key_text [] shown own
      cases hshown : has_surrogate shown with
      | true =>
          rw [if_pos hshown] at hwalked
          simp only [WalkedReads, walked, hwalked, Option.some.injEq, exists_eq_left', PyValue.read,
            Option.getD_none, mended_eq_text]
          constructor
          · rintro ⟨read, rfl, hsame⟩
            exact .shown own hshown hsame
          · intro halike
            cases halike with
            | leaf hclean _ => exact absurd (hclean.symm.trans hshown) Bool.false_ne_true
            | shown _ _ hsame => exact ⟨_, rfl, hsame⟩
      | false =>
          rw [if_neg (by rw [hshown]; exact Bool.false_ne_true)] at hwalked
          simp only [WalkedReads, walked, hwalked, Option.some.injEq, exists_eq_left', PyValue.read]
          constructor
          · exact fun hsame => .leaf hshown hsame.symm
          · intro halike
            cases halike with
            | leaf _ hsame => exact hsame.symm
            | shown _ hdirty _ => exact absurd (hshown.symm.trans hdirty) Bool.false_ne_true

/-- What the walk makes of a value is read as the mended reading, where the two are alike. -/
theorem walked_reads_iff {v : PyValue κ σ} (hkeyed : v.Keyed) (r : Reading κ σ) :
    WalkedReads key_text v r ↔ Alike v r := by
  induction v generalizing r with
  | text own t => exact walked_reads_text
  | mapping own entries ih =>
      cases hkeyed with
      | mapping _ hkeys heach =>
          exact walked_reads_mapping hkeys fun entry hentry => ih entry hentry (heach entry hentry)
  | sequence own items ih =>
      cases hkeyed with
      | sequence _ heach => exact walked_reads_sequence fun v hv => ih v hv (heach v hv)
  | number own => exact walked_reads_number
  | leaf shown own => exact walked_reads_leaf

section Dumped

variable {fits : σ → Bool} {v : PyValue κ σ} {doc : Value σ}

/-- Without surrogates the value is written as it is. -/
theorem json_bytes_of_plain (hplain : Plain v.read) (h : dumps fits (mended v.read) = some doc) :
    json_bytes key_text fits v = some { data := doc, replaced := [] } := by
  rw [hplain.mended_eq] at h
  rw [json_bytes, h]

/-- A value that orjson refuses is written as its mended reading where the walk comes to a surrogate
and reads the value as orjson does. -/
theorem json_bytes_repaired_iff (hkeyed : v.Keyed) (h : dumps fits (mended v.read) = some doc)
    (hdirty : ¬Plain v.read) :
    (∃ result, json_bytes key_text fits v = some result ∧ result.data = doc) ↔
      Touched v ∧ Alike v v.read := by
  have hrefused : dumps fits v.read = none :=
    Option.eq_none_iff_forall_ne_some.mpr fun _ hdata => hdirty (plain_of_dumps hdata)
  rw [← @walked_reads_iff _ _ _ key_text _ hkeyed, WalkedReads, json_bytes, hrefused, walked]
  cases hwalk : walk key_text [] v with
  | none => simp
  | some out =>
      have huntouched := walk_paths_eq_nil hwalk
      by_cases hpaths : out.2 = []
      · simp [hpaths, huntouched.mp hpaths]
      · have htouched := not_not.mp (hpaths ∘ huntouched.mpr)
        have hread : dumps fits out.1.read = some doc ↔ out.1.read = mended v.read :=
          ⟨fun hdata => dumps_injective hdata h, fun heq => heq ▸ h⟩
        simp only [Option.bind_eq_bind, Option.bind_some, if_neg hpaths, Option.map_some,
          Option.some.injEq, exists_eq_left', htouched, true_and, ← hread]
        cases dumps fits out.1.read with
        | none => simp
        | some data => simp

/-- Of a value that orjson can write but for its surrogates, the repairing dump writes what orjson
writes of the mended reading exactly if nothing was to be repaired, or the walk comes to a surrogate
and reads the value as orjson does. -/
theorem json_bytes_agrees_iff (hkeyed : v.Keyed) (h : dumps fits (mended v.read) = some doc) :
    (∃ result, json_bytes key_text fits v = some result ∧ result.data = doc) ↔
      Plain v.read ∨ Touched v ∧ Alike v v.read := by
  by_cases hplain : Plain v.read
  · exact iff_of_true ⟨_, json_bytes_of_plain hplain h, rfl⟩ (.inl hplain)
  · rw [json_bytes_repaired_iff hkeyed h hplain, or_iff_right hplain]

end Dumped

end Agreement

/-! ### Values of the built-in classes -/

/-- Nothing but strings, `dict`s, lists, exact tuples, numbers read as such, objects that orjson hands
to `default`, and enums or dataclasses without a surrogate in what is written or in their `str()`. -/
inductive Ordinary : PyValue κ σ → Prop
  | text (t : PyStr) : Ordinary (.text none t)
  | mapping {entries : List (Key κ × PyValue κ σ)} (each : ∀ entry ∈ entries, Ordinary entry.2) :
      Ordinary (.mapping none entries)
  | sequence {items : List (PyValue κ σ)} (each : ∀ v ∈ items, Ordinary v) :
      Ordinary (.sequence none items)
  | number (s : σ) : Ordinary (.number (.scalar s))
  | default (shown : PyStr) : Ordinary (.leaf (some shown) (.text shown))
  | native {shown : PyStr} {own : Reading κ σ} (clean : has_surrogate shown = false)
      (plain : Plain own) : Ordinary (.leaf (some shown) own)

namespace Ordinary

theorem alike {v : PyValue κ σ} (h : Ordinary v) : Alike v v.read := by
  induction h with
  | text t => exact .text none rfl
  | @mapping entries _ ih =>
      rw [PyValue.read, Option.getD_none, PyValue.read_entries_eq]
      refine .mapping none ?_ ?_
      · rw [List.map_map]
        rfl
      · rw [List.forall₂_map_right_iff]
        exact List.forall₂_same.mpr ih
  | @sequence items _ ih =>
      rw [PyValue.read, Option.getD_none, PyValue.read_items_eq]
      refine .sequence none ?_
      rw [List.forall₂_map_right_iff]
      exact List.forall₂_same.mpr ih
  | number s => exact .number rfl
  | default shown =>
      cases hshown : has_surrogate shown with
      | true => exact .shown _ hshown rfl
      | false => exact .leaf hshown (Plain.text hshown).mended_eq
  | native hclean hplain => exact .leaf hclean hplain.mended_eq

theorem plain {v : PyValue κ σ} (h : Ordinary v) (huntouched : ¬Touched v) : Plain v.read := by
  induction h with
  | text t => exact .text ((Bool.not_eq_true _).mp fun hdirty => huntouched (.text none hdirty))
  | @mapping entries _ ih =>
      rw [PyValue.read, Option.getD_none, PyValue.read_entries_eq]
      refine .mapping ?_ ?_
      · intro t ht
        rw [List.map_map] at ht
        exact (Bool.not_eq_true _).mp fun hdirty => huntouched (.key none ht hdirty)
      · intro read hread
        obtain ⟨entry, hentry, rfl⟩ := List.mem_map.mp hread
        exact ih entry hentry fun htouched => huntouched (.entry none hentry htouched)
  | @sequence items _ ih =>
      rw [PyValue.read, Option.getD_none, PyValue.read_items_eq]
      refine .list fun read hread => ?_
      obtain ⟨v, hv, rfl⟩ := List.mem_map.mp hread
      exact ih v hv fun htouched => huntouched (.item none hv htouched)
  | number s => exact .scalar s
  | default shown =>
      exact .text ((Bool.not_eq_true _).mp fun hdirty => huntouched (.leaf _ hdirty))
  | native _ hplain => exact hplain

/-- Of such a value the repairing dump writes what orjson writes of the repaired value. -/
theorem json_bytes_agrees [DecidableEq κ] {key_text : κ → PyStr} {fits : σ → Bool}
    {v : PyValue κ σ} (h : Ordinary v) (hkeyed : v.Keyed) {doc : Value σ}
    (hdoc : dumps fits (mended v.read) = some doc) :
    ∃ result, json_bytes key_text fits v = some result ∧ result.data = doc := by
  by_cases hplain : Plain v.read
  · exact ⟨_, json_bytes_of_plain hplain hdoc, rfl⟩
  · have htouched : Touched v := by
      by_contra huntouched
      exact hplain (h.plain huntouched)
    exact (json_bytes_repaired_iff hkeyed hdoc hplain).mpr ⟨htouched, h.alike⟩

end Ordinary

/-- A text that is not valid beside a named tuple. -/
def dirtyBesidePair : PyValue Nat Nat :=
  .sequence none [.text none [0xdcff],
    .sequence (some (.text (py "Pair(x=1)"))) [.number (.scalar 1)]]

theorem dirtyBesidePair_keyed : dirtyBesidePair.Keyed := by
  refine .sequence none ?_
  simp only [List.mem_cons, List.not_mem_nil, or_false, forall_eq_or_imp, forall_eq]
  refine ⟨.text _ _, .sequence _ ?_⟩
  simp only [List.mem_singleton, forall_eq]
  exact .number _

theorem json_bytes_agrees_iff_pair :
    (∃ result, json_bytes decimal (fun _ => true) dirtyBesidePair = some result ∧
        result.data = .list [.text [REPLACEMENT], .text (py "Pair(x=1)")]) ↔
      Plain dirtyBesidePair.read ∨
        Touched dirtyBesidePair ∧ Alike dirtyBesidePair dirtyBesidePair.read :=
  json_bytes_agrees_iff dirtyBesidePair_keyed rfl

/-- The same text beside a mapping that is no `dict` and has the number 1 as a key. -/
def dirtyBesideBag : PyValue Nat Nat :=
  .sequence none [.text none [0xdcff],
    .mapping (some (.text (py "Bag(1)"))) [(.other 1, .number (.scalar 1))]]

/-- The same text as the value of the key that was moved to the end of an `OrderedDict`. -/
def dirtyInMoved : PyValue Nat Nat :=
  .mapping (some (.mapping [(.text (py "a"), .text [0xdcff]), (.text (py "b"), .scalar 1)]))
    [(.text (py "b"), .number (.scalar 1)), (.text (py "a"), .text none [0xdcff])]

/-- Only the text keeps each of the three from being written. The first is then written as another
value, the second not at all, the third in another order. -/
theorem repair_changes_clean_parts :
    dumps (fun _ => true) (mended dirtyBesidePair.read) =
        some (.list [.text [REPLACEMENT], .text (py "Pair(x=1)")]) ∧
      (json_bytes decimal (fun _ => true) dirtyBesidePair).map JsonBytes.data =
        some (.list [.text [REPLACEMENT], .list [.scalar 1]]) ∧
      dumps (fun _ => true) (mended dirtyBesideBag.read) =
        some (.list [.text [REPLACEMENT], .text (py "Bag(1)")]) ∧
      (json_bytes decimal (fun _ => true) dirtyBesideBag).map JsonBytes.data = none ∧
      dumps (fun _ => true) (mended dirtyInMoved.read) =
        some (.mapping [(py "a", .text [REPLACEMENT]), (py "b", .scalar 1)]) ∧
      (json_bytes decimal (fun _ => true) dirtyInMoved).map JsonBytes.data =
        some (.mapping [(py "b", .scalar 1), (py "a", .text [REPLACEMENT])]) :=
  ⟨rfl, rfl, rfl, rfl, rfl, rfl⟩

end PwshPy.Records
