import Mathlib.Data.Fintype.Card
import Mathlib.Data.Fintype.Sets
import Mathlib.Logic.Relation

/-! # Worklists

The closure of a set of starting points under a visit that returns a value and
further points, or fails. Points wait on a stack, a point found already is
skipped, and the points visited are logged in order. The loop ends because a
visit makes one more point of a finite type a found one.
-/

namespace PwshPy.Worklist

variable {α β ε : Type}

/-- The points of an insertion-ordered dictionary. -/
def keys (found : List (α × β)) : List α := found.map Prod.fst

@[simp] theorem keys_nil : keys ([] : List (α × β)) = [] := rfl

@[simp] theorem keys_append (found more : List (α × β)) :
    keys (found ++ more) = keys found ++ keys more := by
  simp [keys]

@[simp] theorem keys_cons (e : α × β) (found : List (α × β)) : keys (e :: found) = e.1 :: keys found :=
  rfl

theorem mem_keys {found : List (α × β)} {x : α} : x ∈ keys found ↔ ∃ b, (x, b) ∈ found := by
  simp [keys]

/-! ## The loop -/

section Loop

variable [DecidableEq α] [Fintype α]

/-- The points not found yet. -/
def missing (found : List (α × β)) : Finset α := Finset.univ.filter (· ∉ keys found)

theorem missing_append_lt {found : List (α × β)} {x : α} (hx : x ∉ keys found) (b : β) :
    (missing (found ++ [(x, b)])).card < (missing found).card := by
  refine Finset.card_lt_card (Finset.ssubset_iff_subset_ne.mpr ⟨?_, ?_⟩)
  · intro y hy
    simp only [missing, Finset.mem_filter, Finset.mem_univ, true_and, keys_append, keys_cons,
      keys_nil, List.mem_append, List.mem_singleton, not_or] at hy ⊢
    exact hy.1
  · intro heq
    have hmem : x ∈ missing found := by simpa [missing] using hx
    rw [← heq] at hmem
    simp [missing] at hmem

end Loop

/-- The loop: the stack (its top first), the points found and the visits made. -/
def explore [DecidableEq α] [Fintype α] (visit : α → Except ε (β × List α)) :
    List α → List (α × β) → List α → List α × Except ε (List (α × β))
  | [], found, visits => (visits, .ok found)
  | x :: pending, found, visits =>
      if x ∈ keys found then
        explore visit pending found visits
      else
        match visit x with
        | .error e => (visits ++ [x], .error e)
        | .ok (b, next) =>
            explore visit ((next.filter (· ∉ keys (found ++ [(x, b)]))).reverse ++ pending)
              (found ++ [(x, b)]) (visits ++ [x])
  termination_by pending found => ((missing found).card, pending.length)
  decreasing_by
    · exact Prod.Lex.right _ (Nat.lt_succ_self _)
    · exact Prod.Lex.left _ _ (missing_append_lt ‹_› b)

/-! ## What one turn of the loop preserves -/

section Turn

variable (visit : α → Except ε (β × List α))

/-- A visit of `x` leads to `y`. -/
def Leads (x y : α) : Prop := ∃ b next, visit x = .ok (b, next) ∧ y ∈ next

/-- Everything found was visited with this value and leads to points found or
waiting, the starting points are found or waiting, and nothing else is. -/
structure Invariant (start pending : List α) (found : List (α × β)) : Prop where
  visited : ∀ e ∈ found, ∃ next, visit e.1 = .ok (e.2, next) ∧
    ∀ y ∈ next, y ∈ keys found ∨ y ∈ pending
  started : ∀ s ∈ start, s ∈ keys found ∨ s ∈ pending
  reached : ∀ x, x ∈ keys found ∨ x ∈ pending →
    ∃ s ∈ start, Relation.ReflTransGen (Leads visit) s x
  nodup : (keys found).Nodup

variable {visit} {start pending : List α} {found : List (α × β)} {x : α}

theorem Invariant.initial (start : List α) :
    Invariant visit start start ([] : List (α × β)) where
  visited := by simp
  started := fun s hs => .inr hs
  reached := fun x hx => ⟨x, by simpa using hx, .refl⟩
  nodup := by simp

theorem Invariant.skip (inv : Invariant visit start (x :: pending) found) (hx : x ∈ keys found) :
    Invariant visit start pending found where
  visited := by
    intro e he
    obtain ⟨next, hv, hnext⟩ := inv.visited e he
    refine ⟨next, hv, fun y hy => ?_⟩
    rcases hnext y hy with h | h
    · exact .inl h
    · rcases List.mem_cons.mp h with rfl | h
      · exact .inl hx
      · exact .inr h
  started := by
    intro s hs
    rcases inv.started s hs with h | h
    · exact .inl h
    · rcases List.mem_cons.mp h with rfl | h
      · exact .inl hx
      · exact .inr h
  reached := fun y hy => inv.reached y (hy.imp_right (List.mem_cons_of_mem x))
  nodup := inv.nodup

/-- A point waiting under the top of the stack is found or waiting after the top
was visited. -/
private theorem still_covered {b : β} {y : α} {more : List α}
    (h : y ∈ keys found ∨ y ∈ x :: pending) :
    y ∈ keys (found ++ [(x, b)]) ∨ y ∈ more ++ pending := by
  simp only [keys_append, keys_cons, keys_nil, List.mem_append, List.mem_cons] at h ⊢
  rcases h with h | rfl | h
  · exact .inl (.inl h)
  · exact .inl (.inr (.inl rfl))
  · exact .inr (.inr h)

theorem Invariant.visit_top [DecidableEq α] (inv : Invariant visit start (x :: pending) found)
    (hx : x ∉ keys found) {b : β} {next : List α} (hv : visit x = .ok (b, next)) :
    Invariant visit start
      ((next.filter (· ∉ keys (found ++ [(x, b)]))).reverse ++ pending) (found ++ [(x, b)]) where
  visited := by
    intro e he
    rcases List.mem_append.mp he with he | he
    · obtain ⟨next', hv', hnext⟩ := inv.visited e he
      exact ⟨next', hv', fun y hy => still_covered (hnext y hy)⟩
    · obtain rfl := List.mem_singleton.mp he
      refine ⟨next, hv, fun y hy => ?_⟩
      by_cases hfound : y ∈ keys (found ++ [(x, b)])
      · exact .inl hfound
      · refine .inr (List.mem_append_left _ (List.mem_reverse.mpr ?_))
        exact List.mem_filter.mpr ⟨hy, decide_eq_true hfound⟩
  started := fun s hs => still_covered (inv.started s hs)
  reached := by
    intro y hy
    have hcases : y ∈ keys found ∨ y ∈ x :: pending ∨ y ∈ next := by
      simp only [keys_append, keys_cons, keys_nil, List.mem_append, List.mem_reverse,
        List.mem_filter, List.mem_cons, List.not_mem_nil, or_false] at hy ⊢
      tauto
    rcases hcases with h | h | h
    · exact inv.reached y (.inl h)
    · exact inv.reached y (.inr h)
    · obtain ⟨s, hs, hpath⟩ := inv.reached x (.inr (by simp))
      exact ⟨s, hs, hpath.tail ⟨b, next, hv, h⟩⟩
  nodup := by
    rw [keys_append]
    refine List.nodup_append.mpr ⟨inv.nodup, by simp, ?_⟩
    intro y hy z hz hyz
    obtain rfl : z = x := by simpa using hz
    exact hx (hyz ▸ hy)

/-- What is found is what the starting points lead to. -/
theorem Invariant.mem_iff (inv : Invariant visit start [] found) :
    x ∈ keys found ↔ ∃ s ∈ start, Relation.ReflTransGen (Leads visit) s x := by
  constructor
  · exact fun h => inv.reached x (.inl h)
  · rintro ⟨s, hs, hpath⟩
    induction hpath with
    | refl => simpa using inv.started s hs
    | @tail y z _ hyz ih =>
        obtain ⟨b, hb⟩ := mem_keys.mp ih
        obtain ⟨next, hv, hnext⟩ := inv.visited _ hb
        obtain ⟨b', next', hv', hz⟩ := hyz
        obtain ⟨rfl, rfl⟩ : b' = b ∧ next' = next := by simpa [hv'] using hv
        simpa using hnext z hz

end Turn

/-! ## What a whole run preserves -/

section Run

variable [DecidableEq α] [Fintype α] {visit : α → Except ε (β × List α)}
  {start pending : List α} {found : List (α × β)}

/-- A run that returns has emptied its stack and kept the invariant. -/
theorem explore_ok {visits visits' : List α} {found' : List (α × β)}
    (inv : Invariant visit start pending found)
    (h : explore visit pending found visits = (visits', .ok found')) :
    Invariant visit start [] found' := by
  induction pending, found, visits using explore.induct visit with
  | case1 found visits =>
      simp only [explore, Prod.mk.injEq, Except.ok.injEq] at h
      exact h.2 ▸ inv
  | case2 found visits x pending hx ih =>
      rw [explore, if_pos hx] at h
      exact ih (inv.skip hx) h
  | case3 found visits x pending hx e hv =>
      rw [explore, if_neg hx, hv] at h
      simp at h
  | case4 found visits x pending hx b next hv ih =>
      rw [explore, if_neg hx, hv] at h
      exact ih (inv.visit_top hx hv) h

/-- No point is visited twice, whether the run returns or fails. -/
theorem explore_visits_nodup {visits : List α} (hkeys : visits = keys found)
    (hnodup : visits.Nodup) : (explore visit pending found visits).1.Nodup := by
  induction pending, found, visits using explore.induct visit with
  | case1 found visits => simpa [explore] using hnodup
  | case2 found visits x pending hx ih =>
      rw [explore, if_pos hx]
      exact ih hkeys hnodup
  | case3 found visits x pending hx e hv =>
      rw [explore, if_neg hx, hv]
      exact List.nodup_append.mpr ⟨hnodup, by simp, by grind⟩
  | case4 found visits x pending hx b next hv ih =>
      rw [explore, if_neg hx, hv]
      refine ih (by simp [hkeys]) (List.nodup_append.mpr ⟨hnodup, by simp, by grind⟩)

/-- A run that returns made one visit for each point it found, in this order. -/
theorem explore_visits_eq {visits visits' : List α} {found' : List (α × β)}
    (hkeys : visits = keys found)
    (h : explore visit pending found visits = (visits', .ok found')) : visits' = keys found' := by
  induction pending, found, visits using explore.induct visit with
  | case1 found visits =>
      simp only [explore, Prod.mk.injEq, Except.ok.injEq] at h
      rw [← h.1, ← h.2, hkeys]
  | case2 found visits x pending hx ih =>
      rw [explore, if_pos hx] at h
      exact ih hkeys h
  | case3 found visits x pending hx e hv =>
      rw [explore, if_neg hx, hv] at h
      simp at h
  | case4 found visits x pending hx b next hv ih =>
      rw [explore, if_neg hx, hv] at h
      exact ih (by simp [hkeys]) h

end Run

/-! ## Where a run fails -/

section Fails

variable [DecidableEq α] (visit : α → Except ε (β × List α))

/-- One turn of the loop, on the stack and the points found. -/
inductive Turn : List α × List (α × β) → List α × List (α × β) → Prop where
  | skip {x : α} {pending : List α} {found : List (α × β)} (hx : x ∈ keys found) :
      Turn (x :: pending, found) (pending, found)
  | visit {x : α} {pending : List α} {found : List (α × β)} {b : β} {next : List α}
      (hx : x ∉ keys found) (hv : visit x = .ok (b, next)) :
      Turn (x :: pending, found)
        ((next.filter (· ∉ keys (found ++ [(x, b)]))).reverse ++ pending, found ++ [(x, b)])

/-- The loop, begun with this stack and these points, comes to visit `x`. -/
def Comes (pending : List α) (found : List (α × β)) (x : α) : Prop :=
  ∃ rest before, Relation.ReflTransGen (Turn visit) (pending, found) (x :: rest, before) ∧
    x ∉ keys before

variable {visit} {pending : List α} {found : List (α × β)} {x y : α}

theorem comes_nil : ¬Comes visit [] found y := by
  intro h
  obtain ⟨rest, before, hpath, -⟩ := h
  obtain heq | ⟨next, hturn, -⟩ := Relation.ReflTransGen.cases_head hpath
  · cases heq
  · cases hturn

theorem comes_skip (hx : x ∈ keys found) :
    Comes visit (x :: pending) found y ↔ Comes visit pending found y := by
  constructor
  · intro h
    obtain ⟨rest, before, hpath, hy⟩ := h
    obtain heq | ⟨next, hturn, hnext⟩ := Relation.ReflTransGen.cases_head hpath
    · cases heq
      exact absurd hx hy
    · cases hturn with
      | skip => exact ⟨rest, before, hnext, hy⟩
      | visit hnot => exact absurd hx hnot
  · intro h
    obtain ⟨rest, before, hpath, hy⟩ := h
    exact ⟨rest, before, hpath.head (.skip hx), hy⟩

theorem comes_visit (hx : x ∉ keys found) :
    Comes visit (x :: pending) found y ↔ y = x ∨ ∃ b next, visit x = .ok (b, next) ∧
      Comes visit ((next.filter (· ∉ keys (found ++ [(x, b)]))).reverse ++ pending)
        (found ++ [(x, b)]) y := by
  constructor
  · intro h
    obtain ⟨rest, before, hpath, hy⟩ := h
    obtain heq | ⟨next, hturn, hnext⟩ := Relation.ReflTransGen.cases_head hpath
    · cases heq
      exact Or.inl rfl
    · cases hturn with
      | skip hfound => exact absurd hfound hx
      | visit _ hv => exact Or.inr ⟨_, _, hv, rest, before, hnext, hy⟩
  · intro h
    cases h with
    | inl h =>
        subst h
        exact ⟨pending, found, .refl, hx⟩
    | inr h =>
        obtain ⟨b, next, hv, rest, before, hpath, hy⟩ := h
        exact ⟨rest, before, hpath.head (.visit hx hv), hy⟩

/-- A run raises what the visit of a point it comes to raises. -/
theorem explore_error_iff [Fintype α] {visits : List α} {e : ε} :
    (explore visit pending found visits).2 = .error e ↔
      ∃ x, Comes visit pending found x ∧ visit x = .error e := by
  induction pending, found, visits using explore.induct visit with
  | case1 found visits =>
      rw [explore]
      constructor
      · intro h
        cases h
      · intro h
        obtain ⟨x, hcomes, -⟩ := h
        exact absurd hcomes comes_nil
  | case2 found visits x pending hx ih =>
      rw [explore, if_pos hx, ih]
      simp only [comes_skip hx]
  | case3 x pending found visits hx e' hv =>
      rw [explore, if_neg hx, hv]
      constructor
      · intro h
        cases h
        exact ⟨x, (comes_visit hx).mpr (Or.inl rfl), hv⟩
      · intro h
        obtain ⟨y, hcomes, hy⟩ := h
        obtain rfl | ⟨b, next, hv', -⟩ := (comes_visit hx).mp hcomes
        · exact congrArg _ (Except.error.inj (hv.symm.trans hy))
        · rw [hv] at hv'
          cases hv'
  | case4 found visits x pending hx b next hv ih =>
      rw [explore, if_neg hx, hv]
      refine ih.trans ?_
      constructor
      · intro h
        obtain ⟨y, hcomes, hy⟩ := h
        exact ⟨y, (comes_visit hx).mpr (Or.inr ⟨b, next, hv, hcomes⟩), hy⟩
      · intro h
        obtain ⟨y, hcomes, hy⟩ := h
        obtain rfl | ⟨b', next', hv', hrest⟩ := (comes_visit hx).mp hcomes
        · rw [hv] at hy
          cases hy
        · rw [hv] at hv'
          cases hv'
          exact ⟨y, hrest, hy⟩

end Fails

end PwshPy.Worklist
