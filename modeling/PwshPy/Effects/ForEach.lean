import Mathlib.Data.List.Induction

/-! # Loops that stop at the first failure

A body is run for one item after another and changes a state. Where it fails the
loop ends, and what the items before it did stays done.
-/

namespace PwshPy.ForEach

variable {σ α β ε : Type}

def forEach (step : σ → α → σ × Except ε β) : σ → List α → σ × Except ε (List β)
  | s, [] => (s, .ok [])
  | s, x :: xs =>
      match step s x with
      | (s, .error e) => (s, .error e)
      | (s, .ok b) =>
          match forEach step s xs with
          | (s, .error e) => (s, .error e)
          | (s, .ok bs) => (s, .ok (b :: bs))

variable {step : σ → α → σ × Except ε β}

theorem forEach_cons_ok {s mid : σ} {x : α} {b : β} (h : step s x = (mid, .ok b)) (xs : List α) :
    forEach step s (x :: xs) =
      ((forEach step mid xs).1, (forEach step mid xs).2.map (b :: ·)) := by
  cases htail : forEach step mid xs with
  | mk s' result =>
      cases result with
      | error e => simp only [forEach, h, htail, Except.map]
      | ok bs => simp only [forEach, h, htail, Except.map]

theorem forEach_cons_error {s s' : σ} {x : α} {e : ε} (h : step s x = (s', .error e))
    (xs : List α) : forEach step s (x :: xs) = (s', .error e) := by
  rw [forEach, h]

/-- The rest of a loop goes on from the state its items so far left. -/
theorem forEach_append {s mid : σ} {xs : List α} {bs : List β}
    (h : forEach step s xs = (mid, .ok bs)) (ys : List α) :
    forEach step s (xs ++ ys) = ((forEach step mid ys).1, (forEach step mid ys).2.map (bs ++ ·)) := by
  induction xs generalizing s bs with
  | nil =>
      cases h
      refine Prod.ext rfl ?_
      cases hcase : (forEach step mid ys).2 with
      | error e => rw [List.nil_append, hcase]; rfl
      | ok cs => rw [List.nil_append, hcase]; rfl
  | cons x xs ih =>
      cases hx : step s x with
      | mk next result =>
          cases result with
          | error e =>
              rw [forEach_cons_error hx] at h
              cases h
          | ok b =>
              rw [forEach_cons_ok hx] at h
              obtain ⟨hstate, hresult⟩ := Prod.mk.inj h
              cases hcase : (forEach step next xs).2 with
              | error e =>
                  rw [hcase] at hresult
                  cases hresult
              | ok cs =>
                  rw [hcase] at hresult
                  cases hresult
                  have hrest := ih (Prod.ext hstate hcase)
                  rw [List.cons_append, forEach_cons_ok hx, hrest]
                  refine Prod.ext rfl ?_
                  cases (forEach step mid ys).2 with
                  | error e => rfl
                  | ok ds => rfl

/-- A loop that failed did all its items up to the one that failed, and nothing
behind it. -/
theorem forEach_error_iff {s s' : σ} {xs : List α} {e : ε} :
    forEach step s xs = (s', .error e) ↔
      ∃ before x after mid bs, xs = before ++ x :: after ∧
        forEach step s before = (mid, .ok bs) ∧ step mid x = (s', .error e) := by
  constructor
  · intro h
    induction xs generalizing s with
    | nil => cases h
    | cons x xs ih =>
        cases hx : step s x with
        | mk mid result =>
            cases result with
            | error e' =>
                rw [forEach_cons_error hx] at h
                cases h
                exact ⟨[], x, xs, s, [], rfl, rfl, hx⟩
            | ok b =>
                rw [forEach_cons_ok hx] at h
                obtain ⟨hstate, hresult⟩ := Prod.mk.inj h
                have htail : forEach step mid xs = (s', .error e) := by
                  refine Prod.ext hstate ?_
                  cases hcase : (forEach step mid xs).2 with
                  | error e' =>
                      rw [hcase] at hresult
                      cases hresult
                      rfl
                  | ok bs =>
                      rw [hcase] at hresult
                      cases hresult
                obtain ⟨before, y, after, last, bs, rfl, hbefore, hy⟩ := ih htail
                refine ⟨x :: before, y, after, last, b :: bs, rfl, ?_, hy⟩
                rw [forEach_cons_ok hx, hbefore]
                rfl
  · intro h
    obtain ⟨before, x, after, mid, bs, rfl, hbefore, hx⟩ := h
    rw [forEach_append hbefore, forEach_cons_error hx]
    rfl

/-- What holds at the start and is kept by each item that succeeds holds at the
end of a loop that succeeds. -/
theorem forEach_ok_induct {P : List α → σ → Prop} {s : σ}
    (hstart : P [] s)
    (hstep : ∀ before x mid s' bs b, forEach step s before = (mid, .ok bs) → P before mid →
      step mid x = (s', .ok b) → P (before ++ [x]) s')
    {xs : List α} {s' : σ} {bs : List β} (h : forEach step s xs = (s', .ok bs)) : P xs s' := by
  induction xs using List.reverseRecOn generalizing s' bs with
  | nil =>
      cases h
      exact hstart
  | append_singleton xs x ih =>
      cases hxs : forEach step s xs with
      | mk mid result =>
          cases result with
          | error e =>
              obtain ⟨before, y, after, last, cs, rfl, hbefore, hy⟩ := forEach_error_iff.mp hxs
              have hfails : forEach step s (before ++ y :: after ++ [x]) = (mid, .error e) :=
                forEach_error_iff.mpr
                  ⟨before, y, after ++ [x], last, cs, by simp, hbefore, hy⟩
              rw [hfails] at h
              cases h
          | ok cs =>
              cases hx : step mid x with
              | mk last result =>
                  cases result with
                  | error e =>
                      have hfails : forEach step s (xs ++ [x]) = (last, .error e) :=
                        forEach_error_iff.mpr ⟨xs, x, [], mid, cs, rfl, hxs, hx⟩
                      rw [hfails] at h
                      cases h
                  | ok b =>
                      rw [forEach_append hxs, forEach_cons_ok hx] at h
                      cases h
                      exact hstep xs x mid _ cs b hxs (ih hxs) hx

end PwshPy.ForEach
