/-! # Programs that ask

A program puts questions to the outside, one after the other, and returns or
raises. What it does next may depend on every reply, so it is a tree; a source of
replies picks one path of the tree, and the questions on that path are the trace
of the run.
-/

namespace PwshPy.Effects

/-- A program over questions `Q` with replies `R`, raising `ε` or returning `α`. -/
inductive Asking (Q : Type) (R : Q → Type) (ε α : Type) : Type where
  | done (ending : Except ε α)
  | ask (question : Q) (next : R question → Asking Q R ε α)

namespace Asking

variable {Q : Type} {R : Q → Type} {ε α β : Type}

def bind : Asking Q R ε α → (α → Asking Q R ε β) → Asking Q R ε β
  | done (.ok a), f => f a
  | done (.error e), _ => done (.error e)
  | ask q next, f => ask q fun r => (next r).bind f

instance : Monad (Asking Q R ε) where
  pure a := done (.ok a)
  bind := bind

def raise (e : ε) : Asking Q R ε α := done (.error e)

def question (q : Q) : Asking Q R ε (R q) := ask q fun r => done (.ok r)

/-- `try: x except e: handle(e)` -/
def handling (handle : ε → Asking Q R ε α) : Asking Q R ε α → Asking Q R ε α
  | done (.ok a) => done (.ok a)
  | done (.error e) => handle e
  | ask q next => ask q fun r => (next r).handling handle

/-- What a program ended with, an exception as a value. -/
def caught : Asking Q R ε α → Asking Q R ε (Except ε α)
  | done ending => done (.ok ending)
  | ask q next => ask q fun r => (next r).caught

theorem bind_assoc {γ : Type} (x : Asking Q R ε α) (f : α → Asking Q R ε β)
    (g : β → Asking Q R ε γ) : x >>= f >>= g = x >>= fun a => f a >>= g := by
  induction x with
  | done ending => cases ending <;> rfl
  | ask q next ih => exact congrArg (ask q) (funext ih)

/-! ## Runs -/

/-- The ending of a run and the questions it asked. -/
def run (replies : ∀ q, R q) : Asking Q R ε α → Except ε α × List Q
  | done ending => (ending, [])
  | ask q next =>
    let (ending, trace) := (next (replies q)).run replies
    (ending, q :: trace)

def result (replies : ∀ q, R q) (x : Asking Q R ε α) : Except ε α := (x.run replies).1

def trace (replies : ∀ q, R q) (x : Asking Q R ε α) : List Q := (x.run replies).2

variable {replies replies' : ∀ q, R q}

@[simp] theorem result_done (ending : Except ε α) :
    (done ending : Asking Q R ε α).result replies = ending := rfl

@[simp] theorem trace_done (ending : Except ε α) :
    (done ending : Asking Q R ε α).trace replies = [] := rfl

@[simp] theorem result_ask (q : Q) (next : R q → Asking Q R ε α) :
    (ask q next).result replies = (next (replies q)).result replies := rfl

@[simp] theorem trace_ask (q : Q) (next : R q → Asking Q R ε α) :
    (ask q next).trace replies = q :: (next (replies q)).trace replies := rfl

theorem result_bind (x : Asking Q R ε α) (f : α → Asking Q R ε β) :
    (x >>= f).result replies =
      match x.result replies with
      | .ok a => (f a).result replies
      | .error e => .error e := by
  induction x with
  | done ending => cases ending <;> rfl
  | ask q next ih => exact ih (replies q)

theorem trace_bind (x : Asking Q R ε α) (f : α → Asking Q R ε β) :
    (x >>= f).trace replies = x.trace replies ++
      match x.result replies with
      | .ok a => (f a).trace replies
      | .error _ => [] := by
  induction x with
  | done ending => cases ending <;> simp [Bind.bind, bind]
  | ask q next ih =>
      have hnext := ih (replies q)
      simp only [Bind.bind, bind, trace_ask, result_ask, List.cons_append] at hnext ⊢
      rw [hnext]

theorem result_handling (handle : ε → Asking Q R ε α) (x : Asking Q R ε α) :
    (x.handling handle).result replies =
      match x.result replies with
      | .ok a => .ok a
      | .error e => (handle e).result replies := by
  induction x with
  | done ending => cases ending <;> rfl
  | ask q next ih => exact ih (replies q)

@[simp] theorem result_caught (x : Asking Q R ε α) :
    x.caught.result replies = .ok (x.result replies) := by
  induction x with
  | done ending => rfl
  | ask q next ih => exact ih (replies q)

@[simp] theorem trace_caught (x : Asking Q R ε α) : x.caught.trace replies = x.trace replies := by
  induction x with
  | done ending => rfl
  | ask q next ih => rw [caught, trace_ask, trace_ask, ih]

/-- A run is decided by the replies to the questions it asks. -/
theorem run_congr (x : Asking Q R ε α)
    (h : ∀ q ∈ x.trace replies, replies' q = replies q) :
    x.run replies' = x.run replies := by
  induction x with
  | done ending => rfl
  | ask q next ih =>
      have hq : replies' q = replies q := h q (by simp)
      have hnext := ih (replies q) fun q' hq' => h q' (by simp [hq'])
      simp only [run, hq, hnext]

theorem result_congr (x : Asking Q R ε α)
    (h : ∀ q ∈ x.trace replies, replies' q = replies q) :
    x.result replies' = x.result replies := by
  rw [result, result, run_congr x h]

theorem trace_congr (x : Asking Q R ε α)
    (h : ∀ q ∈ x.trace replies, replies' q = replies q) :
    x.trace replies' = x.trace replies := by
  rw [trace, trace, run_congr x h]

/-! ## Refusals -/

section Refusals

variable (refused : ∀ q, R q → Prop) (denied : ε → Prop)

/-- Wherever a question is refused, the program raises a denial at once. -/
def StopsAtRefusal : Asking Q R ε α → Prop
  | done _ => True
  | ask q next =>
    (∀ r, (next r).StopsAtRefusal) ∧ ∀ r, refused q r → ∃ e, denied e ∧ next r = done (.error e)

variable {refused denied}

theorem StopsAtRefusal.pure (a : α) :
    (Pure.pure a : Asking Q R ε α).StopsAtRefusal refused denied := trivial

theorem StopsAtRefusal.raise (e : ε) :
    (Asking.raise e : Asking Q R ε α).StopsAtRefusal refused denied := trivial

theorem StopsAtRefusal.bind {x : Asking Q R ε α} {f : α → Asking Q R ε β}
    (hx : x.StopsAtRefusal refused denied) (hf : ∀ a, (f a).StopsAtRefusal refused denied) :
    (x >>= f).StopsAtRefusal refused denied := by
  induction x with
  | done ending =>
      cases ending with
      | ok a => exact hf a
      | error e => trivial
  | ask q next ih =>
      refine ⟨fun r => ih r (hx.1 r), ?_⟩
      intro r hr
      obtain ⟨e, he, hnext⟩ := hx.2 r hr
      refine ⟨e, he, ?_⟩
      show (next r).bind f = done (.error e)
      rw [hnext]
      rfl

/-- A handler keeps the rule when it raises a denial for a denial. -/
theorem StopsAtRefusal.handling {x : Asking Q R ε α} {handle : ε → Asking Q R ε α}
    (hx : x.StopsAtRefusal refused denied)
    (hhandle : ∀ e, (handle e).StopsAtRefusal refused denied)
    (hdenied : ∀ e, denied e → ∃ e', denied e' ∧ handle e = done (.error e')) :
    (x.handling handle).StopsAtRefusal refused denied := by
  induction x with
  | done ending =>
      cases ending with
      | ok a => trivial
      | error e => exact hhandle e
  | ask q next ih =>
      refine ⟨fun r => ih r (hx.1 r), ?_⟩
      intro r hr
      obtain ⟨e, he, hnext⟩ := hx.2 r hr
      obtain ⟨e', he', hhandle'⟩ := hdenied e he
      refine ⟨e', he', ?_⟩
      show (next r).handling handle = done (.error e')
      rw [hnext]
      exact hhandle'

/-- A refused question is the last one, and the run raises a denial for it. -/
theorem StopsAtRefusal.last {x : Asking Q R ε α} (hx : x.StopsAtRefusal refused denied)
    {before after : List Q} {q : Q} (htrace : x.trace replies = before ++ q :: after)
    (hq : refused q (replies q)) :
    after = [] ∧ ∃ e, denied e ∧ x.result replies = .error e := by
  induction x generalizing before with
  | done ending =>
      simp at htrace
  | ask question next ih =>
      rw [trace_ask] at htrace
      cases before with
      | nil =>
          obtain ⟨rfl, rfl⟩ := List.cons.inj htrace
          obtain ⟨e, he, hnext⟩ := hx.2 _ hq
          refine ⟨by simp [hnext], e, he, ?_⟩
          rw [result_ask, hnext]
          rfl
      | cons question' before =>
          exact ih _ (hx.1 _) (List.cons.inj htrace).2

end Refusals

/-! ## Streams

A generator runs one program after the other. Each yields an item or nothing; an
exception ends the stream.
-/

/-- The items with the questions each of them took, the exception at the end, and all questions. -/
structure Stream (Q ε α : Type) where
  items : List (α × List Q)
  ending : Option ε
  trace : List Q

def stream (replies : ∀ q, R q) : List (Asking Q R ε (Option α)) → Stream Q ε α
  | [] => ⟨[], none, []⟩
  | x :: xs =>
    match x.result replies with
    | .error e => ⟨[], some e, x.trace replies⟩
    | .ok none => { stream replies xs with trace := x.trace replies ++ (stream replies xs).trace }
    | .ok (some a) =>
      { items := (a, x.trace replies) :: (stream replies xs).items
        ending := (stream replies xs).ending
        trace := x.trace replies ++ (stream replies xs).trace }

/-- The items alone. -/
def Stream.values (s : Stream Q ε α) : List α := s.items.map (·.1)

theorem stream_cons_error {x : Asking Q R ε (Option α)} {xs : List (Asking Q R ε (Option α))} {e : ε}
    (h : x.result replies = .error e) :
    stream replies (x :: xs) = ⟨[], some e, x.trace replies⟩ := by
  rw [stream, h]

theorem stream_cons_none {x : Asking Q R ε (Option α)} {xs : List (Asking Q R ε (Option α))}
    (h : x.result replies = .ok none) :
    stream replies (x :: xs) =
      { stream replies xs with trace := x.trace replies ++ (stream replies xs).trace } := by
  rw [stream, h]

theorem stream_cons_some {x : Asking Q R ε (Option α)} {xs : List (Asking Q R ε (Option α))} {a : α}
    (h : x.result replies = .ok (some a)) :
    stream replies (x :: xs) =
      { items := (a, x.trace replies) :: (stream replies xs).items
        ending := (stream replies xs).ending
        trace := x.trace replies ++ (stream replies xs).trace } := by
  rw [stream, h]

/-- Every item comes from a program of the stream. -/
theorem mem_items {xs : List (Asking Q R ε (Option α))} {a : α} {trace : List Q}
    (h : (a, trace) ∈ (stream replies xs).items) :
    ∃ x ∈ xs, x.result replies = .ok (some a) ∧ x.trace replies = trace := by
  induction xs with
  | nil => cases h
  | cons x xs ih =>
      cases hx : x.result replies with
      | error e =>
          rw [stream_cons_error hx] at h
          cases h
      | ok value =>
          cases value with
          | none =>
              rw [stream_cons_none hx] at h
              obtain ⟨y, hy, hyx⟩ := ih h
              exact ⟨y, List.mem_cons_of_mem _ hy, hyx⟩
          | some b =>
              rw [stream_cons_some hx] at h
              rcases List.mem_cons.mp h with heq | h
              · obtain ⟨rfl, rfl⟩ := Prod.mk.inj heq
                exact ⟨x, List.mem_cons_self, hx, rfl⟩
              · obtain ⟨y, hy, hyx⟩ := ih h
                exact ⟨y, List.mem_cons_of_mem _ hy, hyx⟩

/-- Unless a program raises, a stream holds what its programs yield. -/
theorem mem_values_iff {xs : List (Asking Q R ε (Option α))}
    (h : ∀ x ∈ xs, ∃ value, x.result replies = .ok value) {a : α} :
    a ∈ (stream replies xs).values ↔ ∃ x ∈ xs, x.result replies = .ok (some a) := by
  induction xs with
  | nil => simp [stream, Stream.values]
  | cons x xs ih =>
      have hrest := ih fun y hy => h y (List.mem_cons_of_mem _ hy)
      obtain ⟨value, hvalue⟩ := h x List.mem_cons_self
      cases value with
      | none =>
          rw [stream_cons_none hvalue]
          simpa [hvalue, Stream.values] using hrest
      | some b =>
          rw [stream_cons_some hvalue]
          simp only [Stream.values, List.map_cons, List.mem_cons] at hrest ⊢
          rw [hrest]
          simp [hvalue, eq_comm]

/-- A program that yields nothing can be left out of a stream. -/
theorem stream_without {xs ys : List (Asking Q R ε (Option α))} {x : Asking Q R ε (Option α)}
    (h : x.result replies = .ok none) :
    (stream replies (xs ++ x :: ys)).items = (stream replies (xs ++ ys)).items ∧
      (stream replies (xs ++ x :: ys)).ending = (stream replies (xs ++ ys)).ending := by
  induction xs with
  | nil =>
      rw [List.nil_append, stream_cons_none h]
      exact ⟨rfl, rfl⟩
  | cons y xs ih =>
      rw [List.cons_append, List.cons_append]
      cases hy : y.result replies with
      | error e => simp [stream_cons_error hy]
      | ok value =>
          cases value with
          | none =>
              rw [stream_cons_none hy, stream_cons_none hy]
              exact ih
          | some a =>
              rw [stream_cons_some hy, stream_cons_some hy]
              exact ⟨by rw [ih.1], ih.2⟩

/-- A stream is decided by the replies to the questions it asks. -/
theorem stream_congr (xs : List (Asking Q R ε (Option α)))
    (h : ∀ q ∈ (stream replies xs).trace, replies' q = replies q) :
    stream replies' xs = stream replies xs := by
  induction xs with
  | nil => rfl
  | cons x xs ih =>
      cases hx : x.result replies with
      | error e =>
          rw [stream_cons_error hx] at h ⊢
          rw [stream_cons_error (by rw [result_congr x h, hx]), trace_congr x h]
      | ok value =>
          cases value with
          | none =>
              rw [stream_cons_none hx] at h ⊢
              have hfirst := fun q hq => h q (List.mem_append_left _ hq)
              have hrest := ih fun q hq => h q (List.mem_append_right _ hq)
              rw [stream_cons_none (by rw [result_congr x hfirst, hx]), trace_congr x hfirst, hrest]
          | some a =>
              rw [stream_cons_some hx] at h ⊢
              have hfirst := fun q hq => h q (List.mem_append_left _ hq)
              have hrest := ih fun q hq => h q (List.mem_append_right _ hq)
              rw [stream_cons_some (by rw [result_congr x hfirst, hx]), trace_congr x hfirst, hrest]

section Refusals

variable (refused : ∀ q, R q → Prop) (denied : ε → Prop)

/-- What a program of a stream does about a refused question: nothing more is
asked, and it raises a denial or, unless `strict`, yields nothing. -/
def SkipsRefused (strict : Bool) (x : Asking Q R ε (Option α)) : Prop :=
  ∀ (replies : ∀ q, R q) (before after : List Q) (q : Q),
    x.trace replies = before ++ q :: after → refused q (replies q) →
      after = [] ∧
        if strict then ∃ e, denied e ∧ x.result replies = .error e else x.result replies = .ok none

variable {refused denied}

theorem SkipsRefused.pure {strict : Bool} (a : Option α) :
    (Pure.pure a : Asking Q R ε (Option α)).SkipsRefused refused denied strict := by
  intro replies before after q htrace
  simp [Pure.pure] at htrace

theorem SkipsRefused.raise {strict : Bool} (e : ε) :
    (Asking.raise e : Asking Q R ε (Option α)).SkipsRefused refused denied strict := by
  intro replies before after q htrace
  simp [Asking.raise] at htrace

/-- Going on from what a program ended with: a denial is raised or skipped on the spot. -/
theorem SkipsRefused.of_caught {strict : Bool} {x : Asking Q R ε α}
    {f : Except ε α → Asking Q R ε (Option β)} (hx : x.StopsAtRefusal refused denied)
    (hf : ∀ ending, (f ending).SkipsRefused refused denied strict)
    (hdenied : ∀ e, denied e → ∃ ending, f (.error e) = done ending ∧
      if strict then ∃ e', denied e' ∧ ending = .error e' else ending = .ok none) :
    (x.caught >>= f).SkipsRefused refused denied strict := by
  intro replies before after q htrace hq
  rw [trace_bind, result_caught, trace_caught] at htrace
  rw [result_bind, result_caught]
  simp only at htrace ⊢
  rcases List.append_eq_append_iff.mp htrace with ⟨mid, hmid, hrest⟩ | ⟨mid, hmid, hrest⟩
  · exact hf _ replies mid after q hrest hq
  · cases mid with
    | nil => exact hf _ replies [] after q (by simpa using hrest.symm) hq
    | cons q' mid =>
        obtain ⟨rfl, hafter⟩ := List.cons.inj hrest
        obtain ⟨rfl, e, he, hresult⟩ := hx.last hmid hq
        obtain ⟨ending, hending, hstrict⟩ := hdenied e he
        rw [hresult, hending] at hafter
        rw [hresult, hending]
        exact ⟨by simpa using hafter, hstrict⟩

/-- An item rests on questions none of which was refused. -/
theorem SkipsRefused.not_refused {strict : Bool} {x : Asking Q R ε (Option α)}
    (hx : x.SkipsRefused refused denied strict) {a : α} (hresult : x.result replies = .ok (some a))
    {q : Q} (hq : q ∈ x.trace replies) : ¬ refused q (replies q) := by
  intro hrefused
  obtain ⟨before, after, htrace⟩ := List.append_of_mem hq
  obtain ⟨-, h⟩ := hx replies before after q htrace hrefused
  cases strict with
  | true =>
      obtain ⟨e, -, he⟩ := h
      rw [he] at hresult
      cases hresult
  | false =>
      have hnone : x.result replies = .ok none := h
      rw [hnone] at hresult
      cases hresult

/-- In a strict stream a refused question is the last one and its denial ends the stream. -/
theorem stream_last {xs : List (Asking Q R ε (Option α))}
    (hxs : ∀ x ∈ xs, x.SkipsRefused refused denied true) {before after : List Q} {q : Q}
    (htrace : (stream replies xs).trace = before ++ q :: after) (hq : refused q (replies q)) :
    after = [] ∧ ∃ e, denied e ∧ (stream replies xs).ending = some e := by
  induction xs generalizing before with
  | nil => simp [stream] at htrace
  | cons x xs ih =>
      have hx := hxs x List.mem_cons_self
      have hxs' : ∀ y ∈ xs, y.SkipsRefused refused denied true :=
        fun y hy => hxs y (List.mem_cons_of_mem _ hy)
      cases hresult : x.result replies with
      | error e =>
          rw [stream_cons_error hresult] at htrace ⊢
          obtain ⟨hafter, e', he', hraised⟩ := hx replies before after q htrace hq
          rw [hresult] at hraised
          cases hraised
          exact ⟨hafter, e, he', rfl⟩
      | ok value =>
          have hnot : ∀ q ∈ x.trace replies, ¬ refused q (replies q) := by
            intro q' hq' hrefused
            obtain ⟨before', after', htrace'⟩ := List.append_of_mem hq'
            obtain ⟨-, e, -, he⟩ := hx replies before' after' q' htrace' hrefused
            rw [hresult] at he
            cases he
          have hsplit : ∀ rest : List Q, x.trace replies ++ rest = before ++ q :: after →
              ∃ before', rest = before' ++ q :: after := by
            intro rest h
            rcases List.append_eq_append_iff.mp h with ⟨mid, hmid, hrest⟩ | ⟨mid, hmid, hrest⟩
            · exact ⟨mid, hrest⟩
            · cases mid with
              | nil => exact ⟨[], by simpa using hrest.symm⟩
              | cons c mid =>
                  obtain ⟨rfl, -⟩ := List.cons.inj hrest
                  exact absurd hq (hnot q (by rw [hmid]; simp))
          cases value with
          | none =>
              rw [stream_cons_none hresult] at htrace ⊢
              obtain ⟨before', h⟩ := hsplit _ htrace
              exact ih hxs' h
          | some a =>
              rw [stream_cons_some hresult] at htrace ⊢
              obtain ⟨before', h⟩ := hsplit _ htrace
              exact ih hxs' h

end Refusals

end Asking

end PwshPy.Effects
