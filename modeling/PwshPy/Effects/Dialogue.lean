import PwshPy.Effects.Asking

/-! # Dialogues

What a program asked and what it was told, in order. Nothing binds two replies to
the same question to each other, so a dialogue is a run against an outside that
changes between any two questions.
-/

namespace PwshPy.Effects

namespace Asking

variable {Q Q' : Type} {R : Q → Type} {R' : Q' → Type} {ε ε' α β : Type}

/-- A question and the reply to it. -/
abbrev Exchange (Q : Type) (R : Q → Type) : Type := (q : Q) × R q

/-- The dialogues of a program, each with its ending. -/
inductive Runs : Asking Q R ε α → List (Exchange Q R) → Except ε α → Prop where
  | done (ending : Except ε α) : Runs (.done ending) [] ending
  | ask {q : Q} {next : R q → Asking Q R ε α} {log : List (Exchange Q R)} {ending : Except ε α}
      (r : R q) (h : Runs (next r) log ending) : Runs (.ask q next) (⟨q, r⟩ :: log) ending

variable {log : List (Exchange Q R)} {ending : Except ε α}

theorem runs_done {e : Except ε α} :
    Runs (done e : Asking Q R ε α) log ending ↔ log = [] ∧ ending = e := by
  constructor
  · intro h
    cases h
    exact ⟨rfl, rfl⟩
  · rintro ⟨rfl, rfl⟩
    exact .done _

theorem runs_ask {q : Q} {next : R q → Asking Q R ε α} :
    Runs (ask q next) log ending ↔
      ∃ r rest, log = ⟨q, r⟩ :: rest ∧ Runs (next r) rest ending := by
  constructor
  · intro h
    cases h with
    | ask r h => exact ⟨r, _, rfl, h⟩
  · rintro ⟨r, rest, rfl, h⟩
    exact .ask r h

theorem runs_pure {a : α} :
    Runs (pure a : Asking Q R ε α) log ending ↔ log = [] ∧ ending = .ok a := runs_done

theorem runs_raise {e : ε} :
    Runs (raise e : Asking Q R ε α) log ending ↔ log = [] ∧ ending = .error e := runs_done

/-- A dialogue of two programs is one of the first, and one of the second if the first returned. -/
theorem runs_bind {x : Asking Q R ε α} {f : α → Asking Q R ε β} {ending : Except ε β} :
    Runs (x >>= f) log ending ↔
      (∃ first a rest, log = first ++ rest ∧ Runs x first (.ok a) ∧ Runs (f a) rest ending) ∨
      ∃ e, Runs x log (.error e) ∧ ending = .error e := by
  induction x generalizing log with
  | done result =>
      cases result with
      | ok a =>
          show Runs (f a) log ending ↔ _
          constructor
          · exact fun h => .inl ⟨[], a, log, rfl, .done _, h⟩
          · rintro (⟨first, b, rest, rfl, hfirst, hrest⟩ | ⟨e, herror, -⟩)
            · obtain ⟨rfl, hb⟩ := runs_done.mp hfirst
              obtain rfl := Except.ok.inj hb
              exact hrest
            · cases (runs_done.mp herror).2
      | error e =>
          show Runs (done (.error e)) log ending ↔ _
          rw [runs_done]
          constructor
          · rintro ⟨rfl, rfl⟩
            exact .inr ⟨e, .done _, rfl⟩
          · rintro (⟨first, b, rest, -, hfirst, -⟩ | ⟨e', herror, rfl⟩)
            · cases (runs_done.mp hfirst).2
            · obtain ⟨rfl, he⟩ := runs_done.mp herror
              exact ⟨rfl, congrArg _ (Except.error.inj he)⟩
  | ask q next ih =>
      show Runs (ask q fun r => next r >>= f) log ending ↔ _
      rw [runs_ask]
      constructor
      · rintro ⟨r, rest, rfl, hrest⟩
        rcases (ih r).mp hrest with ⟨first, a, later, rfl, hfirst, hlater⟩ | ⟨e, herror, rfl⟩
        · exact .inl ⟨⟨q, r⟩ :: first, a, later, rfl, .ask r hfirst, hlater⟩
        · exact .inr ⟨e, .ask r herror, rfl⟩
      · rintro (⟨first, a, later, rfl, hfirst, hlater⟩ | ⟨e, herror, rfl⟩)
        · obtain ⟨r, rest, rfl, hnext⟩ := runs_ask.mp hfirst
          exact ⟨r, rest ++ later, rfl, (ih r).mpr (.inl ⟨rest, a, later, rfl, hnext, hlater⟩)⟩
        · obtain ⟨r, rest, rfl, hnext⟩ := runs_ask.mp herror
          exact ⟨r, rest, rfl, (ih r).mpr (.inr ⟨e, hnext, rfl⟩)⟩

theorem runs_bind_ok {x : Asking Q R ε α} {f : α → Asking Q R ε β} {b : β} :
    Runs (x >>= f) log (.ok b) ↔
      ∃ first a rest, log = first ++ rest ∧ Runs x first (.ok a) ∧ Runs (f a) rest (.ok b) := by
  rw [runs_bind]
  apply or_iff_left
  rintro ⟨e, -, h⟩
  cases h

theorem runs_question_bind {q : Q} {f : R q → Asking Q R ε β} {ending : Except ε β} :
    Runs (question q >>= f) log ending ↔
      ∃ r rest, log = ⟨q, r⟩ :: rest ∧ Runs (f r) rest ending := runs_ask

theorem runs_caught {x : Asking Q R ε α} {ending : Except ε (Except ε α)} :
    Runs x.caught log ending ↔ ∃ result, ending = .ok result ∧ Runs x log result := by
  induction x generalizing log with
  | done result =>
      show Runs (done (.ok result)) log ending ↔ _
      simp only [runs_done]
      constructor
      · exact fun ⟨hlog, hending⟩ => ⟨result, hending, hlog, rfl⟩
      · rintro ⟨result', hending, hlog, rfl⟩
        exact ⟨hlog, hending⟩
  | ask q next ih =>
      show Runs (ask q fun r => (next r).caught) log ending ↔ _
      simp only [runs_ask, ih]
      constructor
      · rintro ⟨r, rest, hlog, result, hending, hrest⟩
        exact ⟨result, hending, r, rest, hlog, hrest⟩
      · rintro ⟨result, hending, r, rest, hlog, hrest⟩
        exact ⟨r, rest, hlog, result, hending, hrest⟩

/-! ## Replies that change -/

/-- The dialogue with an outside that gives these replies, from its `n`-th on. -/
def answered (replies : Nat → ∀ q, R q) : Asking Q R ε α → Nat → Except ε α × List (Exchange Q R)
  | done ending, _ => (ending, [])
  | ask q next, n =>
    let (ending, log) := (next (replies n q)).answered replies (n + 1)
    (ending, ⟨q, replies n q⟩ :: log)

theorem runs_answered (replies : Nat → ∀ q, R q) (x : Asking Q R ε α) (n : Nat) :
    Runs x (x.answered replies n).2 (x.answered replies n).1 := by
  induction x generalizing n with
  | done ending => exact .done ending
  | ask q next ih => exact .ask _ (ih (replies n q) (n + 1))

/-! ## Programs over more questions -/

/-- A program as one over more questions and exceptions. -/
def lift (embed : Q → Q') (back : ∀ q, R' (embed q) → R q) (raised : ε → ε') :
    Asking Q R ε α → Asking Q' R' ε' α
  | done (.ok a) => done (.ok a)
  | done (.error e) => done (.error (raised e))
  | ask q next => ask (embed q) fun r => (next (back q r)).lift embed back raised

/-! ## What a program asks and raises -/

section Within

variable (asks : Q → Prop) (raises : ε → Prop)

/-- Whatever it is told, a program asks nothing else and raises nothing else. -/
def Within : Asking Q R ε α → Prop
  | done (.ok _) => True
  | done (.error e) => raises e
  | ask q next => asks q ∧ ∀ r, (next r).Within

variable {asks raises}

theorem Within.pure (a : α) : (Pure.pure a : Asking Q R ε α).Within asks raises := trivial

theorem Within.raise {e : ε} (h : raises e) :
    (Asking.raise e : Asking Q R ε α).Within asks raises := h

theorem Within.question {q : Q} (h : asks q) :
    (Asking.question q : Asking Q R ε (R q)).Within asks raises := ⟨h, fun _ => trivial⟩

theorem Within.bind {x : Asking Q R ε α} {f : α → Asking Q R ε β} (hx : x.Within asks raises)
    (hf : ∀ a, (f a).Within asks raises) : (x >>= f).Within asks raises := by
  induction x with
  | done ending =>
      cases ending with
      | ok a => exact hf a
      | error e => exact hx
  | ask q next ih => exact ⟨hx.1, fun r => ih r (hx.2 r)⟩

theorem Within.mono {asks' : Q → Prop} {raises' : ε → Prop} {x : Asking Q R ε α}
    (hx : x.Within asks raises) (hasks : ∀ q, asks q → asks' q) (hraises : ∀ e, raises e → raises' e) :
    x.Within asks' raises' := by
  induction x with
  | done ending =>
      cases ending with
      | ok a => trivial
      | error e => exact hraises e hx
  | ask q next ih => exact ⟨hasks q hx.1, fun r => ih r (hx.2 r)⟩

theorem Within.handling {x : Asking Q R ε α} {handle : ε → Asking Q R ε α}
    (hx : x.Within asks raises) (hhandle : ∀ e, raises e → (handle e).Within asks raises) :
    (x.handling handle).Within asks raises := by
  induction x with
  | done ending =>
      cases ending with
      | ok a => trivial
      | error e => exact hhandle e hx
  | ask q next ih => exact ⟨hx.1, fun r => ih r (hx.2 r)⟩

theorem Within.all (x : Asking Q R ε α) : x.Within (fun _ => True) fun _ => True := by
  induction x with
  | done ending => cases ending <;> trivial
  | ask q next ih => exact ⟨trivial, ih⟩

theorem Within.lift {embed : Q → Q'} {back : ∀ q, R' (embed q) → R q} {raised : ε → ε'}
    {asks' : Q' → Prop} {raises' : ε' → Prop} {x : Asking Q R ε α} (hx : x.Within asks raises)
    (hasks : ∀ q, asks q → asks' (embed q)) (hraises : ∀ e, raises e → raises' (raised e)) :
    (x.lift embed back raised).Within asks' raises' := by
  induction x with
  | done ending =>
      cases ending with
      | ok a => trivial
      | error e => exact hraises e hx
  | ask q next ih => exact ⟨hasks q hx.1, fun r => ih (back q r) (hx.2 (back q r))⟩

theorem Within.runs {x : Asking Q R ε α} (hx : x.Within asks raises) (h : Runs x log ending) :
    (∀ exchange ∈ log, asks exchange.1) ∧ ∀ e, ending = .error e → raises e := by
  induction h with
  | done ending =>
      refine ⟨nofun, ?_⟩
      rintro e rfl
      exact hx
  | ask r _ ih =>
      obtain ⟨hasks, hraises⟩ := ih (hx.2 r)
      exact ⟨List.forall_mem_cons.mpr ⟨hx.1, hasks⟩, hraises⟩

end Within

/-! ## Refusals in a dialogue -/

section Refusals

variable {refused : ∀ q, R q → Prop} {denied : ε → Prop}

/-- A program stops at refusals that none of its questions meets. -/
theorem Within.stopsAtRefusal {asks : Q → Prop} {raises : ε → Prop} {x : Asking Q R ε α}
    (hx : x.Within asks raises) (hnever : ∀ q r, asks q → ¬ refused q r) :
    x.StopsAtRefusal refused denied := by
  induction x with
  | done ending => trivial
  | ask q next ih => exact ⟨fun r => ih r (hx.2 r), fun r hr => absurd hr (hnever q r hx.1)⟩

theorem stopsAtRefusal_question_bind {q : Q} {f : R q → Asking Q R ε β} :
    (question q >>= f).StopsAtRefusal refused denied ↔
      (∀ r, (f r).StopsAtRefusal refused denied) ∧
        ∀ r, refused q r → ∃ e, denied e ∧ f r = done (.error e) := Iff.rfl

/-- A refused question is the last of a dialogue, which a denial ends. -/
theorem StopsAtRefusal.last_exchange {x : Asking Q R ε α} (hx : x.StopsAtRefusal refused denied)
    {before after : List (Exchange Q R)} {q : Q} {r : R q}
    (hruns : Runs x (before ++ ⟨q, r⟩ :: after) ending) (hr : refused q r) :
    after = [] ∧ ∃ e, denied e ∧ ending = .error e := by
  induction x generalizing before with
  | done result =>
      have hnil := (runs_done.mp hruns).1
      simp at hnil
  | ask question next ih =>
      obtain ⟨reply, rest, hlog, hrest⟩ := runs_ask.mp hruns
      cases before with
      | nil =>
          obtain ⟨hexchange, rfl⟩ := List.cons.inj hlog
          cases hexchange
          obtain ⟨e, he, hnext⟩ := hx.2 r hr
          rw [hnext] at hrest
          obtain ⟨rfl, rfl⟩ := runs_done.mp hrest
          exact ⟨rfl, e, he, rfl⟩
      | cons exchange before =>
          obtain ⟨-, rfl⟩ := List.cons.inj hlog
          exact ih reply (hx.1 reply) hrest

end Refusals

end Asking

end PwshPy.Effects
