import Mathlib.Logic.Relation
import PwshPy.Effects.Dialogue

/-! # Asking while the world moves

A question is put to a state that others may change before and after it, and that
the question itself may change. What the program's ending says is judged in each
state their steps may have led to.
-/

namespace PwshPy.Effects.Asking

open Relation (ReflTransGen)

variable {Q : Type} {R : Q → Type} {ε α β σ : Type}

/-- `try: x finally: last` -/
def ensuring (last : Asking Q R ε Unit) (x : Asking Q R ε α) : Asking Q R ε α :=
  x.caught >>= fun ending => last >>= fun _ => done ending

theorem Within.ensuring {asks : Q → Prop} {raises : ε → Prop} {last : Asking Q R ε Unit}
    {x : Asking Q R ε α} (hlast : last.Within asks raises) (hx : x.Within asks raises) :
    (ensuring last x).Within asks raises := by
  unfold Asking.ensuring
  induction x with
  | done ending =>
      refine hlast.bind fun _ => ?_
      cases ending with
      | ok a => trivial
      | error e => exact hx
  | ask q next ih => exact ⟨hx.1, fun r => ih r (hx.2 r)⟩

section Runs

variable (moves : σ → σ → Prop) (serves : σ → (q : Q) → R q → σ → Prop)

/-- The program ended so, and the state it left behind, with steps of others anywhere. -/
inductive Amid : Asking Q R ε α → σ → Except ε α → σ → Prop where
  | done {ending : Except ε α} {s s' : σ} (h : ReflTransGen moves s s') : Amid (.done ending) s ending s'
  | ask {q : Q} {next : R q → Asking Q R ε α} {reply : R q} {ending : Except ε α} {s mid mid' s' : σ}
      (h : ReflTransGen moves s mid) (hserved : serves mid q reply mid')
      (hrest : Amid (next reply) mid' ending s') : Amid (.ask q next) s ending s'

/-- What holds of each ending and of the state then. -/
def Leaves (post : Except ε α → σ → Prop) (x : Asking Q R ε α) (s : σ) : Prop :=
  ∀ ending s', Amid moves serves x s ending s' → post ending s'

/-- What holds of each result and of the state then. -/
def EndsIn (post : α → σ → Prop) (x : Asking Q R ε α) (s : σ) : Prop :=
  ∀ a s', Amid moves serves x s (.ok a) s' → post a s'

end Runs

section Rules

variable {moves : σ → σ → Prop} {serves : σ → (q : Q) → R q → σ → Prop}

theorem Amid.until {x : Asking Q R ε α} {s s' s'' : σ} {ending : Except ε α}
    (hx : Amid moves serves x s ending s') (h : ReflTransGen moves s' s'') :
    Amid moves serves x s ending s'' := by
  induction hx with
  | done hlater => exact .done (hlater.trans h)
  | ask hlater hserved _ ih => exact .ask hlater hserved (ih h)

theorem amid_bind {x : Asking Q R ε α} {f : α → Asking Q R ε β} {s s' : σ} {ending : Except ε β}
    (h : Amid moves serves (x >>= f) s ending s') :
    (∃ e, Amid moves serves x s (.error e) s' ∧ ending = .error e) ∨
      ∃ a mid, Amid moves serves x s (.ok a) mid ∧ Amid moves serves (f a) mid ending s' := by
  induction x generalizing s with
  | done before =>
      cases before with
      | error e =>
          cases h with
          | done hlater => exact Or.inl ⟨e, .done hlater, rfl⟩
      | ok a => exact Or.inr ⟨a, s, .done .refl, h⟩
  | ask q next ih =>
      cases h with
      | ask hlater hserved hrest =>
          rcases ih _ hrest with ⟨e, hx, hending⟩ | ⟨a, mid, hx, hf⟩
          · exact Or.inl ⟨e, .ask hlater hserved hx, hending⟩
          · exact Or.inr ⟨a, mid, .ask hlater hserved hx, hf⟩

theorem amid_handling {handle : ε → Asking Q R ε α} {x : Asking Q R ε α} {s s' : σ}
    {ending : Except ε α} (h : Amid moves serves (x.handling handle) s ending s') :
    (∃ a, Amid moves serves x s (.ok a) s' ∧ ending = .ok a) ∨
      ∃ e mid, Amid moves serves x s (.error e) mid ∧ Amid moves serves (handle e) mid ending s' := by
  induction x generalizing s with
  | done before =>
      cases before with
      | ok a =>
          cases h with
          | done hlater => exact Or.inl ⟨a, .done hlater, rfl⟩
      | error e => exact Or.inr ⟨e, s, .done .refl, h⟩
  | ask q next ih =>
      cases h with
      | ask hlater hserved hrest =>
          rcases ih _ hrest with ⟨a, hx, hending⟩ | ⟨e, mid, hx, hhandle⟩
          · exact Or.inl ⟨a, .ask hlater hserved hx, hending⟩
          · exact Or.inr ⟨e, mid, .ask hlater hserved hx, hhandle⟩

theorem amid_caught {x : Asking Q R ε α} {s s' : σ} {ending : Except ε (Except ε α)}
    (h : Amid moves serves x.caught s ending s') :
    ∃ inner, ending = .ok inner ∧ Amid moves serves x s inner s' := by
  induction x generalizing s with
  | done before =>
      cases h with
      | done hlater => exact ⟨before, rfl, .done hlater⟩
  | ask q next ih =>
      cases h with
      | ask hlater hserved hrest =>
          obtain ⟨inner, hending, hx⟩ := ih _ hrest
          exact ⟨inner, hending, .ask hlater hserved hx⟩

/-! ## What holds of each ending -/

section Leaves

variable {post post' : Except ε β → σ → Prop}

theorem Leaves.mono {x : Asking Q R ε β} {s : σ} (hx : Leaves moves serves post' x s)
    (h : ∀ ending s', post' ending s' → post ending s') : Leaves moves serves post x s :=
  fun ending s' hrun => h ending s' (hx ending s' hrun)

theorem leaves_done {ending : Except ε β} {s : σ} (h : ∀ s', ReflTransGen moves s s' → post ending s') :
    Leaves moves serves post (.done ending) s := by
  intro ending' s' hrun
  cases hrun with
  | done hlater => exact h s' hlater

theorem leaves_bind {x : Asking Q R ε α} {f : α → Asking Q R ε β} {s : σ}
    (h : Leaves moves serves (fun ending mid =>
      match ending with
      | .ok a => Leaves moves serves post (f a) mid
      | .error e => post (.error e) mid) x s) : Leaves moves serves post (x >>= f) s := by
  intro ending s' hrun
  rcases amid_bind hrun with ⟨e, hx, rfl⟩ | ⟨a, mid, hx, hf⟩
  · exact h _ s' hx
  · exact h _ mid hx ending s' hf

theorem leaves_handling {handle : ε → Asking Q R ε β} {x : Asking Q R ε β} {s : σ}
    (h : Leaves moves serves (fun ending mid =>
      match ending with
      | .ok b => post (.ok b) mid
      | .error e => Leaves moves serves post (handle e) mid) x s) :
    Leaves moves serves post (x.handling handle) s := by
  intro ending s' hrun
  rcases amid_handling hrun with ⟨a, hx, rfl⟩ | ⟨e, mid, hx, hhandle⟩
  · exact h _ s' hx
  · exact h _ mid hx ending s' hhandle

theorem leaves_ensuring {last : Asking Q R ε Unit} {x : Asking Q R ε β} {s : σ}
    (h : Leaves moves serves (fun ending mid =>
      Leaves moves serves (fun after s' =>
        match after with
        | .ok _ => post ending s'
        | .error e => post (.error e) s') last mid) x s) :
    Leaves moves serves post (ensuring last x) s := by
  intro ending s' hrun
  rcases amid_bind hrun with ⟨e, hx, -⟩ | ⟨inner, mid, hx, hrest⟩
  · obtain ⟨inner, hinner, -⟩ := amid_caught hx
    cases hinner
  · obtain ⟨before, hinner, hbefore⟩ := amid_caught hx
    obtain rfl := Except.ok.inj hinner
    rcases amid_bind hrest with ⟨e, hlast, rfl⟩ | ⟨done, mid', hlast, hdone⟩
    · exact h _ mid hbefore _ s' hlast
    · cases hdone with
      | done hlater => exact h _ mid hbefore _ s' (hlast.until hlater)

theorem leaves_call {q : Q} {f : R q → Asking Q R ε β} {s : σ}
    (h : ∀ mid reply mid', ReflTransGen moves s mid → serves mid q reply mid' →
      Leaves moves serves post (f reply) mid') : Leaves moves serves post (question q >>= f) s := by
  intro ending s' hrun
  cases hrun with
  | ask hlater hserved hrest => exact h _ _ _ hlater hserved ending s' hrest

theorem leaves_reply {q : Q} {post : Except ε (R q) → σ → Prop} {s : σ}
    (h : ∀ mid reply mid' s', ReflTransGen moves s mid → serves mid q reply mid' →
      ReflTransGen moves mid' s' → post (.ok reply) s') :
    Leaves moves serves post (question q : Asking Q R ε (R q)) s := by
  intro ending s' hrun
  cases hrun with
  | ask hlater hserved hrest =>
      cases hrest with
      | done hlast => exact h _ _ _ s' hlater hserved hlast

/-- What every step of the others and every question it asks keep, a program keeps. -/
theorem within_leaves {asks : Q → Prop} {raises : ε → Prop} {I : σ → Prop} {x : Asking Q R ε β}
    (hx : x.Within asks raises) (hmoves : ∀ s s', moves s s' → I s → I s')
    (hserves : ∀ q reply s s', asks q → serves s q reply s' → I s → I s') {s : σ} (h : I s) :
    Leaves moves serves (fun ending s' => I s' ∧ ∀ e, ending = .error e → raises e) x s := by
  have hlater : ∀ {s s' : σ}, ReflTransGen moves s s' → I s → I s' := by
    intro s s' hrun hs
    induction hrun with
    | refl => exact hs
    | tail _ hmove ih => exact hmoves _ _ hmove ih
  intro ending s' hrun
  induction hrun with
  | @done ending s s' hrun =>
      refine ⟨hlater hrun h, fun e he => ?_⟩
      subst he
      exact hx
  | ask hrun hserved _ ih =>
      exact ih (hx.2 _) (hserves _ _ _ _ hx.1 hserved (hlater hrun h))

theorem leaves_pure {b : β} {s : σ} (h : ∀ s', ReflTransGen moves s s' → post (.ok b) s') :
    Leaves moves serves post (pure b : Asking Q R ε β) s := leaves_done h

theorem leaves_raise {e : ε} {s : σ} (h : ∀ s', ReflTransGen moves s s' → post (.error e) s') :
    Leaves moves serves post (raise e : Asking Q R ε β) s := leaves_done h

end Leaves

variable {post : β → σ → Prop}

theorem EndsIn.mono {post' : β → σ → Prop} {x : Asking Q R ε β} {s : σ}
    (hx : EndsIn moves serves post' x s) (h : ∀ b s', post' b s' → post b s') :
    EndsIn moves serves post x s := fun b s' hrun => h b s' (hx b s' hrun)

theorem EndsIn.and {post' : β → σ → Prop} {x : Asking Q R ε β} {s : σ}
    (hx : EndsIn moves serves post x s) (hx' : EndsIn moves serves post' x s) :
    EndsIn moves serves (fun b s' => post b s' ∧ post' b s') x s := fun b s' hrun =>
  ⟨hx b s' hrun, hx' b s' hrun⟩

theorem endsIn_pure {b : β} {s : σ} (h : ∀ s', ReflTransGen moves s s' → post b s') :
    EndsIn moves serves post (pure b : Asking Q R ε β) s := by
  intro b' s' hrun
  cases hrun with
  | done hlater => exact h s' hlater

theorem endsIn_bind {x : Asking Q R ε α} {f : α → Asking Q R ε β} {s : σ}
    (h : EndsIn moves serves (fun a mid => EndsIn moves serves post (f a) mid) x s) :
    EndsIn moves serves post (x >>= f) s := by
  intro b s' hrun
  rcases amid_bind hrun with ⟨e, -, hending⟩ | ⟨a, mid, hx, hf⟩
  · cases hending
  · exact h a mid hx b s' hf

theorem endsIn_map {x : Asking Q R ε α} {f : α → β} {s : σ}
    (h : EndsIn moves serves (fun a mid => post (f a) mid) x s) :
    EndsIn moves serves post (f <$> x) s := by
  intro b s' hrun
  rcases @amid_bind _ _ _ _ _ _ _ _ x (fun a => pure (f a)) _ _ _ hrun with
    ⟨e, -, hending⟩ | ⟨a, mid, hx, hf⟩
  · cases hending
  · cases hf with
    | done hlater => exact h a s' (hx.until hlater)

end Rules

/-! ## Questions that change nothing -/

/-- The state answers, and stays. -/
def reads (answer : σ → ∀ q, R q) (s : σ) (q : Q) (reply : R q) (s' : σ) : Prop :=
  reply = answer s q ∧ s' = s

section Reads

variable {moves : σ → σ → Prop} {answer : σ → ∀ q, R q} {post : β → σ → Prop}

/-- Where nobody else takes a step the program ends as it does alone. -/
theorem amid_alone (x : Asking Q R ε α) (s : σ) :
    Amid moves (reads answer) x s (x.result (answer s)) s := by
  induction x with
  | done ending => exact .done .refl
  | ask q next ih => exact .ask .refl ⟨rfl, rfl⟩ (ih (answer s q))

/-- The state a program leaves behind comes after the one it began in. -/
theorem Amid.later {x : Asking Q R ε α} {s s' : σ} {ending : Except ε α}
    (h : Amid moves (reads answer) x s ending s') : ReflTransGen moves s s' := by
  induction h with
  | done hlater => exact hlater
  | ask hlater hserved _ ih =>
      obtain ⟨-, rfl⟩ := hserved
      exact hlater.trans ih

theorem EndsIn.and_later {x : Asking Q R ε β} {s : σ} (hx : EndsIn moves (reads answer) post x s) :
    EndsIn moves (reads answer) (fun b s' => post b s' ∧ ReflTransGen moves s s') x s :=
  fun b s' hrun => ⟨hx b s' hrun, hrun.later⟩

theorem endsIn_question {q : Q} {f : R q → Asking Q R ε β} {s : σ}
    (h : ∀ mid, ReflTransGen moves s mid → EndsIn moves (reads answer) post (f (answer mid q)) mid) :
    EndsIn moves (reads answer) post (question q >>= f) s := by
  intro b s' hrun
  cases hrun with
  | ask hlater hserved hrest =>
      obtain ⟨rfl, rfl⟩ := hserved
      exact h _ hlater b s' hrest

theorem endsIn_reply {q : Q} {post : R q → σ → Prop} {s : σ}
    (h : ∀ mid s', ReflTransGen moves s mid → ReflTransGen moves mid s' → post (answer mid q) s') :
    EndsIn moves (reads answer) post (question q : Asking Q R ε (R q)) s := by
  intro r s' hrun
  cases hrun with
  | ask hlater hserved hrest =>
      obtain ⟨rfl, rfl⟩ := hserved
      cases hrest with
      | done hlast => exact h _ s' hlater hlast

end Reads

end PwshPy.Effects.Asking
