/-! # Computations that change a state and may raise

`Act ε σ α` changes a state of type `σ` and returns an `α` or raises an `ε`; the
state survives the exception. A `Triple` says what holds after either ending, and
the rules below take a computation apart along its `do` block.
-/

namespace PwshPy.Effects

variable {ε σ α β : Type}

abbrev Act (ε σ α : Type) := ExceptT ε (StateM σ) α

/-- The ending of a computation and the state it leaves. -/
def exec (x : Act ε σ α) (s : σ) : Except ε α × σ := x s

/-- From a state in `pre`, returning ends in `post` and raising ends in `err`. -/
def Triple (pre : σ → Prop) (x : Act ε σ α) (post : α → σ → Prop) (err : ε → σ → Prop) : Prop :=
  ∀ s, pre s →
    match exec x s with
    | (.ok a, t) => post a t
    | (.error e, t) => err e t

namespace Triple

variable {pre : σ → Prop} {post : α → σ → Prop} {err : ε → σ → Prop} {x : Act ε σ α}

theorem pure {a : α} (h : ∀ s, pre s → post a s) :
    Triple pre (Pure.pure a : Act ε σ α) post err := fun s hs => h s hs

theorem throw {e : ε} (h : ∀ s, pre s → err e s) :
    Triple pre (MonadExcept.throw e : Act ε σ α) post err := fun s hs => h s hs

theorem modify {f : σ → σ} {post : PUnit → σ → Prop} (h : ∀ s, pre s → post ⟨⟩ (f s)) :
    Triple pre (modify f : Act ε σ PUnit) post err := fun s hs => h s hs

/-- The run of a bind. -/
theorem exec_bind (x : Act ε σ α) (f : α → Act ε σ β) (s : σ) :
    exec (x >>= f) s =
      match exec x s with
      | (.ok a, t) => exec (f a) t
      | (.error e, t) => (.error e, t) := by
  simp only [exec, bind, ExceptT.bind, ExceptT.mk, StateT.bind, ExceptT.bindCont]
  rcases x s with ⟨_ | _, t⟩ <;> rfl

theorem bind {m : α → σ → Prop} {post : β → σ → Prop} {f : α → Act ε σ β}
    (hx : Triple pre x m err) (hf : ∀ a, Triple (m a) (f a) post err) :
    Triple pre (x >>= f) post err := by
  intro s hs
  have h := hx s hs
  rw [exec_bind]
  rcases hrun : exec x s with ⟨e | a, t⟩
  · simpa [hrun] using h
  · exact hf a t (by simpa [hrun] using h)

/-- Reading the state: go on from the very state that was read. -/
theorem get_bind {f : σ → Act ε σ α} (h : ∀ s, pre s → Triple (fun t => t = s) (f s) post err) :
    Triple pre (MonadState.get >>= f) post err := fun s hs => h s hs s rfl

theorem set {t : σ} {post : PUnit → σ → Prop} (h : ∀ s, pre s → post ⟨⟩ t) :
    Triple pre (MonadStateOf.set t : Act ε σ PUnit) post err := fun s hs => h s hs

theorem weaken {pre' : σ → Prop} {post' : α → σ → Prop} {err' : ε → σ → Prop}
    (h : Triple pre' x post' err') (hpre : ∀ s, pre s → pre' s)
    (hpost : ∀ a s, post' a s → post a s) (herr : ∀ e s, err' e s → err e s) :
    Triple pre x post err := by
  intro s hs
  have h := h s (hpre s hs)
  rcases hrun : exec x s with ⟨e | a, t⟩
  · exact herr e t (by simpa [hrun] using h)
  · exact hpost a t (by simpa [hrun] using h)

theorem and {post' : α → σ → Prop} {err' : ε → σ → Prop} (h : Triple pre x post err)
    (h' : Triple pre x post' err') :
    Triple pre x (fun a s => post a s ∧ post' a s) (fun e s => err e s ∧ err' e s) := by
  intro s hs
  have h := h s hs
  have h' := h' s hs
  rcases hrun : exec x s with ⟨e | a, t⟩ <;> rw [hrun] at h h' <;> exact ⟨h, h'⟩

theorem exec_tryCatch (x : Act ε σ α) (handle : ε → Act ε σ α) (s : σ) :
    exec (tryCatch x handle) s =
      match exec x s with
      | (.ok a, t) => (.ok a, t)
      | (.error e, t) => exec (handle e) t := by
  simp only [exec, tryCatch, tryCatchThe, MonadExceptOf.tryCatch, ExceptT.tryCatch, ExceptT.mk, Bind.bind,
    StateT.bind]
  rcases x s with ⟨_ | _, t⟩ <;> rfl

theorem tryCatch {m : ε → σ → Prop} {handle : ε → Act ε σ α} (hx : Triple pre x post m)
    (hhandle : ∀ e, Triple (m e) (handle e) post err) :
    Triple pre (MonadExcept.tryCatch x handle) post err := by
  intro s hs
  have h := hx s hs
  rw [exec_tryCatch]
  rcases hrun : exec x s with ⟨e | a, t⟩
  · exact hhandle e t (by simpa [hrun] using h)
  · simpa [hrun] using h

/-- Name what the starting state is known by. -/
theorem of_exists {ι : Type} {pre : ι → σ → Prop} (h : ∀ i, Triple (pre i) x post err) :
    Triple (fun s => ∃ i, pre i s) x post err := fun s ⟨i, hs⟩ => h i s hs

/-- Use a fact that comes with the starting state but does not depend on it. -/
theorem of_and {p : Prop} (h : p → Triple pre x post err) :
    Triple (fun s => pre s ∧ p) x post err := fun s hs => h hs.2 s hs.1

end Triple

end PwshPy.Effects
