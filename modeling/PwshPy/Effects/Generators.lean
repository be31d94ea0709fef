import PwshPy.Effects.Asking

/-! # Generators

A generator is a program that hands out values and logs warnings on its way. At a value it stops
until its consumer goes on or throws an exception into it there. Most generators go through
a list of items, hand out the readable ones and skip or refuse the others; such a generator is
known by its list.
-/

namespace PwshPy.Effects

inductive Event (α ω : Type) where
  | yielded (a : α)
  | warned (w : ω)
  deriving DecidableEq

namespace Event

variable {α ω : Type}

/-- What a generator is resumed with: behind a value, perhaps an exception. -/
def Resumption (ε : Type) : Event α ω → Type
  | yielded _ => Option ε
  | warned _ => Unit

def value? : Event α ω → Option α
  | yielded a => some a
  | warned _ => none

end Event

abbrev Generator (α ω ε ρ : Type) : Type := Asking (Event α ω) (Event.Resumption ε) ε ρ

namespace Generator

open Asking

variable {α β ω ε φ ρ σ : Type}

/-- `yield a` -/
def yield (a : α) : Generator α ω ε Unit :=
  .ask (.yielded a) fun
    | none => pure ()
    | some e => raise e

def warn (w : ω) : Generator α ω ε Unit := .ask (.warned w) fun _ => pure ()

/-- `for b in items: body(b)` over a generator: what is thrown while the body stops goes to the
body, and the generator of the items only ever goes on. -/
def forIn (body : β → Generator α ω ε Unit) : Generator β ω ε Unit → Generator α ω ε Unit
  | .done ending => .done ending
  | .ask (.yielded b) next => body b >>= fun _ => forIn body (next none)
  | .ask (.warned w) next => .ask (.warned w) fun r => forIn body (next r)

/-- A consumer that always goes on. -/
def going_on : ∀ event : Event α ω, event.Resumption ε
  | .yielded _ => none
  | .warned _ => ()

/-- How a generator ends, and what it did before, for a consumer that always goes on. -/
def drain (generator : Generator α ω ε ρ) : Except ε ρ × List (Event α ω) :=
  generator.run going_on

/-- Whatever is thrown into the generator, wherever it stops, leaves it as it came in, and
nothing is yielded or logged on the way. -/
def Transparent : Generator α ω ε ρ → Prop
  | .done _ => True
  | .ask (.yielded _) next => (∀ e, next (some e) = raise e) ∧ Transparent (next none)
  | .ask (.warned _) next => Transparent (next ())

/-! ## Going through a list -/

/-- Raise, or log and go on. -/
def skipping : Except ε ω → Generator α ω ε Unit
  | .error e => raise e
  | .ok w => warn w

def each (body : β → Generator α ω ε Unit) (skip : φ → Except ε ω) :
    List (Except φ β) → Generator α ω ε Unit
  | [] => pure ()
  | .ok b :: rest => body b >>= fun _ => each body skip rest
  | .error f :: rest => skipping (skip f) >>= fun _ => each body skip rest

/-- The generator that hands out the items and skips the failures. -/
def play (skip : φ → Except ε ω) (items : List (Except φ α)) : Generator α ω ε Unit :=
  each yield skip items

/-- An item as the list it stands for, a failure as itself. -/
def expanded (expand : β → List (Except φ α)) : Except φ β → List (Except φ α)
  | .ok b => expand b
  | .error f => [.error f]

def Flawless (items : List (Except φ α)) : Prop := ∀ item ∈ items, ∃ a, item = .ok a

theorem flawless_append {first second : List (Except φ α)} :
    Flawless (first ++ second) ↔ Flawless first ∧ Flawless second := List.forall_mem_append

theorem flawless_cons {item : Except φ α} {items : List (Except φ α)} :
    Flawless (item :: items) ↔ (∃ a, item = .ok a) ∧ Flawless items := List.forall_mem_cons

theorem flawless_singleton {item : Except φ α} : Flawless [item] ↔ ∃ a, item = .ok a := by
  rw [Flawless, List.forall_mem_singleton]

theorem flawless_flatMap {items : List β} {expand : β → List (Except φ α)} :
    Flawless (items.flatMap expand) ↔ ∀ b ∈ items, Flawless (expand b) := List.forall_mem_flatMap

/-- A list holds values only, or it has a first failure. -/
theorem first_failure (items : List (Except φ α)) :
    (∃ values : List α, items = values.map .ok) ∨
      ∃ (values : List α) (f : φ) (later : List (Except φ α)),
        items = values.map .ok ++ .error f :: later := by
  induction items with
  | nil => exact Or.inl ⟨[], rfl⟩
  | cons item rest ih =>
      cases item with
      | error f => exact Or.inr ⟨[], f, rest, rfl⟩
      | ok a =>
          cases ih with
          | inl h =>
              obtain ⟨values, rfl⟩ := h
              exact Or.inl ⟨a :: values, rfl⟩
          | inr h =>
              obtain ⟨values, f, later, rfl⟩ := h
              exact Or.inr ⟨a :: values, f, later, rfl⟩

theorem flawless_values (values : List α) :
    Flawless (values.map .ok : List (Except φ α)) := by
  intro item hitem
  obtain ⟨a, -, rfl⟩ := List.mem_map.mp hitem
  exact ⟨a, rfl⟩

theorem not_flawless_of_failure (values : List α) (f : φ) (later : List (Except φ α)) :
    ¬Flawless (values.map .ok ++ .error f :: later) := by
  intro h
  obtain ⟨a, ha⟩ := (flawless_cons.mp (flawless_append.mp h).2).1
  cases ha

section Laws

variable {skip : φ → Except ε ω}

theorem play_ok (a : α) (items : List (Except φ α)) :
    (play skip (.ok a :: items) : Generator α ω ε Unit) = yield a >>= fun _ => play skip items := rfl

theorem play_error (f : φ) (items : List (Except φ α)) :
    (play skip (.error f :: items) : Generator α ω ε Unit) =
      skipping (skip f) >>= fun _ => play skip items := rfl

theorem each_append (body : β → Generator α ω ε Unit) (first second : List (Except φ β)) :
    each body skip (first ++ second) =
      each body skip first >>= fun _ => each body skip second := by
  induction first with
  | nil => rfl
  | cons item first ih =>
      cases item with
      | ok b => simp only [List.cons_append, each, ih, bind_assoc]
      | error f => simp only [List.cons_append, each, ih, bind_assoc]

theorem play_append (first second : List (Except φ α)) :
    play skip (first ++ second) = play skip first >>= fun _ => play skip second :=
  each_append yield first second

theorem play_failure (f : φ) :
    (play skip [.error f] : Generator α ω ε Unit) = skipping (skip f) := by
  rw [play_error]
  cases skip f with
  | ok w => rfl
  | error e => rfl

theorem forIn_skipping_bind (body : β → Generator α ω ε Unit) (outcome : Except ε ω)
    (rest : Generator β ω ε Unit) :
    forIn body (skipping outcome >>= fun _ => rest) =
      skipping outcome >>= fun _ => forIn body rest := by
  cases outcome with
  | ok w => rfl
  | error e => rfl

theorem forIn_play (body : β → Generator α ω ε Unit) (items : List (Except φ β)) :
    forIn body (play skip items) = each body skip items := by
  induction items with
  | nil => rfl
  | cons item rest ih =>
      cases item with
      | ok b =>
          rw [each, ← ih]
          rfl
      | error f =>
          rw [each, ← ih, play_error, forIn_skipping_bind]

/-- A loop whose body goes through a list goes through the lists, one after the other. -/
theorem each_play (expand : β → List (Except φ α)) (items : List (Except φ β)) :
    each (fun b => play skip (expand b)) skip items =
      play skip (items.flatMap (expanded expand)) := by
  induction items with
  | nil => rfl
  | cons item rest ih =>
      cases item with
      | ok b => rw [each, ih, List.flatMap_cons, expanded, play_append]
      | error f =>
          rw [each, ih, List.flatMap_cons]
          rfl

end Laws

/-! ## What such a generator does -/

theorem drain_yield_bind (a : α) (rest : Generator α ω ε ρ) :
    drain (yield a >>= fun _ => rest) = ((drain rest).1, .yielded a :: (drain rest).2) := rfl

theorem drain_warn_bind (w : ω) (rest : Generator α ω ε ρ) :
    drain (warn w >>= fun _ => rest) = ((drain rest).1, .warned w :: (drain rest).2) := rfl

def event (warning : φ → ω) : Except φ α → Event α ω
  | .ok a => .yielded a
  | .error f => .warned (warning f)

/-- Where failures are logged, everything is gone through. -/
theorem drain_play_of_warn (warning : φ → ω) (items : List (Except φ α)) :
    drain (play (fun f => .ok (warning f)) items : Generator α ω ε Unit) =
      (.ok (), items.map (event warning)) := by
  induction items with
  | nil => rfl
  | cons item rest ih =>
      cases item with
      | ok a => rw [play_ok, drain_yield_bind, ih, List.map_cons, event]
      | error f => rw [play_error, skipping, drain_warn_bind, ih, List.map_cons, event]

/-- Where no item is a failure, all are handed out. -/
theorem drain_play_ok (skip : φ → Except ε ω) (values : List α) :
    drain (play skip (values.map .ok) : Generator α ω ε Unit) =
      (.ok (), values.map .yielded) := by
  induction values with
  | nil => rfl
  | cons a rest ih => rw [List.map_cons, play_ok, drain_yield_bind, ih, List.map_cons]

/-- Where failures are raised, the first one ends the run. -/
theorem drain_play_of_raise (raised : φ → ε) (values : List α) (f : φ)
    (later : List (Except φ α)) :
    drain (play (fun f => .error (raised f)) (values.map .ok ++ .error f :: later) :
      Generator α ω ε Unit) = (.error (raised f), values.map .yielded) := by
  induction values with
  | nil => rfl
  | cons a rest ih =>
      rw [List.map_cons, List.cons_append, play_ok, drain_yield_bind, ih, List.map_cons]

theorem transparent_play (skip : φ → Except ε ω) (items : List (Except φ α)) :
    (play skip items : Generator α ω ε Unit).Transparent := by
  induction items with
  | nil => trivial
  | cons item rest ih =>
      cases item with
      | ok a => exact ⟨fun _ => rfl, ih⟩
      | error f =>
          rw [play_error]
          cases skip f with
          | ok w => exact ih
          | error e => trivial

end Generator

end PwshPy.Effects
