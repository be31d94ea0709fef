import PwshPy.Wim.Fields

/-! # The children of the root, one by one

The parser is fed chunk by chunk, and the events of a chunk are only read when the
whole of it is in the store; behind each child the root is cleared. Each child is
nevertheless read as the whole element it is.
-/

namespace PwshPy.Wim

open Xml (View Element Content Token Event Builder Reported Deeper Behind)

/-! ## The loop -/

/-- `depth` and `root` in `_top_level_elements` -/
structure Loop where
  depth : Int
  root : Option Nat

def Loop.start : Loop := { depth := 0, root := none }

/-- One turn: the loop, and the child it yields. -/
def turn (s : Loop) (event : Event) : Loop × Option Nat :=
  let depth := match event with
    | .start _ => s.depth + 1
    | .stop _ => s.depth - 1
  match s.root, event with
  | none, .start element | none, .stop element => ({ depth, root := some element }, none)
  | some _, .start _ => ({ s with depth }, none)
  | some _, .stop element => ({ s with depth }, if depth = 1 then some element else none)

/-- `root.clear()` -/
def clearRoot (s : Loop) (b : Builder) : Builder :=
  match s.root with
  | some root => b.clear root
  | none => b

section Runs

variable {ε α : Type} (visit : Builder → Nat → Except ε (List α))

/-- The turns over the events of a chunk. What the caller makes of a child may end them. -/
def turns : List Event → Loop → Builder → List α × Except ε (Loop × Builder)
  | [], s, b => ([], .ok (s, b))
  | event :: events, s, b =>
      match turn s event with
      | (s, none) => turns events s b
      | (s, some child) =>
          match visit b child with
          | .error e => ([], .error e)
          | .ok yielded =>
              let (later, result) := turns events s (clearRoot s b)
              (yielded ++ later, result)

/-- `_top_level_elements`, for the caller's loop over it. -/
def topLevelElements (ending : Except ε Unit) :
    List (List Token) → Loop → Builder → List α × Except ε Unit
  | [], _, _ => ([], ending)
  | chunk :: chunks, s, b =>
      let (fed, events) := b.feed chunk
      match turns visit events s fed with
      | (yielded, .error e) => (yielded, .error e)
      | (yielded, .ok (s, b)) =>
          let (later, result) := topLevelElements ending chunks s b
          (yielded ++ later, result)

end Runs

/-! ## The children that are yielded -/

/-- The children yielded over some events. -/
def yields : Loop → List Event → List Nat
  | _, [] => []
  | s, event :: events => (turn s event).2.toList ++ yields (turn s event).1 events

def after (s : Loop) (events : List Event) : Loop := events.foldl (fun s event => (turn s event).1) s

section Yields

variable {s : Loop} {root n : Nat} {d : Int} {content : Content} {events : List Event}

theorem yields_append (s : Loop) (first events : List Event) :
    yields s (first ++ events) = yields s first ++ yields (after s first) events := by
  induction first generalizing s with
  | nil => rfl
  | cons event first ih =>
      simp only [List.cons_append, yields, after, List.foldl_cons, ih, List.append_assoc]

theorem after_append (s : Loop) (first events : List Event) :
    after s (first ++ events) = after (after s first) events := List.foldl_append

/-- Over the content of an element the depth is back where it was. -/
theorem after_events : after ⟨d, some root⟩ (content.events n) = ⟨d, some root⟩ := by
  induction content generalizing n d with
  | nil => rfl
  | data text rest ih => exact ih
  | element tag attrib inner rest ihinner ihrest =>
      have hinner := @ihinner (n + 1) (d + 1)
      have hrest := @ihrest (n + 1 + inner.count) d
      simp only [Content.events, after, List.foldl_cons, List.foldl_append, turn] at hinner hrest ⊢
      rw [hinner]
      simp only [Int.add_sub_cancel]
      exact hrest

/-- Only the content of the root has children to yield. -/
theorem yields_events (hdepth : 1 ≤ d) :
    yields ⟨d, some root⟩ (content.events n) = if d = 1 then content.ids n else [] := by
  induction content generalizing n d with
  | nil => simp [Content.events, Content.ids, yields]
  | data text rest ih => exact ih hdepth
  | element tag attrib inner rest ihinner ihrest =>
      have hinner := @ihinner (n + 1) (d + 1) (by omega)
      have hrest := @ihrest (n + 1 + inner.count) d hdepth
      have hdeep : ¬d + 1 = 1 := by omega
      rw [if_neg hdeep] at hinner
      have hback : after ⟨d + 1, some root⟩ (inner.events (n + 1)) = ⟨d + 1, some root⟩ :=
        after_events
      rw [Content.events, yields]
      simp only [turn, Option.toList_none, List.nil_append]
      rw [yields_append, hinner, hback, yields]
      simp only [turn, Int.add_sub_cancel, hrest, List.nil_append]
      split
      · rfl
      · rfl

theorem yields_deeper (h : Deeper events) (hdepth : 1 ≤ d) : yields ⟨d, some root⟩ events = [] := by
  induction h generalizing d with
  | here id n content =>
      have hcontent := @yields_events root n (d + 1) content (by omega)
      have hdeep : ¬d + 1 = 1 := by omega
      simp [yields, turn, hcontent, hdeep]
  | inside id n content h ih =>
      have hcontent := @yields_events root n (d + 1) content (by omega)
      have hdeep : ¬d + 1 = 1 := by omega
      have hrest := @ih (d + 1) (by omega)
      simp [yields, turn, yields_append, after_events, hcontent, hdeep, hrest]

theorem yields_behind (h : Behind events) : yields ⟨1, some root⟩ events = [] := by
  cases h with
  | nothing => rfl
  | inside h => exact yields_deeper h (by omega)
  | close id => rfl

/-- The whole children of the root are yielded, each once and in order. -/
theorem yields_met {b : Builder} (h : content.Met b events) :
    yields .start events = content.ids 1 := by
  rcases h.events with ⟨rfl, rfl⟩ | ⟨rest, rfl, hbehind⟩
  · rfl
  · have hcontent := @yields_events 0 1 1 content (by omega)
    have hback : after ⟨1, some 0⟩ (content.events 1) = ⟨1, some 0⟩ := after_events
    rw [if_pos rfl] at hcontent
    simp only [yields, Loop.start, turn, Option.toList_none, List.nil_append, Int.zero_add]
    rw [yields_append, hcontent, hback, yields_behind hbehind, List.append_nil]

end Yields

/-! ## What the caller makes of them -/

section Consume

variable {ε α β γ : Type}

/-- A loop that yields what `f` makes of each value, until one raises. -/
def consume (f : β → Except ε (List α)) (ending : Except ε Unit) : List β → List α × Except ε Unit
  | [] => ([], ending)
  | x :: xs =>
      match f x with
      | .error e => ([], .error e)
      | .ok yielded =>
          let (later, result) := consume f ending xs
          (yielded ++ later, result)

theorem consume_congr {f : β → Except ε (List α)} {g : γ → Except ε (List α)}
    {xs : List β} {ys : List γ} {ending : Except ε Unit}
    (h : List.Forall₂ (fun x y => f x = g y) xs ys) : consume f ending xs = consume g ending ys := by
  induction h with
  | nil => rfl
  | cons hfirst _ ih => rw [consume, consume, hfirst, ih]

variable {f : β → Except ε (List α)}

/-- Ended by an exception, whatever follows. -/
def Ends (f : β → Except ε (List α)) (xs : List β) (yielded : List α) (e : ε) : Prop :=
  ∀ ys ending, consume f ending (xs ++ ys) = (yielded, .error e)

/-- Done with these, on to what follows. -/
def Passes (f : β → Except ε (List α)) (xs : List β) (yielded : List α) : Prop :=
  ∀ ys ending, consume f ending (xs ++ ys) =
    (yielded ++ (consume f ending ys).1, (consume f ending ys).2)

theorem passes_nil : Passes f [] [] := fun _ _ => rfl

theorem ends_cons {x : β} {xs : List β} {e : ε} (h : f x = .error e) : Ends f (x :: xs) [] e := by
  intro ys ending
  rw [List.cons_append, consume, h]

theorem Ends.cons {x : β} {xs : List β} {yielded later : List α} {e : ε} (h : Ends f xs later e)
    (hx : f x = .ok yielded) : Ends f (x :: xs) (yielded ++ later) e := by
  intro ys ending
  rw [List.cons_append, consume, hx, h ys ending]

theorem Passes.cons {x : β} {xs : List β} {yielded later : List α} (h : Passes f xs later)
    (hx : f x = .ok yielded) : Passes f (x :: xs) (yielded ++ later) := by
  intro ys ending
  rw [List.cons_append, consume, hx, h ys ending, List.append_assoc]

end Consume

section Visits

variable {ε α : Type} {visit : Builder → Nat → Except ε (List α)} {f : Nat → Except ε (List α)}

/-- The root is the first element, begun or still to begin. -/
def Rooted (s : Loop) (events : List Event) : Prop :=
  s.root = some 0 ∨ s.root = none ∧ ∀ event ∈ events.head?, event = .start 0

theorem Rooted.turn {s : Loop} {event : Event} {events : List Event}
    (h : Rooted s (event :: events)) : (turn s event).1.root = some 0 := by
  rcases h with hroot | ⟨hroot, hfirst⟩
  · unfold Wim.turn
    rw [hroot]
    cases event with
    | start id => rfl
    | stop id => rfl
  · have hevent := hfirst event rfl
    subst hevent
    simp [Wim.turn, hroot]

/-- The turns over a chunk, when what is made of a child depends on nothing but the child. -/
theorem turns_eq {events : List Event} {s : Loop} {b : Builder} (hroot : Rooted s events)
    (hvisit : ∀ b', Builder.Like 0 b b' → ∀ id ∈ yields s events, visit b' id = f id) :
    (∃ yielded e, turns visit events s b = (yielded, .error e) ∧ Ends f (yields s events) yielded e) ∨
    ∃ yielded b', turns visit events s b = (yielded, .ok (after s events, b')) ∧
      Builder.Like 0 b b' ∧ Passes f (yields s events) yielded := by
  induction events generalizing s b with
  | nil => exact .inr ⟨[], b, rfl, .refl 0 b, passes_nil⟩
  | cons event events ih =>
      have hnext := hroot.turn
      rw [turns, yields]
      simp only [yields] at hvisit
      have hafter : after s (event :: events) = after (turn s event).1 events := rfl
      rw [hafter]
      generalize turn s event = turned at hnext hvisit ⊢
      obtain ⟨next, child⟩ := turned
      cases child with
      | none => exact ih (.inl hnext) hvisit
      | some child =>
          have hchild := hvisit b (.refl 0 b) child (by simp)
          simp only [Option.toList_some, List.singleton_append] at hvisit ⊢
          rw [hchild]
          cases hf : f child with
          | error e => exact .inl ⟨[], e, rfl, ends_cons hf⟩
          | ok yielded =>
              have hclear : clearRoot next b = b.clear 0 := by
                simp only [clearRoot, show next.root = some 0 from hnext]
              have hlike : Builder.Like 0 b (clearRoot next b) := hclear ▸ .clear 0 b
              rcases @ih next (clearRoot next b) (.inl hnext) (fun b' hb' id hid =>
                hvisit b' (hlike.trans hb') id (List.mem_cons_of_mem _ hid)) with
                ⟨later, e, hturns, hends⟩ | ⟨later, b', hturns, hb', hpasses⟩
              · exact .inl ⟨yielded ++ later, e, by simp [hturns], hends.cons hf⟩
              · exact .inr ⟨yielded ++ later, b', by simp [hturns], hlike.trans hb', hpasses.cons hf⟩

theorem Rooted.after {s : Loop} {events later : List Event} (h : Rooted s (events ++ later)) :
    Rooted (after s events) later := by
  induction events generalizing s with
  | nil => exact h
  | cons event events ih => exact ih (.inl h.turn)

theorem Rooted.first {s : Loop} {events later : List Event} (h : Rooted s (events ++ later)) :
    Rooted s events := by
  rcases h with hroot | ⟨hroot, hfirst⟩
  · exact .inl hroot
  · refine .inr ⟨hroot, fun event hevent => hfirst event ?_⟩
    cases events with
    | nil => cases hevent
    | cons first events => exact hevent

/-- The chunks do not show, when what is made of a child is the same whatever is read later. -/
theorem topLevelElements_eq {chunks : List (List Token)} {fed : List Token} {b : Builder}
    (ending : Except ε Unit) (hlike : Builder.Like 0 (Builder.empty.feed fed).1 b)
    (hroot : Rooted (after .start (Builder.empty.feed fed).2)
      ((Builder.empty.feed fed).1.feed chunks.flatten).2)
    (hvisit : ∀ front, front <+: fed ++ chunks.flatten → ∀ b',
      Builder.Like 0 (Builder.empty.feed front).1 b' →
      ∀ id ∈ yields .start (Builder.empty.feed front).2, visit b' id = f id) :
    topLevelElements visit ending chunks (after .start (Builder.empty.feed fed).2) b =
      consume f ending (yields (after .start (Builder.empty.feed fed).2)
        ((Builder.empty.feed fed).1.feed chunks.flatten).2) := by
  induction chunks generalizing fed b with
  | nil => rfl
  | cons chunk chunks ih =>
      have hchunk := hlike.feed chunk
      have hfed := Builder.feed_append Builder.empty fed chunk
      simp only [List.flatten_cons, Builder.feed_append] at hroot ⊢
      have hafter : after .start (Builder.empty.feed (fed ++ chunk)).2 =
          after (after .start (Builder.empty.feed fed).2)
            ((Builder.empty.feed fed).1.feed chunk).2 := by
        rw [hfed, after_append]
      have hvisits : ∀ b', Builder.Like 0 (b.feed chunk).1 b' →
          ∀ id ∈ yields (after .start (Builder.empty.feed fed).2)
            ((Builder.empty.feed fed).1.feed chunk).2, visit b' id = f id := by
        intro b' hb' id hid
        refine hvisit (fed ++ chunk) ?_ b' ?_ id ?_
        · rw [List.flatten_cons, ← List.append_assoc]
          exact List.prefix_append _ _
        · rw [hfed]
          exact hchunk.1.trans hb'
        · rw [hfed, yields_append]
          exact List.mem_append_right _ hid
      rw [topLevelElements]
      simp only [hchunk.2, yields_append]
      rcases turns_eq hroot.first hvisits with ⟨yielded, e, hturns, hends⟩ |
        ⟨yielded, b', hturns, hb', hpasses⟩
      · rw [hturns, hends]
      · rw [hturns, hpasses]
        have hrest := @ih (fed ++ chunk) b' ?_ ?_ ?_
        · rw [hafter, hfed] at hrest
          simp only at hrest ⊢
          rw [hrest]
        · rw [hfed]
          exact hchunk.1.trans hb'
        · rw [hafter, hfed]
          exact hroot.after
        · intro front hfront
          refine hvisit front ?_
          rwa [List.flatten_cons, ← List.append_assoc]

end Visits

end PwshPy.Wim
