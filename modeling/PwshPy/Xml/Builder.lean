import Mathlib.Logic.Function.Basic
import PwshPy.Xml.Tree

/-! # Building a tree while it is read

The elements are nodes of a store, which a parser goes on changing while its
reader holds some of them. A node is finished once its end has been met, and so
is all below it: nothing that is met later changes it.
-/

namespace PwshPy.Xml

structure Node where
  tag : PyStr
  attrib : Attributes
  text : Option PyStr
  children : List Nat

/-- `Element.clear()` -/
def Node.clear (node : Node) : Node := { node with attrib := [], text := none, children := [] }

/-- A tree builder. The texts behind an element's end are dropped. -/
structure Builder where
  nodes : Nat → Node
  /-- how many elements have begun -/
  next : Nat
  stack : List Nat
  /-- the element that began or ended last, and whether it ended -/
  last : Option (Nat × Bool)
  data : List PyStr

namespace Builder

def empty : Builder :=
  { nodes := fun _ => ⟨[], [], none, []⟩, next := 0, stack := [], last := none, data := [] }

def clear (b : Builder) (id : Nat) : Builder :=
  { b with nodes := Function.update b.nodes id (b.nodes id).clear }

/-- The texts met since the last element began are its text. -/
def flush (b : Builder) : Builder :=
  match b.last with
  | some (id, false) =>
      if b.data = [] then b
      else { b with
        nodes := Function.update b.nodes id { b.nodes id with text := joined b.data }
        data := [] }
  | _ => { b with data := [] }

/-- A new element is the last child of the one on top of the stack. -/
def append (nodes : Nat → Node) (child : Nat) : List Nat → Nat → Node
  | [] => nodes
  | parent :: _ =>
      Function.update nodes parent
        { nodes parent with children := (nodes parent).children ++ [child] }

def start (b : Builder) (tag : PyStr) (attrib : Attributes) : Builder :=
  { b with
    nodes := append (Function.update b.nodes b.next ⟨tag, attrib, none, []⟩) b.next b.stack
    next := b.next + 1
    stack := b.next :: b.stack
    last := some (b.next, false) }

def step (b : Builder) : Token → Builder × List Event
  | .start tag attrib => (b.flush.start tag attrib, [.start b.next])
  | .data text => ({ b with data := b.data ++ [text] }, [])
  | .stop =>
      match b.stack with
      | [] => (b.flush, [])
      | id :: stack => ({ b.flush with stack, last := some (id, true) }, [.stop id])

def feed (b : Builder) : List Token → Builder × List Event
  | [] => (b, [])
  | token :: tokens =>
      let (fed, events) := b.step token
      let (after, later) := fed.feed tokens
      (after, events ++ later)

theorem step_start (b : Builder) (tag : PyStr) (attrib : Attributes) :
    b.step (.start tag attrib) = (b.flush.start tag attrib, [.start b.next]) := rfl

theorem feed_cons (b : Builder) (token : Token) (tokens : List Token) :
    b.feed (token :: tokens) = (((b.step token).1.feed tokens).1,
      (b.step token).2 ++ ((b.step token).1.feed tokens).2) := rfl

theorem feed_append (b : Builder) (front tokens : List Token) :
    b.feed (front ++ tokens) = (((b.feed front).1.feed tokens).1,
      (b.feed front).2 ++ ((b.feed front).1.feed tokens).2) := by
  induction front generalizing b with
  | nil => rfl
  | cons token front ih => simp only [List.cons_append, feed, ih, List.append_assoc]

/-! ## Flushing -/

section Flush

variable {b : Builder} {id top : Nat}

@[simp] theorem flush_next : b.flush.next = b.next := by
  unfold flush
  split
  · split <;> rfl
  · rfl

@[simp] theorem flush_stack : b.flush.stack = b.stack := by
  unfold flush
  split
  · split <;> rfl
  · rfl

@[simp] theorem flush_last : b.flush.last = b.last := by
  unfold flush
  split
  · split <;> rfl
  · rfl

@[simp] theorem flush_data : b.flush.data = [] := by
  unfold flush
  split
  · split
    · assumption
    · rfl
  · rfl

theorem flush_nodes_of_ne (h : b.last ≠ some (id, false)) : b.flush.nodes id = b.nodes id := by
  unfold flush
  split
  · rename_i last hlast
    split
    · rfl
    · have hne : id ≠ last := by
        rintro rfl
        exact h hlast
      exact Function.update_of_ne hne _ _
  · rfl

/-- The text an element has, once what has been met of it is flushed. -/
def pending (b : Builder) (id : Nat) : Option PyStr :=
  if b.last = some (id, false) ∧ b.data ≠ [] then joined b.data else (b.nodes id).text

/-- Nothing of a node but its text is flushed. -/
theorem flush_nodes : b.flush.nodes id = { b.nodes id with text := b.pending id } := by
  unfold pending
  split
  · rename_i h
    simp [flush, h.1, h.2]
  · rename_i h
    by_cases hlast : b.last = some (id, false)
    · have hdata : b.data = [] := by
        by_contra hdata
        exact h ⟨hlast, hdata⟩
      simp [flush, hlast, hdata]
    · exact flush_nodes_of_ne hlast

end Flush

theorem append_of_ne {nodes : Nat → Node} {child id : Nat} {stack : List Nat}
    (h : stack.head? ≠ some id) : append nodes child stack id = nodes id := by
  cases stack with
  | nil => rfl
  | cons parent below =>
      have hne : id ≠ parent := by
        rintro rfl
        exact h rfl
      exact Function.update_of_ne hne _ _

theorem start_nodes_of_ne {b : Builder} {id : Nat} (hparent : b.stack.head? ≠ some id)
    (hnew : id ≠ b.next) (tag : PyStr) (attrib : Attributes) :
    (b.start tag attrib).nodes id = b.nodes id := by
  simp only [start]
  rw [append_of_ne hparent, Function.update_of_ne hnew]

/-! ## Finished elements -/

/-- An element whose end has been met. -/
structure Finished (b : Builder) (id : Nat) : Prop where
  closed : id ∉ b.stack
  flushed : b.last ≠ some (id, false)
  begun : id < b.next

theorem Finished.step {b : Builder} {id : Nat} (h : b.Finished id) (token : Token) :
    (b.step token).1.Finished id ∧ (b.step token).1.nodes id = b.nodes id := by
  have hflush := flush_nodes_of_ne h.flushed
  have hbegun := h.begun
  cases token with
  | start tag attrib =>
      have hnew : id ≠ b.next := by omega
      constructor
      · refine ⟨?_, ?_, ?_⟩
        · simp [Builder.step, start, hnew, h.closed]
        · simp [Builder.step, start, Ne.symm hnew]
        · simp only [Builder.step, start, flush_next]
          omega
      · have hparent : b.flush.stack.head? ≠ some id := by
          rw [flush_stack]
          exact fun hhead => h.closed (List.mem_of_head? hhead)
        have hfresh : id ≠ b.flush.next := by simp [hnew]
        rw [← hflush]
        exact start_nodes_of_ne hparent hfresh tag attrib
  | data text => exact ⟨⟨h.closed, h.flushed, h.begun⟩, rfl⟩
  | stop =>
      simp only [Builder.step]
      split
      · exact ⟨⟨by simp [h.closed], by simp [h.flushed], by simp [h.begun]⟩, hflush⟩
      · rename_i top stack hstack
        have hclosed := h.closed
        rw [hstack, List.mem_cons, not_or] at hclosed
        exact ⟨⟨hclosed.2, by simp, by simp [h.begun]⟩, hflush⟩

theorem Finished.feed {b : Builder} {id : Nat} (h : b.Finished id) (tokens : List Token) :
    (b.feed tokens).1.Finished id ∧ (b.feed tokens).1.nodes id = b.nodes id := by
  induction tokens generalizing b with
  | nil => exact ⟨h, rfl⟩
  | cons token tokens ih =>
      obtain ⟨hstep, hnode⟩ := h.step token
      obtain ⟨hfeed, hnodes⟩ := ih hstep
      exact ⟨hfeed, hnodes.trans hnode⟩

end Builder

/-! ## What is in the store -/

/-- The store holds the elements of some content, the first as node `n`. -/
def Content.Laid (nodes : Nat → Node) : Content → Nat → Prop
  | nil, _ => True
  | data _ rest, n => rest.Laid nodes n
  | element tag attrib inner rest, n =>
      nodes n = ⟨tag, attrib, joined inner.leading, inner.ids (n + 1)⟩ ∧
        inner.Laid nodes (n + 1) ∧ rest.Laid nodes (n + 1 + inner.count)

theorem Content.Laid.congr {content : Content} {nodes nodes' : Nat → Node} {n : Nat}
    (h : content.Laid nodes n)
    (hsame : ∀ id, n ≤ id → id < n + content.count → nodes' id = nodes id) :
    content.Laid nodes' n := by
  induction content generalizing n with
  | nil => trivial
  | data text rest ih => exact ih h hsame
  | element tag attrib inner rest ihinner ihrest =>
      obtain ⟨hnode, hinner, hrest⟩ := h
      simp only [Content.count] at hsame
      refine ⟨?_, ihinner hinner ?_, ihrest hrest ?_⟩
      · rw [hsame n (by omega) (by omega), hnode]
      · intro id hlow hhigh
        exact hsame id (by omega) (by omega)
      · intro id hlow hhigh
        exact hsame id (by omega) (by omega)

/-- The parser is in the element `top`. -/
structure Builder.In (b : Builder) (top : Nat) (below : List Nat) : Prop where
  stack : b.stack = top :: below
  old : ∀ id ∈ b.stack, id < b.next
  last : ∀ id, b.last = some (id, false) → id = top

/-- What the content of the element `top` makes of a builder. -/
structure Content.Built (content : Content) (top : Nat) (below : List Nat) (b b' : Builder)
    (events : List Event) : Prop where
  events : events = content.events b.next
  stays : b'.In top below
  next : b'.next = b.next + content.count
  /-- Nothing else in the store changes. -/
  others : ∀ id < b.next, id ≠ top → b'.nodes id = b.nodes id
  laid : content.Laid b'.nodes b.next
  tag : (b'.nodes top).tag = (b.nodes top).tag
  attrib : (b'.nodes top).attrib = (b.nodes top).attrib
  children : (b'.nodes top).children = (b.nodes top).children ++ content.ids b.next
  /-- The texts met before the first child are the text. -/
  text : b.last = some (top, false) → (b.nodes top).text = none →
    b'.pending top = joined (b.data ++ content.leading)
  /-- Behind a child they are not. -/
  tail : b.last ≠ some (top, false) →
    b'.last ≠ some (top, false) ∧ (b'.nodes top).text = (b.nodes top).text

theorem Builder.In.start {b : Builder} {top : Nat} {below : List Nat} (h : b.In top below)
    (tag : PyStr) (attrib : Attributes) :
    (b.flush.start tag attrib).In b.next (top :: below) := by
  refine ⟨by simp [Builder.start, h.stack], ?_, by simp [Builder.start]⟩
  intro id hid
  simp only [Builder.start, flush_stack, flush_next, List.mem_cons] at hid ⊢
  rcases hid with rfl | hid
  · omega
  · have hold := h.old id hid
    omega

/-- What a whole child of the element `top` makes of a builder. -/
structure Element.Built (child : Element) (top : Nat) (below : List Nat) (b b' : Builder) :
    Prop where
  stays : b'.In top below
  next : b'.next = b.next + 1 + child.inner.count
  others : ∀ id < b.next, id ≠ top → b'.nodes id = b.nodes id
  node : b'.nodes b.next =
    ⟨child.tag, child.attrib, joined child.inner.leading, child.inner.ids (b.next + 1)⟩
  laid : child.inner.Laid b'.nodes (b.next + 1)
  parent : b'.nodes top = { b.nodes top with
    text := b.pending top
    children := (b.nodes top).children ++ [b.next] }
  last : b'.last = some (b.next, true)

theorem Builder.In.child {b b' : Builder} {top : Nat} {below : List Nat} {events : List Event}
    {tag : PyStr} {attrib : Attributes} {inner : Content} (h : b.In top below)
    (hinner : inner.Built b.next (top :: below) (b.flush.start tag attrib) b' events) :
    (b'.step .stop).2 = [.stop b.next] ∧
      Element.Built ⟨tag, attrib, inner⟩ top below b (b'.step .stop).1 := by
  have hstack := hinner.stays.stack
  have htop : top < b.next := h.old top (by simp [h.stack])
  have hnext : (b.flush.start tag attrib).next = b.next + 1 := by simp [Builder.start]
  have hnew : (b.flush.start tag attrib).nodes b.next = ⟨tag, attrib, none, []⟩ := by
    have hparent : b.stack.head? ≠ some b.next := by
      rw [h.stack]
      simp only [List.head?_cons, ne_eq, Option.some.injEq]
      omega
    simp only [Builder.start, flush_stack, flush_next]
    rw [append_of_ne hparent, Function.update_self]
  have hlaid := hinner.laid
  have hothers := hinner.others
  rw [hnext] at hlaid hothers
  -- only the element's own text is still to be flushed
  have hflush (id : Nat) (hid : id ≠ b.next) : b'.flush.nodes id = b'.nodes id :=
    flush_nodes_of_ne fun hlast => hid (hinner.stays.last id hlast)
  have hstop : b'.step .stop =
      ({ b'.flush with stack := top :: below, last := some (b.next, true) }, [.stop b.next]) := by
    simp only [Builder.step, hstack]
  rw [hstop]
  refine ⟨rfl, ⟨rfl, ?_, by simp⟩, ?_, ?_, ?_, ?_, ?_, rfl⟩
  · intro id hid
    have hold := h.old id (h.stack ▸ hid)
    simp only [flush_next, hinner.next, hnext]
    omega
  · simp only [flush_next, hinner.next, hnext]
  · intro id hid hne
    have hparent : b.flush.stack.head? ≠ some id := by simp [h.stack, Ne.symm hne]
    have hfresh : id ≠ b.flush.next := by
      rw [flush_next]
      omega
    have hlast : b.last ≠ some (id, false) := fun hlast => hne (h.last id hlast)
    simp only [hflush id (by omega), hothers id (by omega) (by omega)]
    rw [start_nodes_of_ne hparent hfresh, flush_nodes_of_ne hlast]
  · have hpending := hinner.text (by simp [Builder.start]) (by rw [hnew])
    have htag := hinner.tag
    have hattrib := hinner.attrib
    have hchildren := hinner.children
    rw [hnew] at htag hattrib hchildren
    rw [hnext] at hchildren
    simp only [flush_nodes, hpending, htag, hattrib, hchildren, List.nil_append]
    simp [Builder.start]
  · exact hlaid.congr fun id hlow _ => hflush id (by omega)
  · have hne : top ≠ b.next := by omega
    simp only [hflush top hne, hothers top (by omega) hne]
    simp only [Builder.start, flush_stack, flush_next, h.stack, append, Function.update_self,
      Function.update_of_ne hne, flush_nodes]

theorem Builder.In.feed {b : Builder} {top : Nat} {below : List Nat} (h : b.In top below)
    (content : Content) :
    content.Built top below b (b.feed content.tokens).1 (b.feed content.tokens).2 := by
  induction content generalizing b top below with
  | nil =>
      refine ⟨rfl, h, rfl, fun _ _ _ => rfl, trivial, rfl, rfl, ?_, ?_, fun h => ⟨h, rfl⟩⟩
      · simp [Builder.feed, Content.tokens, Content.ids]
      · intro hlast htext
        by_cases hdata : b.data = []
        · simp [Builder.pending, Builder.feed, Content.tokens, Content.leading, joined, hdata, htext]
        · simp [Builder.pending, Builder.feed, Content.tokens, Content.leading, hlast, hdata]
  | data text rest ih =>
      have hin : ({ b with data := b.data ++ [text] } : Builder).In top below :=
        ⟨h.stack, h.old, h.last⟩
      have hrest := ih hin
      refine ⟨hrest.events, hrest.stays, hrest.next, hrest.others, hrest.laid, hrest.tag,
        hrest.attrib, hrest.children, ?_, hrest.tail⟩
      intro hlast htext
      have hpending := hrest.text hlast htext
      simpa [Builder.feed, Builder.step, Content.tokens, Content.leading] using hpending
  | element tag attrib inner rest ihinner ihrest =>
      have hinner := ihinner (h.start tag attrib)
      have hnext : (b.flush.start tag attrib).next = b.next + 1 := by simp [Builder.start]
      obtain ⟨hstop, hchild⟩ := h.child hinner
      have hrest := ihrest hchild.stays
      have htail : ((((b.flush.start tag attrib).feed inner.tokens).1.step .stop).1).last ≠
          some (top, false) := by
        rw [hchild.last]
        simp
      obtain ⟨hlast, htext⟩ := hrest.tail htail
      have hfeed : b.feed (Content.element tag attrib inner rest).tokens =
          (((((b.flush.start tag attrib).feed inner.tokens).1.step .stop).1.feed rest.tokens).1,
            (Content.element tag attrib inner rest).events b.next) := by
        simp only [Content.tokens, Builder.feed_cons, Builder.feed_append, Builder.step_start]
        rw [hstop, hinner.events, hrest.events, hchild.next, hnext]
        rfl
      rw [hfeed]
      have hid := h.old top (by simp [h.stack])
      have hafter := hrest.next
      have hothers := hrest.others
      have hchildren := hrest.children
      have hlaid := hrest.laid
      rw [hchild.next] at hafter hothers hchildren hlaid
      refine ⟨rfl, hrest.stays, ?_, ?_, ⟨?_, ?_, hlaid⟩, ?_, ?_, ?_, ?_, ?_⟩
      · simp only [hafter, Content.count]
        omega
      · intro id hlow hne
        rw [hothers id (by omega) hne, hchild.others id hlow hne]
      · rw [hothers b.next (by omega) (by omega), hchild.node]
      · exact hchild.laid.congr fun id hlow hhigh => hothers id (by omega) (by omega)
      · rw [hrest.tag, hchild.parent]
      · rw [hrest.attrib, hchild.parent]
      · rw [hchildren, hchild.parent, Content.ids, List.append_assoc, List.singleton_append]
      · intro hopen hnone
        have hpending : b.pending top = joined b.data := by
          rw [Builder.pending, joined]
          split <;> simp_all
        rw [Builder.pending, if_neg (fun h => hlast h.1), htext, hchild.parent, hpending]
        simp [Content.leading]
      · intro hclosed
        refine ⟨hlast, ?_⟩
        rw [htext, hchild.parent]
        simp [Builder.pending, hclosed]

/-! ## Documents -/

/-- The events of an element whose end is not met. -/
inductive Deeper : List Event → Prop
  | here (id n : Nat) (content : Content) : Deeper (.start id :: content.events n)
  | inside (id n : Nat) (content : Content) {rest : List Event} (h : Deeper rest) :
      Deeper (.start id :: (content.events n ++ rest))

theorem Unfinished.feed {tokens : List Token} (h : Unfinished tokens) {b : Builder} {top : Nat}
    {below : List Nat} (hin : b.In top below) : Deeper (b.feed tokens).2 := by
  induction h generalizing b top below with
  | here tag attrib content =>
      have hbuilt := (hin.start tag attrib).feed content
      rw [Builder.feed_cons, Builder.step_start, hbuilt.events]
      exact .here _ _ _
  | inside tag attrib content h ih =>
      have hbuilt := (hin.start tag attrib).feed content
      simp only [Builder.feed_cons, Builder.step_start, Builder.feed_append]
      rw [hbuilt.events]
      exact .inside _ _ _ (ih hbuilt.stays)

/-- What is met behind the whole content of the root. -/
inductive Behind : List Event → Prop
  | nothing : Behind []
  | inside {events : List Event} (h : Deeper events) : Behind events
  | close (id : Nat) : Behind [.stop id]

/-- The children of the root that are whole are in the store, and finished. -/
structure Content.Met (content : Content) (b : Builder) (events : List Event) : Prop where
  laid : content.Laid b.nodes 1
  finished : ∀ id, 1 ≤ id → id < 1 + content.count → b.Finished id
  events : events = [] ∧ content = .nil ∨
    ∃ rest, events = .start 0 :: (content.events 1 ++ rest) ∧ Behind rest

theorem Content.Met.feed {content : Content} {b : Builder} {events : List Event}
    (h : content.Met b events) (tokens : List Token) :
    content.Laid (b.feed tokens).1.nodes 1 ∧
      ∀ id, 1 ≤ id → id < 1 + content.count → (b.feed tokens).1.Finished id := by
  constructor
  · exact h.laid.congr fun id hlow hhigh => ((h.finished id hlow hhigh).feed tokens).2
  · intro id hlow hhigh
    exact ((h.finished id hlow hhigh).feed tokens).1

theorem Reported.met {content : Content} {tokens : List Token} (h : Reported content tokens) :
    content.Met (Builder.empty.feed tokens).1 (Builder.empty.feed tokens).2 := by
  have hroot (tag : PyStr) (attrib : Attributes) :
      (Builder.empty.flush.start tag attrib).In 0 [] := by
    refine ⟨rfl, ?_, ?_⟩
    · intro id hid
      rw [List.mem_singleton.mp hid]
      exact Nat.one_pos
    · intro id hid
      simp only [Builder.start, Option.some.injEq, Prod.mk.injEq] at hid
      exact hid.1.symm
  have hwhole (tag : PyStr) (attrib : Attributes) :
      let b := (Builder.empty.flush.start tag attrib).feed content.tokens
      b.1.In 0 [] ∧ content.Met b.1 (.start 0 :: b.2) := by
    have hbuilt := (hroot tag attrib).feed content
    refine ⟨hbuilt.stays, hbuilt.laid, ?_, .inr ⟨[], ?_, .nothing⟩⟩
    · intro id hlow hhigh
      refine ⟨?_, ?_, ?_⟩
      · rw [hbuilt.stays.stack, List.mem_singleton]
        omega
      · intro hlast
        have hzero := hbuilt.stays.last id hlast
        omega
      · rw [hbuilt.next]
        exact hhigh
    · rw [List.append_nil, hbuilt.events]
      rfl
  cases h with
  | nothing =>
      refine ⟨trivial, ?_, .inl ⟨rfl, rfl⟩⟩
      intro id hlow hhigh
      simp only [Content.count] at hhigh
      omega
  | unfinished tag attrib => exact (hwhole tag attrib).2
  | inside tag attrib _ h =>
      obtain ⟨hin, hmet⟩ := hwhole tag attrib
      obtain ⟨hlaid, hfinished⟩ := hmet.feed _
      simp only [Builder.feed_cons, Builder.step_start, Builder.feed_append]
      refine ⟨hlaid, hfinished, .inr ⟨_, ?_, .inside (h.feed hin)⟩⟩
      rw [((hroot tag attrib).feed content).events]
      rfl
  | whole tag attrib =>
      obtain ⟨hin, hmet⟩ := hwhole tag attrib
      obtain ⟨hlaid, hfinished⟩ := hmet.feed [.stop]
      simp only [Builder.feed_cons, Builder.step_start, Builder.feed_append]
      refine ⟨hlaid, hfinished, .inr ⟨[.stop 0], ?_, .close 0⟩⟩
      rw [((hroot tag attrib).feed content).events]
      simp only [Builder.step, hin.stack]
      rfl

/-! ## A cleared root -/

/-- Two builders that differ in one node. -/
structure Builder.Like (root : Nat) (b b' : Builder) : Prop where
  next : b'.next = b.next
  stack : b'.stack = b.stack
  last : b'.last = b.last
  data : b'.data = b.data
  nodes : ∀ id, id ≠ root → b'.nodes id = b.nodes id

namespace Builder.Like

variable {root : Nat} {b b' b'' : Builder}

theorem refl (root : Nat) (b : Builder) : Like root b b := ⟨rfl, rfl, rfl, rfl, fun _ _ => rfl⟩

theorem trans (h : Like root b b') (h' : Like root b' b'') : Like root b b'' :=
  ⟨h'.next.trans h.next, h'.stack.trans h.stack, h'.last.trans h.last, h'.data.trans h.data,
    fun id hid => (h'.nodes id hid).trans (h.nodes id hid)⟩

theorem clear (root : Nat) (b : Builder) : Like root b (b.clear root) :=
  ⟨rfl, rfl, rfl, rfl, fun _ hid => Function.update_of_ne hid _ _⟩

theorem flush (h : Like root b b') : Like root b.flush b'.flush := by
  refine ⟨by simp [h.next], by simp [h.stack], by simp [h.last], by simp, ?_⟩
  intro id hid
  rw [flush_nodes, flush_nodes, pending, pending, h.last, h.data, h.nodes id hid]

theorem start (h : Like root b b') (tag : PyStr) (attrib : Attributes) :
    Like root (b.start tag attrib) (b'.start tag attrib) := by
  refine ⟨by simp [Builder.start, h.next], by simp [Builder.start, h.next, h.stack],
    by simp [Builder.start, h.next], h.data, ?_⟩
  intro id hid
  have hbare : Function.update b'.nodes b.next ⟨tag, attrib, none, []⟩ id =
      Function.update b.nodes b.next ⟨tag, attrib, none, []⟩ id := by
    simp only [Function.update_apply]
    split
    · rfl
    · exact h.nodes id hid
  simp only [Builder.start, h.next, h.stack]
  cases b.stack with
  | nil => exact hbare
  | cons parent below =>
      by_cases hparent : id = parent
      · subst hparent
        simp only [append, Function.update_self, hbare]
      · simp only [append, Function.update_of_ne hparent, hbare]

theorem step (h : Like root b b') (token : Token) :
    Like root (b.step token).1 (b'.step token).1 ∧ (b'.step token).2 = (b.step token).2 := by
  cases token with
  | start tag attrib => exact ⟨h.flush.start tag attrib, by simp [Builder.step, h.next]⟩
  | data text => exact ⟨⟨h.next, h.stack, h.last, by simp [Builder.step, h.data], h.nodes⟩, rfl⟩
  | stop =>
      simp only [Builder.step, h.stack]
      split
      · exact ⟨h.flush, rfl⟩
      · exact ⟨⟨h.flush.next, rfl, rfl, h.flush.data, h.flush.nodes⟩, rfl⟩

theorem feed (h : Like root b b') (tokens : List Token) :
    Like root (b.feed tokens).1 (b'.feed tokens).1 ∧ (b'.feed tokens).2 = (b.feed tokens).2 := by
  induction tokens generalizing b b' with
  | nil => exact ⟨h, rfl⟩
  | cons token tokens ih =>
      obtain ⟨hstep, hevents⟩ := h.step token
      obtain ⟨hfeed, hlater⟩ := ih hstep
      exact ⟨hfeed, by rw [feed_cons, feed_cons, hevents, hlater]⟩

end Builder.Like

end PwshPy.Xml
