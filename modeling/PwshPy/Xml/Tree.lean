import PwshPy.Text.PyStr

/-! # XML documents

An element's content is a first text or child and what follows it, so that every
walk of a document is a structural recursion. The elements are counted in document
order: one begun when `n` have begun before it is the element `n`.
-/

namespace PwshPy.Xml

abbrev Attributes : Type := List (PyStr × PyStr)

/-- The content of an element. -/
inductive Content where
  | nil
  | data (text : PyStr) (rest : Content)
  | element (tag : PyStr) (attrib : Attributes) (inner rest : Content)

/-- A whole element. -/
structure Element where
  tag : PyStr
  attrib : Attributes
  inner : Content

/-- What a parser meets, in order. -/
inductive Token where
  | start (tag : PyStr) (attrib : Attributes)
  | data (text : PyStr)
  | stop

/-- What a parser reports. -/
inductive Event where
  | start (id : Nat)
  | stop (id : Nat)
  deriving DecidableEq

namespace Content

def tokens : Content → List Token
  | nil => []
  | data text rest => .data text :: rest.tokens
  | element tag attrib inner rest =>
      .start tag attrib :: (inner.tokens ++ .stop :: rest.tokens)

/-- The children that are elements. -/
def elements : Content → List Element
  | nil => []
  | data _ rest => rest.elements
  | element tag attrib inner rest => ⟨tag, attrib, inner⟩ :: rest.elements

/-- The texts before the first child. -/
def leading : Content → List PyStr
  | nil => []
  | data text rest => text :: rest.leading
  | element _ _ _ _ => []

/-- How many elements there are, at any depth. -/
def count : Content → Nat
  | nil => 0
  | data _ rest => rest.count
  | element _ _ inner rest => inner.count + 1 + rest.count

/-- The children's numbers. -/
def ids : Content → Nat → List Nat
  | nil, _ => []
  | data _ rest, n => rest.ids n
  | element _ _ inner rest, n => n :: rest.ids (n + 1 + inner.count)

def events : Content → Nat → List Event
  | nil, _ => []
  | data _ rest, n => rest.events n
  | element _ _ inner rest, n =>
      .start n :: (inner.events (n + 1) ++ .stop n :: rest.events (n + 1 + inner.count))

end Content

/-- Some texts as one, `none` for no text. -/
def joined (texts : List PyStr) : Option PyStr := if texts = [] then none else some texts.flatten

/-! ## What is reported of a document -/

/-- An element whose end is not reported: content that is whole, and an element inside that is not
at its end either. -/
inductive Unfinished : List Token → Prop
  | here (tag : PyStr) (attrib : Attributes) (content : Content) :
      Unfinished (.start tag attrib :: content.tokens)
  | inside (tag : PyStr) (attrib : Attributes) (content : Content) {rest : List Token}
      (h : Unfinished rest) : Unfinished (.start tag attrib :: (content.tokens ++ rest))

/-- Properly nested tokens, by the content of the root that is reported whole. -/
inductive Reported : Content → List Token → Prop
  | nothing : Reported .nil []
  | unfinished (tag : PyStr) (attrib : Attributes) (content : Content) :
      Reported content (.start tag attrib :: content.tokens)
  | inside (tag : PyStr) (attrib : Attributes) (content : Content) {rest : List Token}
      (h : Unfinished rest) : Reported content (.start tag attrib :: (content.tokens ++ rest))
  | whole (tag : PyStr) (attrib : Attributes) (content : Content) :
      Reported content (.start tag attrib :: (content.tokens ++ [.stop]))

/-! ## Prefixes -/

section Prefixes

variable {content : Content} {front tokens rest : List Token}

/-- Content, the last element of which may be unfinished. -/
inductive Begun : List Token → Prop
  | whole (content : Content) : Begun content.tokens
  | inside (content : Content) {rest : List Token} (h : Unfinished rest) :
      Begun (content.tokens ++ rest)

theorem Begun.unfinished (h : Begun front) (tag : PyStr) (attrib : Attributes) :
    Unfinished (.start tag attrib :: front) := by
  cases h with
  | whole content => exact .here tag attrib content
  | inside content h => exact .inside tag attrib content h

theorem Begun.data (h : Begun front) (text : PyStr) : Begun (.data text :: front) := by
  cases h with
  | whole content => exact .whole (.data text content)
  | inside content h => exact .inside (.data text content) h

theorem Begun.element (h : Begun front) (tag : PyStr) (attrib : Attributes) (inner : Content) :
    Begun (.start tag attrib :: (inner.tokens ++ .stop :: front)) := by
  cases h with
  | whole content => exact .whole (.element tag attrib inner content)
  | inside content h =>
      have hbegun := Begun.inside (.element tag attrib inner content) h
      simpa [Content.tokens] using hbegun

theorem begun_nil : Begun [] := .whole .nil

theorem prefix_append_cases (h : front <+: tokens ++ rest) :
    front <+: tokens ∨ ∃ more, front = tokens ++ more ∧ more <+: rest := by
  rcases List.prefix_or_prefix_of_prefix h (List.prefix_append tokens rest) with hin | hout
  · exact .inl hin
  · obtain ⟨more, rfl⟩ := hout
    exact .inr ⟨more, rfl, (List.prefix_append_right_inj tokens).mp h⟩

/-- What comes first of some content. -/
theorem begun_of_front (h : front <+: content.tokens) : Begun front := by
  induction content generalizing front with
  | nil => exact List.prefix_nil.mp h ▸ begun_nil
  | data text rest ih =>
      cases front with
      | nil => exact begun_nil
      | cons token front =>
          obtain ⟨rfl, hrest⟩ := List.cons_prefix_cons.mp h
          exact (ih hrest).data text
  | element tag attrib inner rest ihinner ihrest =>
      cases front with
      | nil => exact begun_nil
      | cons token front =>
          obtain ⟨rfl, hin⟩ := List.cons_prefix_cons.mp h
          rcases prefix_append_cases hin with hinner | ⟨more, rfl, hmore⟩
          · exact .inside .nil ((ihinner hinner).unfinished tag attrib)
          · cases more with
            | nil =>
                rw [List.append_nil]
                exact .inside .nil (.here tag attrib inner)
            | cons token more =>
                obtain ⟨rfl, hrest⟩ := List.cons_prefix_cons.mp hmore
                exact (ihrest hrest).element tag attrib inner

theorem begun_append_of_front (h : front <+: content.tokens ++ rest)
    (hrest : ∀ more, more <+: rest → more = [] ∨ Unfinished more) : Begun front := by
  rcases prefix_append_cases h with hin | ⟨more, rfl, hmore⟩
  · exact begun_of_front hin
  · rcases hrest more hmore with rfl | hopen
    · rw [List.append_nil]
      exact .whole content
    · exact .inside content hopen

theorem Unfinished.of_front (htokens : Unfinished tokens) (h : front <+: tokens) :
    front = [] ∨ Unfinished front := by
  induction htokens generalizing front with
  | here tag attrib content =>
      cases front with
      | nil => exact .inl rfl
      | cons token front =>
          obtain ⟨rfl, hin⟩ := List.cons_prefix_cons.mp h
          exact .inr ((begun_of_front hin).unfinished tag attrib)
  | inside tag attrib content hopen ih =>
      cases front with
      | nil => exact .inl rfl
      | cons token front =>
          obtain ⟨rfl, hin⟩ := List.cons_prefix_cons.mp h
          exact .inr ((begun_append_of_front hin fun more => ih).unfinished tag attrib)

theorem Begun.reported (h : Begun front) (tag : PyStr) (attrib : Attributes) :
    ∃ content, Reported content (.start tag attrib :: front) := by
  cases h with
  | whole content => exact ⟨content, .unfinished tag attrib content⟩
  | inside content h => exact ⟨content, .inside tag attrib content h⟩

/-- What comes first of nested tokens is nested. -/
theorem Reported.of_front (htokens : Reported content tokens) (h : front <+: tokens) :
    ∃ content, Reported content front := by
  cases front with
  | nil => exact ⟨.nil, .nothing⟩
  | cons token front =>
      cases htokens with
      | nothing => exact absurd (List.prefix_nil.mp h) (List.cons_ne_nil _ _)
      | unfinished tag attrib =>
          obtain ⟨rfl, hin⟩ := List.cons_prefix_cons.mp h
          exact (begun_of_front hin).reported tag attrib
      | inside tag attrib _ hopen =>
          obtain ⟨rfl, hin⟩ := List.cons_prefix_cons.mp h
          exact (begun_append_of_front hin fun more => hopen.of_front).reported tag attrib
      | whole tag attrib =>
          obtain ⟨rfl, hin⟩ := List.cons_prefix_cons.mp h
          rcases prefix_append_cases hin with hin | ⟨more, rfl, hmore⟩
          · exact (begun_of_front hin).reported tag attrib
          · cases more with
            | nil =>
                rw [List.append_nil]
                exact ⟨content, .unfinished tag attrib content⟩
            | cons token more =>
                obtain ⟨rfl, hlast⟩ := List.cons_prefix_cons.mp hmore
                obtain rfl := List.prefix_nil.mp hlast
                exact ⟨content, .whole tag attrib content⟩

end Prefixes

end PwshPy.Xml
