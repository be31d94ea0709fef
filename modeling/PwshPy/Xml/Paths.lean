import Mathlib.Data.List.Forall2
import PwshPy.Xml.Builder

/-! # Paths in a tree

A path is a list of tags. What stands at it can be asked of a node in a store and
of a whole element alike, and they agree where the store holds the element.
-/

namespace PwshPy.Xml

/-- What a reader may ask of an element. -/
structure View (ν : Type) where
  tag : ν → PyStr
  attrib : ν → Attributes
  text : ν → Option PyStr
  children : ν → List ν

def View.element : View Element where
  tag := Element.tag
  attrib := Element.attrib
  text x := joined x.inner.leading
  children x := x.inner.elements

def View.stored (nodes : Nat → Node) : View Nat where
  tag id := (nodes id).tag
  attrib id := (nodes id).attrib
  text id := (nodes id).text
  children id := (nodes id).children

namespace View

variable {ν : Type} (view : View ν)

/-- `node.get(key, default)` -/
def get (node : ν) (key default : PyStr) : PyStr :=
  ((view.attrib node).find? fun item => item.1 = key).elim default Prod.snd

/-- `node.findall(path)` -/
def findall (node : ν) (path : List PyStr) : List ν :=
  path.foldl (fun found tag => found.flatMap fun x => (view.children x).filter (view.tag · = tag))
    [node]

/-- `node.find(path)` -/
def find (node : ν) (path : List PyStr) : Option ν := (view.findall node path).head?

end View

/-- The store holds the element as a node. -/
def Element.Held (nodes : Nat → Node) (id : Nat) (x : Element) : Prop :=
  nodes id = ⟨x.tag, x.attrib, joined x.inner.leading, x.inner.ids (id + 1)⟩ ∧
    x.inner.Laid nodes (id + 1)

section Held

variable {nodes nodes' : Nat → Node} {id n : Nat} {x : Element} {content : Content}

theorem Content.Laid.held (h : content.Laid nodes n) :
    List.Forall₂ (Element.Held nodes) (content.ids n) content.elements := by
  induction content generalizing n with
  | nil => exact .nil
  | data text rest ih => exact ih h
  | element tag attrib inner rest _ ih => exact .cons ⟨h.1, h.2.1⟩ (ih h.2.2)

theorem Element.Held.tag (h : x.Held nodes id) : (View.stored nodes).tag id = x.tag := by
  simp [View.stored, h.1]

theorem Element.Held.get (h : x.Held nodes id) (key default : PyStr) :
    (View.stored nodes).get id key default = View.element.get x key default := by
  simp [View.get, View.stored, View.element, h.1]

theorem Element.Held.text (h : x.Held nodes id) :
    (View.stored nodes).text id = View.element.text x := by
  simp [View.stored, View.element, h.1]

theorem Element.Held.children (h : x.Held nodes id) :
    List.Forall₂ (Element.Held nodes) ((View.stored nodes).children id) x.inner.elements := by
  simp only [View.stored, h.1]
  exact h.2.held

/-- What is found in the store is held there. -/
theorem Element.Held.findall (h : x.Held nodes id) (path : List PyStr) :
    List.Forall₂ (Element.Held nodes) ((View.stored nodes).findall id path)
      (View.element.findall x path) := by
  unfold View.findall
  have hstep (tag : PyStr) {id : Nat} {x : Element} (h : x.Held nodes id) :
      List.Forall₂ (Element.Held nodes)
        (((View.stored nodes).children id).filter ((View.stored nodes).tag · = tag))
        ((View.element.children x).filter (View.element.tag · = tag)) := by
    refine List.rel_filter (fun {id x} h => ?_) h.children
    simp only [h.tag]
    exact Iff.rfl
  generalize hids : [id] = ids
  generalize hxs : [x] = xs
  have hall : List.Forall₂ (Element.Held nodes) ids xs := by
    subst hids hxs
    exact .cons h .nil
  clear hids hxs h
  induction path generalizing ids xs with
  | nil => exact hall
  | cons tag path ih => exact ih _ _ (List.rel_flatMap hall fun _ _ h => hstep tag h)

theorem Element.Held.find (h : x.Held nodes id) (path : List PyStr) :
    Option.Rel (Element.Held nodes) ((View.stored nodes).find id path)
      (View.element.find x path) := by
  have hall := h.findall path
  unfold View.find
  generalize (View.stored nodes).findall id path = ids at hall ⊢
  generalize View.element.findall x path = xs at hall ⊢
  cases hall with
  | nil => exact .none
  | cons hfirst _ => exact .some hfirst

end Held

end PwshPy.Xml
