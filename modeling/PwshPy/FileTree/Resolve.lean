import PwshPy.FileTree.Held

/-! # The resolution of a path

The kernel takes one name after the other. It keeps the directories it came through,
for `..` to go back, and puts the names of a link's target before those that are
left. A privileged process is meant: no directory refuses it the search.
-/

namespace PwshPy.FileTree

open Relation (ReflTransGen)

def SLASH : Nat := 0x2f

def DOT : Name := py "."

def DOTDOT : Name := py ".."

/-- The names between the slashes of a path; an empty one stands for `.`, as it does
behind the last slash. -/
def components (path : PyStr) : List Name := path.splitOn SLASH

/-- A name that is looked up. -/
structure Proper (n : Name) : Prop where
  ne_nil : n ≠ []
  ne_dot : n ≠ DOT
  ne_dotdot : n ≠ DOTDOT
  slash : SLASH ∉ n

theorem Proper.not_dot {n : Name} (h : Proper n) : ¬(n = [] ∨ n = DOT) :=
  not_or.mpr ⟨h.ne_nil, h.ne_dot⟩

/-- The text of a path below the root, its last name first. -/
def pathOf : List Name → PyStr
  | [] => []
  | n :: names => pathOf names ++ SLASH :: n

theorem components_append (path rest : PyStr) :
    components (path ++ SLASH :: rest) = components path ++ components rest :=
  List.splitOn_append_cons_self path rest

theorem components_eq_singleton {n : Name} (h : SLASH ∉ n) : components n = [n] :=
  List.splitOn_eq_singleton h

theorem head_pathOf (n : Name) (names : List Name) : (pathOf (n :: names)).head? = some SLASH := by
  induction names generalizing n with
  | nil => rfl
  | cons m names ih =>
      obtain ⟨rest, hrest⟩ := List.head?_eq_some_iff.mp (ih m)
      rw [pathOf, hrest]
      rfl

theorem components_pathOf {names : List Name} (h : ∀ n ∈ names, Proper n) :
    components (pathOf names) = [] :: names.reverse := by
  induction names with
  | nil => rfl
  | cons n names ih =>
      rw [List.forall_mem_cons] at h
      rw [pathOf, components_append, ih h.2, components_eq_singleton h.1.slash, List.reverse_cons]
      rfl

/-- The most links a path may pass. -/
def MAXSYMLINKS : Nat := 40

namespace Volume

variable (t : Volume)

/-- Where the names lead, with so many links left to follow. `follow` is about a link
that is the last name. -/
def namei (follow : Bool) : Nat → List Ino → List Name → Option Ino
  | _, stack, [] => some (t.top stack)
  | links, stack, n :: rest =>
      match t.node (t.top stack) with
      | .dir entries =>
          if n = [] ∨ n = DOT then namei follow links stack rest
          else if n = DOTDOT then namei follow links stack.tail rest
          else
            match entries n with
            | none => none
            | some j =>
                match t.node j with
                | .link target =>
                    if rest = [] ∧ follow = false then some j
                    else
                      match links with
                      | 0 => none
                      | links + 1 =>
                          if target = [] then none
                          else if target.head? = some SLASH then
                            namei follow links [] (components target ++ rest)
                          else namei follow links stack (components target ++ rest)
                | _ => namei follow links (j :: stack) rest
      | _ => none
termination_by links _ names => (links, names.length)

/-- The inode an absolute path names. -/
def resolve (follow : Bool) (path : PyStr) : Option Ino :=
  if path.head? = some SLASH then t.namei follow MAXSYMLINKS [] (components path) else none

section Steps

variable {t} {follow : Bool} {links : Nat} {stack : List Ino} {n : Name} {rest : List Name}

@[simp] theorem namei_nil : t.namei follow links stack [] = some (t.top stack) := by
  rw [namei]

theorem namei_not_dir (h : (t.node (t.top stack)).isDir = false) :
    t.namei follow links stack (n :: rest) = none := by
  rw [namei]
  split
  · rename_i entries hnode
    rw [hnode] at h
    cases h
  · rfl

theorem namei_dot (h : (t.node (t.top stack)).isDir = true) (hn : n = [] ∨ n = DOT) :
    t.namei follow links stack (n :: rest) = t.namei follow links stack rest := by
  obtain ⟨entries, hnode⟩ := t.dir_of_isDir h
  rw [namei, hnode]
  simp only [if_pos hn]

theorem namei_dotdot (h : (t.node (t.top stack)).isDir = true) :
    t.namei follow links stack (DOTDOT :: rest) = t.namei follow links stack.tail rest := by
  obtain ⟨entries, hnode⟩ := t.dir_of_isDir h
  have hdots : ¬(DOTDOT = [] ∨ DOTDOT = DOT) := by decide
  rw [namei, hnode]
  simp only [if_neg hdots, if_true]

variable {j : Ino} {target : PyStr} (hn : Proper n)
include hn

theorem namei_missing (h : t.entry (t.top stack) n = none) :
    t.namei follow links stack (n :: rest) = none := by
  cases hdir : (t.node (t.top stack)).isDir with
  | false => exact namei_not_dir hdir
  | true =>
      obtain ⟨entries, hnode⟩ := t.dir_of_isDir hdir
      rw [t.entry_of_dir hnode] at h
      rw [namei, hnode]
      simp only [if_neg hn.not_dot, if_neg hn.ne_dotdot, h]

theorem namei_child (h : t.entry (t.top stack) n = some j) (hj : (t.node j).isLink = false) :
    t.namei follow links stack (n :: rest) = t.namei follow links (j :: stack) rest := by
  obtain ⟨entries, hnode, hentry⟩ := t.dir_of_entry h
  rw [namei, hnode]
  simp only [if_neg hn.not_dot, if_neg hn.ne_dotdot, hentry]
  cases hchild : t.node j with
  | link target =>
      rw [hchild] at hj
      cases hj
  | _ => rfl

theorem namei_link_last (h : t.entry (t.top stack) n = some j) (hj : t.node j = .link target) :
    t.namei false links stack [n] = some j := by
  obtain ⟨entries, hnode, hentry⟩ := t.dir_of_entry h
  rw [namei, hnode]
  simp only [if_neg hn.not_dot, if_neg hn.ne_dotdot, hentry, hj, and_self, if_true]

theorem namei_link (h : t.entry (t.top stack) n = some j) (hj : t.node j = .link target)
    (htarget : target ≠ []) :
    t.namei true (links + 1) stack (n :: rest) =
      t.namei true links (if target.head? = some SLASH then [] else stack)
        (components target ++ rest) := by
  obtain ⟨entries, hnode, hentry⟩ := t.dir_of_entry h
  rw [namei, hnode]
  simp only [if_neg hn.not_dot, if_neg hn.ne_dotdot, hentry, hj, Bool.true_eq_false,
    and_false, if_false, if_neg htarget]
  split
  · rfl
  · rfl

theorem namei_empty_link (h : t.entry (t.top stack) n = some j) (hj : t.node j = .link []) :
    t.namei true links stack (n :: rest) = none := by
  obtain ⟨entries, hnode, hentry⟩ := t.dir_of_entry h
  rw [namei, hnode]
  simp only [if_neg hn.not_dot, if_neg hn.ne_dotdot, hentry, hj, Bool.true_eq_false,
    and_false, if_false]
  cases links with
  | zero => rfl
  | succ links => rfl

end Steps

/-- Names that say nothing ask for a directory. -/
theorem namei_blank {follow : Bool} {links : Nat} {stack : List Ino} {blanks : List Name}
    (h : ∀ n ∈ blanks, n = []) : t.namei follow links stack blanks =
      if blanks = [] ∨ (t.node (t.top stack)).isDir = true then some (t.top stack) else none := by
  induction blanks with
  | nil => rw [namei_nil, if_pos (Or.inl rfl)]
  | cons n blanks ih =>
      rw [List.forall_mem_cons] at h
      cases hdir : (t.node (t.top stack)).isDir with
      | true =>
          rw [namei_dot hdir (Or.inl h.1), ih h.2, if_pos (Or.inr hdir), if_pos (Or.inr rfl)]
      | false =>
          rw [namei_not_dir hdir, if_neg]
          simp

variable {t} in
theorem resolve_root (follow : Bool) :
    t.resolve follow [SLASH] = if (t.node t.root).isDir then some t.root else none := by
  have hparts : components [SLASH] = [[], []] := by decide
  have hhead : [SLASH].head? = some SLASH := rfl
  rw [resolve, if_pos hhead, hparts]
  cases hdir : (t.node t.root).isDir with
  | true =>
      rw [namei_dot hdir (Or.inl rfl), namei_dot hdir (Or.inl rfl), namei_nil]
      rfl
  | false =>
      rw [namei_not_dir hdir]
      rfl

end Volume

/-! ## Along a chain -/

namespace Held

variable {trusted : Nat → Prop} {t : Volume} {names : List Name} {stack : List Ino} {n : Name}
  {follow : Bool} {links : Nat} {rest : List Name}

/-- The path of a chain leads to its end. -/
theorem namei (h : Held trusted t names stack) (hnames : ∀ n ∈ names, Proper n) :
    t.namei follow links [] ([] :: (names.reverse ++ rest)) = t.namei follow links stack rest := by
  induction h generalizing rest with
  | root hdir h => exact Volume.namei_dot hdir (Or.inl rfl)
  | @child names stack n j hparent hentry h ih =>
      rw [List.forall_mem_cons] at hnames
      rw [List.reverse_cons, List.append_assoc, ih hnames.2]
      exact Volume.namei_child hnames.1 hentry h.noLink

/-- What a name below a chain names itself, a link or not. -/
theorem resolve_child (h : Held trusted t names stack) (hnames : ∀ n ∈ names, Proper n)
    (hn : Proper n) : t.resolve false (pathOf (n :: names)) = t.entry (t.top stack) n := by
  rw [Volume.resolve, if_pos (head_pathOf n names), pathOf, components_append, components_pathOf hnames,
    components_eq_singleton hn.slash, List.cons_append, h.namei hnames]
  cases hentry : t.entry (t.top stack) n with
  | none => exact Volume.namei_missing hn hentry
  | some j =>
      cases hlink : (t.node j).isLink with
      | false => rw [Volume.namei_child hn hentry hlink, Volume.namei_nil, Volume.top_cons]
      | true =>
          cases hnode : t.node j with
          | link target => exact Volume.namei_link_last hn hentry hnode
          | _ =>
              rw [hnode] at hlink
              cases hlink

theorem resolve_end {j : Ino} (h : Held trusted t (n :: names) (j :: stack))
    (hnames : ∀ m ∈ n :: names, Proper m) : t.resolve follow (pathOf (n :: names)) = some j := by
  have hend := @Held.namei _ _ _ _ follow MAXSYMLINKS [] h hnames
  rw [List.append_nil] at hend
  rw [Volume.resolve, if_pos (head_pathOf n names), components_pathOf hnames, hend, Volume.namei_nil,
    Volume.top_cons]

/-- The text the end of a chain is asked by. -/
def text (names : List Name) : PyStr := if pathOf names = [] then [SLASH] else pathOf names

theorem resolve_self (h : Held trusted t names stack) (hnames : ∀ n ∈ names, Proper n) :
    t.resolve false (text names) = some (t.top stack) := by
  cases h with
  | root hdir h =>
      have htext : text [] = [SLASH] := rfl
      rw [htext, Volume.resolve_root, hdir, if_pos rfl, Volume.top_nil]
  | @child names stack n j hparent hentry h =>
      rw [List.forall_mem_cons] at hnames
      have htext : text (n :: names) = pathOf (n :: names) := if_neg (by simp [pathOf])
      rw [htext, hparent.resolve_child hnames.2 hnames.1, hentry, Volume.top_cons]

end Held

/-! ## Paths that stay -/

/-- Once the path names an inode of a trusted account it goes on naming it. -/
def Fixed (trusted : Nat → Prop) (t : Volume) (path : PyStr) : Prop :=
  ∀ t₁ t₂ i, ReflTransGen (Moves trusted) t t₁ → ReflTransGen (Moves trusted) t₁ t₂ →
    t₁.resolve false path = some i → trusted (t₁.attrs i).uid →
      t₂.resolve false path = some i ∧ t₂.attrs i = t₁.attrs i ∧
        (t₂.node i).isLink = (t₁.node i).isLink

section Fixed

variable {trusted : Nat → Prop} {t : Volume} {names : List Name} {stack : List Ino} {n : Name}

theorem Held.fixed (h : Held trusted t names stack) (hnames : ∀ n ∈ names, Proper n)
    (hn : Proper n) : Fixed trusted t (pathOf (n :: names)) := by
  intro t₁ t₂ i h₁ h₂ hi howner
  have hheld := h.later h₁
  rw [hheld.resolve_child hnames hn] at hi
  have hbelow : Below trusted t₁ names stack n i := ⟨hheld, hi, howner⟩
  refine ⟨?_, hbelow.attrs_later h₂, hbelow.isLink_later h₂⟩
  rw [(hheld.later h₂).resolve_child hnames hn]
  exact (hbelow.later h₂).entry

theorem fixed_root : Fixed trusted t [SLASH] := by
  intro t₁ t₂ i h₁ h₂ hi howner
  rw [Volume.resolve_root] at hi
  split at hi
  · rename_i hdir
    obtain rfl := Option.some.inj hi
    obtain ⟨hroot, hattrs, hdir', hlink⟩ := root_later howner h₂
    refine ⟨?_, hattrs, hlink⟩
    rw [Volume.resolve_root, hroot, hdir', hdir]
    rfl
  · cases hi

theorem Held.fixed_self (h : Held trusted t names stack) (hnames : ∀ n ∈ names, Proper n) :
    Fixed trusted t (Held.text names) := by
  cases h with
  | root hdir h => exact fixed_root
  | @child names stack n j hparent hentry h =>
      rw [List.forall_mem_cons] at hnames
      have htext : Held.text (n :: names) = pathOf (n :: names) := if_neg (by simp [pathOf])
      exact htext ▸ hparent.fixed hnames.2 hnames.1

end Fixed

end PwshPy.FileTree
