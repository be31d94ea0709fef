import PwshPy.FileTree.Nodes

/-! # Paths that others cannot bend

A chain of directories from the root stays in place when every inode of it belongs
to a trusted account and no other may take its name away: its directory is closed
to writers or sticky. A link below such a chain stays too, and an inode that is
closed to writers stays as it is altogether.
-/

namespace PwshPy.FileTree

open Relation (ReflTransGen)

variable {trusted : Nat → Prop} {t t' : Volume}

/-- A call of an account that is not trusted. -/
def Moves (trusted : Nat → Prop) (t t' : Volume) : Prop := ∃ u, ¬trusted u ∧ Act u t t'

theorem Moves.kept {P : Volume → Prop} (hstep : ∀ t t', Moves trusted t t' → P t → P t')
    (h : ReflTransGen (Moves trusted) t t') (ht : P t) : P t' := by
  induction h with
  | refl => exact ht
  | tail _ hmove ih => exact hstep _ _ hmove ih

/-! ## Single inodes -/

/-- No other account gets at the inode but through the names in a sticky directory. -/
structure Guarded (trusted : Nat → Prop) (t : Volume) (i : Ino) : Prop where
  owner : trusted (t.attrs i).uid
  sticky : (t.attrs i).groupWrite = true ∨ (t.attrs i).otherWrite = true ∨
    (t.attrs i).acl = true → (t.attrs i).sticky = true
  noLink : (t.node i).isLink = false

/-- No other account writes the inode. -/
structure Sealed (trusted : Nat → Prop) (t : Volume) (i : Ino) : Prop where
  owner : trusted (t.attrs i).uid
  acl : (t.attrs i).acl = false
  group : (t.attrs i).groupWrite = false
  other : (t.attrs i).otherWrite = false

theorem ne_of_trusted {u v : Nat} (hu : ¬trusted u) (hv : trusted v) : v ≠ u := fun h =>
  hu (h ▸ hv)

theorem root_later (h : trusted (t.attrs t.root).uid)
    (hlater : ReflTransGen (Moves trusted) t t') :
    t'.root = t.root ∧ t'.attrs t.root = t.attrs t.root ∧
      (t'.node t.root).isDir = (t.node t.root).isDir ∧
      (t'.node t.root).isLink = (t.node t.root).isLink := by
  refine Moves.kept (P := fun s => s.root = t.root ∧ s.attrs t.root = t.attrs t.root ∧
    (s.node t.root).isDir = (t.node t.root).isDir ∧
      (s.node t.root).isLink = (t.node t.root).isLink) ?_ hlater ⟨rfl, rfl, rfl, rfl⟩
  intro s s' hmove hs
  obtain ⟨u, hu, hact⟩ := hmove
  obtain ⟨hroot, hattrs, hdir, hlink⟩ := hs
  have hnamed : s.Named t.root := Or.inl hroot.symm
  have howner : (s.attrs t.root).uid ≠ u := by
    rw [hattrs]
    exact ne_of_trusted hu h
  refine ⟨hact.frame.root.trans hroot, (hact.frame.attrs _ hnamed howner).trans hattrs,
    (hact.frame.isDir _ hnamed).trans hdir, (hact.frame.isLink _ hnamed).trans hlink⟩

theorem Guarded.kept {i : Ino} (hnamed : t.Named i) (h : Guarded trusted t i)
    (hmove : Moves trusted t t') : Guarded trusted t' i := by
  obtain ⟨u, hu, hact⟩ := hmove
  have hattrs := hact.frame.attrs i hnamed (ne_of_trusted hu h.owner)
  constructor
  case owner => exact hattrs ▸ h.owner
  case sticky => exact hattrs ▸ h.sticky
  case noLink => exact (hact.frame.isLink i hnamed).trans h.noLink

theorem Sealed.not_mayWrite {i : Ino} {u : Nat} (h : Sealed trusted t i) (hu : ¬trusted u) :
    ¬t.MayWrite u i := by
  intro hmay
  rcases hmay with howner | hgroup | hother | hacl
  · exact hu (howner ▸ h.owner)
  · rw [h.group] at hgroup
    cases hgroup
  · rw [h.other] at hother
    cases hother
  · rw [h.acl] at hacl
    cases hacl

/-- A sealed inode is not touched. -/
theorem Sealed.inode_of_frame {i : Ino} {u : Nat} (h : Sealed trusted t i) (hnamed : t.Named i)
    (hu : ¬trusted u) (hframe : Frame u t t') : t'.inode i = t.inode i := by
  have hattrs := hframe.attrs i hnamed (ne_of_trusted hu h.owner)
  have hnode := hframe.node i hnamed (h.not_mayWrite hu)
  cases hi : t.inode i with
  | mk attrs node =>
      cases hi' : t'.inode i with
      | mk attrs' node' =>
          rw [Volume.attrs, Volume.attrs, hi, hi'] at hattrs
          rw [Volume.node, Volume.node, hi, hi'] at hnode
          rw [show attrs' = attrs from hattrs, show node' = node from hnode]

theorem sealed_of_inode_eq {i : Ino} (hsame : t'.inode i = t.inode i) (h : Sealed trusted t i) :
    Sealed trusted t' i := by
  have hattrs : t'.attrs i = t.attrs i := congrArg Inode.attrs hsame
  exact ⟨hattrs ▸ h.owner, hattrs ▸ h.acl, hattrs ▸ h.group, hattrs ▸ h.other⟩

/-- The name of a trusted inode in a guarded directory is kept. -/
theorem Guarded.entry_kept {d j : Ino} {n : Name} (hnamed : t.Named d) (hd : Guarded trusted t d)
    (hentry : t.entry d n = some j) (hj : trusted (t.attrs j).uid) (hmove : Moves trusted t t') :
    t'.entry d n = some j ∧ t'.attrs j = t.attrs j := by
  obtain ⟨u, hu, hact⟩ := hmove
  have hchild : t.Named j := Or.inr ⟨d, n, hentry⟩
  refine ⟨hact.frame.entry d n j hnamed hentry ?_, hact.frame.attrs j hchild (ne_of_trusted hu hj)⟩
  intro hremove
  have hsticky : (t.attrs d).sticky = true := by
    rcases hremove.1 with howner | hopen
    · exact absurd (howner ▸ hd.owner) hu
    · exact hd.sticky hopen
  rcases hremove.2 hsticky with howner | hown
  · exact hu (howner ▸ hd.owner)
  · exact hu (hown j hentry ▸ hj)

/-- No link of a trusted account has a target that ends in a line feed. -/
def Tidy (trusted : Nat → Prop) (t : Volume) : Prop :=
  ∀ i target, t.Named i → t.node i = .link target → trusted (t.attrs i).uid →
    target.getLast? ≠ some LF

theorem link_of_isLink {x : Node} (h : x.isLink = true) : ∃ target, x = .link target := by
  cases x with
  | link target => exact ⟨target, rfl⟩
  | _ => cases h

/-- Others make no link of a trusted account. -/
theorem Tidy.kept (h : Tidy trusted t) (hmove : Moves trusted t t') : Tidy trusted t' := by
  obtain ⟨u, hu, hact⟩ := hmove
  intro i target hnamed hlink howner
  rcases hact.frame.fresh i hnamed with hold | hnew
  · have hwas : (t.node i).isLink = true := by
      rw [← hact.frame.isLink i hold, hlink]
      rfl
    obtain ⟨before, hbefore⟩ := link_of_isLink hwas
    have hsame := hact.frame.target i before hold hbefore
    rw [hlink] at hsame
    rw [hact.frame.owner i hold] at howner
    exact Node.link.inj hsame ▸ h i before hold hbefore howner
  · exact absurd (hnew ▸ howner) hu

theorem Tidy.later (h : Tidy trusted t) (hlater : ReflTransGen (Moves trusted) t t') :
    Tidy trusted t' := Moves.kept (P := Tidy trusted) (fun _ _ hmove h => h.kept hmove) hlater h

/-! ## Chains -/

namespace Volume

/-- The directory a path has come to: the last inode it passed. -/
def top (t : Volume) (stack : List Ino) : Ino := stack.headD t.root

@[simp] theorem top_nil : t.top [] = t.root := rfl

@[simp] theorem top_cons {i : Ino} {stack : List Ino} : t.top (i :: stack) = i := rfl

theorem top_eq_of_root {stack : List Ino} (h : t'.root = t.root) : t'.top stack = t.top stack := by
  cases stack with
  | nil => exact h
  | cons i stack => rfl

end Volume

/-- These names lead from the root through these inodes, the last one first, and each
of them is guarded. -/
inductive Held (trusted : Nat → Prop) (t : Volume) : List Name → List Ino → Prop where
  | root (hdir : (t.node t.root).isDir = true) (h : Guarded trusted t t.root) : Held trusted t [] []
  | child {names : List Name} {stack : List Ino} {n : Name} {j : Ino}
      (hparent : Held trusted t names stack) (hentry : t.entry (t.top stack) n = some j)
      (h : Guarded trusted t j) : Held trusted t (n :: names) (j :: stack)

namespace Held

variable {names : List Name} {stack : List Ino} {n : Name} {j : Ino}

theorem guarded (h : Held trusted t names stack) : Guarded trusted t (t.top stack) := by
  cases h with
  | root _ h => exact h
  | child _ _ h => exact h

theorem named (h : Held trusted t names stack) : t.Named (t.top stack) := by
  cases h with
  | root _ _ => exact Or.inl rfl
  | child _ hentry _ => exact Or.inr ⟨_, _, hentry⟩

theorem each (h : Held trusted t names stack) :
    ∀ i ∈ t.root :: stack, t.Named i ∧ Guarded trusted t i := by
  induction h with
  | root hdir h => exact List.forall_mem_cons.mpr ⟨⟨Or.inl rfl, h⟩, List.forall_mem_nil _⟩
  | child hparent hentry h ih =>
      rw [List.forall_mem_cons] at ih ⊢
      exact ⟨ih.1, List.forall_mem_cons.mpr ⟨⟨Or.inr ⟨_, _, hentry⟩, h⟩, ih.2⟩⟩

theorem parent (h : Held trusted t names stack) : Held trusted t names.tail stack.tail := by
  cases h with
  | root hdir h => exact .root hdir h
  | child hparent _ _ => exact hparent

theorem to_root (h : Held trusted t names stack) : Held trusted t [] [] := by
  induction h with
  | root hdir h => exact .root hdir h
  | child _ _ _ ih => exact ih

theorem isDir_root (h : Held trusted t [] []) : (t.node t.root).isDir = true := by
  cases h with
  | root hdir h => exact hdir

theorem top_kept (hmove : Moves trusted t t') : t'.top stack = t.top stack := by
  obtain ⟨u, -, hact⟩ := hmove
  exact Volume.top_eq_of_root hact.frame.root

theorem kept (h : Held trusted t names stack) (hmove : Moves trusted t t') :
    Held trusted t' names stack := by
  induction h with
  | root hdir h =>
      obtain ⟨u, hu, hact⟩ := hmove
      have hkept := h.kept (Or.inl rfl) ⟨u, hu, hact⟩
      rw [← hact.frame.root] at hkept
      refine .root ?_ hkept
      rw [hact.frame.root, hact.frame.isDir t.root (Or.inl rfl), hdir]
  | @child names stack n j hparent hentry h ih =>
      have hkept := hparent.guarded.entry_kept hparent.named hentry h.owner hmove
      refine .child ih ?_ (h.kept (Or.inr ⟨_, _, hentry⟩) hmove)
      rw [top_kept hmove]
      exact hkept.1

theorem later (h : Held trusted t names stack) (hlater : ReflTransGen (Moves trusted) t t') :
    Held trusted t' names stack :=
  Moves.kept (P := fun t => Held trusted t names stack) (fun _ _ hmove h => h.kept hmove) hlater h

theorem top_later (hlater : ReflTransGen (Moves trusted) t t') : t'.top stack = t.top stack :=
  Moves.kept (P := fun s => s.top stack = t.top stack)
    (fun _ _ hmove h => (top_kept hmove).trans h) hlater rfl

theorem carry {P : Volume → Prop} (h : Held trusted t names stack) (ht : P t)
    (hstep : ∀ s s' u, ¬trusted u → Frame u s s' → Held trusted s names stack →
      s.top stack = t.top stack → P s → P s')
    (hlater : ReflTransGen (Moves trusted) t t') : P t' := by
  have hall := Moves.kept
    (P := fun s => Held trusted s names stack ∧ s.top stack = t.top stack ∧ P s) (fun s s' hmove hs => by
      obtain ⟨hheld, htop, hP⟩ := hs
      have htop' := (top_kept hmove).trans htop
      obtain ⟨u, hu, hact⟩ := hmove
      exact ⟨hheld.kept ⟨u, hu, hact⟩, htop', hstep s s' u hu hact.frame hheld htop hP⟩)
    hlater ⟨h, rfl, ht⟩
  exact hall.2.2

section Later

variable (h : Held trusted t names stack) (hlater : ReflTransGen (Moves trusted) t t')
include h hlater

theorem attrs_later : ∀ i ∈ t.root :: stack, t'.attrs i = t.attrs i := by
  refine (Moves.kept (P := fun s => s.root = t.root ∧ Held trusted s names stack ∧
    ∀ i ∈ t.root :: stack, s.attrs i = t.attrs i) ?_ hlater ⟨rfl, h, fun _ _ => rfl⟩).2.2
  intro s s' hmove hs
  obtain ⟨hroot, hheld, hsame⟩ := hs
  obtain ⟨u, hu, hact⟩ := hmove
  refine ⟨hact.frame.root.trans hroot, hheld.kept ⟨u, hu, hact⟩, fun i hi => ?_⟩
  obtain ⟨hnamed, hguarded⟩ := hheld.each i (hroot ▸ hi)
  exact (hact.frame.attrs i hnamed (ne_of_trusted hu hguarded.owner)).trans (hsame i hi)

theorem isDir_later : (t'.node (t'.top stack)).isDir = (t.node (t.top stack)).isDir := by
  rw [top_later hlater]
  exact h.carry (P := fun s => (s.node (t.top stack)).isDir = (t.node (t.top stack)).isDir) rfl
    (fun s _ _ _ hframe hs htop hsame =>
      (hframe.isDir _ (htop ▸ hs.named)).trans hsame) hlater

theorem sealed_later (hsealed : Sealed trusted t (t.top stack)) :
    t'.inode (t.top stack) = t.inode (t.top stack) := by
  refine (h.carry (P := fun s => Sealed trusted s (t.top stack) ∧
    s.inode (t.top stack) = t.inode (t.top stack)) ⟨hsealed, rfl⟩ ?_ hlater).2
  intro s s' u hu hframe hs htop hboth
  have hkept := hboth.1.inode_of_frame (htop ▸ hs.named) hu hframe
  exact ⟨sealed_of_inode_eq hkept hboth.1, hkept.trans hboth.2⟩

end Later

end Held

/-- A trusted inode by this name below a chain. -/
structure Below (trusted : Nat → Prop) (t : Volume) (names : List Name) (stack : List Ino) (n : Name)
    (j : Ino) : Prop where
  held : Held trusted t names stack
  entry : t.entry (t.top stack) n = some j
  owner : trusted (t.attrs j).uid

namespace Below

variable {names : List Name} {stack : List Ino} {n : Name} {j : Ino}

theorem named (h : Below trusted t names stack n j) : t.Named j := Or.inr ⟨_, _, h.entry⟩

theorem kept (h : Below trusted t names stack n j) (hmove : Moves trusted t t') :
    Below trusted t' names stack n j := by
  have hentry := h.held.guarded.entry_kept h.held.named h.entry h.owner hmove
  refine ⟨h.held.kept hmove, ?_, hentry.2 ▸ h.owner⟩
  rw [Held.top_kept hmove]
  exact hentry.1

/-- What each call keeps of such an inode. -/
theorem carry {P : Volume → Prop} (h : Below trusted t names stack n j) (ht : P t)
    (hstep : ∀ s s' u, ¬trusted u → Frame u s s' → Below trusted s names stack n j → P s → P s')
    (hlater : ReflTransGen (Moves trusted) t t') : Below trusted t' names stack n j ∧ P t' := by
  refine Moves.kept (P := fun s => Below trusted s names stack n j ∧ P s) ?_ hlater ⟨h, ht⟩
  intro s s' hmove hs
  obtain ⟨u, hu, hact⟩ := hmove
  exact ⟨hs.1.kept ⟨u, hu, hact⟩, hstep s s' u hu hact.frame hs.1 hs.2⟩

section Later

variable (h : Below trusted t names stack n j) (hlater : ReflTransGen (Moves trusted) t t')
include h hlater

theorem later : Below trusted t' names stack n j :=
  (h.carry (P := fun _ => True) trivial (fun _ _ _ _ _ _ _ => trivial) hlater).1

theorem attrs_later : t'.attrs j = t.attrs j :=
  (h.carry (P := fun s => s.attrs j = t.attrs j) rfl
    (fun _ _ _ hu hframe hs hsame =>
      (hframe.attrs j hs.named (ne_of_trusted hu hs.owner)).trans hsame) hlater).2

theorem isLink_later : (t'.node j).isLink = (t.node j).isLink :=
  (h.carry (P := fun s => (s.node j).isLink = (t.node j).isLink) rfl
    (fun _ _ _ _ hframe hs hsame => (hframe.isLink j hs.named).trans hsame) hlater).2

theorem target_later {target : PyStr} (hlink : t.node j = .link target) :
    t'.node j = .link target :=
  (h.carry (P := fun s => s.node j = .link target) hlink
    (fun _ _ _ _ hframe hs hsame => hframe.target j target hs.named hsame) hlater).2

theorem sealed_later (hsealed : Sealed trusted t j) : t'.inode j = t.inode j := by
  refine (h.carry (P := fun s => Sealed trusted s j ∧ s.inode j = t.inode j) ⟨hsealed, rfl⟩ ?_
    hlater).2.2
  intro s s' u hu hframe hs hboth
  have hkept := hboth.1.inode_of_frame hs.named hu hframe
  exact ⟨sealed_of_inode_eq hkept hboth.1, hkept.trans hboth.2⟩

end Later

end Below

end PwshPy.FileTree
