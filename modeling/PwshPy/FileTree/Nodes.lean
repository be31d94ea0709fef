import Mathlib.Logic.Relation
import PwshPy.Text.PyStr

/-! # A file tree with several accounts

Directories, links and files with their owners and permission bits, and what the
calls of an account can do to them. An account is allowed all that its groups or an
access list might grant, so that what no account can do here it cannot do at all.
-/

namespace PwshPy.FileTree

abbrev Ino := Nat

abbrev Name := PyStr

/-- What `lstat` tells of an inode, its type apart. -/
structure Attrs where
  uid : Nat
  gid : Nat
  /-- the permission bits of `st_mode` -/
  mode : Nat
  /-- an access list lets other accounts write -/
  acl : Bool
  deriving DecidableEq

namespace Attrs

def groupWrite (a : Attrs) : Bool := a.mode.testBit 4

def otherWrite (a : Attrs) : Bool := a.mode.testBit 1

def sticky (a : Attrs) : Bool := a.mode.testBit 9

end Attrs

inductive Node where
  | dir (entries : Name → Option Ino)
  | link (target : PyStr)
  | file (data : List UInt8)
  /-- a device, a socket or a pipe -/
  | special

namespace Node

def isDir : Node → Bool
  | dir _ => true
  | _ => false

def isLink : Node → Bool
  | link _ => true
  | _ => false

/-- A directory that was just made is empty. -/
def Bare : Node → Prop
  | dir entries => ∀ n, entries n = none
  | _ => True

end Node

structure Inode where
  attrs : Attrs
  node : Node

structure Volume where
  root : Ino
  inode : Ino → Inode

namespace Volume

variable (t : Volume)

def attrs (i : Ino) : Attrs := (t.inode i).attrs

def node (i : Ino) : Node := (t.inode i).node

def entry (d : Ino) (n : Name) : Option Ino :=
  match t.node d with
  | .dir entries => entries n
  | _ => none

def setInode (i : Ino) (x : Inode) : Volume :=
  { t with inode := fun j => if j = i then x else t.inode j }

def setNode (i : Ino) (x : Node) : Volume := t.setInode i ⟨t.attrs i, x⟩

/-- One name of a directory. -/
def setEntry (d : Ino) (n : Name) (child : Option Ino) : Volume :=
  match t.node d with
  | .dir entries => t.setNode d (.dir fun m => if m = n then child else entries m)
  | _ => t

/-- Some path leads to it. -/
def Named (i : Ino) : Prop := i = t.root ∨ ∃ d n, t.entry d n = some i

theorem entry_of_dir {d : Ino} {entries : Name → Option Ino} (h : t.node d = .dir entries) (n : Name) :
    t.entry d n = entries n := by
  rw [entry, h]

theorem dir_of_entry {d j : Ino} {n : Name} (h : t.entry d n = some j) :
    ∃ entries, t.node d = .dir entries ∧ entries n = some j := by
  unfold entry at h
  split at h
  · rename_i entries hnode
    exact ⟨entries, hnode, h⟩
  · cases h

theorem dir_of_isDir {d : Ino} (h : (t.node d).isDir = true) : ∃ entries, t.node d = .dir entries := by
  cases hnode : t.node d with
  | dir entries => exact ⟨entries, rfl⟩
  | _ =>
      rw [hnode] at h
      cases h

section Set

variable {t} {t' : Volume} {i j d : Ino} {n m : Name} {x : Inode} {child : Option Ino}

@[simp] theorem setInode_root : (t.setInode i x).root = t.root := rfl

@[simp] theorem setInode_self : (t.setInode i x).inode i = x := if_pos rfl

theorem setInode_of_ne (h : j ≠ i) : (t.setInode i x).inode j = t.inode j :=
  if_neg h

theorem node_setInode_of_ne (h : j ≠ i) : (t.setInode i x).node j = t.node j :=
  congrArg Inode.node (setInode_of_ne h)

theorem attrs_setInode_of_ne (h : j ≠ i) : (t.setInode i x).attrs j = t.attrs j :=
  congrArg Inode.attrs (setInode_of_ne h)

/-- An inode that keeps its node, or stays a file, keeps all names. -/
theorem node_setInode (hnode : x.node = t.node i) : (t.setInode i x).node j = t.node j := by
  by_cases h : j = i
  · subst h
    rw [node, setInode_self, hnode]
  · exact node_setInode_of_ne h

@[simp] theorem setEntry_root : (t.setEntry d n child).root = t.root := by
  unfold setEntry
  split
  · rfl
  · rfl

@[simp] theorem attrs_setEntry : (t.setEntry d n child).attrs i = t.attrs i := by
  unfold setEntry
  split
  · by_cases h : i = d
    · subst h
      rw [attrs, setNode, setInode_self]
    · rw [attrs, setNode, setInode_of_ne h, attrs]
  · rfl

theorem node_setEntry_of_ne (h : i ≠ d) : (t.setEntry d n child).node i = t.node i := by
  unfold setEntry
  split
  · rw [node, setNode, setInode_of_ne h, node]
  · rfl

theorem node_setEntry_of_not_dir (h : (t.node i).isDir = false) :
    (t.setEntry d n child).node i = t.node i := by
  by_cases hd : i = d
  · subst hd
    unfold setEntry
    split
    · rename_i entries hnode
      rw [hnode] at h
      cases h
    · rfl
  · exact node_setEntry_of_ne hd

theorem isDir_setEntry : ((t.setEntry d n child).node i).isDir = (t.node i).isDir := by
  by_cases h : i = d
  · subst h
    unfold setEntry
    split
    · rename_i entries hnode
      rw [node, setNode, setInode_self, hnode]
      rfl
    · rfl
  · rw [node_setEntry_of_ne h]

theorem isLink_setEntry : ((t.setEntry d n child).node i).isLink = (t.node i).isLink := by
  by_cases h : i = d
  · subst h
    unfold setEntry
    split
    · rename_i entries hnode
      rw [node, setNode, setInode_self, hnode]
      rfl
    · rfl
  · rw [node_setEntry_of_ne h]

theorem entry_setEntry_of_ne (h : ¬(i = d ∧ m = n)) :
    (t.setEntry d n child).entry i m = t.entry i m := by
  by_cases hd : i = d
  · subst hd
    have hm : m ≠ n := fun hm => h ⟨rfl, hm⟩
    unfold setEntry
    split
    · rename_i entries hnode
      rw [entry, node, setNode, setInode_self, entry, hnode]
      exact if_neg hm
    · rfl
  · rw [entry, node_setEntry_of_ne hd, entry]

theorem named_setEntry (h : (t.setEntry d n child).Named i) : t.Named i ∨ child = some i := by
  rcases h with hroot | ⟨e, m, hentry⟩
  · exact Or.inl (Or.inl (hroot.trans setEntry_root))
  · by_cases hsame : e = d ∧ m = n
    · obtain ⟨rfl, rfl⟩ := hsame
      unfold setEntry at hentry
      split at hentry
      · refine Or.inr ?_
        rw [entry, node, setNode, setInode_self] at hentry
        exact (if_pos rfl).symm.trans hentry
      · exact Or.inl (Or.inr ⟨_, _, hentry⟩)
    · rw [entry_setEntry_of_ne hsame] at hentry
      exact Or.inl (Or.inr ⟨_, _, hentry⟩)

/-- A new inode names none. -/
theorem named_setInode (hbare : x.node.Bare) (h : (t.setInode j x).Named i) : t.Named i := by
  rcases h with hroot | ⟨e, m, hentry⟩
  · exact Or.inl hroot
  · by_cases he : e = j
    · subst he
      rw [entry, node, setInode_self] at hentry
      cases hx : x.node with
      | dir entries =>
          rw [hx] at hentry hbare
          cases (hbare m).symm.trans hentry
      | _ =>
          rw [hx] at hentry
          cases hentry
    · rw [entry, node_setInode_of_ne he] at hentry
      exact Or.inr ⟨_, _, hentry⟩

/-- A node that is replaced by one with the same names. -/
theorem named_of_entry (h : t'.Named i) (hentry : ∀ d n, t'.entry d n = t.entry d n)
    (hroot : t'.root = t.root) : t.Named i := by
  rcases h with hi | ⟨d, n, hi⟩
  · exact Or.inl (hi.trans hroot)
  · exact Or.inr ⟨d, n, (hentry d n).symm.trans hi⟩

end Set

/-! ## What an account may do -/

section May

variable (u : Nat)

def MayWrite (i : Ino) : Prop :=
  (t.attrs i).uid = u ∨ (t.attrs i).groupWrite = true ∨ (t.attrs i).otherWrite = true ∨
    (t.attrs i).acl = true

/-- Whether the account may take a name away: in a sticky directory only what is its own. -/
def MayRemove (d : Ino) (n : Name) : Prop :=
  t.MayWrite u d ∧ ((t.attrs d).sticky = true →
    (t.attrs d).uid = u ∨ ∀ j, t.entry d n = some j → (t.attrs j).uid = u)

end May

end Volume

/-- One call of an account. -/
inductive Act (u : Nat) : Volume → Volume → Prop where
  /-- `chmod`, `chgrp`, `setfacl` -/
  | change {t : Volume} {i : Ino} {a : Attrs} (howner : (t.attrs i).uid = u) (hkept : a.uid = u) :
      Act u t (t.setInode i ⟨a, t.node i⟩)
  | write {t : Volume} {i : Ino} {old new : List UInt8} (hfile : t.node i = .file old)
      (hmay : t.MayWrite u i) : Act u t (t.setNode i (.file new))
  /-- `open`, `mkdir`, `symlink`, `mknod` -/
  | create {t : Volume} {d j : Ino} {n : Name} {x : Inode} (hmay : t.MayWrite u d)
      (hfree : t.entry d n = none) (hfresh : ¬t.Named j) (howner : x.attrs.uid = u)
      (hbare : x.node.Bare) : Act u t ((t.setInode j x).setEntry d n (some j))
  | link {t : Volume} {d j : Ino} {n : Name} (hmay : t.MayWrite u d) (hfree : t.entry d n = none)
      (hnamed : t.Named j) (hdir : (t.node j).isDir = false) : Act u t (t.setEntry d n (some j))
  /-- `unlink`, `rmdir` -/
  | remove {t : Volume} {d : Ino} {n : Name} (hmay : t.MayRemove u d n) :
      Act u t (t.setEntry d n none)
  | rename {t : Volume} {d d' j : Ino} {n n' : Name} (hentry : t.entry d n = some j)
      (hmay : t.MayRemove u d n) (hmay' : t.MayRemove u d' n') :
      Act u t ((t.setEntry d n none).setEntry d' n' (some j))

/-! ## What a call leaves alone -/

/-- What no call of the account changes. -/
structure Frame (u : Nat) (t t' : Volume) : Prop where
  root : t'.root = t.root
  owner : ∀ i, t.Named i → (t'.attrs i).uid = (t.attrs i).uid
  attrs : ∀ i, t.Named i → (t.attrs i).uid ≠ u → t'.attrs i = t.attrs i
  node : ∀ i, t.Named i → ¬t.MayWrite u i → t'.node i = t.node i
  isLink : ∀ i, t.Named i → (t'.node i).isLink = (t.node i).isLink
  isDir : ∀ i, t.Named i → (t'.node i).isDir = (t.node i).isDir
  target : ∀ i target, t.Named i → t.node i = .link target → t'.node i = .link target
  entry : ∀ d n j, t.Named d → t.entry d n = some j → ¬t.MayRemove u d n → t'.entry d n = some j
  /-- what is new belongs to the account -/
  fresh : ∀ i, t'.Named i → t.Named i ∨ (t'.attrs i).uid = u

namespace Frame

variable {u : Nat} {t t' : Volume} {i j d d' : Ino} {n n' : Name} {child : Option Ino}

/-- A name that is free, or that the account may take away. -/
theorem setEntry (hmay : t.MayWrite u d) (hgone : ∀ j, t.entry d n = some j → t.MayRemove u d n)
    (hchild : ∀ j, child = some j → t.Named j) : Frame u t (t.setEntry d n child) where
  root := Volume.setEntry_root
  owner := fun _ _ => congrArg Attrs.uid Volume.attrs_setEntry
  attrs := fun _ _ _ => Volume.attrs_setEntry
  node := fun i _ hnot => Volume.node_setEntry_of_ne fun h => hnot (h ▸ hmay)
  isLink := fun _ _ => Volume.isLink_setEntry
  isDir := fun _ _ => Volume.isDir_setEntry
  target := by
    intro i target _ hlink
    rw [Volume.node_setEntry_of_not_dir (by rw [hlink]; rfl), hlink]
  entry := by
    intro d' n' j _ hentry hnot
    rw [Volume.entry_setEntry_of_ne, hentry]
    intro h
    obtain ⟨rfl, rfl⟩ := h
    exact hnot (hgone j hentry)
  fresh := fun i hi => Or.inl ((Volume.named_setEntry hi).elim id (hchild i))

/-- `chmod`, `chgrp`, `setfacl` -/
theorem change {a : Attrs} (howner : (t.attrs i).uid = u) (hkept : a.uid = u) :
    Frame u t (t.setInode i ⟨a, t.node i⟩) := by
  have hnode : ∀ j, (t.setInode i ⟨a, t.node i⟩).node j = t.node j := fun j =>
    Volume.node_setInode rfl
  constructor
  case root => rfl
  case owner =>
    intro j _
    by_cases hj : j = i
    · subst hj
      rw [Volume.attrs, Volume.setInode_self, hkept, howner]
    · rw [Volume.attrs_setInode_of_ne hj]
  case attrs =>
    intro j _ hother
    exact Volume.attrs_setInode_of_ne fun hj => hother (hj ▸ howner)
  case node => exact fun j _ _ => hnode j
  case isLink => exact fun j _ => congrArg Node.isLink (hnode j)
  case isDir => exact fun j _ => congrArg Node.isDir (hnode j)
  case target => exact fun j target _ hlink => (hnode j).trans hlink
  case entry =>
    intro d n j _ hentry _
    rw [Volume.entry, hnode, ← Volume.entry, hentry]
  case fresh =>
    refine fun j hj => Or.inl (Volume.named_of_entry hj (fun d n => ?_) rfl)
    rw [Volume.entry, hnode, ← Volume.entry]

theorem write {old new : List UInt8} (hfile : t.node i = .file old) (hmay : t.MayWrite u i) :
    Frame u t (t.setNode i (.file new)) := by
  have hself : (t.setNode i (.file new)).node i = .file new := by
    rw [Volume.node, Volume.setNode, Volume.setInode_self]
  have hother : ∀ j, j ≠ i → (t.setNode i (.file new)).node j = t.node j := fun j hj =>
    Volume.node_setInode_of_ne hj
  have hkind : ∀ {β : Type} (f : Node → β), f (.file new) = f (.file old) →
      ∀ j, f ((t.setNode i (.file new)).node j) = f (t.node j) := by
    intro β f hf j
    by_cases hj : j = i
    · subst hj
      rw [hself, hfile, hf]
    · rw [hother j hj]
  have hattrs : ∀ j, (t.setNode i (.file new)).attrs j = t.attrs j := by
    intro j
    by_cases hj : j = i
    · subst hj
      rw [Volume.attrs, Volume.setNode, Volume.setInode_self]
    · exact Volume.attrs_setInode_of_ne hj
  constructor
  case root => rfl
  case owner => exact fun j _ => congrArg Attrs.uid (hattrs j)
  case attrs => exact fun j _ _ => hattrs j
  case node => exact fun j _ hnot => hother j fun hj => hnot (hj ▸ hmay)
  case isLink => exact fun j _ => hkind Node.isLink rfl j
  case isDir => exact fun j _ => hkind Node.isDir rfl j
  case target =>
    intro j target _ hlink
    have hj : j ≠ i := by
      intro hj
      rw [hj, hfile] at hlink
      cases hlink
    rw [hother j hj, hlink]
  case entry =>
    intro d n j _ hentry _
    have hd : d ≠ i := by
      intro hd
      rw [hd, Volume.entry, hfile] at hentry
      cases hentry
    rw [Volume.entry, hother d hd, ← Volume.entry, hentry]
  case fresh =>
    refine fun j hj => Or.inl (Volume.named_of_entry hj (fun d n => ?_) rfl)
    by_cases hd : d = i
    · subst hd
      rw [Volume.entry, hself, Volume.entry, hfile]
    · rw [Volume.entry, hother d hd, ← Volume.entry]

/-- A new inode under a name that is free. -/
theorem create {x : Inode} (hmay : t.MayWrite u d) (hfree : t.entry d n = none) (hfresh : ¬t.Named j)
    (howner : x.attrs.uid = u) (hbare : x.node.Bare) :
    Frame u t ((t.setInode j x).setEntry d n (some j)) := by
  have hold : ∀ i, t.Named i → i ≠ j := fun i hi hj => hfresh (hj ▸ hi)
  have hnode : ∀ i, t.Named i → i ≠ d →
      ((t.setInode j x).setEntry d n (some j)).node i = t.node i := by
    intro i hi hd
    rw [Volume.node_setEntry_of_ne hd, Volume.node_setInode_of_ne (hold i hi)]
  constructor
  case root => rw [Volume.setEntry_root, Volume.setInode_root]
  case owner =>
    intro i hi
    rw [Volume.attrs_setEntry, Volume.attrs_setInode_of_ne (hold i hi)]
  case attrs =>
    intro i hi _
    rw [Volume.attrs_setEntry, Volume.attrs_setInode_of_ne (hold i hi)]
  case node => exact fun i hi hnot => hnode i hi fun hd => hnot (hd ▸ hmay)
  case isLink =>
    intro i hi
    rw [Volume.isLink_setEntry, Volume.node_setInode_of_ne (hold i hi)]
  case isDir =>
    intro i hi
    rw [Volume.isDir_setEntry, Volume.node_setInode_of_ne (hold i hi)]
  case target =>
    intro i target hi hlink
    have hdir : ((t.setInode j x).node i).isDir = false := by
      rw [Volume.node_setInode_of_ne (hold i hi), hlink]
      rfl
    rw [Volume.node_setEntry_of_not_dir hdir, Volume.node_setInode_of_ne (hold i hi), hlink]
  case entry =>
    intro d' n' k hd' hentry _
    rw [Volume.entry_setEntry_of_ne]
    · rw [Volume.entry, Volume.node_setInode_of_ne (hold d' hd'), ← Volume.entry, hentry]
    · intro hsame
      rw [hsame.1, hsame.2, hfree] at hentry
      cases hentry
  case fresh =>
    intro i hi
    rcases Volume.named_setEntry hi with hi | hi
    · exact Or.inl (Volume.named_setInode hbare hi)
    · obtain rfl := Option.some.inj hi
      refine Or.inr ?_
      rw [Volume.attrs_setEntry, Volume.attrs, Volume.setInode_self, howner]

theorem rename (hentry : t.entry d n = some j) (hmay : t.MayRemove u d n)
    (hmay' : t.MayRemove u d' n') :
    Frame u t ((t.setEntry d n none).setEntry d' n' (some j)) := by
  constructor
  case root => rw [Volume.setEntry_root, Volume.setEntry_root]
  case owner => exact fun i _ => by rw [Volume.attrs_setEntry, Volume.attrs_setEntry]
  case attrs => exact fun i _ _ => by rw [Volume.attrs_setEntry, Volume.attrs_setEntry]
  case node =>
    intro i _ hnot
    have hd : i ≠ d := fun hd => hnot (hd ▸ hmay.1)
    have hd' : i ≠ d' := fun hd' => hnot (hd' ▸ hmay'.1)
    rw [Volume.node_setEntry_of_ne hd', Volume.node_setEntry_of_ne hd]
  case isLink => exact fun i _ => by rw [Volume.isLink_setEntry, Volume.isLink_setEntry]
  case isDir => exact fun i _ => by rw [Volume.isDir_setEntry, Volume.isDir_setEntry]
  case target =>
    intro i target _ hlink
    have hdir : (t.node i).isDir = false := by
      rw [hlink]
      rfl
    rw [Volume.node_setEntry_of_not_dir, Volume.node_setEntry_of_not_dir hdir, hlink]
    rw [Volume.isDir_setEntry, hdir]
  case entry =>
    intro e m k _ hkept hnot
    rw [Volume.entry_setEntry_of_ne, Volume.entry_setEntry_of_ne, hkept]
    · intro hsame
      exact hnot (hsame.1 ▸ hsame.2 ▸ hmay)
    · intro hsame
      exact hnot (hsame.1 ▸ hsame.2 ▸ hmay')
  case fresh =>
    intro i hi
    rcases Volume.named_setEntry hi with hi | hi
    · rcases Volume.named_setEntry hi with hi | hi
      · exact Or.inl hi
      · cases hi
    · exact Or.inl (Or.inr ⟨d, n, hentry.trans hi⟩)

end Frame

theorem Act.frame {u : Nat} {t t' : Volume} (h : Act u t t') : Frame u t t' := by
  cases h with
  | change howner hkept => exact Frame.change howner hkept
  | write hfile hmay => exact Frame.write hfile hmay
  | create hmay hfree hfresh howner hbare => exact Frame.create hmay hfree hfresh howner hbare
  | link hmay hfree hnamed hdir =>
      refine Frame.setEntry hmay (fun k hk => ?_) fun k hk => Option.some.inj hk ▸ hnamed
      rw [hfree] at hk
      cases hk
  | remove hmay =>
      exact Frame.setEntry hmay.1 (fun _ _ => hmay) fun _ hk => absurd hk (Option.some_ne_none _).symm
  | rename hentry hmay hmay' => exact Frame.rename hentry hmay hmay'

end PwshPy.FileTree
