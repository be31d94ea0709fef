import Mathlib.Data.List.Infix
import PwshPy.Effects.Amid
import PwshPy.FileTree.Resolve
import PwshPy.Shell.Fields

/-! # What a root run asks about a path

The runner reads a listing of `ls` and judges by it who could write the path. Other
accounts may act between any two of its questions.
-/

namespace PwshPy.Trust

open Effects (Asking)
open Effects.Asking (question)
open FileTree (Volume Ino Attrs Inode SLASH)
open Shell (captured)

/-! ## The questions -/

/-- The words of the first line of `ls -ldn` that are read. -/
structure Listing where
  mode : PyStr
  uid : PyStr
  gid : PyStr

inductive Query where
  /-- `[ -L path ]` -/
  | islink (path : PyStr)
  /-- `ls -ldn path`, none where it fails -/
  | ls (path : PyStr)
  /-- whether `ls -lde path` prints a second line -/
  | acl_lines (path : PyStr)
  /-- `readlink path` with all it prints, none where it fails -/
  | readlink (path : PyStr)
  /-- `[ -x path ]` -/
  | executable (path : PyStr)
  /-- `[ -f path ]` -/
  | isfile (path : PyStr)
  /-- what `command -v name` prints, none where it fails -/
  | command (name : PyStr)
  /-- a line on stderr -/
  | stderr (line : PyStr)

namespace Query

abbrev Reply : Query → Type
  | islink _ => Bool
  | ls _ => Option Listing
  | acl_lines _ => Bool
  | readlink _ => Option PyStr
  | executable _ => Bool
  | isfile _ => Bool
  | command _ => Option PyStr
  | stderr _ => Unit

end Query

/-- A function of the runner, with the text it prints. -/
abbrev Sh (α : Type) := Asking Query Query.Reply Empty α

/-! ## The listing -/

/-- The accounts trusted to own what root runs. -/
def PWSHPY_TRUSTED_UIDS : PyStr := py "0"

def pwshpy_stat (path : PyStr) : Sh (Option Listing) := question (Query.ls path)

/-- Whether the path the listing is of carries an ACL. -/
def pwshpy_has_acl (path : PyStr) (st : Listing) : Sh Bool :=
  match (st.mode)[10]? with
  | some 0x2b => pure true
  | some 0x40 => question (Query.acl_lines path)
  | _ => pure false

/-- `case " $PWSHPY_TRUSTED_UIDS " in *" $1 "*)` -/
def pwshpy_trusted_uid (uid : PyStr) : Bool :=
  decide ((0x20 :: (uid ++ [0x20])) <:+: (0x20 :: (PWSHPY_TRUSTED_UIDS ++ [0x20])))

/-- `????????w*` -/
def other_writes (st : Listing) : Bool := (st.mode)[8]? == some 0x77

/-- `?????w*` -/
def group_writes (st : Listing) : Bool := (st.mode)[5]? == some 0x77

/-- `?????????[tT]*` -/
def is_sticky (st : Listing) : Bool := (st.mode)[9]? == some 0x74 || (st.mode)[9]? == some 0x54

def not_root (path : PyStr) (st : Listing) : PyStr :=
  path ++ py " is owned by uid " ++ st.uid ++ py ", not root"

/-- Why the program, or the directory that holds it, may not be what root runs. -/
def pwshpy_leaf_distrust (path : PyStr) : Sh PyStr :=
  pwshpy_stat path >>= fun
    | none => pure (path ++ py " cannot be inspected")
    | some st =>
        pwshpy_has_acl path st >>= fun acl =>
          if acl then pure (path ++ py " carries an ACL")
          else if other_writes st then pure (path ++ py " is writable by every account")
          else if group_writes st then pure (path ++ py " is writable by group " ++ st.gid)
          else if !pwshpy_trusted_uid st.uid then pure (not_root path st)
          else pure []

/-- Why a directory above it lets another account swap what lies below. -/
def pwshpy_ancestor_distrust (path : PyStr) : Sh PyStr :=
  pwshpy_stat path >>= fun
    | none => pure (path ++ py " cannot be inspected")
    | some st =>
        pwshpy_has_acl path st >>= fun acl =>
          if acl then pure (path ++ py " carries an ACL")
          else if !pwshpy_trusted_uid st.uid then pure (not_root path st)
          else if is_sticky st then pure []
          else if other_writes st then pure (path ++ py " is writable by every account and not sticky")
          else if group_writes st then
            pure (path ++ py " is writable by group " ++ st.gid ++ py " and not sticky")
          else pure []

/-! ## The file tree that answers -/

/-- The tools of a host: how `ls` marks an inode behind the permissions, whether its
`-e` prints a line about it, and what a shell finds on its `PATH`. -/
structure Tools where
  mark : Ino → Attrs → PyStr
  acl_lines : Ino → Attrs → Bool
  command : Volume → PyStr → Option PyStr

/-- An ACL that lets another account write is marked, or shows as group write. -/
def Tools.Shows (tools : Tools) : Prop :=
  ∀ i a, a.acl = true → (tools.mark i a).head? = some 0x2b ∨
    ((tools.mark i a).head? = some 0x40 ∧ tools.acl_lines i a = true) ∨ a.groupWrite = true

def letter (b : Bool) (c : Nat) : Nat := if b then c else 0x2d

/-- The place of an execute bit, which a special bit shares. -/
def exec_letter (exec special : Bool) (lower upper : Nat) : Nat :=
  if special then (if exec then lower else upper) else letter exec 0x78

/-- The nine characters of the permissions. -/
def permissions (mode : Nat) : PyStr :=
  [letter (mode.testBit 8) 0x72, letter (mode.testBit 7) 0x77,
    exec_letter (mode.testBit 6) (mode.testBit 11) 0x73 0x53,
    letter (mode.testBit 5) 0x72, letter (mode.testBit 4) 0x77,
    exec_letter (mode.testBit 3) (mode.testBit 10) 0x73 0x53,
    letter (mode.testBit 2) 0x72, letter (mode.testBit 1) 0x77,
    exec_letter (mode.testBit 0) (mode.testBit 9) 0x74 0x54]

/-- A link shows every permission, whatever its mode. -/
def mode_text (tools : Tools) (i : Ino) (x : Inode) : PyStr :=
  match x.node with
  | .link _ => py "lrwxrwxrwx"
  | .dir _ => 0x64 :: (permissions x.attrs.mode ++ tools.mark i x.attrs)
  | .file _ => 0x2d :: (permissions x.attrs.mode ++ tools.mark i x.attrs)
  | .special => 0x70 :: (permissions x.attrs.mode ++ tools.mark i x.attrs)

def listing (tools : Tools) (t : Volume) (i : Ino) : Listing where
  mode := mode_text tools i (t.inode i)
  uid := decimal (t.attrs i).uid
  gid := decimal (t.attrs i).gid

/-- Root executes a file that anyone may execute. -/
def may_execute (t : Volume) (i : Ino) : Bool :=
  (t.node i).isDir || (t.attrs i).mode.testBit 6 || (t.attrs i).mode.testBit 3 ||
    (t.attrs i).mode.testBit 0

def is_regular (t : Volume) (i : Ino) : Bool :=
  match t.node i with
  | .file _ => true
  | _ => false

def link_target (t : Volume) (i : Ino) : Option PyStr :=
  match t.node i with
  | .link target => some target
  | _ => none

/-- The reply of a file tree. -/
def answer (tools : Tools) (t : Volume) : ∀ q : Query, q.Reply
  | .islink path => (t.resolve false path).any fun i => (t.node i).isLink
  | .ls path => (t.resolve false path).map (listing tools t)
  | .acl_lines path => (t.resolve false path).any fun i => tools.acl_lines i (t.attrs i)
  | .readlink path => ((t.resolve false path).bind (link_target t)).map (· ++ [LF])
  | .executable path => (t.resolve true path).any (may_execute t)
  | .isfile path => (t.resolve true path).any (is_regular t)
  | .command name => tools.command t name
  | .stderr _ => ()

end PwshPy.Trust
