import PwshPy.Packing.Closure
import PwshPy.Packing.Runner
import PwshPy.Effects.Interleaving
import PwshPy.Storage.Directory

/-! # Unpacking a pack

The unpack section of the two runner templates, one file operation a step. Any
number of runners of one pack take their steps against one cache directory and
one lock; each can die before every step. A packed file is one name in the
directory: the directories on the way to it, which come and go with it, are left
out. A file that is there can be read.
-/

namespace PwshPy.Unpack

open Packing (Bytes RunnerFormat)
open Storage (Directory)

structure Member where
  name : PyStr
  body : Bytes
  deriving DecidableEq

/-- What the packer wrote into a runner. -/
structure Pack where
  format : RunnerFormat
  /-- in the order of the archive, which is the order of the recorded hashes -/
  members : List Member
  /-- what the embedded base64 decodes to -/
  payload : Bytes
  payload_sha256 : PyStr

/-- A file system as it names files: two paths it takes for the same one have
the same name. -/
abbrev Naming := PyStr → PyStr

/-- The tools a runner uses, its file system and its cache directory. -/
structure Host where
  sha256 : Bytes → PyStr
  /-- the members the archive tool finds in an archive, in its order -/
  unarchived : Bytes → List Member
  cache : PyStr
  /-- whether the hash tool marks a line whose file name it had to escape, as GNU `sha256sum` does -/
  escapes : Bool
  /-- whether PowerShell writes paths with a slash -/
  posix : Bool
  /-- the file system's name for the file at a path -/
  naming : Naming

/-- The characters of a file name GNU `sha256sum` escapes. -/
def isEscaped (c : Nat) : Bool := c == 0x5c || c == LF || c == 0x0d

/-- `Char.IsWhiteSpace` -/
def isWhiteSpace (c : Nat) : Bool := isSpace c && !(0x1c ≤ c && c ≤ 0x1f)

/-- The name of the archive while it is unpacked. -/
def archive_name : RunnerFormat → PyStr
  | .sh => py ".payload.tar"
  | .ps1 => py ".payload.zip"

/-- `pwshpy_sha256_of`: the first field of the line the hash tool prints. -/
def Host.sha256_of (host : Host) (path : PyStr) (b : Bytes) : PyStr :=
  if host.escapes && path.any isEscaped then 0x5c :: host.sha256 b else host.sha256 b

/-- A file of the cache directory. -/
def Host.path (host : Host) (name : PyStr) : PyStr := host.cache ++ 0x2f :: name

/-- The path a provider writes with its own separator. -/
def normalize_path (posix : Bool) (path : PyStr) : PyStr :=
  path.map fun c => if c = 0x2f ∨ c = 0x5c then (if posix then 0x2f else 0x5c) else c

/-- `Join-Path` -/
def join_path (posix : Bool) (root child : PyStr) : PyStr :=
  let sep := if posix then 0x2f else 0x5c
  let parent := normalize_path posix root
  let child := normalize_path posix child
  if parent.getLast? = some sep then
    parent ++ (if child.head? = some sep then child.tail else child)
  else if child.head? = some sep then parent ++ child
  else parent ++ sep :: child

/-- The path `Test-PwshPyTree` looks at for a packed file: the line it reads the name from is trimmed. -/
def Host.checked_path (host : Host) (name : PyStr) : PyStr :=
  join_path host.posix host.cache (name.rdropWhile isWhiteSpace)

/-! ## The cache -/

/-- The lock file, or the exclusive handle on it: free, left behind by a runner that is no
more, or taken by a runner and not released since. -/
inductive Lock (ι : Type) where
  | free
  | stale
  | held (i : ι)
  deriving DecidableEq

structure Cache (ι : Type) where
  /-- whether the cache directory exists -/
  present : Bool
  tree : Directory PyStr UInt8
  lock : Lock ι
  absent : present = false → tree.links = []

namespace Cache

variable {ι : Type} (c : Cache ι)

def unlink (name : PyStr) : Cache ι :=
  { c with
    tree := c.tree.unlink name
    absent := fun h => by simp [Directory.unlink, c.absent h] }

def rmdir (empty : c.tree.links = []) : Cache ι :=
  { c with
    present := false
    absent := fun _ => empty }

def mkdir : Cache ι :=
  { c with
    present := true
    absent := fun h => by cases h }

def create (name : PyStr) (h : c.present = true) : Cache ι :=
  { c with
    tree := c.tree.create name
    absent := fun h' => by rw [h] at h'; cases h' }

def append (ino : Nat) (bytes : Bytes) : Cache ι :=
  { c with
    tree := c.tree.append ino bytes
    absent := c.absent }

def setLock (lock : Lock ι) : Cache ι := { c with lock := lock }

@[simp] theorem tree_setLock (lock : Lock ι) : (c.setLock lock).tree = c.tree := rfl
@[simp] theorem present_setLock (lock : Lock ι) : (c.setLock lock).present = c.present := rfl
@[simp] theorem lock_setLock (lock : Lock ι) : (c.setLock lock).lock = lock := rfl
@[simp] theorem tree_unlink (name : PyStr) : (c.unlink name).tree = c.tree.unlink name := rfl
@[simp] theorem lock_unlink (name : PyStr) : (c.unlink name).lock = c.lock := rfl
@[simp] theorem tree_rmdir (h : c.tree.links = []) : (c.rmdir h).tree = c.tree := rfl
@[simp] theorem lock_rmdir (h : c.tree.links = []) : (c.rmdir h).lock = c.lock := rfl
@[simp] theorem tree_mkdir : c.mkdir.tree = c.tree := rfl
@[simp] theorem lock_mkdir : c.mkdir.lock = c.lock := rfl
@[simp] theorem tree_create (name : PyStr) (h : c.present = true) :
    (c.create name h).tree = c.tree.create name := rfl
@[simp] theorem lock_create (name : PyStr) (h : c.present = true) :
    (c.create name h).lock = c.lock := rfl
@[simp] theorem tree_append (ino : Nat) (bytes : Bytes) :
    (c.append ino bytes).tree = c.tree.append ino bytes := rfl
@[simp] theorem lock_append (ino : Nat) (bytes : Bytes) : (c.append ino bytes).lock = c.lock := rfl

end Cache

/-! ## Places -/

/-- How far `pwshpy_verify_tree` or `Test-PwshPyTree` is; the members listed are still to check. -/
inductive Verify where
  /-- at `[ -d "$PWSHPY_CACHE" ]` -/
  | entering
  /-- at `[ -f "$_target" ]` of the first -/
  | testing (rest : List Member)
  /-- the hash tool opens the file -/
  | opening (m : Member) (rest : List Member)
  /-- the hash tool reads the file it opened -/
  | reading (m : Member) (ino : Nat) (rest : List Member)
  deriving DecidableEq

/-- How far `pwshpy_extract` or `Expand-PwshPyPayload` is. -/
inductive Extract where
  /-- `rm -rf "$PWSHPY_CACHE"` -/
  | remove
  | mkdir
  /-- the archive file is created -/
  | decode
  /-- the archive is written to the file opened for it -/
  | fill (ino : Nat)
  /-- the written archive is hashed -/
  | check
  /-- `rm -f "$_archive"` before `pwshpy_die` -/
  | reject
  /-- the archive tool opens the archive -/
  | opening
  /-- the archive tool is between two members -/
  | unpack (done rest : List Member)
  /-- the archive tool writes a member to the file it created for it -/
  | write (done : List Member) (m : Member) (ino : Nat) (rest : List Member)
  /-- `rm -f "$_archive"` -/
  | drop
  deriving DecidableEq

inductive Place where
  /-- at the removal the clean switch asks for -/
  | clean
  /-- in that removal -/
  | cleaning
  /-- in the check every run starts with -/
  | warm (v : Verify)
  /-- at the lock -/
  | acquire (attempt : Nat)
  /-- the lock is taken, the trap that removes it not set yet -/
  | taken
  /-- in the check under the lock -/
  | held (v : Verify)
  | extract (e : Extract)
  /-- in the check of what was extracted -/
  | recheck (v : Verify)
  /-- at the release of the lock, with the verdict of the last check -/
  | release (verified : Bool)
  /-- the lock file is removed, the trap still set -/
  | released (verified : Bool)
  /-- in the check of a runner that found the lock taken -/
  | waiting (attempt : Nat) (v : Verify)
  | sleeping (attempt : Nat)
  /-- the tree is verified, the script not started -/
  | verified
  | running
  /-- on the way out through the EXIT trap, or the `finally` block -/
  | leaving
  /-- ended: the unpacked payload does not match its recorded hashes -/
  | mismatch
  /-- ended any other way -/
  | ended
  deriving DecidableEq

/-- What a runner does next: the next thing in its program, one more removal or some more
bytes of a longer operation, the way out with an error, or dying on the spot. -/
inductive Choice where
  | go
  | unlink (name : PyStr)
  | bytes (n : Nat)
  | leave
  | die
  deriving DecidableEq

/-! ## The program -/

variable (host : Host) (pack : Pack) {ι : Type} [DecidableEq ι]

/-- The file the check looks at for a listed name: that of the `.ps1` is what the file system has
for the path it builds. -/
def target (name : PyStr) : PyStr :=
  match pack.format with
  | .sh => name
  | .ps1 => host.naming (host.checked_path name)

/-- What the check compares with the recorded hash. -/
def digest_of (name : PyStr) (b : Bytes) : PyStr :=
  match pack.format with
  | .sh => host.sha256_of (host.path name) b
  | .ps1 => host.sha256 b

/-- The `hashlib.sha256(body).hexdigest()` the packer recorded. -/
def recorded (m : Member) : PyStr := host.sha256 m.body

inductive Checked where
  | passed
  | failed
  | onTo (v : Verify)

/-- One operation of a check. -/
def verify_step (c : Cache ι) : Verify → Checked
  | .entering => if pack.format = .sh ∧ c.present = false then .failed else .onTo (.testing pack.members)
  | .testing [] => .passed
  | .testing (m :: rest) =>
    match c.tree.entry (target host pack m.name) with
    | none => .failed
    | some _ => .onTo (.opening m rest)
  | .opening m rest =>
    match c.tree.entry (target host pack m.name) with
    | none => .failed
    | some ino => .onTo (.reading m ino rest)
  | .reading m ino rest =>
    if digest_of host pack m.name (c.tree.body ino) = recorded host m then .onTo (.testing rest) else .failed

/-- Where a check leads: on inside it, or out of it with its verdict. -/
def verify_to (c : Cache ι) (v : Verify) (passed failed : Place) (onTo : Verify → Place) : Place :=
  match verify_step host pack c v with
  | .passed => passed
  | .failed => failed
  | .onTo v => onTo v

/-- `Get-PwshPyPayload` refuses a damaged payload before anything is written. -/
def payload_usable : Bool := pack.format = .sh || host.sha256 pack.payload = pack.payload_sha256

/-- `tar` replaces a file that is in the way, `ExtractToDirectory` fails on it. -/
def in_the_way (c : Cache ι) (m : Member) : Bool :=
  pack.format = .ps1 && (c.tree.entry m.name).isSome

/-- `pwshpy_extract` and the check after it. -/
def extract_step (c : Cache ι) : Extract → Option (Place × Cache ι)
  | .remove => if h : c.tree.links = [] then some (.extract .mkdir, c.rmdir h) else none
  | .mkdir => some (.extract .decode, c.mkdir)
  | .decode =>
    if h : c.present = true ∧ payload_usable host pack then
      some (.extract (.fill c.tree.fresh), c.create (archive_name pack.format) h.1)
    else some (.leaving, c)
  | .fill ino => if c.tree.body ino = pack.payload then some (.extract .check, c) else none
  | .check =>
    match pack.format, c.tree.file (archive_name pack.format) with
    | .ps1, _ => some (.extract .opening, c)
    | .sh, none => some (.leaving, c)
    | .sh, some b =>
      if host.sha256_of (host.path (archive_name .sh)) b = pack.payload_sha256 then
        some (.extract .opening, c)
      else some (.extract .reject, c)
  | .reject => some (.leaving, c.unlink (archive_name pack.format))
  | .opening =>
    match c.tree.file (archive_name pack.format) with
    | none => some (.leaving, c)
    | some b => some (.extract (.unpack [] (host.unarchived b)), c)
  | .unpack _ [] => some (.extract .drop, c)
  | .unpack done (m :: rest) =>
    if h : c.present = true ∧ in_the_way pack c m = false then
      some (.extract (.write done m c.tree.fresh rest), c.create m.name h.1)
    else some (.leaving, c)
  | .write done m ino rest =>
    if c.tree.body ino = m.body then some (.extract (.unpack (done ++ [m]) rest), c) else none
  | .drop => some (.recheck .entering, c.unlink (archive_name pack.format))

/-- Whether the lock can be taken: the `.ps1` opens a lock file that was left behind. -/
def lock_open (c : Cache ι) : Bool :=
  match c.lock, pack.format with
  | .free, _ => true
  | .stale, .ps1 => true
  | .stale, .sh => false
  | .held _, _ => false

/-- `rm -f "$_lock"` removes whosever lock it is, `$lock.Close()` gives up one's own. -/
def give_up (i : ι) (c : Cache ι) : Cache ι :=
  if pack.format = .sh ∨ c.lock = .held i then c.setLock .free else c

/-- Closing a handle is the system's doing when a process dies; a lock file stays. -/
def drop_handle (i : ι) (c : Cache ι) : Cache ι :=
  if pack.format = .ps1 ∧ c.lock = .held i then c.setLock .free else c

/-- Where a runner goes from the release of the lock. -/
def after_release (verified : Bool) : Place := if verified then .verified else .mismatch

/-- The next thing in the program of a runner. -/
def proceed (i : ι) (c : Cache ι) : Place → Option (Place × Cache ι)
  | .clean => some (if c.present then .cleaning else .warm .entering, c)
  | .cleaning => if h : c.tree.links = [] then some (.warm .entering, c.rmdir h) else none
  | .warm v => some (verify_to host pack c v .verified (.acquire 0) .warm, c)
  | .acquire attempt =>
    if 600 ≤ attempt then some (.ended, c)
    else if lock_open pack c then some (.taken, c.setLock (.held i))
    else if pack.format = .sh then some (.waiting attempt .entering, c)
    else some (.sleeping attempt, c)
  | .taken => some (.held .entering, c)
  | .held v => some (verify_to host pack c v (.release true) (.extract .remove) .held, c)
  | .extract e => extract_step host pack c e
  | .recheck v => some (verify_to host pack c v (.release true) (.release false) .recheck, c)
  | .release verified =>
    match pack.format with
    | .sh => some (.released verified, c.setLock .free)
    | .ps1 => some (after_release verified, give_up pack i c)
  | .released verified => some (after_release verified, c)
  | .waiting attempt v => some (verify_to host pack c v .verified (.sleeping attempt) (.waiting attempt), c)
  | .sleeping attempt => some (.acquire (attempt + 1), c)
  | .verified => some (.running, c)
  | .leaving => some (.ended, give_up pack i c)
  | .running => none
  | .mismatch => none
  | .ended => none

/-- Where an error or a signal leads out through the EXIT trap or the `finally` block. -/
def trapped : Place → Bool
  | .held _ => true
  | .extract _ => true
  | .recheck _ => true
  | .release _ => true
  | .released _ => true
  | _ => false

/-- Files going one by one in a removal. -/
def removing : Place → Bool
  | .cleaning => true
  | .extract .remove => true
  | _ => false

/-- The file a longer write goes to, and what it is to hold in the end. -/
def writing : Place → Option (Nat × Bytes)
  | .extract (.fill ino) => some (ino, pack.payload)
  | .extract (.write _ m ino _) => some (ino, m.body)
  | _ => none

/-- The next bytes of `whole` behind the ones a file holds. -/
def more (whole : Bytes) (c : Cache ι) (ino n : Nat) : Bytes :=
  (whole.drop (c.tree.body ino).length).take n

def next (i : ι) (place : Place) (c : Cache ι) : Choice → Option (Place × Cache ι)
  | .go => proceed host pack i c place
  | .unlink name =>
    if removing place && (c.tree.entry name).isSome then some (place, c.unlink name) else none
  | .bytes n =>
    match writing pack place with
    | some (ino, whole) => some (place, c.append ino (more whole c ino n))
    | none => none
  | .leave => if trapped place then some (.leaving, c) else none
  | .die => some (.ended, drop_handle pack i c)

abbrev Config (ι : Type) := Effects.Interleaving.Config ι Place (Cache ι)

/-- A runner starts at its clean switch when it was given one, at the check otherwise. -/
def start (clean : Bool) : Place := if clean then .clean else .warm .entering

/-! ## What is said of a configuration -/

/-- A packed file is there with its recorded hash. -/
def Good (tree : Directory PyStr UInt8) (m : Member) : Prop :=
  (tree.file m.name).map host.sha256 = some (recorded host m)

instance (tree : Directory PyStr UInt8) (m : Member) : Decidable (Good host tree m) :=
  inferInstanceAs (Decidable (_ = _))

/-- Every packed file is there with its recorded hash. -/
def Complete (tree : Directory PyStr UInt8) : Prop := ∀ m ∈ pack.members, Good host tree m

instance (tree : Directory PyStr UInt8) : Decidable (Complete host pack tree) :=
  inferInstanceAs (Decidable (∀ m ∈ pack.members, _))

def extracting : Place → Bool
  | .extract _ => true
  | _ => false

/-- What the packer wrote fits together, and no file on its way has the hash of its whole. -/
structure Packed : Prop where
  ne_nil : pack.members ≠ []
  names_nodup : (pack.members.map Member.name).Nodup
  unarchived : ∀ b, host.sha256 b = pack.payload_sha256 → host.unarchived b = pack.members
  whole : ∀ m ∈ pack.members, ∀ b, b <+: m.body → host.sha256 b = recorded host m → b = m.body

/-- The runner can carry the packed names: none is the name its archive gets, and the check finds
each under the name it was unpacked to and reads its bare hash. -/
structure Carried : Prop where
  archive : ∀ m ∈ pack.members, m.name ≠ archive_name pack.format
  plain : pack.format = .sh → host.escapes = true →
    ∀ m ∈ pack.members, (host.path m.name).any isEscaped = false
  found : pack.format = .ps1 → ∀ m ∈ pack.members, host.naming (host.checked_path m.name) = m.name

end PwshPy.Unpack
