import PwshPy.Bytes.Endian
import PwshPy.Text.PyStr

/-! # POSIX access ACLs

An access ACL is read from the kernel's extended attribute, or from the mode
bits where there is none, edited as a list of entries, and written back with its
mask derived anew.
-/

namespace PwshPy.Acl

open Bytes

/-! ## Entries -/

/-- The `e_tag` of one entry; a value outside the six the kernel defines is kept as it is. -/
inductive AclTag where
  | USER_OBJ
  | USER
  | GROUP_OBJ
  | GROUP
  | MASK
  | OTHER
  | unknown (value : Nat)
  deriving DecidableEq

namespace AclTag

def value : AclTag → Nat
  | USER_OBJ => 0x01
  | USER => 0x02
  | GROUP_OBJ => 0x04
  | GROUP => 0x08
  | MASK => 0x10
  | OTHER => 0x20
  | unknown value => value

/-- `_AclTag(value)` -/
def ofValue (value : Nat) : AclTag :=
  if value = 0x01 then USER_OBJ
  else if value = 0x02 then USER
  else if value = 0x04 then GROUP_OBJ
  else if value = 0x08 then GROUP
  else if value = 0x10 then MASK
  else if value = 0x20 then OTHER
  else unknown value

/-- `_ORDER` -/
def order : AclTag → Option Nat
  | USER_OBJ => some 0
  | USER => some 1
  | GROUP_OBJ => some 2
  | GROUP => some 3
  | MASK => some 4
  | OTHER => some 5
  | unknown _ => none

end AclTag

def UNDEFINED_ID : Nat := 0xffffffff

/-- `_XattrAclEntry` -/
structure Entry where
  tag : AclTag
  perm : Nat
  entry_id : Nat
  deriving DecidableEq

/-- Whether the entry is the one of this tag and id. -/
def Entry.is (e : Entry) (tag : AclTag) (ident : Nat) : Bool := e.tag = tag && e.entry_id = ident

/-- A named user's or a named group's. -/
def Entry.named (e : Entry) : Bool := e.tag = .USER || e.tag = .GROUP

/-- What the mask bounds: the named entries and the owning group's. -/
def Entry.group_class (e : Entry) : Bool := e.named || e.tag = .GROUP_OBJ

/-- `_base_entries` -/
def base_entries (mode : Nat) : List Entry :=
  [{ tag := .USER_OBJ, perm := (mode >>> 6) &&& 7, entry_id := UNDEFINED_ID },
   { tag := .GROUP_OBJ, perm := (mode >>> 3) &&& 7, entry_id := UNDEFINED_ID },
   { tag := .OTHER, perm := mode &&& 7, entry_id := UNDEFINED_ID }]

/-! ## The attribute's bytes -/

inductive AclError (ε : Type) where
  /-- a failed system call, re-raised as a native error behind this text -/
  | native (text : PyStr) (exc : ε)
  /-- a body that is no whole number of entries -/
  | struct_error
  /-- a tag that has no place in the order -/
  | key_error (tag : AclTag)
  /-- `POSIX ACLs are allow-only; there is no deny entry (grant fewer permissions instead).` -/
  | allow_only

variable {ε σ : Type}

/-- `_ENTRY.pack`: two bytes of tag, two of permissions, four of id. -/
def pack (e : Entry) : List UInt8 :=
  le 2 e.tag.value ++ le 2 e.perm ++ le 4 (e.entry_id &&& 0xffffffff)

/-- `_HEADER.pack(_ACL_VERSION)` -/
def header : List UInt8 := le 4 2

/-- The loop of `_read_raw`, behind the header. -/
def unpack_entries : List UInt8 → Except (AclError ε) (List Entry)
  | [] => .ok []
  | t0 :: t1 :: p0 :: p1 :: i0 :: i1 :: i2 :: i3 :: rest =>
      match unpack_entries rest with
      | .ok entries =>
          .ok ({ tag := .ofValue (ofLe [t0, t1]), perm := ofLe [p0, p1],
                 entry_id := ofLe [i0, i1, i2, i3] } :: entries)
      | .error e => .error e
  | _ => .error .struct_error

def unpack (blob : List UInt8) : Except (AclError ε) (List Entry) :=
  unpack_entries (blob.drop header.length)

/-- The first tag that the order does not know, as sorting meets it. -/
def unordered (entries : List Entry) : Option AclTag :=
  (entries.map Entry.tag).find? fun tag => tag.order.isNone

/-- `(_ORDER[e.tag], e.entry_id)`, compared. -/
def entryLe (a b : Entry) : Bool :=
  let i := a.tag.order.getD 0
  let j := b.tag.order.getD 0
  i < j || (i = j && a.entry_id ≤ b.entry_id)

/-- What `_write_acl` hands to the kernel. -/
def serialize (entries : List Entry) : Except (AclError ε) (List Entry × List UInt8) :=
  match unordered entries with
  | some tag => .error (.key_error tag)
  | none =>
      let ordered := entries.mergeSort entryLe
      .ok (ordered, header ++ ordered.flatMap pack)

/-! ## The kernel -/

/-- The system calls on one path: what they answer and what they leave, or how they fail. -/
structure Kernel (ε σ : Type) where
  getxattr : σ → Except ε (List UInt8)
  stat : σ → Except ε Nat
  setxattr : σ → List UInt8 → Except ε σ
  /-- the failures that mean that there is no extended ACL, `_NO_EXTENDED_ACL` -/
  no_extended_acl : ε → Bool

variable (kernel : Kernel ε σ)

/-- `_read_raw` -/
def read_raw (s : σ) : Except (AclError ε) (Option (List Entry)) :=
  match kernel.getxattr s with
  | .error e =>
      if kernel.no_extended_acl e then .ok none else .error (.native (py "cannot read the ACL of ") e)
  | .ok blob =>
      match unpack blob with
      | .ok entries => .ok (some entries)
      | .error e => .error e

/-- `_current_acl` -/
def current_acl (s : σ) : Except (AclError ε) (List Entry) :=
  match read_raw kernel s with
  | .error e => .error e
  | .ok (some entries) => .ok entries
  | .ok none =>
      match kernel.stat s with
      | .ok mode => .ok (base_entries mode)
      | .error e => .error (.native (py "cannot stat ") e)

/-! ## Edits -/

/-- `_with_recomputed_mask` -/
def with_recomputed_mask (entries : List Entry) : List Entry :=
  let without_mask := entries.filter fun e => e.tag ≠ .MASK
  if (without_mask.filter Entry.named).isEmpty then without_mask
  else
    let group_class := without_mask.filter Entry.group_class
    let mask_perm := group_class.foldl (fun perm e => perm ||| e.perm) 0
    without_mask ++ [{ tag := .MASK, perm := mask_perm, entry_id := UNDEFINED_ID }]

/-- A named user or a named group. -/
inductive Named where
  | USER
  | GROUP
  deriving DecidableEq

def Named.tag : Named → AclTag
  | USER => .USER
  | GROUP => .GROUP

/-- A call of the controller, its trustee resolved to a tag and an id; `deny` where its
`access_type` is `DENY`. -/
inductive Call where
  | add_ace (kind : Named) (ident : Nat) (rights : Int) (deny : Bool)
  | remove_ace (kind : Named) (ident : Nat) (deny : Bool)

namespace Call

def tag : Call → AclTag
  | add_ace kind _ _ _ => kind.tag
  | remove_ace kind _ _ => kind.tag

def ident : Call → Nat
  | add_ace _ ident _ _ => ident
  | remove_ace _ ident _ => ident

def deny : Call → Bool
  | add_ace _ _ _ deny => deny
  | remove_ace _ _ deny => deny

/-- `rights & 7` -/
def low_bits (rights : Int) : Nat := (rights % 8).toNat

/-- The entry the call asks for. -/
def requested : Call → List Entry
  | add_ace kind ident rights _ => [{ tag := kind.tag, perm := low_bits rights, entry_id := ident }]
  | remove_ace _ _ _ => []

/-- The entries the call writes, before they are ordered. -/
def edit (call : Call) (entries : List Entry) : List Entry :=
  let entries := entries.filter fun e => !e.is call.tag call.ident
  with_recomputed_mask (entries ++ call.requested)

end Call

/-- What a call read, what it wrote, and the path afterwards. -/
structure Written (σ : Type) where
  old : List Entry
  new : List Entry
  blob : List UInt8
  state : σ

/-- The two methods where `access_type` is not `DENY`. -/
def write_edit (s : σ) (call : Call) : Except (AclError ε) (Written σ) :=
  match current_acl kernel s with
  | .error e => .error e
  | .ok old =>
      match serialize (call.edit old) with
      | .error e => .error e
      | .ok (new, blob) =>
          match kernel.setxattr s blob with
          | .ok state => .ok { old, new, blob, state }
          | .error e => .error (.native (py "cannot set ACL on ") e)

/-- `add_ace` and `remove_ace`: nothing, where the call returned without writing. -/
def perform (s : σ) (call : Call) : Except (AclError ε) (Option (Written σ)) :=
  if call.deny then
    match call with
    | .add_ace _ _ _ _ => .error .allow_only
    | .remove_ace _ _ _ => .ok none
  else (write_edit kernel s call).map some

/-- A call of a run: the path before it, and what came of it. -/
structure Performed (ε σ : Type) where
  before : σ
  call : Call
  outcome : Except (AclError ε) (Option (Written σ))

/-- Calls one after the other; one that did not write leaves the path. -/
def perform_all (s : σ) : List Call → List (Performed ε σ)
  | [] => []
  | call :: calls =>
      let outcome := perform kernel s call
      let next :=
        match outcome with
        | .ok (some written) => written.state
        | _ => s
      { before := s, call, outcome } :: perform_all next calls

end PwshPy.Acl
