import PwshPy.Acl.Edits
import PwshPy.Text.Digits

/-! # Trustees by number

A trustee is a name or a number; a number is tested as digits, read as an integer
of any size, looked up among the entries as it is, and cut to 32 bits where the
entry is written.
-/

namespace PwshPy.Acl

open Bytes

/-! ## The controller -/

/-- `pwd` and `grp`. -/
structure Accounts where
  uid : PyStr → Option Nat
  gid : PyStr → Option Nat

inductive TrusteeError (ε : Type) where
  | acl (e : AclError ε)
  /-- `int` refuses the text -/
  | value_error
  /-- `no such user` or `no such group`, with the name -/
  | no_such (what name : PyStr)

/-- A `NativeCallError` or one of its subclasses. -/
def TrusteeError.isNativeCallError {ε : Type} : TrusteeError ε → Bool
  | acl (.native _ _) | acl .allow_only | no_such _ _ => true
  | acl .struct_error | acl (.key_error _) | value_error => false

variable {ε σ : Type} (python : Interpreter) (accounts : Accounts)

/-- The common body of `_resolve_uid` and `_resolve_gid`. -/
def resolve (lookup : PyStr → Option Nat) (what text : PyStr) : Except (TrusteeError ε) Nat :=
  if python.isdigit text then
    match python.int text with
    | some ident => .ok ident
    | none => .error .value_error
  else
    match lookup text with
    | some ident => .ok ident
    | none => .error (.no_such what text)

def resolve_uid (owner : PyStr) : Except (TrusteeError ε) Nat :=
  resolve python accounts.uid (py "no such user ") owner

def resolve_gid (group : PyStr) : Except (TrusteeError ε) Nat :=
  resolve python accounts.gid (py "no such group ") group

/-- The kind a trustee names, and its id part. -/
def id_part (trustee : PyStr) : Named × PyStr :=
  if (py "group:").isPrefixOf trustee then (.GROUP, trustee.drop (py "group:").length)
  else if (py "user:").isPrefixOf trustee then (.USER, trustee.drop (py "user:").length)
  else (.USER, trustee)

def parse_trustee (trustee : PyStr) : Except (TrusteeError ε) (Named × Nat) :=
  match id_part trustee with
  | (.GROUP, group) => (Named.GROUP, ·) <$> resolve_gid python accounts group
  | (.USER, name) => (Named.USER, ·) <$> resolve_uid python accounts name

variable (kernel : Kernel ε σ)

/-- `add_ace`; `deny` where its `access_type` is `DENY`. -/
def add_ace (s : σ) (trustee : PyStr) (rights : Int) (deny : Bool) :
    Except (TrusteeError ε) (Written σ) :=
  if deny then .error (.acl .allow_only)
  else
    match parse_trustee python accounts trustee with
    | .error e => .error e
    | .ok (kind, ident) => (write_edit kernel s (.add_ace kind ident rights deny)).mapError .acl

/-- `remove_ace`: nothing where it returns without writing. -/
def remove_ace (s : σ) (trustee : PyStr) (deny : Bool) :
    Except (TrusteeError ε) (Option (Written σ)) :=
  if deny then .ok none
  else
    match parse_trustee python accounts trustee with
    | .error e => .error e
    | .ok (kind, ident) =>
        (some <$> write_edit kernel s (.remove_ace kind ident deny)).mapError .acl

/-! ## Numeric trustees -/

/-- A number names its kind's account of that id. -/
theorem parse_trustee_of_isdigit {trustee : PyStr}
    (h : python.isdigit (id_part trustee).2 = true) :
    (parse_trustee python accounts trustee : Except (TrusteeError ε) _) =
      match python.int (id_part trustee).2 with
      | some ident => .ok ((id_part trustee).1, ident)
      | none => .error .value_error := by
  rw [parse_trustee]
  rcases hpart : id_part trustee with ⟨kind, text⟩
  rw [hpart] at h
  have hresolve (lookup : PyStr → Option Nat) (what : PyStr) :
      (resolve python lookup what text : Except (TrusteeError ε) Nat) =
        match python.int text with
        | some ident => .ok ident
        | none => .error .value_error := if_pos h
  cases kind with
  | USER =>
      simp only [resolve_uid, hresolve]
      cases python.int text <;> rfl
  | GROUP =>
      simp only [resolve_gid, hresolve]
      cases python.int text <;> rfl

/-! ## What is read and written -/

/-- Entries that the attribute can hold. -/
structure InRange (entries : List Entry) : Prop where
  known : ∀ e ∈ entries, e.tag.order.isSome
  perms : ∀ e ∈ entries, e.perm < 256 ^ 2
  ids : ∀ e ∈ entries, e.entry_id < 2 ^ 32

theorem unpack_entries_inRange {blob : List UInt8} {entries : List Entry}
    (h : unpack_entries blob = (.ok entries : Except (AclError ε) _)) :
    ∀ e ∈ entries, e.perm < 256 ^ 2 ∧ e.entry_id < 2 ^ 32 := by
  fun_induction unpack_entries blob generalizing entries with
  | case1 =>
      cases h
      exact nofun
  | case2 t0 t1 p0 p1 i0 i1 i2 i3 rest tail hrest ih =>
      cases h
      have hperm : ofLe [p0, p1] < 256 ^ 2 := ofLe_lt [p0, p1]
      have hid : ofLe [i0, i1, i2, i3] < 256 ^ 4 := ofLe_lt [i0, i1, i2, i3]
      exact List.forall_mem_cons.mpr ⟨⟨hperm, hid.trans_eq (by norm_num)⟩, ih hrest⟩
  | case3 => cases h
  | case4 => cases h

/-- What the kernel promises: an ACL it holds has the tags it defines, and it takes no named entry
of the undefined id. -/
structure Linux (kernel : Kernel ε σ) (s : σ) : Prop where
  reads : ∀ blob, kernel.getxattr s = .ok blob →
    ∃ entries, unpack blob = (.ok entries : Except (AclError ε) _) ∧
      ∀ e ∈ entries, e.tag.order.isSome
  refuses : ∀ blob entries, unpack blob = (.ok entries : Except (AclError ε) _) →
    (∃ e ∈ entries, e.named = true ∧ e.entry_id = UNDEFINED_ID) →
      ∀ state, kernel.setxattr s blob ≠ .ok state

variable {kernel : Kernel ε σ} {s : σ}

theorem Linux.read (h : Linux kernel s) :
    (∃ old, current_acl kernel s = .ok old ∧ InRange old) ∨
      ∃ text e, current_acl kernel s = .error (.native text e) := by
  unfold current_acl read_raw
  cases hget : kernel.getxattr s with
  | ok blob =>
      obtain ⟨entries, hunpack, hknown⟩ := h.reads blob hget
      have hrange := unpack_entries_inRange hunpack
      simp only [hunpack]
      exact Or.inl ⟨entries, rfl, hknown, fun e he => (hrange e he).1, fun e he => (hrange e he).2⟩
  | error e =>
      by_cases hnone : kernel.no_extended_acl e = true
      · simp only [if_pos hnone]
        cases kernel.stat s with
        | ok mode =>
            have hbase := base_entries_wellFormed mode
            exact Or.inl ⟨_, rfl, hbase.known, fun e he => (hbase.perms e he).trans (by decide),
              hbase.id_lt⟩
        | error e => exact Or.inr ⟨_, e, rfl⟩
      · simp only [if_neg hnone]
        exact Or.inr ⟨_, e, rfl⟩

section Edit

variable {call : Call} {old : List Entry}

theorem mem_of_mem_edit {e : Entry} (h : e ∈ call.edit old) :
    e ∈ old ∨ e ∈ call.requested ∨ e = new_mask (replaced call old) := by
  rw [edit_eq] at h
  cases mem_of_mem_recomputed h with
  | inl hreplaced =>
      rw [replaced, List.mem_append, List.mem_filter] at hreplaced
      exact hreplaced.elim (fun hold => Or.inl hold.1) fun hnew => Or.inr (Or.inl hnew)
  | inr hmask => exact Or.inr (Or.inr hmask)

theorem requested_known : ∀ e ∈ call.requested, e.tag.order.isSome := by
  intro e he
  rw [(is_iff.mp (requested_spec he).1).1]
  cases call_tag_named call with
  | inl hcall => rw [hcall]; rfl
  | inr hcall => rw [hcall]; rfl

theorem edit_known (h : InRange old) : ∀ e ∈ call.edit old, e.tag.order.isSome := by
  intro e he
  rcases mem_of_mem_edit he with hold | hnew | hmask
  · exact h.known e hold
  · exact requested_known e hnew
  · rw [hmask]
    rfl

theorem edit_perms (h : InRange old) : ∀ e ∈ call.edit old, e.perm < 256 ^ 2 := by
  intro e he
  rcases mem_of_mem_edit he with hold | hnew | hmask
  · exact h.perms e hold
  · exact (requested_spec hnew).2.trans (by decide)
  · rw [hmask]
    apply new_mask_perm_lt (k := 16)
    intro e he
    rw [replaced, List.mem_append, List.mem_filter] at he
    cases he with
    | inl hold => exact h.perms e hold.1
    | inr hnew => exact (requested_spec hnew).2.trans (by decide)

/-- Only the entry asked for may have an id that the attribute cannot hold. -/
theorem edit_ids (h : InRange old) :
    ∀ e ∈ call.edit old, e.entry_id < 2 ^ 32 ∨ e ∈ call.requested := by
  intro e he
  rcases mem_of_mem_edit he with hold | hnew | hmask
  · exact Or.inl (h.ids e hold)
  · exact Or.inr hnew
  · have hundefined : UNDEFINED_ID < 2 ^ 32 := by decide
    rw [hmask]
    exact Or.inl hundefined

/-- The entries but the mask and those of one kind and id. -/
def isOther (tag : AclTag) (ident : Nat) (e : Entry) : Bool := e.tag ≠ .MASK && !e.is tag ident

theorem edit_filter_other :
    (((call.edit old).mergeSort entryLe).filter (isOther call.tag call.ident)).Perm
      (old.filter (isOther call.tag call.ident)) := by
  have hnew : call.requested.filter (isOther call.tag call.ident) = [] := by
    rw [List.filter_eq_nil_iff]
    intro e he
    simp [isOther, (requested_spec he).1]
  have hold : (old.filter fun e => !e.is call.tag call.ident).filter
      (isOther call.tag call.ident) = old.filter (isOther call.tag call.ident) := by
    rw [List.filter_filter]
    congr 1
    funext e
    cases h : e.is call.tag call.ident <;> simp [isOther, h]
  have hunsorted : (call.edit old).filter (isOther call.tag call.ident) =
      old.filter (isOther call.tag call.ident) := by
    rw [edit_eq, filter_recomputed, replaced, List.filter_append, hnew, hold, List.append_nil]
    intro e he hmask
    simp [isOther, hmask] at he
  rw [← hunsorted]
  exact (List.mergeSort_perm _ _).filter _

end Edit

/-- A call fails in a system call, or stores the edited entries, their ids cut. -/
theorem Linux.write (h : Linux kernel s) (call : Call) :
    (∃ w, write_edit kernel s call = .ok w ∧ current_acl kernel s = .ok w.old ∧ InRange w.old ∧
      kernel.setxattr s w.blob = .ok w.state ∧
      ∀ ε', unpack w.blob = (.ok (((call.edit w.old).mergeSort entryLe).map Entry.cut) :
        Except (AclError ε') _)) ∨
      ∃ text e, write_edit kernel s call = .error (.native text e) := by
  unfold write_edit
  cases h.read with
  | inr hfailed =>
      obtain ⟨text, e, hfailed⟩ := hfailed
      rw [hfailed]
      exact Or.inr ⟨text, e, rfl⟩
  | inl hread =>
      obtain ⟨old, hread, hold⟩ := hread
      have hmem : ∀ e ∈ (call.edit old).mergeSort entryLe, e ∈ call.edit old :=
        fun e he => List.mem_mergeSort.mp he
      rw [hread]
      simp only [serialize_ok (edit_known hold)]
      cases hset : kernel.setxattr s
          (header ++ ((call.edit old).mergeSort entryLe).flatMap pack) with
      | error e => exact Or.inr ⟨_, e, rfl⟩
      | ok state =>
          refine Or.inl ⟨_, rfl, rfl, hold, hset, ?_⟩
          intro ε'
          rw [unpack, List.drop_left]
          exact unpack_entries_cut (fun e he => edit_known hold e (hmem e he))
            fun e he => edit_perms hold e (hmem e he)

/-! ## A number names its account -/

/-- A call stored an ACL that holds just `new` of one kind and id, every other entry but the mask as
it was. -/
structure Writes (kernel : Kernel ε σ) (s : σ) (kind : Named) (ident : Nat) (new : List Entry)
    (w : Written σ) : Prop where
  read : current_acl kernel s = .ok w.old
  stored : kernel.setxattr s w.blob = .ok w.state
  entries : ∃ decoded, unpack w.blob = (.ok decoded : Except (AclError ε) _) ∧
    decoded.filter (·.is kind.tag ident) = new ∧
    (decoded.filter (isOther kind.tag ident)).Perm (w.old.filter (isOther kind.tag ident))

/-- The entry of the number spelled. -/
def Spells (trustee : PyStr) (kind : Named) (ident : Nat) : Prop :=
  (id_part trustee).1 = kind ∧ python.number (id_part trustee).2 = some ident

/-- What `add_ace` owes a numeric trustee. -/
def AddsAccount (kernel : Kernel ε σ) (s : σ) (trustee : PyStr) (rights : Int) (deny : Bool) : Prop :=
  match add_ace python accounts kernel s trustee rights deny with
  | .error e => e.isNativeCallError = true
  | .ok w => ∃ kind ident, Spells python trustee kind ident ∧ Writes kernel s kind ident
      [{ tag := kind.tag, perm := Call.low_bits rights, entry_id := ident }] w

/-- What `remove_ace` owes a numeric trustee; of a deny entry there is nothing to remove. -/
def RemovesAccount (kernel : Kernel ε σ) (s : σ) (trustee : PyStr) (deny : Bool) : Prop :=
  match remove_ace python accounts kernel s trustee deny with
  | .error _ => True
  | .ok none => deny = true
  | .ok (some w) => ∃ kind ident, Spells python trustee kind ident ∧ Writes kernel s kind ident [] w

/-- What an edit stored is what was asked for, unless its id was cut. -/
theorem Linux.writes (h : Linux kernel s) {kind : Named} {ident : Nat} {new : List Entry}
    {call : Call} (htag : call.tag = kind.tag) (hident : call.ident = ident)
    (hnew : call.requested = new) (hids : ∀ e ∈ call.requested, e.entry_id < 2 ^ 32) :
    (∃ w, write_edit kernel s call = .ok w ∧ Writes kernel s kind ident new w) ∨
      ∃ text e, write_edit kernel s call = .error (.native text e) := by
  cases h.write call with
  | inr hfailed => exact Or.inr hfailed
  | inl hwrote =>
      obtain ⟨w, hwritten, hread, hold, hstored, hunpack⟩ := hwrote
      have hcut : ((call.edit w.old).mergeSort entryLe).map Entry.cut =
          (call.edit w.old).mergeSort entryLe := by
        refine (List.map_congr_left fun e he => Entry.cut_of_lt ?_).trans (List.map_id _)
        exact (edit_ids hold e (List.mem_mergeSort.mp he)).elim id (hids e)
      have hfilter := edit_requested call w.old
      have hothers := @edit_filter_other call w.old
      rw [htag, hident] at hfilter hothers
      exact Or.inl ⟨w, hwritten, hread, hstored, _, (hunpack ε).trans (by rw [hcut]),
        hfilter.trans hnew, hothers⟩

/-- The condition on a number: it is read, and it is an id, or one the kernel refuses when it is
cut. -/
def NamesAccount (text : PyStr) : Prop :=
  python.fits text ∧ ∃ ident, python.number text = some ident ∧
    (ident < 2 ^ 32 ∨ ident % 2 ^ 32 = UNDEFINED_ID)

variable {python accounts}

theorem removesAccount (h : Linux kernel s) {trustee : PyStr}
    (hdigits : python.isdigit (id_part trustee).2 = true) (deny : Bool) :
    RemovesAccount python accounts kernel s trustee deny := by
  rw [RemovesAccount, remove_ace]
  cases deny with
  | true => rfl
  | false =>
      rw [parse_trustee_of_isdigit python accounts hdigits]
      cases hint : python.int (id_part trustee).2 with
      | none => trivial
      | some ident =>
          have hwrites := @Linux.writes ε σ kernel s h (id_part trustee).1 ident []
            (.remove_ace (id_part trustee).1 ident false) rfl rfl rfl nofun
          cases hwrites with
          | inl hwrote =>
              obtain ⟨w, hwritten, hwrote⟩ := hwrote
              simp only [hwritten]
              exact ⟨_, ident, ⟨rfl, (Interpreter.int_eq_some.mp hint).2⟩, hwrote⟩
          | inr hfailed =>
              obtain ⟨text, e, hfailed⟩ := hfailed
              simp only [hfailed]
              trivial

/-- The entry asked for is among those stored, its id cut. -/
theorem requested_mem_stored {call : Call} {old : List Entry} {e : Entry}
    (h : e ∈ call.requested) :
    e.cut ∈ ((call.edit old).mergeSort entryLe).map Entry.cut := by
  rw [← edit_requested call old] at h
  exact List.mem_map_of_mem (List.mem_filter.mp h).1

theorem kind_named (kind : Named) (perm ident : Nat) :
    ({ tag := kind.tag, perm, entry_id := ident } : Entry).named = true := by
  cases kind <;> rfl

theorem addsAccount (h : Linux kernel s) {trustee : PyStr}
    (hdigits : python.isdigit (id_part trustee).2 = true)
    (hnames : NamesAccount python (id_part trustee).2) (rights : Int) (deny : Bool) :
    AddsAccount python accounts kernel s trustee rights deny := by
  obtain ⟨hfits, ident, hnumber, hident⟩ := hnames
  rw [AddsAccount, add_ace]
  cases deny with
  | true => rfl
  | false =>
      rw [parse_trustee_of_isdigit python accounts hdigits,
        Interpreter.int_eq_some.mpr ⟨hfits, hnumber⟩]
      let kind := (id_part trustee).1
      let call := Call.add_ace kind ident rights false
      have hdone : (∃ w, write_edit kernel s call = .ok w ∧
          Writes kernel s kind ident call.requested w) ∨
            ∃ text e, write_edit kernel s call = .error (.native text e) := by
        cases hident with
        | inl hlt =>
            apply h.writes rfl rfl rfl
            intro e he
            rw [List.mem_singleton.mp he]
            exact hlt
        | inr hundefined =>
            -- the cut id is the undefined one
            refine (h.write call).imp ?_ id
            intro hwrote
            obtain ⟨w, -, -, -, hstored, hunpack⟩ := hwrote
            have hmem : ({ tag := kind.tag, perm := Call.low_bits rights, entry_id := ident } :
                Entry) ∈ call.requested := List.mem_singleton_self _
            exact absurd hstored (h.refuses w.blob _ (hunpack ε)
              ⟨_, requested_mem_stored hmem, kind_named kind _ _, hundefined⟩ w.state)
      cases hdone with
      | inl hwrote =>
          obtain ⟨w, hwritten, hwrote⟩ := hwrote
          simp only [call, kind] at hwritten
          simp only [hwritten]
          exact ⟨_, ident, ⟨rfl, hnumber⟩, hwrote⟩
      | inr hfailed =>
          obtain ⟨text, e, hfailed⟩ := hfailed
          simp only [call, kind] at hfailed
          simp only [hfailed]
          rfl

/-- A path kept as its attribute's bytes, none of them at first, mode `0640`. -/
def attributeFile : Kernel Unit (Option (List UInt8)) where
  getxattr s := s.elim (.error ()) .ok
  stat _ := .ok 0o640
  setxattr _ blob :=
    match (unpack blob : Except (AclError Unit) _) with
    | .ok entries =>
        if entries.any fun e => e.named && e.entry_id = UNDEFINED_ID then .error ()
        else .ok (some blob)
    | .error _ => .error ()
  no_extended_acl _ := true

theorem linux_attributeFile : Linux attributeFile none where
  reads blob hblob := by cases hblob
  refuses := by
    intro blob entries hunpack hundefined state hset
    obtain ⟨e, he, hnamed, hid⟩ := hundefined
    have hany : (entries.any fun e => e.named && e.entry_id = UNDEFINED_ID) = true :=
      List.any_eq_true.mpr ⟨e, he, by simp [hnamed, hid]⟩
    simp only [attributeFile, hunpack, if_pos hany] at hset
    cases hset

/-- The file takes every entry whose id is not cut to the undefined one. -/
theorem write_attributeFile {call : Call}
    (h : ∀ e ∈ call.requested, e.entry_id % 2 ^ 32 ≠ UNDEFINED_ID) :
    ∃ w, write_edit attributeFile none call = .ok w := by
  have hread : current_acl attributeFile none = .ok (base_entries 0o640) := rfl
  have hbase := base_entries_wellFormed 0o640
  have hrange : InRange (base_entries 0o640) :=
    ⟨hbase.known, fun e he => (hbase.perms e he).trans (by decide), hbase.id_lt⟩
  have hmem : ∀ e ∈ (call.edit (base_entries 0o640)).mergeSort entryLe,
      e ∈ call.edit (base_entries 0o640) := fun e he => List.mem_mergeSort.mp he
  have hunpack : unpack (header ++
      ((call.edit (base_entries 0o640)).mergeSort entryLe).flatMap pack) =
        (.ok (((call.edit (base_entries 0o640)).mergeSort entryLe).map Entry.cut) :
          Except (AclError Unit) _) := by
    rw [unpack, List.drop_left]
    exact unpack_entries_cut (fun e he => edit_known hrange e (hmem e he))
      fun e he => edit_perms hrange e (hmem e he)
  have hnone : ¬ (((call.edit (base_entries 0o640)).mergeSort entryLe).map Entry.cut).any
      (fun e => e.named && e.entry_id = UNDEFINED_ID) = true := by
    intro hany
    obtain ⟨e', he', hboth⟩ := List.any_eq_true.mp hany
    obtain ⟨e, he, rfl⟩ := List.mem_map.mp he'
    simp only [Bool.and_eq_true, decide_eq_true_eq] at hboth
    rcases mem_of_mem_edit (hmem e he) with hold | hnew | hmask
    · have hplain : ∀ e ∈ base_entries 0o640, e.named = false := by decide
      have hnamed : e.named = true := hboth.1
      rw [hplain e hold] at hnamed
      cases hnamed
    · exact h e hnew hboth.2
    · have hnamed : e.named = true := hboth.1
      rw [hmask] at hnamed
      cases hnamed
  rw [write_edit, hread]
  simp only [serialize_ok (edit_known hrange), attributeFile, hunpack, if_neg hnone]
  exact ⟨_, rfl⟩

/-- An id that is cut to another account's is granted to that account. -/
theorem not_addsAccount_of_cut {trustee : PyStr}
    (hdigits : python.isdigit (id_part trustee).2 = true) {ident : Nat}
    (hint : python.int (id_part trustee).2 = some ident) (hlarge : 2 ^ 32 ≤ ident)
    (hcut : ident % 2 ^ 32 ≠ UNDEFINED_ID) :
    ¬ AddsAccount python accounts attributeFile none trustee 7 false := by
  intro hadds
  obtain ⟨w, hwritten⟩ := @write_attributeFile (.add_ace (id_part trustee).1 ident 7 false)
    (fun e he => by rw [List.mem_singleton.mp he]; exact hcut)
  rw [AddsAccount, add_ace, parse_trustee_of_isdigit python accounts hdigits, hint] at hadds
  simp only [hwritten] at hadds
  obtain ⟨kind, number, ⟨-, hnumber⟩, hwrites⟩ := hadds
  obtain rfl : ident = number :=
    Option.some.inj ((Interpreter.int_eq_some.mp hint).2.symm.trans hnumber)
  obtain ⟨decoded, hdecoded, hfilter, -⟩ := hwrites.entries
  have hentry : ({ tag := kind.tag, perm := Call.low_bits 7, entry_id := ident } : Entry) ∈
      decoded.filter (·.is kind.tag ident) := by
    rw [hfilter]
    exact List.mem_singleton_self _
  have hid := (unpack_entries_inRange hdecoded _ (List.mem_filter.mp hentry).1).2
  exact absurd hid (Nat.not_lt.mpr hlarge)

/-- Both calls do what they owe a numeric trustee, whatever the path, exactly when the number is read
and is an id. -/
theorem numeric_trustee_names_account_iff (python : Interpreter) (accounts : Accounts)
    (trustee : PyStr) (hdigits : python.isdigit (id_part trustee).2 = true) :
    (∀ (ε σ : Type) (kernel : Kernel ε σ) (s : σ), Linux kernel s → ∀ (rights : Int) (deny : Bool),
        AddsAccount python accounts kernel s trustee rights deny ∧
          RemovesAccount python accounts kernel s trustee deny) ↔
      NamesAccount python (id_part trustee).2 := by
  constructor
  · intro h
    have hadds := (h Unit _ attributeFile none linux_attributeFile 7 false).1
    cases hint : python.int (id_part trustee).2 with
    | none =>
        rw [AddsAccount, add_ace, parse_trustee_of_isdigit python accounts hdigits, hint] at hadds
        cases hadds
    | some ident =>
        obtain ⟨hfits, hnumber⟩ := Interpreter.int_eq_some.mp hint
        refine ⟨hfits, ident, hnumber, ?_⟩
        by_contra hcut
        rw [not_or, Nat.not_lt] at hcut
        exact not_addsAccount_of_cut hdigits hint hcut.1 hcut.2 hadds
  · intro hnames ε σ kernel s hlinux rights deny
    exact ⟨addsAccount hlinux hdigits hnames rights deny, removesAccount hlinux hdigits deny⟩

/-- No account has a name. -/
def nobody : Accounts where
  uid _ := none
  gid _ := none

theorem numeric_trustee_names_account_thousand :
    AddsAccount unicode14 nobody attributeFile none (py "user:1000") (-3) false ∧
      RemovesAccount unicode14 nobody attributeFile none (py "user:1000") false := by
  have hnames : NamesAccount unicode14 (id_part (py "user:1000")).2 :=
    ⟨by decide, 1000, by decide, Or.inl (by decide)⟩
  exact (numeric_trustee_names_account_iff unicode14 nobody (py "user:1000") (by decide)).mpr hnames
    Unit _ attributeFile none linux_attributeFile (-3) false

/-- The number `2 ^ 32` is cut to zero: the entry written is root's. -/
theorem large_number_names_another_account :
    unicode14.isdigit (id_part (py "4294967296")).2 = true ∧ Linux attributeFile none ∧
      ¬ AddsAccount unicode14 nobody attributeFile none (py "4294967296") 7 false :=
  ⟨by decide, linux_attributeFile,
    not_addsAccount_of_cut (by decide) (by decide) (Nat.le_refl _) (by decide)⟩

end PwshPy.Acl
